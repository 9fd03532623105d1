import SlopOS.Proofs.Descriptors
import SlopOS.Proofs.WriteBuffers
import SlopOS.Support.Turns
/-!
# No byte outside a write buffer

With the invariant of `WriteBuffers` every index into a write buffer lies below its capacity, in
all four calls.
-/

namespace SlopOS.Proofs.BufferBounds

open SlopOS.Support SlopOS.Support.Turns SlopOS.Kernel
open SlopOS.Proofs.FileOutcomes SlopOS.Proofs.FileCalls SlopOS.Proofs.FileSteps SlopOS.Proofs.FileMoves
open SlopOS.Proofs.FileWrites SlopOS.Proofs.UserPointers SlopOS.Proofs.SystemCalls
open SlopOS.Proofs.BufferAccess SlopOS.Proofs.WriteBuffers
open SlopOS.Proofs.ReachableStates

/-- The call comes to `o`, and every index it uses is below the capacity of its buffer. -/
structure IndicesInside (m : Traced BufAccess Outcome) (o : Outcome) : Prop where
  out : m.out = o
  inside : m.All BufAccess.Inside

/-- `while (capacity < needed)`, with its body. -/
def doubling (needed capacity : U32) : U32 ⊕ Option U32 :=
  if needed ≤ capacity then .inr (some capacity)
  else if 0x7FFFFFFF < capacity then .inr none
  else .inl (capacity * 2)

/-- Where the loop of `fd_ensure_write_capacity` starts. -/
def firstCapacity (e : FdEntry) : U32 := if e.writeCapacity = 0 then 256 else e.writeCapacity

/-- The loop ends for every request, and growing keeps the bytes that have been written. -/
structure GrowsSafely (mach : Machine) (heap : Heap) (e : FdEntry) (needed : U32) : Prop where
  ends : ∃ n, Ends (doubling needed) (firstCapacity e) n (growCapacity needed 33 (firstCapacity e))
  keeps : ∀ e' heap', fdEnsureWriteCapacity mach heap e needed = some (e', heap') →
    e'.writeSize = e.writeSize ∧ ∀ i < e.writeSize.toNat,
      (e'.writeBuf.getD fun _ => 0) i = (e.writeBuf.getD fun _ => 0) i

/-- What the four calls may do in state `k`, whatever their arguments. -/
structure CallsSafe (mach : Machine) (k : KState) : Prop where
  open_inside : ∀ path flags,
    IndicesInside (ksysOpenTraced mach k path flags) (ksysOpen mach k path flags)
  read_inside : ∀ fd buf len, IndicesInside (ksysReadTraced k fd buf len) (ksysRead k fd buf len)
  write_inside : ∀ fd buf len,
    IndicesInside (ksysWriteTraced mach k fd buf len) (ksysWrite mach k fd buf len)
  close_inside : ∀ fd, IndicesInside (ksysCloseTraced k fd) (ksysClose k fd)
  write_error : ∀ fd buf len r k', (ksysWrite mach k fd buf len).done = some (r, k') → r < 0 → k' = k

variable {mach : Machine} {b : Boot} {s : Sys} {k k' : KState} {heap : Heap}
variable {e : FdEntry} {slot : Fin fdMax} {pid fd r : Int} {caller : Caller}
variable {ptr buf len path flags size needed capacity : U32} {data : Option Bytes}
variable {image : ProcImage} {sl : Fin elfProcSlots}

/-! ## Growing -/

/-- A capacity that is not 0 is beyond `0x7FFFFFFF` after so many doublings. -/
theorem doubling_ends (fuel : Nat) (h : 2 ^ 32 ≤ capacity.toNat * 2 ^ fuel) :
    ∃ n, Ends (doubling needed) capacity n (growCapacity needed (fuel + 1) capacity) := by
  induction fuel generalizing capacity with
  | zero =>
      have hlt := capacity.isLt
      omega
  | succ fuel ih =>
      rw [growCapacity]
      by_cases hroom : needed ≤ capacity
      · rw [if_pos hroom]
        exact ⟨1, .done (if_pos hroom)⟩
      rw [if_neg hroom]
      by_cases hhuge : (0x7FFFFFFF : U32) < capacity
      · rw [if_pos hhuge]
        refine ⟨1, .done ?_⟩
        unfold doubling
        rw [if_neg hroom, if_pos hhuge]
      · have htwice : (capacity * 2).toNat = capacity.toNat * 2 := by
          have hle : capacity.toNat ≤ 0x7FFFFFFF := Nat.not_lt.mp hhuge
          rw [BitVec.toNat_mul]
          exact Nat.mod_eq_of_lt (by
            change capacity.toNat * 2 < 2 ^ 32
            omega)
        obtain ⟨n, hends⟩ := @ih (capacity * 2) (by
          rw [htwice, Nat.mul_assoc, ← Nat.pow_succ']
          exact h)
        rw [if_neg hhuge]
        refine ⟨n + 1, .again ?_ hends⟩
        unfold doubling
        rw [if_neg hroom, if_neg hhuge]

theorem growsSafely (mach : Machine) (heap : Heap) (e : FdEntry) (needed : U32) :
    GrowsSafely mach heap e needed where
  ends := by
    apply doubling_ends
    have hpos : 1 ≤ (firstCapacity e).toNat := by
      unfold firstCapacity
      split
      · decide
      · bv_omega
    exact Nat.le_mul_of_pos_left _ hpos
  keeps _ _ h := ⟨(fdEnsureWriteCapacity_grown h).writeSize, (fdEnsureWriteCapacity_grown h).bytes⟩

/-! ## The calls -/

theorem inside_fdReadBuf {bytes : Nat → U8}
    (hle : (k.files.fds slot).writeSize.toNat ≤ (k.files.fds slot).writeCapacity.toNat) :
    (fdReadBufTraced k slot bytes buf len).All BufAccess.Inside := by
  unfold fdReadBufTraced
  dsimp only
  split
  · exact Traced.all_pure _
  · exact (inside_lookLoop hle _ _).bind (Traced.all_pure _)

theorem FilesSafe.size_le (hk : FilesSafe k.files) (hused : (k.files.fds slot).used = true)
    {bytes : Nat → U8} (hbuf : (k.files.fds slot).writeBuf = some bytes) :
    (k.files.fds slot).writeSize.toNat ≤ (k.files.fds slot).writeCapacity.toNat := by
  cases hwritable : (k.files.fds slot).writable with
  | false =>
      have hnone := (hk.slots slot).plain hused hwritable
      rw [hbuf] at hnone
      cases hnone
  | true =>
      obtain ⟨-, bytes', -, hok⟩ := (hk.slots slot).buffered hused hwritable
      exact Nat.le_of_succ_le hok.room

theorem inside_ksysRead (hk : FilesSafe k.files) (fd : Int) (buf len : U32) :
    (ksysReadTraced k fd buf len).All BufAccess.Inside := by
  unfold ksysReadTraced
  split
  · exact Traced.all_pure _
  cases hslot : fdLookup k.files.fds fd k.pid with
  | none => exact Traced.all_pure _
  | some slot =>
      have hused := (fdLookup_spec hslot).1
      dsimp only
      split
      · exact Traced.all_pure _
      cases hbuf : (k.files.fds slot).writeBuf with
      | none => exact Traced.all_pure _
      | some bytes => exact inside_fdReadBuf (FilesSafe.size_le hk hused hbuf)

theorem inside_fdWrite (hk : FilesSafe k.files) (hused : (k.files.fds slot).used = true)
    (hlen : len.toNat ≤ 0x00320000) : (fdWriteTraced mach k slot buf len).All BufAccess.Inside := by
  unfold fdWriteTraced
  dsimp only
  split
  · exact Traced.all_pure _
  rename_i hwritable
  obtain ⟨hcapacity, bytes, hbuf, hok⟩ :=
    (hk.slots slot).buffered hused (not_not.mp hwritable)
  split
  · exact Traced.all_pure _
  rename_i hwrap
  apply (inside_fdEnsureWriteCapacity (Nat.le_of_succ_le hok.room)).bind
  rw [out_fdEnsureWriteCapacity]
  cases hgrow : fdEnsureWriteCapacity mach k.files.fs.heap (k.files.fds slot)
      ((k.files.fds slot).offset + len + 1) with
  | none => exact Traced.all_pure _
  | some grown =>
      obtain ⟨e', heap'⟩ := grown
      obtain ⟨hfits, -⟩ := writeRoom_of_ensured hk.heap hcapacity hok hlen hgrow
      rw [← (fdEnsureWriteCapacity_grown hgrow).offset] at hwrap
      have hsize := toNat_newSize e'.writeSize hwrap
      have hzero : (0 : U32).toNat = 0 := rfl
      dsimp only
      refine (inside_putLoop (by omega) fun _ _ => Traced.all_pure _).bind ?_
      refine (inside_putLoop (by omega) fun _ _ => Traced.all_pure _).bind ?_
      refine (Traced.all_event ?_).bind (Traced.all_pure _)
      change (if e'.writeSize < e'.offset + len then e'.offset + len else e'.writeSize).toNat <
        e'.writeCapacity.toNat
      omega

theorem inside_ksysWrite (hk : FilesSafe k.files) (hown : OwnerOk mach k.core pid image sl)
    (fd : Int) (buf len : U32) : (ksysWriteTraced mach k fd buf len).All BufAccess.Inside := by
  unfold ksysWriteTraced
  split
  · exact Traced.all_pure _
  split
  · exact Traced.all_pure _
  rename_i hvalid
  split
  · exact Traced.all_pure _
  cases hslot : fdLookup k.files.fds fd k.pid with
  | none => exact Traced.all_pure _
  | some slot =>
      exact inside_fdWrite hk (fdLookup_spec hslot).1 (len_le_of_valid hown (not_not.mp hvalid))

theorem inside_openForWrite (hcap : HeapCapped heap) (hsize : size + 1 ≠ 0) (he : Unbuffered e) :
    (openForWriteTraced mach heap e data size flags).All BufAccess.Inside := by
  have hzero : (0 : U32).toNat = 0 := rfl
  have hne : (if flags &&& oTrunc ≠ 0 then 0 else size) + 1 ≠ 0 := initialSize_ne flags hsize
  unfold openForWriteTraced
  dsimp only
  generalize (if flags &&& oTrunc ≠ 0 then 0 else size) = initialSize at hne
  have hle : e.writeSize.toNat ≤ e.writeCapacity.toNat := by
    rw [he.writeSize]
    exact Nat.zero_le _
  apply (inside_fdEnsureWriteCapacity hle).bind
  rw [out_fdEnsureWriteCapacity]
  cases hgrow : fdEnsureWriteCapacity mach heap e (initialSize + 1) with
  | none => exact Traced.all_pure _
  | some grown =>
      have hcapacity : e.writeCapacity.toNat ≤ 0x00300000 := by
        rw [he.writeCapacity]
        decide
      have hfit := (roomy_of_ensured hcap hcapacity hgrow).needed_le
      rw [toNat_succ_of_ne hne] at hfit
      dsimp only
      refine (inside_putLoop (by omega) fun _ _ => Traced.all_pure _).bind ?_
      refine (Traced.all_event ?_).bind (Traced.all_pure _)
      exact hfit

theorem inside_ksysOpen (hk : FilesSafe k.files) (path flags : U32) :
    (ksysOpenTraced mach k path flags).All BufAccess.Inside := by
  unfold ksysOpenTraced
  split
  · exact Traced.all_pure _
  rcases copyUserCstr k.core path 128 with ⟨_ | kpath, touched⟩
  · exact Traced.all_pure _
  dsimp only
  cases makeAbsPath k.files.fs.tree k.cwd kpath 128 with
  | none => exact Traced.all_pure _
  | some full =>
      have htouch : FsSteps k.files.fs (if flags &&& oCreat ≠ 0 then
          vfsTouch k.files.fs k.cwd full else (true, k.files.fs)).2 := touches_steps rfl
      dsimp only
      generalize (if flags &&& oCreat ≠ 0 then vfsTouch k.files.fs k.cwd full
        else (true, k.files.fs)) = touch at htouch
      have hk₁ : FilesSafe (k.setFs touch.2).files := hk.keeps (keepsFds_setFs htouch)
      split
      · exact Traced.all_pure _
      rcases hread : vfsReadFile mach (k.setFs touch.2).files.fs (k.setFs touch.2).cwd full with
        _ | ⟨_ | ⟨data, size⟩, fs⟩
      · exact Traced.all_pure _
      · exact Traced.all_pure _
      have hk₂ := hk₁.keeps (keepsFds_setFs (vfsReadFile_steps hread))
      dsimp only
      cases fdAllocSlot ((k.setFs touch.2).setFs fs).files.fds with
      | none => exact Traced.all_pure _
      | some slot =>
          refine Traced.All.bind ?_ (Traced.all_pure _)
          unfold fdOpenTraced
          dsimp only
          split
          · apply (inside_openForWrite hk₂.heap (vfsReadFile_size hk₁.sizes hread) ⟨rfl, rfl⟩).bind
            split <;> exact Traced.all_pure _
          · exact Traced.all_pure _

theorem inside_ksysClose (hk : FilesSafe k.files) (fd : Int) :
    (ksysCloseTraced k fd).All BufAccess.Inside := by
  unfold ksysCloseTraced
  cases hslot : fdLookup k.files.fds fd k.pid with
  | none => exact Traced.all_pure _
  | some slot =>
      have hused := (fdLookup_spec hslot).1
      have hdata : (bufferBytes (k.files.fds slot)).All BufAccess.Inside := by
        unfold bufferBytes
        cases hbuf : (k.files.fds slot).writeBuf with
        | none => exact Traced.all_pure _
        | some bytes => exact inside_lookLoop (FilesSafe.size_le hk hused hbuf) _ _
      dsimp only
      apply Traced.All.bind
      · unfold fdWriteBackTraced
        split
        · unfold vfsWriteFileTraced
          split
          · exact Traced.all_pure _
          split
          · exact Traced.all_pure _
          split
          · exact Traced.all_pure _
          split
          · exact Traced.all_pure _
          · exact hdata.bind (Traced.all_pure _)
        · exact Traced.all_pure _
      · split <;> exact Traced.all_pure _

theorem ksysWrite_error (hown : OwnerOk mach k.core pid image sl)
    (h : (ksysWrite mach k fd buf len).done = some (r, k')) (hr : r < 0) : k' = k := by
  unfold ksysWrite at h
  split at h
  · cases h
    rfl
  split at h
  · cases h
    rfl
  rename_i hvalid
  have hlen := len_le_of_valid hown (not_not.mp hvalid)
  split at h
  · cases h
    rfl
  split at h
  · cases h
    rfl
  unfold fdWrite at h
  dsimp only at h
  split at h
  · cases h
    rfl
  split at h
  · cases h
    rfl
  split at h
  · cases h
    rfl
  · have hresult : toInt len = len.toNat := BitVec.toInt_eq_toNat_of_lt (by omega)
    cases h
    omega

/-! ## Every reachable state -/

theorem callsSafe (hk : FilesSafe k.files) (hown : OwnerOk mach k.core pid image sl) :
    CallsSafe mach k where
  open_inside path flags := ⟨out_ksysOpen mach k path flags, inside_ksysOpen hk path flags⟩
  read_inside fd buf len := ⟨out_ksysRead k fd buf len, inside_ksysRead hk fd buf len⟩
  write_inside fd buf len := ⟨out_ksysWrite mach k fd buf len, inside_ksysWrite hk hown fd buf len⟩
  close_inside fd := ⟨out_ksysClose k fd, inside_ksysClose hk fd⟩
  write_error _ _ _ _ _ := ksysWrite_error hown

/-- In every reachable state the write buffers are sound; growing one ends and keeps its bytes; and
whatever calls the running process makes next, they stay inside the buffers. -/
theorem writeBuffers_sound (hs : Reachable b s) :
    (∀ slot buf, (s.kernel.files.fds slot).used = true →
      (s.kernel.files.fds slot).writable = true →
        (s.kernel.files.fds slot).writeBuf = some buf → BufferOk (s.kernel.files.fds slot) buf) ∧
    (∀ heap e needed, GrowsSafely b.mach heap e needed) ∧
    ∀ pid caller, s.ctl = .user pid caller → CallsSafe b.mach s.kernel := by
  have hk := filesSafe_reachable hs
  have hok := sysOk_of_reachable hs
  refine ⟨fun slot buf hused hwritable hbuf => ?_, growsSafely b.mach, fun pid caller hctl => ?_⟩
  · obtain ⟨-, buf', hbuf', hsound⟩ := (hk.slots slot).buffered hused hwritable
    rw [hbuf] at hbuf'
    obtain rfl := Option.some.inj hbuf'
    exact hsound
  · have hrun := hok.ctl
    rw [hctl] at hrun
    obtain ⟨image, sl, hown, -⟩ := ownerOk_of_running hok.base hrun.1
    exact callsSafe hk hown

def demoWriting : List Event :=
  [demoLaunch,
    .user { eax := sysOpen, ebx := 0x00300100, ecx := oRdwr ||| oTrunc, cs := 0x1B }
      Descriptors.demoFile, .syscall,
    .user { eax := sysWrite, ebx := 3, ecx := 0x00300100, edx := 4, cs := 0x1B }
      (fun _ => 0x41), .syscall]

theorem writeBuffers_sound_demo : ∃ s buf, demoRun demoWriting = some s ∧
    (s.kernel.files.fds 3).writeSize = 4 ∧ BufferOk (s.kernel.files.fds 3) buf ∧
      CallsSafe demoBoot.mach s.kernel := by
  have hrun : (demoRun demoWriting).map (fun s => (s.ctl, (s.kernel.files.fds 3).used,
      (s.kernel.files.fds 3).writable, (s.kernel.files.fds 3).writeBuf.isSome,
      (s.kernel.files.fds 3).writeSize)) = some (.user 3 .run, true, true, true, 4) := by
    decide +kernel
  obtain ⟨s, hs, hview⟩ := exists_of_demoRun hrun
  simp only [Prod.mk.injEq] at hview
  obtain ⟨hctl, hused, hwritable, hbuffered, hsize⟩ := hview
  obtain ⟨buf, hbuf⟩ := Option.isSome_iff_exists.mp hbuffered
  obtain ⟨hsound, -, hcalls⟩ := writeBuffers_sound (reachable_of_demoRun hs)
  exact ⟨s, buf, hs, hsize, hsound 3 buf hused hwritable hbuf, hcalls 3 .run hctl⟩

end SlopOS.Proofs.BufferBounds
