import SlopOS.Proofs.PlacedRuns
/-!
# A descriptor and the other processes

Two runs: in the one any processes call the kernel between the calls of one
process on its descriptor, in the other only those calls are made.  The entries
of the descriptor in the two runs differ at most in bytes of a buffer that
nobody has written yet, so the calls give the same.
-/

namespace SlopOS.Proofs.Isolation

open SlopOS.Support SlopOS.Support.Placement SlopOS.Kernel
open SlopOS.Proofs.FileTree SlopOS.Proofs.FilePaths SlopOS.Proofs.FileEdits SlopOS.Proofs.FileCalls
open SlopOS.Proofs.FileOutcomes SlopOS.Proofs.FileCursor SlopOS.Proofs.FileSessions SlopOS.Proofs.TreeRuns
open SlopOS.Proofs.SystemCalls SlopOS.Proofs.FileWrites SlopOS.Proofs.StatOpen
open SlopOS.Proofs.PlacedFiles SlopOS.Proofs.PlacedCalls SlopOS.Proofs.PlacedRuns

/-! ## Two entries -/

/-- The same entry, but for bytes behind those that have been written. -/
structure Twin (e e' : FdEntry) : Prop where
  rest : e' = { e with writeBuf := e'.writeBuf }
  buffered : e'.writeBuf.isSome = e.writeBuf.isSome
  bytes : ∀ i < e.writeSize.toNat,
    (e'.writeBuf.getD fun _ => 0) i = (e.writeBuf.getD fun _ => 0) i

/-- The allocation for a larger buffer, if one is needed, succeeds. -/
def Grants (heap : Heap) (e : FdEntry) (needed : U32) : Prop :=
  needed ≤ e.writeCapacity ∨ ∀ capacity,
    growCapacity needed 33 (if e.writeCapacity = 0 then 256 else e.writeCapacity) = some capacity →
      (kmalloc heap capacity).isSome

/-- Two calls with one result, which leave the same memory and twins of the entry. -/
def SameAnswer (slot : Fin fdMax) (o o' : Outcome) : Prop :=
  ∃ r k q, o.done = some (r, k) ∧ o'.done = some (r, q) ∧ q.core = k.core ∧
    Twin (k.files.fds slot) (q.files.fds slot)

variable {mach : Machine} {k q k' : KState} {slot : Fin fdMax} {fd pid r : Int} {e e' : FdEntry}
variable {heap heap' : Heap} {needed buf len num a1 a2 a3 : U32}

theorem Twin.refl (e : FdEntry) : Twin e e := ⟨rfl, rfl, fun _ _ => rfl⟩

theorem sameAnswer_ret {touched touched' : List ByteMem.Span} (hcore : q.core = k.core)
    (htwin : Twin (k.files.fds slot) (q.files.fds slot)) :
    SameAnswer slot (.ret k r touched) (.ret q r touched') := ⟨r, k, q, rfl, rfl, hcore, htwin⟩

theorem Twin.ensure (h : Twin e e') (hroom : Grants heap e needed) (hroom' : Grants heap' e' needed) :
    (fdEnsureWriteCapacity mach heap e needed = none ∧
      fdEnsureWriteCapacity mach heap' e' needed = none) ∨
    ∃ e₁ h₁ e₂ h₂, fdEnsureWriteCapacity mach heap e needed = some (e₁, h₁) ∧
      fdEnsureWriteCapacity mach heap' e' needed = some (e₂, h₂) ∧ Twin e₁ e₂ := by
  have hcap : e'.writeCapacity = e.writeCapacity := by rw [h.rest]
  have hsize : e'.writeSize = e.writeSize := by rw [h.rest]
  unfold Grants at hroom hroom'
  unfold fdEnsureWriteCapacity
  rw [hcap] at hroom' ⊢
  by_cases hfits : needed ≤ e.writeCapacity
  · rw [if_pos hfits, if_pos hfits]
    exact Or.inr ⟨_, _, _, _, rfl, rfl, h⟩
  rw [if_neg hfits, if_neg hfits]
  cases hgrow : growCapacity needed 33 (if e.writeCapacity = 0 then 256 else e.writeCapacity) with
  | none => exact Or.inl ⟨rfl, rfl⟩
  | some capacity =>
      obtain ⟨⟨addr, h₁⟩, hmalloc⟩ :=
        Option.isSome_iff_exists.mp (hroom.resolve_left hfits capacity hgrow)
      obtain ⟨⟨addr', h₂⟩, hmalloc'⟩ :=
        Option.isSome_iff_exists.mp (hroom'.resolve_left hfits capacity hgrow)
      dsimp only
      rw [hmalloc, hmalloc']
      refine Or.inr ⟨_, _, _, _, rfl, rfl, ?_, rfl, ?_⟩
      · rw [h.rest]
      · intro i hi
        dsimp only
        rw [Option.getD_some, Option.getD_some, hsize, if_pos hi, if_pos hi]
        exact h.bytes i hi

/-! ## Two calls -/

theorem fds_self (k : KState) (slot : Fin fdMax) (entry : FdEntry) :
    (k.setFd slot entry).files.fds slot = entry := Function.update_self _ _ _

theorem core_afterStore (k : KState) (mem : ByteMem.Mem) (slot : Fin fdMax) (entry : FdEntry) :
    ((k.setMem mem).setFd slot entry).core = { k.core with mem := mem } := rfl

theorem fdReadFrom_twin {src src' : Nat → U8} {size : U32} (hcore : q.core = k.core)
    (htwin : Twin (k.files.fds slot) (q.files.fds slot)) (hsrc : ∀ i < size.toNat, src' i = src i) :
    SameAnswer slot (fdReadFrom k slot src size buf len) (fdReadFrom q slot src' size buf len) := by
  have hoff : (q.files.fds slot).offset = (k.files.fds slot).offset := by rw [htwin.rest]
  unfold fdReadFrom
  dsimp only
  rw [hoff]
  split
  · exact sameAnswer_ret hcore htwin
  rename_i hend
  have hlt : (k.files.fds slot).offset.toNat < size.toNat := Nat.not_le.mp hend
  refine sameAnswer_ret ?_ ?_
  · have hstore : ByteMem.store q.core.mem buf
        (min len.toNat (size.toNat - (k.files.fds slot).offset.toNat))
        (fun j => src' ((k.files.fds slot).offset.toNat + j)) =
        ByteMem.store k.core.mem buf
          (min len.toNat (size.toNat - (k.files.fds slot).offset.toNat))
          fun j => src ((k.files.fds slot).offset.toNat + j) := by
      rw [hcore]
      apply ByteMem.store_congr
      intro j hj
      exact hsrc _ (by omega)
    rw [core_afterStore, core_afterStore, hstore, hcore]
  · rw [fds_self, fds_self]
    refine ⟨?_, htwin.buffered, htwin.bytes⟩
    dsimp only
    rw [htwin.rest]

theorem read_twin (hcore : q.core = k.core) (hlookup : fdLookup k.files.fds fd k.pid = some slot)
    (hlookup' : fdLookup q.files.fds fd q.pid = some slot)
    (htwin : Twin (k.files.fds slot) (q.files.fds slot)) :
    SameAnswer slot (ksysRead k fd buf len) (ksysRead q fd buf len) := by
  have hthree := (fdLookup_spec hlookup).2.2
  have hreadable : (q.files.fds slot).readable = (k.files.fds slot).readable := by rw [htwin.rest]
  have hsize : (q.files.fds slot).size = (k.files.fds slot).size := by rw [htwin.rest]
  have hwriteSize : (q.files.fds slot).writeSize = (k.files.fds slot).writeSize := by
    rw [htwin.rest]
  have hdata : (q.files.fds slot).data = (k.files.fds slot).data := by rw [htwin.rest]
  have hbytes := htwin.bytes
  have hbuffered := htwin.buffered
  unfold ksysRead
  rw [hcore]
  split
  · exact sameAnswer_ret hcore htwin
  split
  · exact sameAnswer_ret hcore htwin
  rw [if_neg (by omega), if_neg (by omega), hlookup, hlookup']
  dsimp only
  rw [hreadable, hsize, hwriteSize, hdata]
  split
  · exact sameAnswer_ret hcore htwin
  cases hbuf : (k.files.fds slot).writeBuf with
  | none =>
      rw [hbuf] at hbuffered
      rw [Option.not_isSome_iff_eq_none.mp (Bool.eq_false_iff.mp hbuffered)]
      dsimp only
      cases (k.files.fds slot).data with
      | file bytes => exact fdReadFrom_twin hcore htwin fun _ _ => rfl
      | writeBuf => exact fdReadFrom_twin hcore htwin fun _ _ => rfl
  | some b =>
      rw [hbuf] at hbuffered hbytes
      obtain ⟨b', hb'⟩ := Option.isSome_iff_exists.mp hbuffered
      rw [hb'] at hbytes ⊢
      exact fdReadFrom_twin hcore htwin hbytes

/-- What is written does not depend on what lies behind the bytes written before. -/
theorem writeInto_congr {b b' : Nat → U8} {writeSize offset n i : Nat} (src : Nat → U8)
    (hsame : ∀ i < writeSize, b' i = b i) (hi : i < max writeSize (offset + n)) :
    writeInto b' writeSize offset src n i = writeInto b writeSize offset src n i := by
  unfold writeInto
  rw [Function.update_of_ne (by omega), Function.update_of_ne (by omega)]
  by_cases hbody : offset ≤ i ∧ i < offset + n
  · rw [if_pos hbody, if_pos hbody]
  rw [if_neg hbody, if_neg hbody]
  dsimp only
  by_cases hgap : writeSize ≤ i ∧ i < offset
  · rw [if_pos hgap, if_pos hgap]
  · rw [if_neg hgap, if_neg hgap]
    exact hsame i (by omega)

theorem fdWrite_twin (hcore : q.core = k.core) (htwin : Twin (k.files.fds slot) (q.files.fds slot))
    (hroom : Grants k.files.fs.heap (k.files.fds slot) ((k.files.fds slot).offset + len + 1))
    (hroom' : Grants q.files.fs.heap (q.files.fds slot) ((k.files.fds slot).offset + len + 1)) :
    SameAnswer slot (fdWrite mach k slot buf len) (fdWrite mach q slot buf len) := by
  have hwritable : (q.files.fds slot).writable = (k.files.fds slot).writable := by rw [htwin.rest]
  have hoff : (q.files.fds slot).offset = (k.files.fds slot).offset := by rw [htwin.rest]
  unfold fdWrite
  dsimp only
  rw [hwritable, hoff]
  split
  · exact sameAnswer_ret hcore htwin
  split
  · exact sameAnswer_ret hcore htwin
  rcases @Twin.ensure mach _ _ _ _ _ htwin hroom hroom' with ⟨hnone, hnone'⟩ |
    ⟨e₁, h₁, e₂, h₂, hsome, hsome', htwin₁⟩
  · rw [hnone, hnone']
    exact sameAnswer_ret hcore htwin
  rw [hsome, hsome']
  dsimp only
  have hsize : e₂.writeSize = e₁.writeSize := by rw [htwin₁.rest]
  have hoff₁ : e₂.offset = e₁.offset := by rw [htwin₁.rest]
  refine sameAnswer_ret hcore ?_
  rw [fds_self, fds_self]
  refine ⟨?_, rfl, fun i hi => ?_⟩
  · dsimp only
    rw [hsize, htwin₁.rest]
  · dsimp only at hi ⊢
    rw [Option.getD_some, Option.getD_some, hcore, hsize, hoff₁]
    refine writeInto_congr _ htwin₁.bytes ?_
    have hsum : ((k.files.fds slot).offset + len).toNat ≤ e₁.offset.toNat + len.toNat := by
      rw [(fdEnsureWriteCapacity_grown hsome).offset, BitVec.toNat_add]
      exact Nat.mod_le _ _
    split at hi <;>
    omega

theorem write_twin (hcore : q.core = k.core) (hlookup : fdLookup k.files.fds fd k.pid = some slot)
    (hlookup' : fdLookup q.files.fds fd q.pid = some slot)
    (htwin : Twin (k.files.fds slot) (q.files.fds slot))
    (hroom : Grants k.files.fs.heap (k.files.fds slot) ((k.files.fds slot).offset + len + 1))
    (hroom' : Grants q.files.fs.heap (q.files.fds slot) ((k.files.fds slot).offset + len + 1)) :
    SameAnswer slot (ksysWrite mach k fd buf len) (ksysWrite mach q fd buf len) := by
  have hthree := (fdLookup_spec hlookup).2.2
  unfold ksysWrite
  rw [hcore]
  split
  · exact sameAnswer_ret hcore htwin
  split
  · exact sameAnswer_ret hcore htwin
  rw [if_neg (by omega), if_neg (by omega), hlookup, hlookup']
  exact fdWrite_twin hcore htwin hroom hroom'

theorem fstat_twin (hcore : q.core = k.core) (hlookup : fdLookup k.files.fds fd k.pid = some slot)
    (hlookup' : fdLookup q.files.fds fd q.pid = some slot)
    (htwin : Twin (k.files.fds slot) (q.files.fds slot)) :
    SameAnswer slot (ksysFstat k fd buf) (ksysFstat q fd buf) := by
  have hthree := (fdLookup_spec hlookup).2.2
  have hsize : (q.files.fds slot).size = (k.files.fds slot).size := by rw [htwin.rest]
  have hwriteSize : (q.files.fds slot).writeSize = (k.files.fds slot).writeSize := by
    rw [htwin.rest]
  have hbuffered := htwin.buffered
  unfold ksysFstat
  rw [hcore]
  split
  · exact sameAnswer_ret hcore htwin
  split
  · exact sameAnswer_ret hcore htwin
  rw [if_neg (by omega), if_neg (by omega), hlookup, hlookup']
  dsimp only
  rw [hbuffered, hsize, hwriteSize]
  refine sameAnswer_ret ?_ htwin
  unfold KState.storeStat KState.setMem
  dsimp only
  rw [hcore]

/-! ## Calls on the descriptor, and others -/

/-- Process `pid` has the descriptor `fd`, in this slot. -/
structure Owns (k : KState) (fd pid : Int) (slot : Fin fdMax) : Prop where
  fd_eq : (slot.val : Int) = fd
  three : 3 ≤ slot.val
  used : (k.files.fds slot).used = true
  pid_eq : (k.files.fds slot).pid = pid

def OwnCall (fd pid : Int) (k : KState) : FileEvent → Prop
  | .call num a1 _ _ => num ∈ [sysRead, sysWrite, sysFstat] ∧ toInt a1 = fd ∧ k.pid = pid
  | _ => False

instance (fd pid : Int) (k : KState) : DecidablePred (OwnCall fd pid k)
  | .call num a1 _ _ =>
    inferInstanceAs (Decidable (num ∈ [sysRead, sysWrite, sysFstat] ∧ toInt a1 = fd ∧ k.pid = pid))
  | .turn _ => inferInstanceAs (Decidable False)
  | .tree _ => inferInstanceAs (Decidable False)

def HasRoom (fd pid : Int) (p : Placed) : FileEvent → Prop
  | .call num a1 _ a3 => num = sysWrite ∧ toInt a1 = fd ∧ p.k.pid = pid →
      ∀ slot, fdLookup p.k.files.fds fd pid = some slot →
        Grants p.k.files.fs.heap (p.k.files.fds slot) ((p.k.files.fds slot).offset + a3 + 1)
  | _ => True

/-- What the process has of an own call: the result, and its registers and memory afterwards. -/
def responses (mach : Machine) (fd pid : Int) (p : Placed) : FileEvent → List (Int × Core)
  | .call num a1 a2 a3 =>
    if OwnCall fd pid p.k (.call num a1 a2 a3) then
      ((placedCall mach p num a1 a2 a3).map fun (r, p') => (r, p'.k.core)).toList
    else []
  | _ => []

/-- The own call in a run without the others: the process comes to the kernel as it does here. -/
def alone (home : KState) (fd pid : Int) (p : Placed) : FileEvent → List FileEvent
  | .call num a1 a2 a3 =>
    if OwnCall fd pid p.k (.call num a1 a2 a3) then
      [.turn { home with core := p.k.core }, .call num a1 a2 a3]
    else []
  | _ => []

structure Kept (slot : Fin fdMax) (p p' : Placed) : Prop where
  entry : p'.k.files.fds slot = p.k.files.fds slot
  data : p'.ptrs.data slot = p.ptrs.data slot
  writeBuf : p'.ptrs.writeBuf slot = p.ptrs.writeBuf slot
  bytes : ByteMem.load p'.ptrs.ram (p'.ptrs.view slot) (fdSize (p'.k.files.fds slot)).toNat =
    ByteMem.load p.ptrs.ram (p.ptrs.view slot) (fdSize (p.k.files.fds slot)).toNat

variable {p p' p₀ p₁ q₀ q₁ : Placed} {e : FileEvent} {es : List FileEvent} {home : KState}
variable {ptrs : Pointers} {fs : Fs} {cwd : NodeId} {path : CStr} {size flags : U32}

theorem Owns.lookup (h : Owns k fd pid slot) (hpid : k.pid = pid) :
    fdLookup k.files.fds fd k.pid = some slot := by
  obtain rfl := h.fd_eq
  exact fdLookup_eq h.three h.used (h.pid_eq.trans hpid.symm)

theorem Owns.congr (h : Owns k fd pid slot) (hused : (k'.files.fds slot).used = (k.files.fds slot).used)
    (hpid : (k'.files.fds slot).pid = (k.files.fds slot).pid) : Owns k' fd pid slot :=
  ⟨h.fd_eq, h.three, hused.trans h.used, hpid.trans h.pid_eq⟩

theorem Owns.not_uses (h : Owns k fd pid slot) (hnot : ¬OwnCall fd pid k (.call num a1 a2 a3))
    (hopen : ¬Closes fd pid k (.call num a1 a2 a3)) : ¬Uses k num a1 slot := by
  rintro (⟨hnum, hlookup⟩ | ⟨-, hunused⟩)
  · obtain ⟨-, hpid, -, hfd⟩ := fdLookup_spec hlookup
    have howner : toInt a1 = fd ∧ k.pid = pid := ⟨hfd.symm.trans h.fd_eq, hpid.symm.trans h.pid_eq⟩
    simp only [List.mem_cons, List.not_mem_nil, or_false] at hnum
    rcases hnum with rfl | rfl | rfl
    · exact hnot ⟨by decide, howner⟩
    · exact hnot ⟨by decide, howner⟩
    · exact hopen ⟨rfl, howner⟩
  · rw [h.used] at hunused
    cases hunused

/-! ## Pointers -/

def ofSlot (ptrs : Pointers) (slot : Fin fdMax) : U32 × U32 := (ptrs.data slot, ptrs.writeBuf slot)

theorem vfsReadFileAt_slot (mach : Machine) (ptrs : Pointers) (fs : Fs) (cwd : NodeId) (path : CStr)
    (slot : Fin fdMax) : ofSlot (vfsReadFileAt mach ptrs fs cwd path).2 slot = ofSlot ptrs slot := by
  unfold vfsReadFileAt
  split
  · split <;> rfl
  · split <;> rfl

theorem vfsWriteFileAt_slot (ptrs : Pointers) (fs : Fs) (cwd : NodeId) (path : CStr) (src : Source)
    (size : U32) (slot : Fin fdMax) :
    ofSlot (vfsWriteFileAt ptrs fs cwd path src size) slot = ofSlot ptrs slot := by
  unfold vfsWriteFileAt
  split
  · rfl
  split
  · rfl
  split
  · rfl
  unfold fillNode
  split <;> rfl

theorem ensureAt_slot {other : Fin fdMax} (hne : slot ≠ other) (ptrs : Pointers) (heap : Heap)
    (e : FdEntry) (needed : U32) :
    ofSlot (fdEnsureWriteCapacityAt ptrs heap other e needed) slot = ofSlot ptrs slot := by
  unfold fdEnsureWriteCapacityAt
  split
  · rfl
  split
  · rfl
  split
  · rfl
  · unfold ofSlot
    dsimp only
    rw [Function.update_of_ne hne]

theorem ofSlot_setData {other : Fin fdMax} {ram : ByteMem.Mem} {ptr : U32} (hne : slot ≠ other) :
    ofSlot { ptrs with ram := ram, data := Function.update ptrs.data other ptr } slot =
      ofSlot ptrs slot := by
  unfold ofSlot
  dsimp only
  rw [Function.update_of_ne hne]

theorem reset_slot {other : Fin fdMax} (hne : slot ≠ other) :
    ofSlot (ptrs.reset other) slot = ofSlot ptrs slot := by
  unfold ofSlot Pointers.reset
  dsimp only
  rw [Function.update_of_ne hne, Function.update_of_ne hne]

theorem fdOpenAt_slot {other : Fin fdMax} (hne : slot ≠ other) (full : CStr) (data : U32)
    (bytes : Option Bytes) :
    ofSlot (fdOpenAt mach ptrs k other full data bytes size flags) slot = ofSlot ptrs slot := by
  unfold fdOpenAt
  dsimp only
  split
  · split
    · exact reset_slot hne
    · rw [ofSlot_setData hne, ensureAt_slot hne, reset_slot hne]
  · rw [show ofSlot _ slot = ofSlot (ptrs.reset other) slot from ofSlot_setData hne, reset_slot hne]

theorem ksysWriteAt_slot (h : ¬Uses p.k sysWrite a1 slot) :
    ofSlot (ksysWriteAt mach p.ptrs p.k (toInt a1) a2 a3) slot = ofSlot p.ptrs slot := by
  unfold ksysWriteAt
  split
  · rfl
  split
  · rfl
  rename_i other hlookup
  have hne : slot ≠ other := by
    rintro rfl
    exact h (Or.inl ⟨by decide, hlookup⟩)
  unfold fdWriteAt
  dsimp only
  split
  · rfl
  split
  · rfl
  · rw [ofSlot_setData hne, ensureAt_slot hne]

theorem ksysOpenAt_slot (h : ¬Uses p.k sysOpen a1 slot) :
    ofSlot (ksysOpenAt mach p.ptrs p.k a1 a2) slot = ofSlot p.ptrs slot := by
  unfold ksysOpenAt
  split
  · rfl
  split
  · rfl
  split
  · rfl
  split
  dsimp only
  split
  · rfl
  have hread := vfsReadFileAt_slot mach p.ptrs
  split
  · split
    · exact hread _ _ _ _
    · rename_i other hfree
      have hne : slot ≠ other := by
        rintro rfl
        exact h (Or.inr ⟨rfl, (fdAllocSlot_spec hfree).1⟩)
      rw [fdOpenAt_slot hne]
      exact hread _ _ _ _
  · exact hread _ _ _ _

theorem ksysCloseAt_slot (h : ¬Uses p.k sysClose a1 slot) :
    ofSlot (ksysCloseAt p.ptrs p.k (toInt a1)) slot = ofSlot p.ptrs slot := by
  unfold ksysCloseAt
  split
  · rfl
  rename_i other hlookup
  have hne : slot ≠ other := by
    rintro rfl
    exact h (Or.inl ⟨by decide, hlookup⟩)
  have hback : ∀ src, ofSlot (if (p.k.files.fds other).writable ∧ (p.k.files.fds other).dirty then
      vfsWriteFileAt p.ptrs p.k.files.fs p.k.cwd (p.k.files.fds other).path src
        (p.k.files.fds other).writeSize else p.ptrs) slot = ofSlot p.ptrs slot := by
    intro src
    split
    · exact vfsWriteFileAt_slot _ _ _ _ _ _ _
    · rfl
  dsimp only
  split
  · rw [reset_slot hne]
    exact hback _
  · exact hback _

theorem ksysStatAt_slot (st : U32) :
    ofSlot (ksysStatAt mach p.ptrs p.k a1 st) slot = ofSlot p.ptrs slot := by
  unfold ksysStatAt
  repeat' split
  all_goals first
    | rfl
    | exact vfsReadFileAt_slot _ _ _ _ _ _

theorem syscallAt_slot (h : ¬Uses p.k num a1 slot) :
    ofSlot (syscallAt mach p num a1 a2 a3) slot = ofSlot p.ptrs slot := by
  unfold syscallAt
  by_cases hwrite : num = sysWrite
  · subst hwrite
    exact ksysWriteAt_slot h
  rw [if_neg hwrite]
  by_cases hopen : num = sysOpen
  · subst hopen
    exact ksysOpenAt_slot h
  rw [if_neg hopen]
  by_cases hclose : num = sysClose
  · subst hclose
    exact ksysCloseAt_slot h
  rw [if_neg hclose]
  split
  · exact ksysStatAt_slot a2
  · rfl

/-- Whatever happens that is no call on the descriptor leaves the descriptor and its contents. -/
theorem kept_step (h : PlacedOk p) (howns : Owns p.k fd pid slot) (hnot : ¬OwnCall fd pid p.k e)
    (hopen : ¬Closes fd pid p.k e) (hstep : placedStep mach p e = some p') : Kept slot p p' := by
  have hnext := placedOk_step h hstep
  have hpair : p'.k.files.fds slot = p.k.files.fds slot ∧
      ofSlot p'.ptrs slot = ofSlot p.ptrs slot := by
    cases e with
    | turn other =>
        obtain ⟨k', hturn, rfl⟩ := Option.map_eq_some_iff.mp hstep
        obtain ⟨-, hturn⟩ := Option.ite_none_right_eq_some.mp hturn
        obtain rfl := Option.some.inj hturn
        exact ⟨rfl, rfl⟩
    | tree e =>
        obtain ⟨k', htree, rfl⟩ := Option.map_eq_some_iff.mp hstep
        obtain ⟨fs, -, rfl⟩ := Option.map_eq_some_iff.mp htree
        refine ⟨rfl, ?_⟩
        cases e with
        | writeFile cwd path data size => exact vfsWriteFileAt_slot _ _ _ _ _ _ _
        | _ => rfl
    | call num a1 a2 a3 =>
        obtain ⟨-, hsome⟩ := Option.ite_none_left_eq_some.mp hstep
        rw [placedCall_eq h.laid] at hsome
        obtain ⟨⟨r, p₁⟩, hcall, rfl⟩ := Option.map_eq_some_iff.mp hsome
        obtain ⟨⟨r', k'⟩, hdone, hpair⟩ := Option.map_eq_some_iff.mp hcall
        cases hpair
        have huses := howns.not_uses hnot hopen
        exact ⟨(syscallEntry_effect h.files.tree h.files.cwd hdone).fds slot huses,
          syscallAt_slot huses⟩
  obtain ⟨hentry, hptrs⟩ := hpair
  obtain ⟨hdata, hbuf⟩ := Prod.mk.inj hptrs
  refine ⟨hentry, hdata, hbuf, ?_⟩
  have hshows : ∀ p, PlacedOk p →
      ByteMem.load p.ptrs.ram (p.ptrs.view slot) (fdSize (p.k.files.fds slot)).toNat =
        contentsOf (p.k.files.fds slot) := fun p hp =>
    List.map_congr_left fun i hi => hp.laid.views slot i (List.mem_range.mp hi)
  rw [hshows p h, hshows p' hnext, hentry]

theorem ksysWrite_owner {k k' : KState}
    (hdone : (ksysWrite mach k fd buf len).done = some (r, k')) (slot : Fin fdMax) :
    SameOwner (k.files.fds slot) (k'.files.fds slot) := by
  have hself : SameOwner (k.files.fds slot) (k.files.fds slot) := ⟨rfl, rfl, rfl, rfl, rfl⟩
  cases ksysWrite_cases hdone with
  | refused => exact hself
  | shown => exact hself
  | @stored other _ _ hstores =>
      have howner := (fdEnsureWriteCapacity_grown hstores.grown).owner
      rw [fds_setFd]
      by_cases hslot : slot = other
      · rw [if_pos hslot, hslot]
        exact ⟨howner.used, howner.pid, howner.readable, howner.writable, howner.path⟩
      · rw [if_neg hslot]
        exact hself

theorem owns_step (h : PlacedOk p) (howns : Owns p.k fd pid slot) (hopen : ¬Closes fd pid p.k e)
    (hstep : placedStep mach p e = some p') : Owns p'.k fd pid slot := by
  by_cases hown : OwnCall fd pid p.k e
  case neg =>
    have hentry := (kept_step h howns hown hopen hstep).entry
    refine howns.congr ?_ ?_ <;>
    rw [hentry]
  cases e with
  | turn => exact hown.elim
  | tree => exact hown.elim
  | call num a1 a2 a3 =>
      obtain ⟨hnum, -, -⟩ := hown
      obtain ⟨⟨r, k'⟩, hdone, hk'⟩ := Option.map_eq_some_iff.mp (laid_step h.laid h.files hstep).2
      dsimp only at hk'
      subst hk'
      simp only [List.mem_cons, List.not_mem_nil, or_false] at hnum
      rcases hnum with rfl | rfl | rfl
      · obtain ⟨offset, hentry, -⟩ := read_slots (s := slot) (fun s => (h.laid.entries s).offset) hdone
        refine howns.congr ?_ ?_ <;>
        rw [hentry]
      · have howner := ksysWrite_owner hdone slot
        exact howns.congr howner.used howner.pid
      · have hentry := (syscallEntry_effect h.files.tree h.files.cwd hdone).fds slot fun huses => by
          rcases huses with ⟨hmem, -⟩ | ⟨hmem, -⟩ <;>
          exact absurd hmem (by decide)
        refine howns.congr ?_ ?_ <;>
        rw [hentry]

/-! ## The run alone -/

/-- A state of the run with the others, and the state of the run alone beside it. -/
structure Beside (home : KState) (fd pid : Int) (slot : Fin fdMax) (p q : Placed) : Prop where
  left : PlacedOk p
  right : PlacedOk q
  owns : Owns p.k fd pid slot
  twin : Twin (p.k.files.fds slot) (q.k.files.fds slot)
  cwd : home.cwd < q.k.files.fs.tree.count

variable {q q' : Placed}

theorem Owns.twin {k q : KState} (h : Owns k fd pid slot)
    (htwin : Twin (k.files.fds slot) (q.files.fds slot)) : Owns q fd pid slot := by
  refine h.congr ?_ ?_ <;>
  rw [htwin.rest]

theorem own_answer {k q : KState} (hown : OwnCall fd pid k (.call num a1 a2 a3))
    (hk : Owns k fd pid slot) (hcore : q.core = k.core)
    (htwin : Twin (k.files.fds slot) (q.files.fds slot))
    (hroom : num = sysWrite →
      Grants k.files.fs.heap (k.files.fds slot) ((k.files.fds slot).offset + a3 + 1) ∧
        Grants q.files.fs.heap (q.files.fds slot) ((k.files.fds slot).offset + a3 + 1)) :
    SameAnswer slot (syscallEntry mach k num a1 a2 a3 0 0)
      (syscallEntry mach q num a1 a2 a3 0 0) := by
  obtain ⟨hnum, rfl, hpid⟩ := hown
  have hpid' : q.pid = pid := by
    unfold KState.pid
    rw [hcore]
    exact hpid
  have hlookup := hk.lookup hpid
  have hlookup' := (hk.twin htwin).lookup hpid'
  simp only [List.mem_cons, List.not_mem_nil, or_false] at hnum
  rcases hnum with rfl | rfl | rfl
  · exact read_twin hcore hlookup hlookup' htwin
  · exact write_twin hcore hlookup hlookup' htwin (hroom rfl).1 (hroom rfl).2
  · exact fstat_twin hcore hlookup hlookup' htwin

/-- The state in which the process comes to the kernel of the run alone. -/
def arrive (home : KState) (p q : Placed) : Placed :=
  ⟨turnTo q.k { home with core := p.k.core }, q.ptrs⟩

theorem Beside.arrive (h : Beside home fd pid slot p q) :
    placedStep mach q (.turn { home with core := p.k.core }) = some (arrive home p q) ∧
      PlacedOk (Isolation.arrive home p q) := by
  have hcwd : ({ home with core := p.k.core } : KState).cwd < q.k.files.fs.tree.count := h.cwd
  have hstep : placedStep mach q (.turn { home with core := p.k.core }) =
      some (Isolation.arrive home p q) := by
    unfold placedStep fileStep
    dsimp only
    rw [if_pos hcwd]
    rfl
  exact ⟨hstep, placedOk_step h.right hstep⟩

theorem responses_own (hown : OwnCall fd pid p.k (.call num a1 a2 a3)) {r : Int}
    (hcall : placedCall mach p num a1 a2 a3 = some (r, p')) :
    responses mach fd pid p (.call num a1 a2 a3) = [(r, p'.k.core)] := by
  unfold responses
  dsimp only
  rw [if_pos hown, hcall]
  rfl

theorem responses_other (hnot : ¬OwnCall fd pid p.k e) : responses mach fd pid p e = [] := by
  cases e with
  | call num a1 a2 a3 => exact if_neg hnot
  | turn => rfl
  | tree => rfl

theorem alone_other (hnot : ¬OwnCall fd pid p.k e) : alone home fd pid p e = [] := by
  cases e with
  | call num a1 a2 a3 => exact if_neg hnot
  | turn => rfl
  | tree => rfl

theorem mem_alone {x : FileEvent} (h : x ∈ alone home fd pid p e) : (∃ other, x = .turn other) ∨ x = e := by
  by_cases hown : OwnCall fd pid p.k e
  · cases e with
    | turn => cases h
    | tree => cases h
    | call num a1 a2 a3 =>
        rw [show alone home fd pid p (.call num a1 a2 a3) = [.turn _, .call num a1 a2 a3] from
          if_pos hown, List.mem_cons, List.mem_singleton] at h
        exact h.imp (fun hturn => ⟨_, hturn⟩) id
  · rw [alone_other hown] at h
    cases h

theorem Beside.other (h : Beside home fd pid slot p q) (hnot : ¬OwnCall fd pid p.k e)
    (hopen : ¬Closes fd pid p.k e) (hstep : placedStep mach p e = some p') :
    Beside home fd pid slot p' q := by
  have hkept := kept_step h.left h.owns hnot hopen hstep
  refine ⟨placedOk_step h.left hstep, h.right, ?_, ?_, h.cwd⟩
  · refine h.owns.congr ?_ ?_ <;>
    rw [hkept.entry]
  · rw [hkept.entry]
    exact h.twin

theorem Beside.own (h : Beside home fd pid slot p q)
    (hown : OwnCall fd pid p.k (.call num a1 a2 a3)) (hroom : HasRoom fd pid p (.call num a1 a2 a3))
    (hroom' : HasRoom fd pid (Isolation.arrive home p q) (.call num a1 a2 a3))
    (hstep : placedStep mach p (.call num a1 a2 a3) = some p') :
    ∃ q', placedStep mach (Isolation.arrive home p q) (.call num a1 a2 a3) = some q' ∧
      responses mach fd pid (Isolation.arrive home p q) (.call num a1 a2 a3) =
        responses mach fd pid p (.call num a1 a2 a3) ∧ Beside home fd pid slot p' q' := by
  have hok := (@Beside.arrive mach _ _ _ _ _ _ h).2
  have howns : Owns (Isolation.arrive home p q).k fd pid slot := h.owns.twin h.twin
  have hown' : OwnCall fd pid (Isolation.arrive home p q).k (.call num a1 a2 a3) := hown
  have hanswer : SameAnswer slot (syscallEntry mach p.k num a1 a2 a3 0 0)
      (syscallEntry mach (Isolation.arrive home p q).k num a1 a2 a3 0 0) := by
    refine own_answer hown h.owns rfl h.twin fun hnum => ⟨?_, ?_⟩
    · refine hroom ⟨hnum, hown.2⟩ slot ?_
      rw [← hown.2.2]
      exact h.owns.lookup hown.2.2
    · have hgrants := hroom' ⟨hnum, hown.2⟩ slot (by
        rw [← hown.2.2]
        exact howns.lookup hown.2.2)
      have hoff : ((Isolation.arrive home p q).k.files.fds slot).offset =
          (p.k.files.fds slot).offset := by
        show (q.k.files.fds slot).offset = _
        rw [h.twin.rest]
      rw [hoff] at hgrants
      exact hgrants
  obtain ⟨r, k', q₁, hdone, hdone', hcore, htwin⟩ := hanswer
  obtain ⟨hguard, hsome⟩ := Option.ite_none_left_eq_some.mp hstep
  have hcall : placedCall mach p num a1 a2 a3 =
      some (r, ⟨k', syscallAt mach p num a1 a2 a3⟩) := by
    rw [placedCall_eq h.left.laid, hdone]
    rfl
  have hcall' : placedCall mach (Isolation.arrive home p q) num a1 a2 a3 =
      some (r, ⟨q₁, syscallAt mach (Isolation.arrive home p q) num a1 a2 a3⟩) := by
    rw [placedCall_eq hok.laid, hdone']
    rfl
  have hstep' : placedStep mach (Isolation.arrive home p q) (.call num a1 a2 a3) =
      some ⟨q₁, syscallAt mach (Isolation.arrive home p q) num a1 a2 a3⟩ := by
    refine Option.ite_none_left_eq_some.mpr ⟨hguard, ?_⟩
    rw [hcall']
    rfl
  have howns' := owns_step h.left h.owns (fun hclose => absurd hown.1 (by rw [hclose.1]; decide)) hstep
  rw [hcall] at hsome
  obtain rfl := Option.some.inj hsome
  have hedits := (fileStep_edits hok.files (laid_step hok.laid hok.files hstep').2).1
  refine ⟨_, hstep', ?_, placedOk_step h.left hstep, placedOk_step hok hstep', howns', htwin,
    Nat.lt_of_lt_of_le h.cwd hedits.count_le⟩
  rw [responses_own hown' hcall', responses_own hown hcall]
  show [(r, q₁.core)] = [(r, k'.core)]
  rw [hcore]

theorem Beside.run (h : Beside home fd pid slot p q)
    (hopen : Runs.AllSteps (placedStep mach) (fun p e => ¬Closes fd pid p.k e) p es)
    (hroom : Runs.AllSteps (placedStep mach) (HasRoom fd pid) p es)
    (hroom' : Runs.AllSteps (placedStep mach) (HasRoom fd pid) q
      (Runs.observe (placedStep mach) (alone home fd pid) p es))
    (hrun : Runs.run (placedStep mach) p es = some p') :
    (∃ q', Runs.run (placedStep mach) q
      (Runs.observe (placedStep mach) (alone home fd pid) p es) = some q') ∧
    Runs.observe (placedStep mach) (responses mach fd pid) q
        (Runs.observe (placedStep mach) (alone home fd pid) p es) =
      Runs.observe (placedStep mach) (responses mach fd pid) p es := by
  induction es generalizing p q with
  | nil => exact ⟨⟨q, rfl⟩, rfl⟩
  | cons e es ih =>
      obtain ⟨p₁, hstep, hrest⟩ := Runs.run_cons_eq_some.mp hrun
      rw [Runs.observe_cons es hstep] at hroom' ⊢
      rw [Runs.observe_cons es hstep]
      by_cases hown : OwnCall fd pid p.k e
      · cases e with
        | turn => exact hown.elim
        | tree => exact hown.elim
        | call num a1 a2 a3 =>
            have halone : alone home fd pid p (.call num a1 a2 a3) =
                [.turn { home with core := p.k.core }, .call num a1 a2 a3] := if_pos hown
            rw [halone] at hroom' ⊢
            obtain ⟨hturn, -⟩ := @Beside.arrive mach _ _ _ _ _ _ h
            have hroom₁ := hroom'.2 _ hturn
            obtain ⟨q₁, hcall, hsame, hnext⟩ := h.own hown hroom.1 hroom₁.1 hstep
            obtain ⟨⟨q', hq'⟩, hobs⟩ := ih hnext (hopen.2 _ hstep) (hroom.2 _ hstep)
              (hroom₁.2 _ hcall) hrest
            constructor
            · exact ⟨q', Runs.run_cons_eq_some.mpr ⟨_, hturn, Runs.run_cons_eq_some.mpr
                ⟨_, hcall, hq'⟩⟩⟩
            · rw [List.cons_append, List.cons_append, List.nil_append, Runs.observe_cons _ hturn,
                Runs.observe_cons _ hcall, hsame, hobs]
              rfl
      · rw [alone_other hown] at hroom' ⊢
        rw [responses_other hown]
        exact ih (h.other hown hopen.1 hstep) (hopen.2 _ hstep) (hroom.2 _ hstep) hroom' hrest

end SlopOS.Proofs.Isolation
