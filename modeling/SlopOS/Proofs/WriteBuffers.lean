import SlopOS.Proofs.BufferAccess
import SlopOS.Proofs.FileMoves
import SlopOS.Proofs.HeapBlocks
import SlopOS.Proofs.PlacedFiles
import SlopOS.Proofs.ReachableStates
/-!
# The write buffers of the descriptors

A buffer has room for a NUL behind its bytes, and neither the heap nor the memory of a process is
so large that a sum of an offset and a length could wrap.
-/

namespace SlopOS.Proofs.WriteBuffers

open SlopOS.Support SlopOS.Kernel
open SlopOS.Proofs.HeapBlocks SlopOS.Proofs.FileCursor SlopOS.Proofs.FileOutcomes
open SlopOS.Proofs.FileCalls SlopOS.Proofs.FileSteps SlopOS.Proofs.FileMoves
open SlopOS.Proofs.FileWrites SlopOS.Proofs.UserPointers SlopOS.Proofs.SystemCalls
open SlopOS.Proofs.BufferAccess SlopOS.Proofs.Moves SlopOS.Proofs.TableInvariant
open SlopOS.Proofs.ReachableStates (Reachable sysOk_kmain sysOk_of_reachable kmain_spec)

/-- A descriptor with the write buffer `buf`. -/
structure BufferOk (e : FdEntry) (buf : Nat → U8) : Prop where
  offset_le : e.offset ≤ e.writeSize
  room : e.writeSize.toNat + 1 ≤ e.writeCapacity.toNat
  size_eq : e.size = e.writeSize
  data_eq : e.data = .writeBuf
  terminated : buf e.writeSize.toNat = 0

/-- A descriptor has a buffer, of a size the heap can have, exactly if it can be written. -/
structure SlotOk (e : FdEntry) : Prop where
  buffered : e.used = true → e.writable = true →
    e.writeCapacity.toNat ≤ 0x00300000 ∧ ∃ buf, e.writeBuf = some buf ∧ BufferOk e buf
  plain : e.used = true → e.writable = false → e.writeBuf = none

structure HeapCapped (h : Heap) : Prop where
  aligned : h.current.toNat % 16 = 0
  limit_le : h.ready = true → h.limit.toNat ≤ 0x00300000

/-- No file is so large that there is no room for a NUL. -/
def SizesOk (t : VfsTree) : Prop := ∀ n, (t.node n).size + 1 ≠ 0

structure FilesSafe (files : Files) : Prop where
  heap : HeapCapped files.fs.heap
  sizes : SizesOk files.fs.tree
  slots : ∀ slot, SlotOk (files.fds slot)

variable {mach : Machine} {b : Boot} {s s' : Sys} {k k' : KState} {fs fs' : Fs} {h h' heap heap' : Heap}
variable {e e' : FdEntry} {slot : Fin fdMax} {t : VfsTree} {pid fd r : Int} {caller : Caller}
variable {ptr buf len path flags size needed : U32} {data : Option Bytes} {image : ProcImage}
variable {sl : Fin elfProcSlots}

/-! ## The heap and the sizes of files -/

theorem HeapCapped.kmalloc (hcap : HeapCapped h) (halloc : kmalloc h size = some (ptr, h')) :
    HeapCapped h' ∧ size.toNat ≤ 0x00300000 := by
  have hg := kmalloc_spec hcap.aligned hcap.limit_le halloc
  have hlimit := hcap.limit_le hg.ready
  have hfits := hg.fits
  refine ⟨⟨?_, ?_⟩, by omega⟩
  · rw [hg.current]
    exact Alignment.roundUp_mod _ _
  · rw [hg.still, hg.limit]
    exact hcap.limit_le

theorem heapCapped_init (kernelEnd : U32) (mbi : Option MultibootInfo) (magic : U32) :
    HeapCapped (heapInit kernelEnd mbi magic) := by
  have hok := heapOk_boot kernelEnd mbi magic fun _ => 0
  exact ⟨hok.aligned, hok.limit_le⟩

theorem SizesOk.addNode (h : SizesOk t) (name : CStr) (type : VfsNodeType)
    (parent : Option NodeId) : SizesOk (t.addNode name type parent) := by
  have hsize : ∀ n, ((t.addNode name type parent).node n).size = 0 ∨
      ((t.addNode name type parent).node n).size = (t.node n).size := by
    intro n
    cases parent with
    | none =>
        change (Function.update t.node t.count _ n).size = 0 ∨
          (Function.update t.node t.count _ n).size = _
        by_cases hn : n = t.count
        · rw [hn, Function.update_self]
          exact Or.inl rfl
        · rw [Function.update_of_ne hn]
          exact Or.inr rfl
    | some dir =>
        change (Function.update (Function.update t.node dir _) t.count _ n).size = 0 ∨
          (Function.update (Function.update t.node dir _) t.count _ n).size = _
        by_cases hn : n = t.count
        · rw [hn, Function.update_self]
          exact Or.inl rfl
        rw [Function.update_of_ne hn]
        by_cases hdir : n = dir
        · rw [hdir, Function.update_self]
          exact Or.inr rfl
        · rw [Function.update_of_ne hdir]
          exact Or.inr rfl
  intro n
  rcases hsize n with hzero | hsame
  · rw [hzero]
    decide
  · rw [hsame]
    exact h n

theorem SizesOk.setData (h : SizesOk t) (n : NodeId) (data : Bytes) (hsize : size + 1 ≠ 0) :
    SizesOk (t.setData n data size) := by
  intro m
  change (Function.update t.node n _ m).size + 1 ≠ 0
  by_cases hm : m = n
  · rw [hm, Function.update_self]
    exact hsize
  · rw [Function.update_of_ne hm]
    exact h m

theorem capped_of_steps (hsteps : FsSteps fs fs') (hcap : HeapCapped fs.heap)
    (hsizes : SizesOk fs.tree) : HeapCapped fs'.heap ∧ SizesOk fs'.tree := by
  induction hsteps with
  | refl => exact ⟨hcap, hsizes⟩
  | alloc _ halloc ih => exact ⟨(ih.1.kmalloc halloc).1, ih.2⟩
  | node _ ih => exact ⟨ih.1, ih.2.addNode _ _ _⟩
  | fill _ hsize ih => exact ⟨ih.1, ih.2.setData _ _ hsize⟩

/-- The size that `vfs_read_file` gives, of a node or of a copy from the disc. -/
theorem vfsReadFile_size {cwd : NodeId} {path : CStr} (hsizes : SizesOk fs.tree)
    (h : vfsReadFile mach fs cwd path = some (some (data, size), fs')) : size + 1 ≠ 0 := by
  unfold vfsReadFile at h
  split at h
  · obtain ⟨⟨found, heap⟩, hread, hpair⟩ := Option.map_eq_some_iff.mp h
    cases found with
    | none => cases hpair
    | some bytes =>
        cases hpair
        obtain ⟨-, addr, halloc⟩ := PlacedFiles.disc_malloc hread
        exact ne_zero_of_kmalloc halloc
  split at h
  · cases h
  rename_i node _
  dsimp only at h
  split at h
  · cases h
    exact hsizes node
  · cases h

/-! ## Growing -/

/-- A buffer that has just been grown: large enough, and not too large. -/
structure Roomy (e : FdEntry) (needed : U32) : Prop where
  needed_le : needed.toNat ≤ e.writeCapacity.toNat
  capacity_le : e.writeCapacity.toNat ≤ 0x00300000

/-- A buffer with room for `len` bytes at the cursor and a NUL. -/
structure WriteRoom (e : FdEntry) (len : U32) : Prop where
  fits : max e.writeSize.toNat (e.offset.toNat + len.toNat) + 1 ≤ e.writeCapacity.toNat
  capacity_le : e.writeCapacity.toNat ≤ 0x00300000

theorem roomy_of_ensured (hcap : HeapCapped heap) (hcapacity : e.writeCapacity.toNat ≤ 0x00300000)
    (h : fdEnsureWriteCapacity mach heap e needed = some (e', heap')) : Roomy e' needed := by
  cases fdEnsureWriteCapacity_cases h with
  | roomy hroom => exact ⟨hroom, hcapacity⟩
  | moved _ hle halloc => exact ⟨hle, (hcap.kmalloc halloc).2⟩

/-- Neither the end of a write nor the place of the NUL behind it wraps. -/
theorem toNat_end (hcapacity : e.writeCapacity.toNat ≤ 0x00300000) {bytes : Nat → U8}
    (hok : BufferOk e bytes) (hlen : len.toNat ≤ 0x00320000) :
    (e.offset + len).toNat = e.offset.toNat + len.toNat ∧
      (e.offset + len + 1).toNat = e.offset.toNat + len.toNat + 1 := by
  have hoffset : e.offset.toNat ≤ e.writeSize.toNat := hok.offset_le
  have hroom := hok.room
  have hsum : (e.offset + len).toNat = e.offset.toNat + len.toNat := by
    rw [BitVec.toNat_add]
    exact Nat.mod_eq_of_lt (by omega)
  refine ⟨hsum, ?_⟩
  rw [BitVec.toNat_add, hsum]
  exact Nat.mod_eq_of_lt (by
    change e.offset.toNat + len.toNat + 1 < 2 ^ 32
    omega)

theorem writeRoom_of_ensured (hcap : HeapCapped heap) {bytes : Nat → U8}
    (hcapacity : e.writeCapacity.toNat ≤ 0x00300000) (hok : BufferOk e bytes)
    (hlen : len.toNat ≤ 0x00320000)
    (h : fdEnsureWriteCapacity mach heap e (e.offset + len + 1) = some (e', heap')) :
    WriteRoom e' len := by
  obtain ⟨-, hneeded⟩ := toNat_end hcapacity hok hlen
  obtain ⟨hfit, hmax⟩ := roomy_of_ensured hcap hcapacity h
  have hgrown := fdEnsureWriteCapacity_grown h
  have hlarger : e.writeCapacity.toNat ≤ e'.writeCapacity.toNat := by
    cases fdEnsureWriteCapacity_cases h with
    | roomy => exact Nat.le_refl _
    | moved hmore hle => exact Nat.le_of_lt (Nat.lt_of_lt_of_le (Nat.not_le.mp hmore) hle)
  have hold := hok.room
  rw [hneeded] at hfit
  refine ⟨?_, hmax⟩
  rw [hgrown.writeSize, hgrown.offset]
  omega

/-! ## Calls -/

theorem slotOk_unused (h : e.used = false) : SlotOk e where
  buffered hused := by
    rw [h] at hused
    cases hused
  plain hused := by
    rw [h] at hused
    cases hused

theorem slotOk_plain (hwritable : e.writable = false) (hbuf : e.writeBuf = none) : SlotOk e where
  buffered _ hyes := by
    rw [hwritable] at hyes
    cases hyes
  plain _ _ := hbuf

theorem FilesSafe.setFd {entry : FdEntry} (hk : FilesSafe k.files) (hsteps : FsSteps k.files.fs fs)
    (hentry : SlotOk entry) : FilesSafe ((k.setFs fs).setFd slot entry).files := by
  obtain ⟨hcap, hsizes⟩ := capped_of_steps hsteps hk.heap hk.sizes
  refine ⟨hcap, hsizes, fun i => ?_⟩
  change SlotOk (Function.update k.files.fds slot entry i)
  by_cases hi : i = slot
  · rw [hi, Function.update_self]
    exact hentry
  · rw [Function.update_of_ne hi]
    exact hk.slots i

theorem FilesSafe.keeps (hk : FilesSafe k.files) (hkeeps : KeepsFds k k') : FilesSafe k'.files := by
  obtain ⟨hcap, hsizes⟩ := capped_of_steps hkeeps.steps hk.heap hk.sizes
  refine ⟨hcap, hsizes, fun i => ?_⟩
  rw [hkeeps.fds]
  exact hk.slots i

theorem SlotOk.move {offset : U32} (he : SlotOk e) (hle : e.writable = true → offset ≤ e.writeSize) :
    SlotOk { e with offset := offset } where
  buffered hused hwritable := by
    obtain ⟨hcapacity, buf, hbuf, hok⟩ := he.buffered hused hwritable
    exact ⟨hcapacity, buf, hbuf, hle hwritable, hok.room, hok.size_eq, hok.data_eq, hok.terminated⟩
  plain := he.plain

theorem ksysRead_safe (hk : FilesSafe k.files) (h : (ksysRead k fd buf len).done = some (r, k')) :
    FilesSafe k'.files := by
  cases ksysRead_cases h with
  | refused => exact hk
  | line => exact ⟨hk.heap, hk.sizes, hk.slots⟩
  | file slot hslot =>
      apply FilesSafe.setFd (k := k.setMem _) hk .refl
      apply (hk.slots slot).move
      intro hwritable
      obtain ⟨-, b, hbuf, hok⟩ := (hk.slots slot).buffered (fdLookup_spec hslot).1 hwritable
      have hsize : fdSize (k.files.fds slot) = (k.files.fds slot).writeSize := by
        simp [fdSize, hbuf]
      have hle := hok.offset_le
      rw [← hsize] at hle ⊢
      rw [BitVec.le_def, toNat_add_takes]
      exact add_takes_le hle len

theorem len_le_of_valid (hown : OwnerOk mach k.core pid image sl)
    (hvalid : validateBuffer k.core buf len = true) : len.toNat ≤ 0x00320000 := by
  have hwithin := within_len ((validateBuffer_iff hown buf len).mp hvalid)
  obtain ⟨-, himage, -, hstack⟩ := range_bounds hown.fits
  rcases hwithin with ⟨hlow, hhigh⟩ | ⟨hlow, hhigh⟩
  · omega
  · omega

theorem writtenEntry_ok (hk : FilesSafe k.files) (hlen : len.toNat ≤ 0x00320000)
    (hstores : Storing mach k fd buf len slot e' heap') :
    SlotOk (writtenEntry k e' ((k.files.fds slot).offset + len) buf len) := by
  have hused := (fdLookup_spec hstores.lookup).1
  obtain ⟨hcapacity, bytes, hbuf, hok⟩ := (hk.slots slot).buffered hused hstores.writable
  obtain ⟨hneeded, -⟩ := toNat_end hcapacity hok hlen
  obtain ⟨hfits, hmax⟩ := writeRoom_of_ensured hk.heap hcapacity hok hlen hstores.grown
  have hgrown := fdEnsureWriteCapacity_grown hstores.grown
  have hsize := toNat_newSize e'.writeSize hstores.exact
  constructor
  case buffered =>
    intro _ _
    refine ⟨hmax, _, rfl, ?_, ?_, rfl, rfl, ?_⟩
    · change ((k.files.fds slot).offset + len).toNat ≤ _
      unfold writtenEntry
      dsimp only
      rw [hsize, hneeded]
      exact Nat.le_max_right _ _
    · unfold writtenEntry
      dsimp only
      rw [hsize, ← hgrown.offset]
      exact hfits
    · unfold writtenEntry
      dsimp only
      unfold writeInto
      rw [hsize, hgrown.offset, Function.update_self]
  case plain =>
    intro _ hno
    change e'.writable = false at hno
    rw [hgrown.owner.writable, hstores.writable] at hno
    cases hno

theorem ksysWrite_safe (hk : FilesSafe k.files) (hown : OwnerOk mach k.core pid image sl)
    (h : (ksysWrite mach k fd buf len).done = some (r, k')) : FilesSafe k'.files := by
  cases ksysWrite_cases h with
  | refused => exact hk
  | shown => exact hk
  | stored hstores =>
      apply hk.setFd (FsSteps.refl.allocs (fdEnsureWriteCapacity_allocs hstores.grown))
      exact writtenEntry_ok hk (len_le_of_valid hown hstores.valid) hstores

theorem initialSize_ne (flags : U32) (hsize : size + 1 ≠ 0) : initialSize size flags + 1 ≠ 0 := by
  unfold initialSize
  split
  · decide
  · exact hsize

theorem toNat_succ_of_ne (h : size + 1 ≠ 0) : (size + 1).toNat = size.toNat + 1 := by
  bv_omega

/-- An entry that has neither a buffer nor a place in one. -/
structure Unbuffered (e : FdEntry) : Prop where
  writeSize : e.writeSize = 0
  writeCapacity : e.writeCapacity = 0

theorem openForWrite_safe (hcap : HeapCapped heap) (hsize : size + 1 ≠ 0) (he : Unbuffered e)
    (hoffset : e.offset ≤ size) (hwritable : e.writable = true)
    (h : openForWrite mach heap e data size flags = some (e', heap')) : SlotOk e' := by
  obtain ⟨e₁, hgrow, rfl⟩ := openForWrite_some h
  have hzero : (0 : U32).toNat = 0 := rfl
  have hcapacity : e.writeCapacity.toNat ≤ 0x00300000 := by
    rw [he.writeCapacity]
    decide
  have hroomy := roomy_of_ensured hcap hcapacity hgrow
  have hgrown := fdEnsureWriteCapacity_grown hgrow
  have hfit := hroomy.needed_le
  rw [toNat_succ_of_ne (initialSize_ne flags hsize)] at hfit
  constructor
  case buffered =>
    refine fun _ _ => ⟨hroomy.capacity_le, _, rfl, ?_, hfit, rfl, rfl, Function.update_self _ _ _⟩
    change (if flags &&& oTrunc ≠ 0 then 0 else e₁.offset) ≤ initialSize size flags
    unfold initialSize
    split
    · exact BitVec.le_refl _
    · rw [hgrown.offset]
      exact hoffset
  case plain =>
    intro _ hno
    change e₁.writable = false at hno
    rw [hgrown.owner.writable, hwritable] at hno
    cases hno

theorem openEntry_offset_le (pid : Int) (full : CStr) (data : Option Bytes) (size flags : U32) :
    (openEntry pid full data size flags).offset ≤ size := by
  change (if flags &&& oAppend ≠ 0 then size else 0) ≤ size
  split
  · exact BitVec.le_refl _
  · exact BitVec.le_def.mpr (Nat.zero_le _)

theorem slotDone_safe {full : CStr} (hk : FilesSafe k.files) (hsize : size + 1 ≠ 0)
    (h : SlotDone mach k slot full data size flags r k') : FilesSafe k'.files := by
  have hrefl : FsSteps k.files.fs k.files.fs := .refl
  cases h with
  | noRoom => exact hk.setFd hrefl (slotOk_unused rfl)
  | buffered hwritable hopen =>
      apply hk.setFd (hrefl.allocs (openForWrite_allocs hopen))
      exact openForWrite_safe hk.heap hsize ⟨rfl, rfl⟩ (openEntry_offset_le _ _ _ _ _) hwritable hopen
  | plain hplain => exact hk.setFd hrefl (slotOk_plain hplain rfl)

theorem ksysOpen_safe (hk : FilesSafe k.files)
    (h : (ksysOpen mach k path flags).done = some (r, k')) : FilesSafe k'.files := by
  have hread : ∀ {full made fs₁ found fs₂}, Touches k flags full made fs₁ →
      vfsReadFile mach fs₁ k.cwd full = some (found, fs₂) →
        FilesSafe (k.setFs fs₁).files ∧ FilesSafe (k.setFs fs₂).files := by
    intro full made fs₁ found fs₂ htouches hread
    have hk₁ : FilesSafe (k.setFs fs₁).files := hk.keeps (keepsFds_setFs (touches_steps htouches))
    exact ⟨hk₁, hk₁.keeps (keepsFds_setFs (vfsReadFile_steps hread))⟩
  cases ksysOpen_cases h with
  | refused => exact hk
  | unmade _ htouches => exact hk.keeps (keepsFds_setFs (touches_steps htouches))
  | unread _ htouches hnone => exact (hread htouches hnone).2
  | noSlot _ htouches hsome => exact (hread htouches hsome).2
  | opened _ htouches hsome _ hopen =>
      obtain ⟨hk₁, hk₂⟩ := hread htouches hsome
      exact slotDone_safe hk₂ (vfsReadFile_size hk₁.sizes hsome) hopen

theorem ksysClose_safe (hk : FilesSafe k.files) (h : (ksysClose k fd).done = some (r, k')) :
    FilesSafe k'.files := by
  have hsteps := ksysClose_steps k fd _ _ h
  cases ksysClose_cases h with
  | refused => exact hk
  | unstored => exact hk.keeps (keepsFds_setFs hsteps)
  | closed => exact hk.setFd hsteps (slotOk_unused rfl)

theorem ksysMkdir_fds (h : (ksysMkdir k path).done = some (r, k')) :
    k'.files.fds = k.files.fds := by
  unfold ksysMkdir withUserCstr at h
  dsimp only at h
  repeat' split at h
  all_goals
    cases h
    rfl

/-! ## Runs -/

theorem syscallEntry_safe {num a1 a2 a3 a4 a5 : U32} (hk : FilesSafe k.files)
    (hown : OwnerOk mach k.core pid image sl)
    (h : (syscallEntry mach k num a1 a2 a3 a4 a5).done = some (r, k')) : FilesSafe k'.files := by
  have hsteps := syscallEntry_steps mach k num a1 a2 a3 a4 a5 r k' h
  cases syscallEntry_handled h with
  | read h => exact ksysRead_safe hk h
  | write h => exact ksysWrite_safe hk hown h
  | openFile h => exact ksysOpen_safe hk h
  | close h => exact ksysClose_safe hk h
  | mkdir h => exact hk.keeps ⟨hsteps, ksysMkdir_fds h⟩
  | stat h => exact hk.keeps ⟨hsteps, (ksysStat_same h).fds⟩
  | other hfiles => exact hk.keeps (keepsFds_of_files hfiles)

theorem filesSafe_kmain (h : kmain b = some s) : FilesSafe s.kernel.files := by
  obtain ⟨-, -, hunused⟩ := kmain_spec h
  obtain ⟨fs, hinit, rfl⟩ := Option.map_eq_some_iff.mp h
  have hempty : SizesOk emptyTree := by
    intro n
    change (0 : U32) + 1 ≠ 0
    decide
  obtain ⟨hcap, hsizes⟩ := capped_of_steps (vfsInit_steps hinit)
    (heapCapped_init b.mach.kernelEnd b.mbi b.magic) hempty
  exact ⟨hcap, hsizes, fun slot => slotOk_unused (hunused slot)⟩

theorem filesSafe_step {e : Event} (hs : SysOk b.mach s) (hk : FilesSafe s.kernel.files)
    (h : step b s e = some s') : FilesSafe s'.kernel.files := by
  unfold step at h
  cases hctl : s.ctl with
  | shell =>
      rw [hctl] at h
      exact hk.keeps (shellStep_keeps h)
  | user pid caller =>
      have hrun := hs.ctl
      rw [hctl] at h hrun
      obtain ⟨image, sl, hown, -⟩ := ownerOk_of_running hs.base hrun.1
      rcases userStep_files h with hkeeps | ⟨num, a1, a2, a3, a4, a5, r, k₁, hdone, hfiles⟩
      · exact hk.keeps hkeeps
      · rw [hfiles]
        exact syscallEntry_safe hk hown hdone

theorem filesSafe_reachable (hs : Reachable b s) : FilesSafe s.kernel.files := by
  obtain ⟨s₀, es, hboot, hrun⟩ := hs
  have hend := Runs.invariant (I := fun s : Sys => SysOk b.mach s ∧ FilesSafe s.kernel.files)
    (fun s₁ e s₂ _ hs₁ hstep => ?_) (Runs.AllSteps.trivial s₀ es) hrun
    ⟨sysOk_kmain hboot, filesSafe_kmain hboot⟩
  · exact hend.2
  · exact ⟨(step_ok hs₁.1 hstep).ok, filesSafe_step hs₁.1 hs₁.2 hstep⟩

end SlopOS.Proofs.WriteBuffers
