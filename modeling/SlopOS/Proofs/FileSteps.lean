import SlopOS.Proofs.FileCalls
import SlopOS.Proofs.TreeRuns
/-!
# The steps that file operations are made of

An operation takes blocks from the heap, adds nodes to the tree and fills them; nothing is ever
taken away.  What these three steps keep is kept by every call.
-/

namespace SlopOS.Proofs.FileSteps

open SlopOS.Support SlopOS.Kernel
open SlopOS.Proofs.FileEdits SlopOS.Proofs.FileCalls SlopOS.Proofs.FileOutcomes
open SlopOS.Proofs.TreeRuns

def Allocs (h h' : Heap) : Prop := h' = h ∨ ∃ size ptr, kmalloc h size = some (ptr, h')

/-- Any number of steps.  A file is not filled unless there was a block for its bytes and a NUL. -/
inductive FsSteps (fs : Fs) : Fs → Prop
  | refl : FsSteps fs fs
  | alloc {u heap size ptr} (h : FsSteps fs u) (halloc : kmalloc u.heap size = some (ptr, heap)) :
      FsSteps fs { u with heap := heap }
  | node {u name type parent} (h : FsSteps fs u) :
      FsSteps fs { u with tree := u.tree.addNode name type parent }
  | fill {u n data size} (h : FsSteps fs u) (hsize : size + 1 ≠ 0) :
      FsSteps fs { u with tree := u.tree.setData n data size }

variable {mach : Machine} {h h' heap : Heap} {size ptr : U32} {fs fs' u : Fs} {cwd : NodeId}
variable {path : CStr} {k k' : KState} {r : Int} {num a1 a2 a3 : U32}

theorem FsSteps.trans (h : FsSteps fs u) (h' : FsSteps u fs') : FsSteps fs fs' := by
  induction h' with
  | refl => exact h
  | alloc _ halloc ih => exact ih.alloc halloc
  | node _ ih => exact ih.node
  | fill _ hsize ih => exact ih.fill hsize

theorem FsSteps.allocs (h : FsSteps fs u) (hallocs : Allocs u.heap heap) :
    FsSteps fs { u with heap := heap } := by
  rcases hallocs with rfl | ⟨size, ptr, halloc⟩
  · exact h
  · exact h.alloc halloc

theorem FsSteps.mounts (h : FsSteps fs u) : u.mounts = fs.mounts := by
  induction h with
  | refl => rfl
  | alloc _ _ ih => exact ih
  | node _ ih => exact ih
  | fill _ _ ih => exact ih

theorem ne_zero_of_kmalloc (halloc : kmalloc h size = some (ptr, h')) : size ≠ 0 := by
  rintro rfl
  unfold kmalloc at halloc
  rw [if_pos (Or.inr rfl)] at halloc
  cases halloc

/-! ## `vfs.c` -/

theorem vfsAllocNode_steps {name : CStr} {type : VfsNodeType} {parent : Option NodeId} {n : NodeId}
    (halloc : vfsAllocNode fs name type parent = some (n, fs')) : FsSteps fs fs' := by
  obtain ⟨⟨ptr, heap⟩, hmalloc, hpair⟩ := Option.map_eq_some_iff.mp halloc
  cases hpair
  exact (FsSteps.refl.alloc hmalloc).node

theorem vfsTouch_steps (fs : Fs) (cwd : NodeId) (path : CStr) :
    FsSteps fs (vfsTouch fs cwd path).2 := by
  unfold vfsTouch
  split
  · exact .refl
  split
  · exact .refl
  split
  · exact .refl
  · rename_i halloc
    exact vfsAllocNode_steps halloc

theorem vfsMakeDir_steps (fs : Fs) (cwd : NodeId) (path : CStr) :
    FsSteps fs (vfsMakeDir fs cwd path).2 := by
  unfold vfsMakeDir
  split
  · exact .refl
  split
  · exact .refl
  split
  · exact .refl
  · rename_i halloc
    exact vfsAllocNode_steps halloc

theorem vfsWriteFile_steps (fs : Fs) (cwd : NodeId) (path : CStr) (data : Nat → U8) (size : U32) :
    FsSteps fs (vfsWriteFile fs cwd path data size).2 := by
  have htouch := vfsTouch_steps fs cwd path
  unfold vfsWriteFile
  split
  · exact .refl
  split
  · rename_i heq
    rw [heq] at htouch
    exact htouch
  rename_i heq
  rw [heq] at htouch
  split
  · exact htouch
  split
  · exact htouch
  · rename_i hmalloc
    exact (htouch.alloc hmalloc).fill (ne_zero_of_kmalloc hmalloc)

theorem vfsWriteSeedFile_steps (fs : Fs) (path data : CStr) :
    FsSteps fs (vfsWriteSeedFile fs path data).2 := by
  have htouch := vfsTouch_steps fs vfsRoot path
  unfold vfsWriteSeedFile
  split
  · rename_i heq
    rw [heq] at htouch
    exact htouch
  rename_i heq
  rw [heq] at htouch
  split
  · exact htouch
  dsimp only
  split
  · exact htouch
  · rename_i hmalloc
    exact (htouch.alloc hmalloc).fill (ne_zero_of_kmalloc hmalloc)

theorem vfsInit_steps {mounts : Mounts} (h : vfsInit mounts heap = some fs) :
    FsSteps ⟨emptyTree, heap, mounts⟩ fs := by
  obtain ⟨⟨root, fs₀⟩, halloc, rfl⟩ := Option.map_eq_some_iff.mp h
  apply FsSteps.trans (vfsAllocNode_steps halloc)
  dsimp only
  have hmake : ∀ path {u : Fs}, FsSteps fs₀ u → FsSteps fs₀ (vfsMakeDir u root path).2 :=
    fun path u hu => hu.trans (vfsMakeDir_steps u root path)
  have hseed : ∀ path data {u : Fs}, FsSteps fs₀ u → FsSteps fs₀ (vfsWriteSeedFile u path data).2 :=
    fun path data u hu => hu.trans (vfsWriteSeedFile_steps u path data)
  apply hseed
  apply hseed
  apply hmake
  apply hmake
  apply hmake
  apply hmake
  apply hmake
  exact .refl

theorem steps_of_ensures {fuel node : Nat} {ws : List CStr} {r : Bool × Fs}
    (h : Ensures fuel fs node ws r) : FsSteps fs r.2 := by
  induction h with
  | spent => exact .refl
  | done => exact .refl
  | long hlong => exact .refl
  | full hnone => exact .refl
  | file hfind hfile => exact .refl
  | found hname hfind hdir hrest ih => exact ih
  | made hname hfresh hroom hrest ih =>
      exact FsSteps.trans (vfsAllocNode_steps (congrArg _ hroom)) ih

theorem vfsEnsureDirAbs_steps (fs : Fs) (path : CStr) : FsSteps fs (vfsEnsureDirAbs fs path).2 := by
  by_cases hhead : path.head? = some (chr '/')
  · exact steps_of_ensures (vfsEnsureDirAbs_ensures hhead)
  · unfold vfsEnsureDirAbs
    rw [if_pos hhead]
    exact .refl

theorem vfsChangeDir_steps {r : Option NodeId} (h : vfsChangeDir mach fs cwd path = some (r, fs')) :
    FsSteps fs fs' := by
  have hensure := vfsEnsureDirAbs_steps fs (if path = [] then [] else vfsCheckPath fs.tree cwd path)
  unfold vfsChangeDir at h
  dsimp only at h
  split at h
  · cases h
  · split at h
    · rename_i heq
      rw [heq] at hensure
      cases h
      exact hensure
    · rename_i heq
      rw [heq] at hensure
      split at h <;>
      · cases h
        exact hensure
  · split at h <;>
    · cases h
      exact .refl

theorem fsReadFileFromMount_allocs {mounts : Mounts} {mountPath : CStr} {data : Option Bytes}
    (hread : fsReadFileFromMount mach mounts h mountPath path = some (data, h')) : Allocs h h' := by
  unfold fsReadFileFromMount at hread
  split at hread
  · cases hread
    exact Or.inl rfl
  unfold isoReadFileAlloc at hread
  dsimp only at hread
  repeat' split at hread
  all_goals cases hread
  all_goals first
    | exact Or.inl rfl
    | exact Or.inr ⟨_, _, ‹_›⟩

theorem vfsReadFile_steps {found : Option (Option Bytes × U32)}
    (h : vfsReadFile mach fs cwd path = some (found, fs')) : FsSteps fs fs' := by
  unfold vfsReadFile at h
  split at h
  · obtain ⟨⟨data, heap⟩, hread, hpair⟩ := Option.map_eq_some_iff.mp h
    cases hpair
    exact FsSteps.refl.allocs (fsReadFileFromMount_allocs hread)
  split at h <;>
  · cases h
    exact .refl

theorem vfsStat_steps {found : Bool × UserStat} (h : vfsStat mach fs cwd path = some (found, fs')) :
    FsSteps fs fs' := by
  unfold vfsStat at h
  split at h
  · cases h
    exact .refl
  split at h
  · split at h
    · cases h
    · cases h
      exact .refl
    · obtain ⟨⟨data, heap⟩, hread, hpair⟩ := Option.map_eq_some_iff.mp h
      have hallocs := FsSteps.refl.allocs (fsReadFileFromMount_allocs hread)
      cases data <;>
      · cases hpair
        exact hallocs
  split at h <;>
  · cases h
    exact .refl

theorem treeStep_steps {e : TreeEvent} (h : treeStep mach fs e = some fs') : FsSteps fs fs' := by
  cases e with
  | changeDir cwd path =>
      obtain ⟨-, h⟩ := Option.ite_none_right_eq_some.mp h
      obtain ⟨⟨r, fs₁⟩, hchange, rfl⟩ := Option.map_eq_some_iff.mp h
      exact vfsChangeDir_steps hchange
  | makeDir cwd path =>
      obtain ⟨-, h⟩ := Option.ite_none_right_eq_some.mp h
      rw [← Option.some.inj h]
      exact vfsMakeDir_steps fs cwd path
  | touch cwd path =>
      obtain ⟨-, h⟩ := Option.ite_none_right_eq_some.mp h
      rw [← Option.some.inj h]
      exact vfsTouch_steps fs cwd path
  | writeFile cwd path data size =>
      obtain ⟨-, h⟩ := Option.ite_none_right_eq_some.mp h
      rw [← Option.some.inj h]
      exact vfsWriteFile_steps fs cwd path data size
  | useHeap size =>
      obtain ⟨⟨addr, heap⟩, hmalloc, rfl⟩ := Option.map_eq_some_iff.mp h
      exact FsSteps.refl.alloc hmalloc

/-! ## Calls -/

theorem fdEnsureWriteCapacity_allocs {e e' : FdEntry} {needed : U32}
    (hgrow : fdEnsureWriteCapacity mach h e needed = some (e', h')) : Allocs h h' := by
  cases fdEnsureWriteCapacity_cases hgrow with
  | roomy => exact Or.inl rfl
  | moved _ _ halloc => exact Or.inr ⟨_, _, halloc⟩

def CallSteps (k : KState) (o : Outcome) : Prop :=
  ∀ r k', o.done = some (r, k') → FsSteps k.files.fs k'.files.fs

theorem callSteps_ret {touched : List ByteMem.Span} (hfs : k'.files.fs = k.files.fs) :
    CallSteps k (.ret k' r touched) := by
  intro r' k'' hdone
  cases hdone
  rw [hfs]
  exact .refl

theorem ksysRead_steps (k : KState) (fd : Int) (buf len : U32) :
    CallSteps k (ksysRead k fd buf len) := by
  intro r k' hdone
  cases ksysRead_cases hdone with
  | refused => exact .refl
  | line => exact .refl
  | file => exact .refl

theorem ksysWrite_steps (mach : Machine) (k : KState) (fd : Int) (buf len : U32) :
    CallSteps k (ksysWrite mach k fd buf len) := by
  intro r k' hdone
  cases ksysWrite_cases hdone with
  | refused => exact .refl
  | shown => exact .refl
  | stored hstores => exact FsSteps.refl.allocs (fdEnsureWriteCapacity_allocs hstores.grown)

theorem openForWrite_allocs {e e' : FdEntry} {data : Option Bytes} {size flags : U32}
    (hopen : openForWrite mach h e data size flags = some (e', h')) : Allocs h h' := by
  obtain ⟨_, hgrown, -⟩ := openForWrite_some hopen
  exact fdEnsureWriteCapacity_allocs hgrown

theorem slotDone_steps {slot : Fin fdMax} {full : CStr} {data : Option Bytes} {size flags : U32}
    (h : SlotDone mach k slot full data size flags r k') : FsSteps k.files.fs k'.files.fs := by
  cases h with
  | noRoom => exact .refl
  | buffered _ hopen => exact FsSteps.refl.allocs (openForWrite_allocs hopen)
  | plain => exact .refl

theorem touches_steps {flags : U32} {full : CStr} {made : Bool}
    (h : Touches k flags full made fs) : FsSteps k.files.fs fs := by
  have hsteps := vfsTouch_steps k.files.fs k.cwd full
  unfold Touches at h
  split at h
  · rw [h] at hsteps
    exact hsteps
  · cases h
    exact .refl

theorem ksysOpen_steps (mach : Machine) (k : KState) (path flags : U32) :
    CallSteps k (ksysOpen mach k path flags) := by
  intro r k' hdone
  cases ksysOpen_cases hdone with
  | refused => exact .refl
  | unmade _ htouches => exact touches_steps htouches
  | unread _ htouches hread => exact (touches_steps htouches).trans (vfsReadFile_steps hread)
  | noSlot _ htouches hread => exact (touches_steps htouches).trans (vfsReadFile_steps hread)
  | opened _ htouches hread _ hopen =>
      exact ((touches_steps htouches).trans (vfsReadFile_steps hread)).trans (slotDone_steps hopen)

theorem fdWriteBack_steps (k : KState) (entry : FdEntry) :
    FsSteps k.files.fs (fdWriteBack k entry).2 := by
  unfold fdWriteBack
  split
  · exact vfsWriteFile_steps _ _ _ _ _
  · exact .refl

theorem ksysClose_steps (k : KState) (fd : Int) : CallSteps k (ksysClose k fd) := by
  intro r k' hdone
  have hback : ∀ {slot made fs}, fdWriteBack k (k.files.fds slot) = (made, fs) →
      FsSteps k.files.fs fs := by
    intro slot made fs hback
    have hsteps := fdWriteBack_steps k (k.files.fds slot)
    rw [hback] at hsteps
    exact hsteps
  cases ksysClose_cases hdone with
  | refused => exact .refl
  | unstored _ hfail => exact hback hfail
  | closed _ hstored => exact hback hstored

theorem ksysStat_steps (mach : Machine) (k : KState) (path st : U32) :
    CallSteps k (ksysStat mach k path st) := by
  unfold ksysStat
  split
  · exact callSteps_ret rfl
  split
  · exact callSteps_ret rfl
  split
  · exact callSteps_ret rfl
  intro r k' hdone
  dsimp only at hdone
  split at hdone
  · cases hdone
  · rename_i hstat
    cases hdone
    exact vfsStat_steps hstat

theorem withUserCstr_steps {call : CStr → List ByteMem.Span → Outcome} {ptr : U32} {size : Nat}
    (hcall : ∀ s touched, CallSteps k (call s touched)) :
    CallSteps k (withUserCstr k ptr size call) := by
  unfold withUserCstr
  split
  · exact callSteps_ret rfl
  split
  · exact callSteps_ret rfl
  · exact hcall _ _

theorem ksysMkdir_steps (k : KState) (path : U32) : CallSteps k (ksysMkdir k path) := by
  refine withUserCstr_steps fun kpath touched r k' hdone => ?_
  have hmake := vfsMakeDir_steps k.files.fs k.cwd kpath
  split at hdone
  all_goals
    rename_i heq
    rw [heq] at hmake
    cases hdone
    exact hmake

theorem syscallEntry_steps (mach : Machine) (k : KState) (num a1 a2 a3 a4 a5 : U32) :
    CallSteps k (syscallEntry mach k num a1 a2 a3 a4 a5) := by
  intro r k' h
  cases syscallEntry_handled h with
  | read h => exact ksysRead_steps k _ _ _ _ _ h
  | write h => exact ksysWrite_steps mach k _ _ _ _ _ h
  | openFile h => exact ksysOpen_steps mach k _ _ _ _ h
  | close h => exact ksysClose_steps k _ _ _ h
  | mkdir h => exact ksysMkdir_steps k _ _ _ h
  | stat h => exact ksysStat_steps mach k _ _ _ _ h
  | other hfiles =>
      rw [hfiles]
      exact .refl

end SlopOS.Proofs.FileSteps
