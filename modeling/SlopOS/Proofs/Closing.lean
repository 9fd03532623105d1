import SlopOS.Proofs.Isolation
import SlopOS.Proofs.ReachableStates
/-!
# Closing a descriptor that has been written

`ksys_open` decides from the flags alone whether a descriptor can be written, and `ksys_close`
keeps a descriptor whose contents it cannot store.  Storing goes through `vfs_touch`, which takes
the path apart in front of its last word, where `ksys_open` only walks along it.
-/

namespace SlopOS.Proofs.Closing

open SlopOS.Support SlopOS.Kernel
open SlopOS.Proofs.FileTree SlopOS.Proofs.FilePaths SlopOS.Proofs.FileEdits SlopOS.Proofs.TreeRuns
open SlopOS.Proofs.SystemCalls SlopOS.Proofs.FileOutcomes SlopOS.Proofs.FileCalls SlopOS.Proofs.FileCursor
open SlopOS.Proofs.FileWrites SlopOS.Proofs.StatOpen SlopOS.Proofs.FileSessions
open SlopOS.Proofs.PlacedCalls (fds_setFd)

variable {mach : Machine} {k k' k₁ k₂ : KState} {e : FileEvent} {es : List FileEvent}
variable {fd pid r : Int} {slot : Fin fdMax} {n cwd : Nat} {full kpath : CStr}
variable {t : VfsTree} {fs : Fs} {heap : Heap} {buf len path flags size : U32} {data : Nat → U8}

/-! ## Paths that can be stored to -/

def lastName (path : CStr) : CStr := (path.reverse.takeWhile fun c => c ≠ chr '/').reverse

/-- The path is not one of the mount, and ends in a name. -/
structure Storable (full : CStr) : Prop where
  inTree : vfsMountSubpath full = none
  named : lastName full ≠ []
  notDot : lastName full ≠ cstr "."

/-- The last step on the way to a file is made from a directory, by name. -/
theorem stepTo_file (hok : TreeOk t) (hn : n < t.count) {name : CStr} {c : Nat}
    (hstep : stepTo t n name = some c) (hfile : (t.node c).type = .file)
    (hdot : name ≠ cstr ".") :
    name.length ≤ vfsNameMax ∧ name ≠ cstr ".." ∧ vfsFindChild t n name = some c ∧
      (t.node n).type = .dir := by
  unfold stepTo at hstep
  rw [if_neg hdot] at hstep
  split at hstep
  · cases hstep
  rename_i hshort
  split at hstep
  · obtain rfl := Option.some.inj hstep
    rw [hok.up_dir hn] at hfile
    cases hfile
  · rename_i hdots
    obtain ⟨hmem, -⟩ := mem_children_of_find hstep
    exact ⟨by omega, hdots, hstep, hok.dir_of_mem hn hmem⟩

/-- `vfs_touch` finds the file that the walk along the path has found. -/
theorem vfsTouch_file (hok : TreeOk fs.tree) (habs : AbsText full) (hstore : Storable full)
    (hres : vfsResolve fs.tree full = some n) (hfile : (fs.tree.node n).type = .file) :
    vfsTouch fs cwd full = (true, fs) := by
  have hslash : chr '/' ∈ full := List.mem_of_mem_head? habs.head
  have hshort := habs.short
  obtain ⟨front, name, hpath, hname, hlast, hfront⟩ := split_last hslash
  have hlast' : lastName full = name := hlast
  have hnamed := hstore.named
  have hdot := hstore.notDot
  rw [hlast'] at hnamed hdot
  have hwords := words_last front hnamed hname
  -- the walk, up to the directory and from there to the file
  unfold vfsResolve at hres
  rw [vfsResolveFrom_eq, hpath, hwords, ← startOf_front, stepAll_append] at hres
  obtain ⟨dir, hdir, hstep⟩ := Option.bind_eq_some_iff.mp hres
  rw [stepAll_cons] at hstep
  obtain ⟨c, hc, hlastStep⟩ := Option.bind_eq_some_iff.mp hstep
  obtain rfl := Option.some.inj hlastStep
  have hlt := TreeOk.stepAll_lt hok (TreeOk.startOf_lt hok hok.root_lt _) hdir
  obtain ⟨hlen, hdots, hfind, hisDir⟩ := stepTo_file hok hlt hc hfile hdot
  rw [← vfsResolveFrom_eq] at hdir
  have hstart : startOf cwd full = startOf vfsRoot full := by
    unfold startOf
    rw [if_pos habs.head, if_pos habs.head]
  have hdirAt : vfsResolveFrom fs.tree cwd (if front = [] then cstr "/" else front) =
      some dir := by
    rw [vfsResolveFrom_eq] at hdir ⊢
    rw [startOf_front front name, ← hpath] at hdir ⊢
    rw [hstart]
    exact hdir
  have hsplit : vfsSplitParent full = some (if front = [] then cstr "/" else front, name) := by
    have hle := congrArg List.length hpath
    rw [List.length_append, List.length_cons] at hle
    have hmax : vfsPathMax = 128 := rfl
    unfold vfsSplitParent
    rw [if_neg (List.ne_nil_of_mem hslash), if_neg (not_not.mpr hslash), hlast]
    dsimp only
    rw [hfront, if_neg (by omega), if_neg (by omega), if_neg]
    simp only [strEq, decide_eq_true_eq, not_or]
    exact ⟨hnamed, hdot, hdots⟩
  have hparentDir : vfsParentDir fs.tree cwd full = some (dir, name) := by
    have hnil : (if front = [] then cstr "/" else front) ≠ [] := by
      split
      · decide
      · assumption
    unfold vfsParentDir
    rw [habs.check, hstore.inTree, if_neg (by decide), hsplit]
    dsimp only
    rw [if_neg hnil, hdirAt]
    dsimp only
    rw [if_pos hisDir]
  unfold vfsTouch
  rw [hparentDir]
  dsimp only
  rw [hfind]
  dsimp only
  rw [hfile]
  rfl

theorem storable_of_parentDir (habs : AbsText full)
    (hparent : vfsParentDir t cwd full ≠ none) : Storable full := by
  have hslash : chr '/' ∈ full := List.mem_of_mem_head? habs.head
  unfold vfsParentDir at hparent
  rw [habs.check] at hparent
  split at hparent
  · exact absurd rfl hparent
  rename_i hgate
  split at hparent
  · exact absurd rfl hparent
  rename_i parentPath name hsplit
  unfold vfsSplitParent at hsplit
  rw [if_neg (List.ne_nil_of_mem hslash), if_neg (not_not.mpr hslash)] at hsplit
  dsimp only at hsplit
  split at hsplit
  · cases hsplit
  split at hsplit
  · cases hsplit
  split at hsplit
  · cases hsplit
  rename_i hname
  simp only [strEq, decide_eq_true_eq, not_or] at hname
  exact ⟨Option.not_isSome_iff_eq_none.mp hgate, hname.1, hname.2.1⟩

theorem vfsWriteFile_storable (habs : AbsText full)
    (hdone : (vfsWriteFile fs cwd full data size).1 = true) : Storable full := by
  apply storable_of_parentDir habs
  intro hparent
  unfold vfsWriteFile vfsTouch at hdone
  rw [hparent] at hdone
  split at hdone <;> cases hdone

theorem vfsWriteFile_done (hok : TreeOk fs.tree) (habs : AbsText full) (hstore : Storable full)
    (hres : vfsResolve fs.tree full = some n) (hfile : (fs.tree.node n).type = .file)
    (hroom : kmalloc fs.heap (size + 1) ≠ none) :
    (vfsWriteFile fs cwd full data size).1 = true := by
  obtain ⟨⟨addr, heap⟩, hheap⟩ := Option.ne_none_iff_exists'.mp hroom
  unfold vfsWriteFile
  rw [habs.check, hstore.inTree, if_neg (by decide), vfsTouch_file hok habs hstore hres hfile]
  dsimp only
  rw [habs.resolve, hres]
  dsimp only
  rw [hheap]

/-! ## What a descriptor keeps -/

/-- What no call but `ksys_close` changes in an entry. -/
structure Stays (e e' : FdEntry) : Prop where
  owner : SameOwner e e'
  clean : e.writable = false → e'.dirty = e.dirty

theorem Stays.refl (e : FdEntry) : Stays e e := ⟨⟨rfl, rfl, rfl, rfl, rfl⟩, fun _ => rfl⟩

theorem Stays.trans {e e' e'' : FdEntry} (h : Stays e e') (h' : Stays e' e'') : Stays e e'' where
  owner := ⟨h'.owner.used.trans h.owner.used, h'.owner.pid.trans h.owner.pid,
    h'.owner.readable.trans h.owner.readable, h'.owner.writable.trans h.owner.writable,
    h'.owner.path.trans h.owner.path⟩
  clean := fun hw => (h'.clean (h.owner.writable.trans hw)).trans (h.clean hw)

/-- A slot that is not set stays, and one that is set stays if its entry does. -/
theorem stays_setFd {k₁ : KState} {other : Fin fdMax} {e : FdEntry}
    (hfds : k₁.files.fds = k.files.fds) (h : Stays (k.files.fds other) e) (slot : Fin fdMax) :
    Stays (k.files.fds slot) ((k₁.setFd other e).files.fds slot) := by
  rw [fds_setFd]
  by_cases hslot : slot = other
  · rw [if_pos hslot, hslot]
    exact h
  · rw [if_neg hslot, hfds]
    exact Stays.refl _

theorem ksysRead_stays (hdone : (ksysRead k fd buf len).done = some (r, k')) (slot : Fin fdMax) :
    Stays (k.files.fds slot) (k'.files.fds slot) := by
  cases ksysRead_cases hdone with
  | refused => exact Stays.refl _
  | line => exact Stays.refl _
  | file =>
      apply stays_setFd
      · rfl
      · exact ⟨⟨rfl, rfl, rfl, rfl, rfl⟩, fun _ => rfl⟩

theorem ksysWrite_stays (hdone : (ksysWrite mach k fd buf len).done = some (r, k'))
    (slot : Fin fdMax) : Stays (k.files.fds slot) (k'.files.fds slot) := by
  cases ksysWrite_cases hdone with
  | refused => exact Stays.refl _
  | shown => exact Stays.refl _
  | stored hstores =>
      have howner := (fdEnsureWriteCapacity_grown hstores.grown).owner
      apply stays_setFd
      · rfl
      · exact ⟨⟨howner.used, howner.pid, howner.readable, howner.writable, howner.path⟩,
          fun hno => (Bool.false_ne_true (hno.symm.trans hstores.writable)).elim⟩

structure Open (k : KState) (pid : Int) (slot : Fin fdMax) : Prop where
  used : (k.files.fds slot).used = true
  pid_eq : (k.files.fds slot).pid = pid

theorem stays_step (hk : FilesOk k) (hopen : Open k pid slot) (hslot : (slot.val : Int) = fd)
    (hnot : ¬Closes fd pid k e) (hstep : fileStep mach k e = some k') :
    Stays (k.files.fds slot) (k'.files.fds slot) := by
  cases e with
  | turn other =>
      obtain ⟨-, hturn⟩ := Option.ite_none_right_eq_some.mp hstep
      rw [← Option.some.inj hturn]
      exact Stays.refl _
  | tree e =>
      obtain ⟨fs, -, rfl⟩ := Option.map_eq_some_iff.mp hstep
      exact Stays.refl _
  | call num a1 a2 a3 =>
      obtain ⟨⟨r, k₁⟩, hdone, rfl⟩ := Option.map_eq_some_iff.mp hstep
      by_cases huses : Uses k num a1 slot
      case neg =>
        have hsame := (syscallEntry_effect hk.tree hk.cwd hdone).fds slot huses
        show Stays _ (k₁.files.fds slot)
        rw [hsame]
        exact Stays.refl _
      rcases huses with ⟨hnum, hlookup⟩ | ⟨-, hunused⟩
      · obtain ⟨-, hpid, -, hfd⟩ := fdLookup_spec hlookup
        simp only [List.mem_cons, List.not_mem_nil, or_false] at hnum
        rcases hnum with rfl | rfl | rfl
        · exact ksysRead_stays hdone slot
        · exact ksysWrite_stays hdone slot
        · exact absurd ⟨rfl, hfd.symm.trans hslot, hpid.symm.trans hopen.pid_eq⟩ hnot
      · rw [hopen.used] at hunused
        cases hunused

/-- A descriptor stays what it was opened as until it is closed. -/
theorem stays_run (hk : FilesOk k) (hopen : Open k pid slot) (hslot : (slot.val : Int) = fd)
    (hnot : Runs.AllSteps (fileStep mach) (fun k e => ¬Closes fd pid k e) k es)
    (hrun : Runs.run (fileStep mach) k es = some k') :
    FilesOk k' ∧ Stays (k.files.fds slot) (k'.files.fds slot) := by
  refine Runs.invariant (I := fun k' => FilesOk k' ∧ Stays (k.files.fds slot) (k'.files.fds slot))
    (fun k₁ e k₂ hno hk₁ hstep => ?_) hnot hrun ⟨hk, Stays.refl _⟩
  obtain ⟨hk₁, hstays⟩ := hk₁
  have hopen₁ : Open k₁ pid slot :=
    ⟨hstays.owner.used.trans hopen.used, hstays.owner.pid.trans hopen.pid_eq⟩
  exact ⟨(fileStep_edits hk₁ hstep).2, hstays.trans (stays_step hk₁ hopen₁ hslot hno hstep)⟩

/-! ## Closing -/

/-- The kernel heap has room for a copy of what the descriptor is to store. -/
def Room (k : KState) (slot : Fin fdMax) : Prop :=
  kmalloc k.files.fs.heap ((k.files.fds slot).writeSize + 1) ≠ none

/-- Closing the descriptor succeeds and frees the slot. -/
def Closable (k : KState) (fd : Int) (slot : Fin fdMax) : Prop :=
  ∃ k', (ksysClose k fd).done = some (0, k') ∧ (k'.files.fds slot).used = false

theorem closable_iff (hopen : Open k k.pid slot) (hthree : 3 ≤ slot.val) :
    Closable k slot.val slot ↔ (fdWriteBack k (k.files.fds slot)).1 = true := by
  have hlookup : fdLookup k.files.fds slot.val k.pid = some slot :=
    fdLookup_eq hthree hopen.used hopen.pid_eq
  unfold Closable ksysClose
  rw [hlookup]
  dsimp only
  cases hback : fdWriteBack k (k.files.fds slot) with
  | mk ok fs =>
      cases ok with
      | false =>
          refine iff_of_false ?_ Bool.false_ne_true
          rintro ⟨k', hdone, -⟩
          cases hdone
      | true =>
          refine iff_of_true ⟨_, rfl, ?_⟩ rfl
          rw [fds_setFd, if_pos rfl]
          rfl

/-! ## Opening -/

/-- The cursor of a new descriptor is in its buffer, which has room for a final NUL. -/
structure Fits (entry : FdEntry) : Prop where
  cursor : entry.offset ≤ entry.writeSize
  capacity : entry.writeSize + 1 ≤ entry.writeCapacity

theorem openForWrite_fits {heap heap' : Heap} {entry entry' : FdEntry} {found : Option Bytes}
    (hoffset : entry.offset = if flags &&& oAppend ≠ 0 then size else 0)
    (h : openForWrite mach heap entry found size flags = some (entry', heap')) : Fits entry' := by
  obtain ⟨grown, hgrow, rfl⟩ := openForWrite_some h
  have hcapacity : initialSize size flags + 1 ≤ grown.writeCapacity := needed_le hgrow
  refine ⟨?_, hcapacity⟩
  show (if flags &&& oTrunc ≠ 0 then 0 else grown.offset) ≤ initialSize size flags
  unfold initialSize
  split
  · exact BitVec.le_refl _
  · rw [(fdEnsureWriteCapacity_grown hgrow).offset, hoffset]
    split
    · exact BitVec.le_refl _
    · exact BitVec.le_def.mpr (Nat.zero_le _)

structure Opened (k : KState) (slot : Fin fdMax) (pid : Int) (full : CStr) (flags : U32) : Prop where
  isOpen : Open k pid slot
  three : 3 ≤ slot.val
  path_eq : (k.files.fds slot).path = full
  writable : (k.files.fds slot).writable = true ↔ WantsWrite flags
  dirty : (k.files.fds slot).dirty = true ↔ WantsWrite flags ∧ flags &&& oTrunc ≠ 0
  fits : WantsWrite flags → Fits (k.files.fds slot)
  files : FilesOk k
  found : vfsMountSubpath full = none →
    ∃ n, vfsResolve k.files.fs.tree full = some n ∧ (k.files.fs.tree.node n).type = .file

theorem openEntry_writable {found : Option Bytes} :
    (openEntry pid full found size flags).writable = true ↔ WantsWrite flags := by
  show (decide (flags &&& oAccmode = oWronly) || decide (flags &&& oAccmode = oRdwr)) = true ↔ _
  rw [Bool.or_eq_true, decide_eq_true_eq, decide_eq_true_eq]
  exact Iff.rfl

theorem ksysOpen_opened (hk : FilesOk k) (hcopy : (copyUserCstr k.core path 128).1 = some kpath)
    (hfull : makeAbsPath k.files.fs.tree k.cwd kpath 128 = some full)
    (hopen : (ksysOpen mach k path flags).done = some (fd, k₁)) (hfd : 0 ≤ fd) :
    ∃ slot : Fin fdMax, (slot.val : Int) = fd ∧ k₁.core = k.core ∧
      Opened k₁ slot k.pid full flags := by
  obtain ⟨kpath', full', fs₁, fs₂, found, size, slot, ho, hdone⟩ := ksysOpen_opening hopen hfd
  obtain rfl : kpath' = kpath := Option.some.inj (ho.copied.symm.trans hcopy)
  obtain rfl : full' = full := Option.some.inj (ho.absPath.symm.trans hfull)
  have habs := opening_text ho
  obtain ⟨hedits, -⟩ := touched_edits hk.tree hk.cwd ho.touched
  obtain ⟨htree, -⟩ := vfsReadFile_keeps ho.found
  have hfiles : TreeOk fs₂.tree ∧ k.cwd < fs₂.tree.count := by
    rw [htree]
    exact ⟨hedits.treeOk hk.tree, Nat.lt_of_lt_of_le hk.cwd hedits.count_le⟩
  have hfile : vfsMountSubpath full' = none →
      ∃ n, vfsResolve fs₂.tree full' = some n ∧ (fs₂.tree.node n).type = .file := by
    intro hgate
    obtain ⟨rfl, n, hres, hfile, -, -⟩ := (found_inTree habs hgate).mp ho.found
    exact ⟨n, hres, hfile⟩
  have hpath : strCopy full' 128 = full' := by
    have hshort := habs.short
    exact List.take_of_length_le (by omega)
  have hthree := (fdAllocSlot_spec ho.free).2
  cases hdone with
  | noRoom => exact absurd hfd (by decide)
  | @buffered entry heap hwritable hbuf =>
    have hwants : WantsWrite flags := openEntry_writable.mp hwritable
    obtain ⟨-, howner, hdirty⟩ := openForWrite_spec rfl hwritable hbuf
    have hfits := openForWrite_fits rfl hbuf
    refine ⟨slot, rfl, rfl, ?_⟩
    have hset : (((k.setFs fs₂).setFs { (k.setFs fs₂).files.fs with heap := heap }).setFd slot
        entry).files.fds slot = entry := Function.update_self _ _ _
    constructor
    case three => exact hthree
    case files => exact ⟨hfiles.1, hfiles.2⟩
    case found => exact hfile
    case isOpen =>
      refine ⟨?_, ?_⟩ <;> rw [hset]
      · exact howner.used
      · exact howner.pid
    all_goals rw [hset]
    case path_eq => exact howner.path.trans hpath
    case writable => exact iff_of_true (howner.writable.trans hwritable) hwants
    case dirty =>
      rw [hdirty]
      constructor
      · rintro (htrunc | hold)
        · exact ⟨hwants, htrunc⟩
        · cases hold
      · exact fun h => Or.inl h.2
    case fits => exact fun _ => hfits
  | plain hplain =>
    have hwants : ¬WantsWrite flags := fun h =>
      Bool.false_ne_true (hplain.symm.trans (openEntry_writable.mpr h))
    refine ⟨slot, rfl, rfl, ?_⟩
    have hset : ((k.setFs fs₂).setFd slot (openEntry k.pid full' found size flags)).files.fds slot =
        openEntry k.pid full' found size flags := Function.update_self _ _ _
    constructor
    case three => exact hthree
    case files => exact ⟨hfiles.1, hfiles.2⟩
    case found => exact hfile
    case isOpen => exact ⟨congrArg FdEntry.used hset, congrArg FdEntry.pid hset⟩
    case path_eq => exact (congrArg FdEntry.path hset).trans hpath
    all_goals rw [show ((k.setFs fs₂).setFd slot (openEntry (k.setFs fs₂).pid full' found size
      flags)).files.fds slot = _ from hset]
    case writable => exact openEntry_writable
    case dirty => exact iff_of_false Bool.false_ne_true fun h => hwants h.1
    case fits => exact fun h => absurd h hwants

/-! ## Every descriptor can be closed -/

/-- Whatever has happened since, if the kernel heap has room for a copy of the file, the process
can close the descriptor. -/
def AlwaysClosable (mach : Machine) (k : KState) (pid : Int) (slot : Fin fdMax) : Prop :=
  ∀ es k', Runs.AllSteps (fileStep mach) (fun k e => ¬Closes slot.val pid k e) k es →
    Runs.run (fileStep mach) k es = some k' → k'.pid = pid → Room k' slot →
      Closable k' slot.val slot

theorem alwaysClosable_of_storable (h : Opened k₁ slot pid full flags) (habs : AbsText full)
    (hstore : WantsWrite flags → Storable full) : AlwaysClosable mach k₁ pid slot := by
  intro es k₂ hnot hrun hpid hroom
  obtain ⟨hk₂, hstays⟩ := stays_run h.files h.isOpen rfl hnot hrun
  have hopen : Open k₂ k₂.pid slot := by
    rw [hpid]
    exact ⟨hstays.owner.used.trans h.isOpen.used, hstays.owner.pid.trans h.isOpen.pid_eq⟩
  rw [closable_iff hopen h.three]
  unfold fdWriteBack
  split
  · rename_i hdirty
    have hstore := hstore (h.writable.mp (hstays.owner.writable.symm.trans hdirty.1))
    obtain ⟨n, hres, hfile⟩ := h.found hstore.inTree
    have hedits := edited_run h.files hrun
    have hlt := TreeOk.resolve_lt h.files.tree h.files.tree.root_lt hres
    rw [hstays.owner.path, h.path_eq]
    exact vfsWriteFile_done hk₂.tree habs hstore
      (Edited.resolve hedits h.files.tree h.files.tree.root_lt hres)
      (Edited.isFile hedits h.files.tree hlt hfile) hroom
  · rfl

theorem ksysWrite_nothing (h : Opened k slot k.pid full flags) (hwants : WantsWrite flags)
    (hroom : Room k slot) (hbuf : buf ≠ 0) (hvalid : validateBuffer k.core buf 0 = true) :
    ∃ k', (ksysWrite mach k slot.val buf 0).done = some (0, k') ∧ k'.core = k.core ∧
      (k'.files.fds slot).dirty = true ∧ Room k' slot := by
  have hthree := h.three
  have hlookup : fdLookup k.files.fds slot.val k.pid = some slot :=
    fdLookup_eq hthree h.isOpen.used h.isOpen.pid_eq
  have hfits := h.fits hwants
  have hlast : (k.files.fds slot).writeSize + 1 ≠ 0 := by
    intro hzero
    unfold Room at hroom
    rw [hzero] at hroom
    unfold kmalloc at hroom
    exact hroom (if_pos (Or.inr rfl))
  have hcursor := hfits.cursor
  have hcapacity := hfits.capacity
  have hgrow : fdEnsureWriteCapacity mach k.files.fs.heap (k.files.fds slot)
      ((k.files.fds slot).offset + 0 + 1) = some (k.files.fds slot, k.files.fs.heap) := by
    unfold fdEnsureWriteCapacity
    rw [if_pos]
    bv_omega
  have hsize : (if (k.files.fds slot).writeSize < (k.files.fds slot).offset + 0 then
      (k.files.fds slot).offset + 0 else (k.files.fds slot).writeSize) =
        (k.files.fds slot).writeSize := by
    rw [if_neg]
    bv_omega
  unfold ksysWrite
  rw [if_neg hbuf, if_neg (not_not.mpr hvalid), if_neg (by omega), hlookup]
  dsimp only
  unfold fdWrite
  dsimp only
  rw [if_neg (not_not.mpr (h.writable.mpr hwants)), if_neg (by bv_omega), hgrow]
  dsimp only
  refine ⟨_, rfl, rfl, ?_, ?_⟩
  · rw [fds_setFd, if_pos rfl]
  · unfold Room
    rw [fds_setFd, if_pos rfl]
    dsimp only
    rw [hsize]
    exact hroom

/-- The first character of a path that has been copied is in the memory of the process. -/
theorem validateBuffer_of_copied (hcopy : (copyUserCstr k.core path 128).1 = some kpath) :
    path ≠ 0 ∧ validateBuffer k.core path 0 = true := by
  have hpath : path ≠ 0 := by
    rintro rfl
    cases hcopy
  refine ⟨hpath, ?_⟩
  by_contra hvalid
  have hnone : copyUserCstr k.core path 128 = (none, []) := by
    unfold copyUserCstr
    rw [if_neg (not_or.mpr ⟨hpath, by decide⟩)]
    exact if_pos hvalid
  rw [hnone] at hcopy
  cases hcopy

/-- A descriptor can always be closed if and only if it is for reading or its path is one that can
be stored to. -/
theorem alwaysClosable_iff (hreach : Reached mach k)
    (hcopy : (copyUserCstr k.core path 128).1 = some kpath)
    (hfull : makeAbsPath k.files.fs.tree k.cwd kpath 128 = some full)
    (hopen : (ksysOpen mach k path flags).done = some ((slot.val : Int), k₁))
    (hroom : Room k₁ slot) :
    AlwaysClosable mach k₁ k.pid slot ↔ (WantsWrite flags → Storable full) := by
  have hle := copyUserCstr_length hcopy
  have hmax : vfsPathMax = 128 := rfl
  have habs : AbsText full := makeAbsPath_text (by omega) hfull
  obtain ⟨slot', hslot, hcore, h⟩ :=
    ksysOpen_opened (filesOk_reached hreach) hcopy hfull hopen (Int.natCast_nonneg _)
  obtain rfl : slot' = slot := Fin.ext (Int.ofNat_inj.mp hslot)
  refine ⟨fun hclose hwants => ?_, alwaysClosable_of_storable h habs⟩
  have hpid : k₁.pid = k.pid := by
    unfold KState.pid
    rw [hcore]
  rw [← hpid] at h hclose
  -- closing after a write of no bytes stores the file
  obtain ⟨hbuf, hvalid⟩ := validateBuffer_of_copied hcopy
  rw [← hcore] at hvalid
  obtain ⟨k₂, hwrite, hcore₂, hdirty, hroom₂⟩ := ksysWrite_nothing h hwants hroom hbuf hvalid
  have hpid₂ : k₂.pid = k₁.pid := by
    unfold KState.pid
    rw [hcore₂]
  have hsmall : toInt (BitVec.ofNat 32 slot'.val) = slot'.val := by
    have hlt : slot'.val < 16 := slot'.isLt
    have hnat : (BitVec.ofNat 32 slot'.val : U32).toNat = slot'.val := by
      rw [BitVec.toNat_ofNat]
      exact Nat.mod_eq_of_lt (by omega)
    unfold toInt
    rw [BitVec.toInt_eq_toNat_cond, hnat, if_pos (by omega)]
  have hstep : fileStep mach k₁ (.call sysWrite (BitVec.ofNat 32 slot'.val) path 0) = some k₂ := by
    have hcall : syscallEntry mach k₁ sysWrite (BitVec.ofNat 32 slot'.val) path 0 0 0 =
        ksysWrite mach k₁ (toInt (BitVec.ofNat 32 slot'.val)) path 0 := rfl
    show (syscallEntry mach k₁ sysWrite (BitVec.ofNat 32 slot'.val) path 0 0 0).done.map _ = _
    rw [hcall, hsmall, hwrite]
    rfl
  have hrun : Runs.run (fileStep mach) k₁ [.call sysWrite (BitVec.ofNat 32 slot'.val) path 0] =
      some k₂ := Runs.run_cons_eq_some.mpr ⟨k₂, hstep, rfl⟩
  have hnot : Runs.AllSteps (fileStep mach) (fun k e => ¬Closes slot'.val k₁.pid k e) k₁
      [.call sysWrite (BitVec.ofNat 32 slot'.val) path 0] :=
    ⟨fun hcloses => absurd hcloses.1 (by decide), fun _ _ => trivial⟩
  have hstays := (stays_run h.files h.isOpen rfl hnot hrun).2
  have hopen₂ : Open k₂ k₂.pid slot' := by
    rw [hpid₂]
    exact ⟨hstays.owner.used.trans h.isOpen.used, hstays.owner.pid.trans h.isOpen.pid_eq⟩
  have hdone := (closable_iff hopen₂ h.three).mp (hclose _ k₂ hnot hrun hpid₂ hroom₂)
  have hwritable : (k₂.files.fds slot').writable = true :=
    hstays.owner.writable.trans (h.writable.mpr hwants)
  unfold fdWriteBack at hdone
  rw [if_pos ⟨hwritable, hdirty⟩, hstays.owner.path, h.path_eq] at hdone
  exact vfsWriteFile_storable habs hdone

theorem alwaysClosable_demo : ∃ fs k₁ slot, vfsInit (fsInit none) plainHeap = some fs ∧
    (ksysOpen plainMach (freshState fs demoText) 0x00300000 (oRdwr ||| oTrunc)).done =
      some ((slot.val : Int), k₁) ∧
    (AlwaysClosable plainMach k₁ (freshState fs demoText).pid slot ↔
      (WantsWrite (oRdwr ||| oTrunc) → Storable demoText)) := by
  have hview : ((vfsInit (fsInit none) plainHeap).bind fun fs =>
      (ksysOpen plainMach (freshState fs demoText) 0x00300000 (oRdwr ||| oTrunc)).done.map fun r =>
        (r.1, (kmalloc r.2.files.fs.heap ((r.2.files.fds 3).writeSize + 1)).isSome)) =
      some (3, true) := by
    decide +kernel
  obtain ⟨fs, hinit, hview⟩ := Option.bind_eq_some_iff.mp hview
  obtain ⟨⟨fd, k₁⟩, hopen, hview⟩ := Option.map_eq_some_iff.mp hview
  obtain ⟨rfl, hroom⟩ := Prod.mk.inj hview
  have hcopy : (copyUserCstr (freshState fs demoText).core 0x00300000 128).1 = some demoText := by
    show (copyUserCstr (demoCore demoText) 0x00300000 128).1 = some demoText
    decide +kernel
  have hfull : makeAbsPath fs.tree vfsRoot demoText 128 = some demoText := by
    unfold makeAbsPath
    rw [if_neg (by decide), if_pos (by decide)]
    rfl
  have hreach : Reached plainMach (freshState fs demoText) :=
    ⟨_, [], ⟨⟨_, _, hinit⟩, fun _ => rfl, rfl⟩, rfl⟩
  exact ⟨fs, k₁, 3, hinit, hopen,
    alwaysClosable_iff hreach hcopy hfull hopen (Option.isSome_iff_ne_none.mp hroom)⟩

open SlopOS.Proofs.ReachableStates (demoBoot demoPath) in
/-- The program on the CD is opened for writing and four bytes are written; then the descriptor
cannot be closed. -/
theorem not_alwaysClosable_disc : ¬∀ mach k path flags (slot : Fin fdMax) k₁, Reached mach k →
    WantsWrite flags → (ksysOpen mach k path flags).done = some ((slot.val : Int), k₁) →
      AlwaysClosable mach k₁ k.pid slot := by
  intro hclaim
  have hview : ((vfsInit (fsInit (some 0)) plainHeap).bind fun fs =>
      (ksysOpen demoBoot.mach (freshState fs demoPath) 0x00300000 oWronly).done.bind fun r =>
        (Runs.run (fileStep demoBoot.mach) r.2 [.call sysWrite 3 0x00300000 4]).bind fun k₂ =>
          (ksysClose k₂ 3).done.map fun r' =>
            (r.1, k₂.pid, r'.1, (kmalloc k₂.files.fs.heap ((k₂.files.fds 3).writeSize + 1)).isSome)) =
      some (3, 0, errInval, true) := by
    decide +kernel
  obtain ⟨fs, hinit, hview⟩ := Option.bind_eq_some_iff.mp hview
  obtain ⟨⟨fd, k₁⟩, hopen, hview⟩ := Option.bind_eq_some_iff.mp hview
  obtain ⟨k₂, hrun, hview⟩ := Option.bind_eq_some_iff.mp hview
  obtain ⟨⟨r, k₃⟩, hclose, hview⟩ := Option.map_eq_some_iff.mp hview
  simp only [Prod.mk.injEq] at hview
  obtain ⟨rfl, hpid₂, rfl, hroom⟩ := hview
  have hreach : Reached demoBoot.mach (freshState fs demoPath) :=
    ⟨_, [], ⟨⟨_, _, hinit⟩, fun _ => rfl, rfl⟩, rfl⟩
  have hpid : (freshState fs demoPath).pid = 0 := by
    show toInt (demoCore demoPath).ring3.currentPid = 0
    have hkernel : (demoCore demoPath).ring3.currentPid = 0 := by decide +kernel
    rw [hkernel]
    rfl
  have hnot : Runs.AllSteps (fileStep demoBoot.mach)
      (fun k e => ¬Closes (3 : Fin fdMax).val (freshState fs demoPath).pid k e) k₁
      [.call sysWrite 3 0x00300000 4] :=
    ⟨fun hcloses => absurd hcloses.1 (by decide), fun _ _ => trivial⟩
  obtain ⟨k', hdone, -⟩ := hclaim demoBoot.mach _ 0x00300000 oWronly 3 k₁ hreach
    (Or.inl (by decide)) hopen _ k₂ hnot hrun (hpid₂.trans hpid.symm)
    (Option.isSome_iff_ne_none.mp hroom)
  have hcode := congrArg (Option.map Prod.fst) (hclose.symm.trans hdone)
  cases hcode

end SlopOS.Proofs.Closing
