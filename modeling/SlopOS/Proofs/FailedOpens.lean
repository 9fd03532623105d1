import SlopOS.Proofs.Creation
import SlopOS.Proofs.FileSessions
/-!
# What a failed `ksys_open` leaves

The descriptor slot is given back.  A file that `O_CREAT` made stays where there
is no free slot or no room for the buffer: the file system has no way to remove
a node.
-/

namespace SlopOS.Proofs.FailedOpens

open SlopOS.Support SlopOS.Kernel
open SlopOS.Proofs.FileTree SlopOS.Proofs.FilePaths SlopOS.Proofs.FileEdits SlopOS.Proofs.FileCalls
open SlopOS.Proofs.FileOutcomes SlopOS.Proofs.FileWrites SlopOS.Proofs.FileSessions SlopOS.Proofs.Creation
open SlopOS.Proofs.SystemCalls SlopOS.Proofs.StatOpen SlopOS.Proofs.TreeRuns

variable {mach : Machine} {k k' : KState} {fs₁ fs₂ : Fs} {path flags size : U32} {r : Int}
variable {full kpath : CStr} {data : Option Bytes} {slot : Fin fdMax} {heap : Heap}

/-- How the call ends in an error once the file need not or could be made. -/
inductive OpenEnds (mach : Machine) (k : KState) (flags : U32) (full : CStr) (fs₁ : Fs) :
    KState → Prop
  | notFound (fs₂ : Fs) : vfsReadFile mach fs₁ k.cwd full = some (none, fs₂) →
      OpenEnds mach k flags full fs₁ (k.setFs fs₂)
  | noSlot (data : Option Bytes) (size : U32) (fs₂ : Fs) :
      vfsReadFile mach fs₁ k.cwd full = some (some (data, size), fs₂) →
        fdAllocSlot k.files.fds = none → OpenEnds mach k flags full fs₁ (k.setFs fs₂)
  | noBuffer (data : Option Bytes) (size : U32) (fs₂ : Fs) (slot : Fin fdMax) :
      vfsReadFile mach fs₁ k.cwd full = some (some (data, size), fs₂) →
        fdAllocSlot k.files.fds = some slot →
          (openEntry k.pid full data size flags).writable = true →
            openForWrite mach fs₂.heap (openEntry k.pid full data size flags) data size flags =
              none → OpenEnds mach k flags full fs₁ ((k.setFs fs₂).setFd slot emptyFd)

/-- The file system as `vfs_touch` leaves it, if it is called. -/
def Prepared (k : KState) (flags : U32) (full : CStr) (fs₁ : Fs) : Prop :=
  (if flags &&& oCreat ≠ 0 then vfsTouch k.files.fs k.cwd full else (true, k.files.fs)) = (true, fs₁)

theorem vfsTouch_false (h : vfsTouch k.files.fs k.cwd full = (false, fs₁)) : fs₁ = k.files.fs := by
  rcases vfsTouch_cases k.files.fs k.cwd full with heq | ⟨_, _, _, heq, -⟩ | ⟨_, _, _, heq, -⟩
  · rw [heq] at h
    exact (congrArg Prod.snd h).symm
  · rw [heq] at h
    cases h
  · rw [heq] at h
    cases h

theorem ksysOpen_failed (h : (ksysOpen mach k path flags).done = some (r, k')) (hr : r < 0) :
    k' = k ∨ ∃ kpath full fs₁, (copyUserCstr k.core path 128).1 = some kpath ∧
      makeAbsPath k.files.fs.tree k.cwd kpath 128 = some full ∧ Prepared k flags full fs₁ ∧
        OpenEnds mach k flags full fs₁ k' := by
  cases ksysOpen_cases h with
  | refused => exact Or.inl rfl
  | @unmade _ full fs₁ _ htouches =>
      -- a touch that fails has changed nothing
      have hsame : fs₁ = k.files.fs := by
        unfold Touches at htouches
        split at htouches
        · exact vfsTouch_false htouches
        · cases htouches
      rw [hsame]
      exact Or.inl rfl
  | unread hnames htouches hread =>
      exact Or.inr ⟨_, _, _, hnames.copied, hnames.absPath, htouches, .notFound _ hread⟩
  | noSlot hnames htouches hread hslot =>
      exact Or.inr ⟨_, _, _, hnames.copied, hnames.absPath, htouches, .noSlot _ _ _ hread hslot⟩
  | opened hnames htouches hread hslot hopen =>
      cases hopen with
      | noRoom hwritable hnone =>
          exact Or.inr ⟨_, _, _, hnames.copied, hnames.absPath, htouches,
            .noBuffer _ _ _ _ hread hslot hwritable hnone⟩
      | buffered => omega
      | plain => omega

/-- What is not a file or a descriptor, and the tree's surroundings. -/
structure SameRest (k k' : KState) : Prop where
  core : k'.core = k.core
  services : k'.services = k.services
  mounts : k'.files.fs.mounts = k.files.fs.mounts
  userCwd : k'.files.userCwd = k.files.userCwd

/-- `O_CREAT` made an empty file at the path, and then a slot or a buffer was missing. -/
def CreatedOnly (k k' : KState) (path flags : U32) : Prop :=
  flags &&& oCreat ≠ 0 ∧ ∃ kpath full, (copyUserCstr k.core path 128).1 = some kpath ∧
    makeAbsPath k.files.fs.tree k.cwd kpath 128 = some full ∧
      LeavesEmpty k.files.fs.tree k'.files.fs.tree k.cwd full ∧
        (fdAllocSlot k.files.fds = none ∨
          WantsWrite flags ∧ kmalloc k'.files.fs.heap 256 = none)

/-- No descriptor in use has changed, and none has come into use. -/
def SlotsKept (k k' : KState) : Prop :=
  ∀ slot, k'.files.fds slot = k.files.fds slot ∨
    (k.files.fds slot).used = false ∧ k'.files.fds slot = emptyFd

structure OpenUndone (k k' : KState) (path flags : U32) : Prop where
  tree : k'.files.fs.tree = k.files.fs.tree ∨ CreatedOnly k k' path flags
  slots : SlotsKept k k'
  rest : SameRest k k'

theorem OpenEnds.tree (h : OpenEnds mach k flags full fs₁ k') :
    k'.files.fs.tree = fs₁.tree ∧ k'.files.fs.mounts = fs₁.mounts := by
  cases h with
  | notFound fs₂ hread => exact vfsReadFile_keeps hread
  | noSlot data size fs₂ hread => exact vfsReadFile_keeps hread
  | noBuffer data size fs₂ slot hread => exact vfsReadFile_keeps hread

theorem OpenEnds.slots (h : OpenEnds mach k flags full fs₁ k') : SlotsKept k k' := by
  cases h with
  | notFound fs₂ => exact fun _ => Or.inl rfl
  | noSlot data size fs₂ => exact fun _ => Or.inl rfl
  | noBuffer data size fs₂ slot _ hslot =>
      intro other
      by_cases hother : other = slot
      · rw [hother]
        exact Or.inr ⟨(fdAllocSlot_spec hslot).1, Function.update_self _ _ _⟩
      · exact Or.inl (Function.update_of_ne hother _ _)

theorem OpenEnds.rest (h : OpenEnds mach k flags full fs₁ k') (hmounts : fs₁.mounts = k.files.fs.mounts) :
    SameRest k k' := by
  have hfs := h.tree.2.trans hmounts
  cases h with
  | notFound => exact ⟨rfl, rfl, hfs, rfl⟩
  | noSlot => exact ⟨rfl, rfl, hfs, rfl⟩
  | noBuffer => exact ⟨rfl, rfl, hfs, rfl⟩

theorem noRoom_of_empty {entry : FdEntry} (hcapacity : entry.writeCapacity = 0)
    (h : openForWrite mach heap entry data 0 flags = none) : kmalloc heap 256 = none := by
  have hsize : initialSize 0 flags = 0 := ite_self 0
  have hnone := openForWrite_none h
  have hgrow : growCapacity (0 + 1) 33 256 = some 256 := rfl
  have hzero : ¬((0 : U32) + 1 ≤ 0) := by decide
  unfold fdEnsureWriteCapacity at hnone
  rw [hsize, hcapacity, if_neg hzero, if_pos rfl, hgrow] at hnone
  cases hroom : kmalloc heap 256 with
  | none => rfl
  | some made =>
      dsimp only at hnone
      rw [hroom] at hnone
      cases hnone

/-- Where the file was made, it is found, so a slot or the buffer was missing. -/
theorem OpenEnds.missing {parent : Nat} {name : CStr} (h : OpenEnds mach k flags full fs₁ k')
    (habs : AbsText full) (hcreates : Creates k.files.fs k.cwd full .file parent name fs₁)
    (hempty : LeavesEmpty k.files.fs.tree fs₁.tree k.cwd full) :
    k'.files.fs.heap = fs₁.heap ∧ (fdAllocSlot k.files.fds = none ∨
      WantsWrite flags ∧ kmalloc fs₁.heap 256 = none) := by
  have hgate : vfsMountSubpath full = none := by
    have hallowed := hcreates.target.allowed
    rw [habs.check] at hallowed
    exact hallowed
  have hread : vfsReadFile mach fs₁ k.cwd full = some (some (none, 0), fs₁) := by
    unfold vfsReadFile
    rw [habs.check, hgate]
    dsimp only
    rw [hempty.leads]
    dsimp only
    rw [if_pos hempty.isFile, hempty.data, hempty.size]
  cases h with
  | notFound fs₂ hfound =>
      rw [hread] at hfound
      cases hfound
  | noSlot data size fs₂ hfound hslot =>
      rw [hread] at hfound
      cases hfound
      exact ⟨rfl, Or.inl hslot⟩
  | noBuffer data size fs₂ slot hfound hslot hwritable hopen =>
      rw [hread] at hfound
      cases hfound
      have hwants : WantsWrite flags := by
        have hor : (decide (flags &&& oAccmode = oWronly) || decide (flags &&& oAccmode = oRdwr)) =
            true := hwritable
        rw [Bool.or_eq_true, decide_eq_true_eq, decide_eq_true_eq] at hor
        exact hor
      exact ⟨rfl, Or.inr ⟨hwants, noRoom_of_empty rfl hopen⟩⟩

/-- A `ksys_open` that fails gives everything back but an empty file that it made. -/
theorem openUndone (hreach : Reached mach k)
    (h : (ksysOpen mach k path flags).done = some (r, k')) (hr : r < 0) :
    OpenUndone k k' path flags := by
  have hk := filesOk_reached hreach
  rcases ksysOpen_failed h hr with rfl | ⟨kpath, full, fs₁, hcopy, hfull, hprepared, hends⟩
  · exact ⟨Or.inl rfl, fun _ => Or.inl rfl, rfl, rfl, rfl, rfl⟩
  have hlen : kpath.length < 128 := by
    have hle : kpath.length ≤ 127 := copyUserCstr_length hcopy
    omega
  have habs := makeAbsPath_text hlen hfull
  have hsame : fs₁ = k.files.fs → OpenUndone k k' path flags := by
    intro hfs
    refine ⟨Or.inl ?_, hends.slots, hends.rest (by rw [hfs])⟩
    rw [hends.tree.1, hfs]
  unfold Prepared at hprepared
  by_cases hcreat : flags &&& oCreat ≠ 0
  swap
  · rw [if_neg hcreat] at hprepared
    exact hsame (congrArg Prod.snd hprepared).symm
  rw [if_pos hcreat] at hprepared
  rcases vfsTouch_cases k.files.fs k.cwd full with heq | ⟨_, _, _, heq, -⟩ |
    ⟨parent, name, fs', heq, hcreates⟩
  · rw [heq] at hprepared
    cases hprepared
  · rw [heq] at hprepared
    exact hsame (congrArg Prod.snd hprepared).symm
  · rw [heq] at hprepared
    obtain rfl : fs' = fs₁ := congrArg Prod.snd hprepared
    have hnamed : Named full := by
      constructor
      · rintro (rfl | rfl)
        · exact absurd habs.head (by decide)
        · exact absurd habs.head (by decide)
      · exact Or.inl (List.mem_of_mem_head? habs.head)
    have hempty := hcreates.leavesEmpty hk.tree hk.cwd hnamed
    obtain ⟨hheap, hmissing⟩ := hends.missing habs hcreates hempty
    refine ⟨Or.inr ⟨hcreat, kpath, full, hcopy, hfull, ?_, ?_⟩, hends.slots,
      hends.rest hcreates.mounts⟩
    · rw [hends.tree.1]
      exact hempty
    · rw [hheap]
      exact hmissing

/-- A heap that has room for one node when `vfs_init` is done. -/
def tightHeap : Heap := ⟨0x00180000, 0x00180000, 0x00180240, true⟩

def newText : CStr := cstr "/tmp/new"

/-- `open("/tmp/new", O_CREAT | O_WRONLY)` makes the file and finds no room for the buffer. -/
theorem openUndone_demo : ∃ fs k', vfsInit (fsInit none) tightHeap = some fs ∧
    (ksysOpen plainMach (freshState fs newText) 0x00300000 (oCreat ||| oWronly)).done =
      some (errInval, k') ∧
    OpenUndone (freshState fs newText) k' 0x00300000 (oCreat ||| oWronly) := by
  have hview : ((vfsInit (fsInit none) tightHeap).bind fun fs =>
      (ksysOpen plainMach (freshState fs newText) 0x00300000 (oCreat ||| oWronly)).done.map
        Prod.fst) = some errInval := by decide +kernel
  obtain ⟨fs, hinit, hopen⟩ := Option.bind_eq_some_iff.mp hview
  obtain ⟨⟨r, k'⟩, hdone, hr⟩ := Option.map_eq_some_iff.mp hopen
  obtain rfl : r = errInval := hr
  have hfresh : Fresh (freshState fs newText) := ⟨⟨_, _, hinit⟩, fun _ => rfl, rfl⟩
  exact ⟨fs, k', hinit, hdone, openUndone ⟨_, [], hfresh, rfl⟩ hdone (by decide)⟩

/-- And the file stays. -/
theorem not_treeKept_tight : ∃ fs k', vfsInit (fsInit none) tightHeap = some fs ∧
    (ksysOpen plainMach (freshState fs newText) 0x00300000 (oCreat ||| oWronly)).done =
      some (errInval, k') ∧ k'.files.fs.tree ≠ fs.tree := by
  have hview : ((vfsInit (fsInit none) tightHeap).bind fun fs =>
      (ksysOpen plainMach (freshState fs newText) 0x00300000 (oCreat ||| oWronly)).done.map
        fun result => (result.1, fs.tree.count, result.2.files.fs.tree.count)) =
          some (errInval, 6, 7) := by decide +kernel
  obtain ⟨fs, hinit, hopen⟩ := Option.bind_eq_some_iff.mp hview
  obtain ⟨⟨r, k'⟩, hdone, hfs⟩ := Option.map_eq_some_iff.mp hopen
  obtain ⟨hr, hcounts⟩ := Prod.mk.inj hfs
  obtain ⟨hold, hnew⟩ := Prod.mk.inj hcounts
  obtain rfl : r = errInval := hr
  refine ⟨fs, k', hinit, hdone, fun hsame => ?_⟩
  rw [hsame, hold] at hnew
  exact absurd hnew (by decide)

end SlopOS.Proofs.FailedOpens
