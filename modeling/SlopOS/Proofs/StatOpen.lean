import SlopOS.Kernel.System
import SlopOS.Proofs.DiscFiles
import SlopOS.Proofs.FileOutcomes
import SlopOS.Proofs.PrintedPaths
/-!
# `ksys_stat` and `ksys_open`

`ksys_stat` hands the path on as it is; `ksys_open` first makes it absolute with
the printed working directory.  Both look at the same text for the mount, so
they can differ only where the joined text does not lead in the tree to where
the relative path leads.
-/

namespace SlopOS.Proofs.StatOpen

open SlopOS.Support SlopOS.Support.PathText SlopOS.Kernel
open SlopOS.Proofs.DiscPaths SlopOS.Proofs.DiscFiles
open SlopOS.Proofs.FileTree SlopOS.Proofs.FilePaths SlopOS.Proofs.TreeRuns
open SlopOS.Proofs.PrintedPaths SlopOS.Proofs.FileCursor SlopOS.Proofs.FileOutcomes

variable {mach : Machine} {k k' : KState} {fs : Fs} {path st n : U32} {fd : Int} {slot : Fin fdMax}
variable {kpath full subpath : CStr} {t : VfsTree} {cwd : Nat} {touched : List ByteMem.Span}

/-! ## Sizes -/

def fileSize (t : VfsTree) (r : Option Nat) : Option U32 :=
  r.bind fun n => if (t.node n).type = .file then some (t.node n).size else none

def discSize (mach : Machine) (fs : Fs) (subpath : CStr) : Option U32 :=
  (fsReadFileFromMount mach fs.mounts fs.heap cdromMount subpath).bind fun (data, _) =>
    data.map fun bs => BitVec.ofNat 32 bs.length

/-- The size of the file at a path, on the CD or in the tree. -/
def sizeAt (mach : Machine) (fs : Fs) (cwd : Nat) (path : CStr) : Option U32 :=
  match vfsMountSubpath (vfsCheckPath fs.tree cwd path) with
  | some subpath => discSize mach fs subpath
  | none => fileSize fs.tree (vfsResolveFrom fs.tree cwd path)

/-- The size of the regular file that `vfs_stat` reports. -/
def statSize (mach : Machine) (fs : Fs) (cwd : Nat) (path : CStr) : Option U32 :=
  (vfsStat mach fs cwd path).bind fun ((ok, stat), _) =>
    if ok ∧ stat.stMode = modeFile then some stat.stSize else none

theorem readFile_size (mach : Machine) (fs : Fs) (cwd : Nat) (path : CStr) :
    ((vfsReadFile mach fs cwd path).bind fun r => r.1.map Prod.snd) = sizeAt mach fs cwd path := by
  unfold vfsReadFile sizeAt
  cases vfsMountSubpath (vfsCheckPath fs.tree cwd path) with
  | some subpath =>
      dsimp only
      unfold discSize
      cases fsReadFileFromMount mach fs.mounts fs.heap cdromMount subpath with
      | none => rfl
      | some r =>
          obtain ⟨data, heap⟩ := r
          cases data <;> rfl
  | none =>
      dsimp only
      unfold fileSize
      cases vfsResolveFrom fs.tree cwd path with
      | none => rfl
      | some node =>
          dsimp only
          by_cases hfile : (fs.tree.node node).type = .file <;> simp [hfile]

theorem pathIsDir_of_readFile {mounts : Mounts} {heap heap' : Heap} {bs : Bytes}
    (h : fsReadFileFromMount mach mounts heap cdromMount subpath = some (some bs, heap')) :
    fsPathIsDirFromMount mach mounts cdromMount subpath = some false := by
  unfold fsReadFileFromMount at h
  unfold fsPathIsDirFromMount
  cases hdevice : mountedDevice mounts cdromMount with
  | none => simp [hdevice] at h
  | some id =>
      rw [hdevice] at h
      obtain ⟨loc, addr, hresolve, -⟩ := parts_of_readFileAlloc h
      dsimp only
      unfold isoOpsPathIsDir
      rw [hresolve]
      rfl

theorem statSize_eq (hne : kpath ≠ []) : statSize mach fs cwd kpath = sizeAt mach fs cwd kpath := by
  unfold statSize vfsStat sizeAt
  rw [if_neg hne]
  have hmode : ¬modeDir = modeFile := by decide
  cases vfsMountSubpath (vfsCheckPath fs.tree cwd kpath) with
  | none =>
      dsimp only
      unfold fileSize
      cases vfsResolveFrom fs.tree cwd kpath with
      | none => rfl
      | some node =>
          cases htype : (fs.tree.node node).type with
          | dir => simp [htype, hmode]
          | file => simp [htype]
  | some subpath =>
      dsimp only
      unfold discSize
      have hfile := @pathIsDir_of_readFile mach subpath fs.mounts fs.heap
      cases hread : fsReadFileFromMount mach fs.mounts fs.heap cdromMount subpath with
      | none =>
          cases fsPathIsDirFromMount mach fs.mounts cdromMount subpath with
          | none => rfl
          | some isDir => cases isDir <;> simp [hmode]
      | some r =>
          obtain ⟨data, heap⟩ := r
          cases data with
          | none =>
              cases fsPathIsDirFromMount mach fs.mounts cdromMount subpath with
              | none => rfl
              | some isDir => cases isDir <;> simp [hmode]
          | some bs =>
              rw [hfile hread]
              simp

/-! ## The two texts -/

theorem copyUserCstrLoop_length {c : Core} {m : Nat} {ptr : U32} {s : CStr}
    (h : (copyUserCstrLoop c m ptr).1 = some s) : s.length ≤ m := by
  induction m generalizing ptr s with
  | zero =>
      cases h
      exact Nat.le_refl _
  | succ m ih =>
      rw [copyUserCstrLoop] at h
      split at h
      · cases h
      split at h
      · cases h
        exact Nat.zero_le _
      · obtain ⟨rest, hrest, rfl⟩ := Option.map_eq_some_iff.mp h
        exact Nat.succ_le_succ (ih hrest)

theorem copyUserCstr_length {c : Core} {ptr : U32} {s : CStr}
    (h : (copyUserCstr c ptr vfsPathMax).1 = some s) : s.length ≤ vfsPathMax - 1 := by
  unfold copyUserCstr at h
  split at h
  · cases h
  · exact copyUserCstrLoop_length h

/-- Where the joined text leads, if a file is found there: nowhere else than the relative path, or
to a file of the same size. -/
def SameFile (t : VfsTree) (cwd : Nat) (path : CStr) : Prop :=
  path.head? = some (chr '/') ∨
    match vfsPathJoin vfsPathMax (vfsGetCwdPath t cwd vfsPathMax) path with
    | some full => (vfsMountSubpath full).isSome ∨
        fileSize t (vfsResolve t full) = fileSize t (vfsResolveFrom t cwd path)
    | none => fileSize t (vfsResolveFrom t cwd path) = none

theorem mountSubpath_slash (hend : full.getLast? = some (chr '/'))
    (hsub : vfsMountSubpath full = some subpath) : subpath.getLast? = some (chr '/') := by
  cases vfsMountSubpath_cases hsub with
  | cdrom => rfl
  | belowCdrom rest =>
      rw [List.getLast?_append_of_ne_nil _ (List.cons_ne_nil _ _)] at hend
      exact hend
  | bin => exact hend
  | belowBin rest => exact hend

theorem readFile_ne_of_slash {mounts : Mounts} {heap heap' : Heap} {front : CStr} {bs : Bytes} :
    fsReadFileFromMount mach mounts heap cdromMount (front ++ [chr '/']) ≠
      some (some bs, heap') := by
  intro hread
  have hpiece : lastPiece (chr '/') (front ++ [chr '/']) = [] := by
    rw [lastPiece_append_sep]
    exact lastPiece_of_not_mem List.not_mem_nil
  unfold fsReadFileFromMount at hread
  cases hdevice : mountedDevice mounts cdromMount with
  | none =>
      rw [hdevice] at hread
      cases hread
  | some id =>
      rw [hdevice] at hread
      obtain ⟨loc, addr, hresolve, -⟩ := parts_of_readFileAlloc hread
      obtain ⟨root, volumeSectors, dir, last, -, -, hsplit, hne, -⟩ :=
        isoResolvePath_file_iff.mp hresolve
      unfold isoSplit at hsplit
      rw [hpiece] at hsplit
      split at hsplit
      · cases hsplit
      · cases hsplit
      · dsimp only at hsplit
        rw [if_neg (by decide)] at hsplit
        simp only [Option.some.injEq, Prod.mk.injEq] at hsplit
        exact absurd hsplit.2.symm hne

/-- A join with nothing ends in a slash, and on the CD such a path is no file. -/
theorem discSize_of_slash (hend : full.getLast? = some (chr '/'))
    (hsub : vfsMountSubpath full = some subpath) : discSize mach fs subpath = none := by
  obtain ⟨front, rfl⟩ := List.getLast?_eq_some_iff.mp (mountSubpath_slash hend hsub)
  unfold discSize
  cases hread : fsReadFileFromMount mach fs.mounts fs.heap cdromMount (front ++ [chr '/']) with
  | none => rfl
  | some r =>
      obtain ⟨data, heap⟩ := r
      cases data with
      | none => rfl
      | some bs => exact absurd hread readFile_ne_of_slash

theorem join_nil_slash {size : Nat} {base : CStr} (hbase : base.head? = some (chr '/'))
    (h : vfsPathJoin size base [] = some full) : full.getLast? = some (chr '/') := by
  have hne : base ≠ [] := by
    rintro rfl
    cases hbase
  obtain ⟨rfl, -⟩ := vfsPathJoin_eq h
  obtain ⟨front, hfront, -⟩ := slashed_eq hne
  rw [hfront, List.append_nil, List.getLast?_concat]

def openSize (mach : Machine) (fs : Fs) (cwd : Nat) (path : CStr) : Option U32 :=
  (makeAbsPath fs.tree cwd path vfsPathMax).bind fun full => sizeAt mach fs cwd full

theorem fileSize_cwd (hcwd : (t.node cwd).type = .dir) :
    fileSize t (vfsResolveFrom t cwd []) = none := by
  have hres : vfsResolveFrom t cwd [] = some cwd := rfl
  rw [hres]
  simp [fileSize, hcwd]

theorem statSize_nil : statSize mach fs cwd [] = none := by
  unfold statSize vfsStat
  rw [if_pos rfl]
  simp [show ¬modeDir = modeFile by decide]

theorem sizeAt_absolute (hhead : full.head? = some (chr '/')) :
    sizeAt mach fs cwd full = match vfsMountSubpath full with
      | some subpath => discSize mach fs subpath
      | none => fileSize fs.tree (vfsResolve fs.tree full) := by
  have hcheck : vfsCheckPath fs.tree cwd full = full := by
    unfold vfsCheckPath
    rw [if_pos hhead]
  have hres : vfsResolveFrom fs.tree cwd full = vfsResolve fs.tree full := by
    unfold vfsResolve
    rw [vfsResolveFrom_eq, vfsResolveFrom_eq]
    unfold startOf
    rw [if_pos hhead, if_pos hhead]
  unfold sizeAt
  rw [hcheck, hres]

theorem sizes_unjoined (hcwd : (fs.tree.node cwd).type = .dir)
    (habs : ¬kpath.head? = some (chr '/'))
    (hjoin : vfsPathJoin vfsPathMax (vfsGetCwdPath fs.tree cwd vfsPathMax) kpath = none) :
    statSize mach fs cwd kpath = fileSize fs.tree (vfsResolveFrom fs.tree cwd kpath) := by
  by_cases hne : kpath = []
  · rw [hne, statSize_nil, fileSize_cwd hcwd]
  · have hcheck : vfsCheckPath fs.tree cwd kpath = kpath := by
      unfold vfsCheckPath
      rw [if_neg habs, hjoin]
      rfl
    rw [statSize_eq hne]
    unfold sizeAt
    rw [hcheck, mountSubpath_relative habs]

theorem sizes_joined (hcwd : (fs.tree.node cwd).type = .dir) (habs : ¬kpath.head? = some (chr '/'))
    (hjoin : vfsPathJoin vfsPathMax (vfsGetCwdPath fs.tree cwd vfsPathMax) kpath = some full) :
    statSize mach fs cwd kpath = match vfsMountSubpath full with
      | some subpath => discSize mach fs subpath
      | none => fileSize fs.tree (vfsResolveFrom fs.tree cwd kpath) := by
  by_cases hne : kpath = []
  · rw [hne] at hjoin ⊢
    rw [statSize_nil, fileSize_cwd hcwd]
    have hslash := join_nil_slash (cwdPath_head fs.tree cwd) hjoin
    cases hsub : vfsMountSubpath full with
    | some subpath => exact (discSize_of_slash hslash hsub).symm
    | none => rfl
  · have hcheck : vfsCheckPath fs.tree cwd kpath = full := by
      unfold vfsCheckPath
      rw [if_neg habs, hjoin]
      rfl
    rw [statSize_eq hne]
    unfold sizeAt
    rw [hcheck]

theorem sizes_iff (hlen : kpath.length ≤ vfsPathMax - 1) (hcwd : (fs.tree.node cwd).type = .dir) :
    statSize mach fs cwd kpath = openSize mach fs cwd kpath ↔ SameFile fs.tree cwd kpath := by
  unfold openSize makeAbsPath SameFile
  rw [if_neg (by decide)]
  by_cases habs : kpath.head? = some (chr '/')
  · have hne : kpath ≠ [] := by
      rintro rfl
      cases habs
    have hcopy : strCopy kpath vfsPathMax = kpath := List.take_of_length_le hlen
    rw [if_pos habs, Option.bind_some, hcopy, statSize_eq hne]
    exact ⟨fun _ => Or.inl habs, fun _ => rfl⟩
  rw [if_neg habs, or_iff_right habs]
  cases hjoin : vfsPathJoin vfsPathMax (vfsGetCwdPath fs.tree cwd vfsPathMax) kpath with
  | none => rw [Option.bind_none, sizes_unjoined hcwd habs hjoin]
  | some full =>
      obtain ⟨hhead, -⟩ := words_join (cwdPath_head fs.tree cwd) hjoin
      rw [Option.bind_some, sizes_joined hcwd habs hjoin, sizeAt_absolute hhead]
      dsimp only
      cases hsub : vfsMountSubpath full with
      | some subpath => exact ⟨fun _ => Or.inl rfl, fun _ => rfl⟩
      | none => simp [eq_comm]

/-- Where the working directory is printed in full and the join fits, the condition holds. -/
theorem sameFile_of_printable (h : TreeOk t) (hcwd : cwd < t.count) (hprint : Printable t cwd)
    (hjoin : vfsPathJoin vfsPathMax (vfsGetCwdPath t cwd vfsPathMax) kpath = some full) :
    SameFile t cwd kpath := by
  by_cases habs : kpath.head? = some (chr '/')
  · exact Or.inl habs
  · have hmake : makeAbsPath t cwd kpath vfsPathMax = some full := by
      unfold makeAbsPath
      rw [if_neg (by decide), if_neg habs]
      exact hjoin
    have hres : vfsResolve t full = vfsResolveFrom t cwd kpath := by
      unfold vfsResolve
      rw [(resolve_absPath habs hmake vfsRoot).2, (resolve_cwdPath_iff h hcwd).mpr hprint,
        Option.bind_some, vfsResolveFrom_eq]
      unfold startOf
      rw [if_neg habs]
    right
    rw [hjoin]
    exact Or.inr (congrArg (fileSize t) hres)

/-! ## The calls -/

/-- `ksys_stat` reports a regular file of this size. -/
def StatsFile (mach : Machine) (k : KState) (path st n : U32) : Prop :=
  ∃ k', (ksysStat mach k path st).done = some (0, k') ∧
    ByteMem.loadWords k'.core.mem st 2 = [modeFile, n]

/-- `ksys_open` without flags returns a descriptor. -/
def Opens (mach : Machine) (k : KState) (path : U32) (fd : Int) (k' : KState) : Prop :=
  (ksysOpen mach k path 0).done = some (fd, k') ∧ 0 ≤ fd

/-- `ksys_fstat` reports a regular file of this size, wherever it stores the record. -/
def FstatsFile (k : KState) (fd : Int) (n : U32) : Prop :=
  ∀ st, st ≠ 0 → validateUserPtr k.core st (BitVec.ofNat 32 userStatSize) = true →
    ∃ k', (ksysFstat k fd st).done = some (0, k') ∧
      ByteMem.loadWords k'.core.mem st 2 = [modeFile, n]

/-- `ksys_stat` and `ksys_open` agree about the path. -/
structure StatOpenAgree (mach : Machine) (k : KState) (path st : U32) : Prop where
  opens : (∃ n, StatsFile mach k path st n) ↔ ∃ fd k', Opens mach k path fd k'
  sameFile : ∀ n fd k', StatsFile mach k path st n → Opens mach k path fd k' →
    FstatsFile k' fd n ∧ ∃ bs : Bytes, bs.length = n.toNat ∧ ReadsToEnd k' fd bs

theorem loadWords_storeStat (k : KState) (st : U32) (stat : UserStat) :
    ByteMem.loadWords (k.storeStat st stat).core.mem st 2 = [stat.stMode, stat.stSize] :=
  ByteMem.loadWords_storeWords k.core.mem st [stat.stMode, stat.stSize]
    (show 4 * 2 ≤ 2 ^ 32 by decide)

theorem statsFile_iff (hpath : path ≠ 0) (hst : st ≠ 0)
    (hvalid : validateUserPtr k.core st (BitVec.ofNat 32 userStatSize) = true)
    (hcopy : copyUserCstr k.core path vfsPathMax = (some kpath, touched)) :
    StatsFile mach k path st n ↔ statSize mach k.files.fs k.cwd kpath = some n := by
  have hcopy' : copyUserCstr k.core path 128 = (some kpath, touched) := hcopy
  unfold StatsFile ksysStat statSize
  rw [if_neg (not_or.mpr ⟨hpath, hst⟩), if_neg (not_not.mpr hvalid), hcopy']
  dsimp only
  cases vfsStat mach k.files.fs k.cwd kpath with
  | none => simp
  | some r =>
      obtain ⟨⟨ok, stat⟩, fs⟩ := r
      have hload := loadWords_storeStat (k.setFs fs) st stat
      cases ok with
      | false => simp [Outcome.ret, errInval]
      | true =>
          simp only [Outcome.ret, if_true, Option.some.injEq, Prod.mk.injEq, true_and,
            exists_eq_left', hload, List.cons.injEq, and_true, Option.bind_some]
          by_cases hmode : stat.stMode = modeFile <;> simp [hmode]

/-- What an opening for reading has found, and the slot that it took. -/
theorem opens_spec (h : Opens mach k path fd k') : ∃ kpath full data size fs slot,
    (copyUserCstr k.core path vfsPathMax).1 = some kpath ∧
      makeAbsPath k.files.fs.tree k.cwd kpath vfsPathMax = some full ∧
      vfsReadFile mach k.files.fs k.cwd full = some (some (data, size), fs) ∧
      fdAllocSlot k.files.fds = some slot ∧ fd = slot.val ∧
        k' = (k.setFs fs).setFd slot (openEntry k.pid full data size 0) := by
  have hflags : ¬((0 : U32) &&& oCreat ≠ 0) := by decide
  have hplain : ∀ pid full (data : Option Bytes) size,
      (openEntry pid full data size 0).writable = false := fun _ _ _ _ => rfl
  obtain ⟨hdone, hfd⟩ := h
  cases ksysOpen_cases hdone with
  | refused hcode hnot =>
      rcases hcode with rfl | rfl
      · exact absurd hfd (by decide)
      · exact absurd hfd (by decide)
  | unmade hnames htouches => exact absurd hfd (by decide)
  | unread hnames htouches hread => exact absurd hfd (by decide)
  | noSlot hnames htouches hread hnone => exact absurd hfd (by decide)
  | opened hnames htouches hread hfree hopen =>
      unfold Touches at htouches
      rw [if_neg hflags] at htouches
      cases htouches
      cases hopen with
      | noRoom hwritable => exact absurd hwritable (by rw [hplain]; decide)
      | buffered hwritable => exact absurd hwritable (by rw [hplain]; decide)
      | plain =>
          exact ⟨_, _, _, _, _, _, hnames.copied, hnames.absPath, hread, hfree, rfl, rfl⟩

theorem opens_iff (hpath : path ≠ 0)
    (hcopy : copyUserCstr k.core path vfsPathMax = (some kpath, touched))
    (hslot : fdAllocSlot k.files.fds = some slot) :
    Opens mach k path fd k' ↔ ∃ full data size fs,
      makeAbsPath k.files.fs.tree k.cwd kpath vfsPathMax = some full ∧
      vfsReadFile mach k.files.fs k.cwd full = some (some (data, size), fs) ∧
      fd = slot.val ∧ k' = (k.setFs fs).setFd slot (openEntry k.pid full data size 0) := by
  have hcopy' : copyUserCstr k.core path 128 = (some kpath, touched) := hcopy
  have hset : k.setFs k.files.fs = k := rfl
  have hflags : ¬((0 : U32) &&& oCreat ≠ 0) := by decide
  constructor
  · intro h
    obtain ⟨kpath', full, data, size, fs, slot', hcopied, hfull, hread, hfree, hfd, hk⟩ :=
      opens_spec h
    rw [hcopy] at hcopied
    obtain rfl := Option.some.inj hcopied
    obtain rfl := Option.some.inj (hslot.symm.trans hfree)
    exact ⟨full, data, size, fs, hfull, hread, hfd, hk⟩
  · rintro ⟨full, data, size, fs, hfull, hread, rfl, rfl⟩
    have hfull' : makeAbsPath k.files.fs.tree k.cwd kpath 128 = some full := hfull
    have hslot' : fdAllocSlot (k.setFs fs).files.fds = some slot := hslot
    unfold Opens ksysOpen
    rw [if_neg hpath, hcopy']
    simp only [if_neg hflags, hset, not_true_eq_false, if_false]
    rw [hfull']
    dsimp only
    rw [hread]
    dsimp only
    rw [hslot']
    exact ⟨rfl, by omega⟩

theorem openAt_openEntry {data : Option Bytes} {size : U32} (hslot : fdAllocSlot k.files.fds = some slot) :
    ∃ c : Cursor U8, OpenAt ((k.setFs fs).setFd slot (openEntry k.pid full data size 0)) slot.val slot c ∧
      c.pos = 0 ∧ c.elems = contentsOf (openEntry k.pid full data size 0) := by
  have hentry : ((k.setFs fs).setFd slot (openEntry k.pid full data size 0)).files.fds slot =
      openEntry k.pid full data size 0 := Function.update_self _ _ _
  refine ⟨⟨contentsOf (openEntry k.pid full data size 0), 0, Nat.zero_le _⟩, ⟨?_, ?_, ?_⟩, rfl, rfl⟩
  · apply fdLookup_eq (fdAllocSlot_spec hslot).2
    · rw [hentry]
      rfl
    · rw [hentry]
      rfl
  · rw [hentry]
    rfl
  · rw [hentry]
    exact ⟨rfl, rfl⟩

theorem fstatsFile_of_openAt {c : Cursor U8} (h : OpenAt k fd slot c)
    (hsize : fdSize (k.files.fds slot) = n) : FstatsFile k fd n := by
  intro st hst hvalid
  have hthree := (fdLookup_spec h.lookup).2.2
  unfold ksysFstat
  rw [if_neg hst, if_neg (not_not.mpr hvalid), if_neg (by omega), h.lookup]
  refine ⟨_, rfl, ?_⟩
  rw [loadWords_storeStat]
  unfold fdSize at hsize
  rw [hsize]

/-- A descriptor that `ksys_open` returns, with the file that it found. -/
theorem opened_spec (hpath : path ≠ 0)
    (hcopy : copyUserCstr k.core path vfsPathMax = (some kpath, touched))
    (hslot : fdAllocSlot k.files.fds = some slot) (hopen : Opens mach k path fd k') :
    ∃ c, OpenAt k' fd slot c ∧ c.pos = 0 ∧ c.elems.length = (fdSize (k'.files.fds slot)).toNat ∧
      openSize mach k.files.fs k.cwd kpath = some (fdSize (k'.files.fds slot)) ∧
        k'.core = k.core := by
  obtain ⟨full, data, size, fs, hfull, hread, rfl, rfl⟩ := (opens_iff hpath hcopy hslot).mp hopen
  obtain ⟨c, hat, hpos, helems⟩ := @openAt_openEntry k fs slot full data size hslot
  have hentry : ((k.setFs fs).setFd slot (openEntry k.pid full data size 0)).files.fds slot =
    openEntry k.pid full data size 0 := Function.update_self _ _ _
  refine ⟨c, hat, hpos, ?_, ?_, rfl⟩
  · rw [hentry, helems, length_contentsOf]
  · unfold openSize
    rw [hfull, Option.bind_some, ← readFile_size, hread, hentry]
    rfl

theorem exists_opens (hpath : path ≠ 0)
    (hcopy : copyUserCstr k.core path vfsPathMax = (some kpath, touched))
    (hslot : fdAllocSlot k.files.fds = some slot)
    (hfound : openSize mach k.files.fs k.cwd kpath = some n) :
    ∃ fd k', Opens mach k path fd k' := by
  obtain ⟨full, hfull, hsize⟩ := Option.bind_eq_some_iff.mp hfound
  rw [← readFile_size] at hsize
  obtain ⟨⟨file, fs⟩, hread, hsize⟩ := Option.bind_eq_some_iff.mp hsize
  obtain ⟨⟨data, size⟩, rfl, rfl⟩ := Option.map_eq_some_iff.mp hsize
  exact ⟨_, _, (opens_iff hpath hcopy hslot).mpr ⟨full, data, size, fs, hfull, hread, rfl, rfl⟩⟩

/-- The two calls agree exactly where they find the same file. -/
theorem agree_iff_sameFile (hpath : path ≠ 0) (hst : st ≠ 0)
    (hvalid : validateUserPtr k.core st (BitVec.ofNat 32 userStatSize) = true)
    (hcopy : copyUserCstr k.core path vfsPathMax = (some kpath, touched))
    (hslot : fdAllocSlot k.files.fds = some slot)
    (hcwd : (k.files.fs.tree.node k.cwd).type = .dir) :
    StatOpenAgree mach k path st ↔ SameFile k.files.fs.tree k.cwd kpath := by
  have hlen : kpath.length ≤ vfsPathMax - 1 := copyUserCstr_length (by rw [hcopy])
  have hstats := fun n => @statsFile_iff mach k path st n kpath touched hpath hst hvalid hcopy
  have hopened := fun fd k' =>
    @opened_spec mach k k' path fd slot kpath touched hpath hcopy hslot
  have hfinds := fun n => @exists_opens mach k path n slot kpath touched hpath hcopy hslot
  rw [← @sizes_iff mach k.files.fs kpath k.cwd hlen hcwd]
  constructor
  · intro hagree
    cases hstat : statSize mach k.files.fs k.cwd kpath with
    | none =>
        cases hsome : openSize mach k.files.fs k.cwd kpath with
        | none => rfl
        | some n =>
            obtain ⟨m, hm⟩ := hagree.opens.mpr (hfinds n hsome)
            rw [hstats, hstat] at hm
            cases hm
    | some n =>
        obtain ⟨fd, k', hopen⟩ := hagree.opens.mp ⟨n, (hstats n).mpr hstat⟩
        obtain ⟨c, hat, -, -, hsome, hcore⟩ := hopened fd k' hopen
        obtain ⟨hfstat, -⟩ := hagree.sameFile n fd k' ((hstats n).mpr hstat) hopen
        rw [← hcore] at hvalid
        -- `ksys_fstat` has one answer
        obtain ⟨k₁, hdone₁, hload₁⟩ := hfstat st hst hvalid
        obtain ⟨k₂, hdone₂, hload₂⟩ := fstatsFile_of_openAt hat rfl st hst hvalid
        rw [hdone₁] at hdone₂
        cases hdone₂
        rw [hload₁] at hload₂
        rw [hsome]
        simpa using hload₂
  · intro heq
    constructor
    case opens =>
      constructor
      · rintro ⟨n, hn⟩
        rw [hstats, heq] at hn
        exact hfinds n hn
      · rintro ⟨fd, k', hopen⟩
        obtain ⟨c, -, -, -, hsome, -⟩ := hopened fd k' hopen
        refine ⟨fdSize (k'.files.fds slot), ?_⟩
        rw [hstats, heq]
        exact hsome
    case sameFile =>
      intro n fd k' hn hopen
      obtain ⟨c, hat, hpos, hlen, hsome, -⟩ := hopened fd k' hopen
      rw [hstats, heq, hsome] at hn
      have hsize := Option.some.inj hn
      rw [hsize] at hlen
      refine ⟨fstatsFile_of_openAt hat hsize, c.elems, hlen, ?_⟩
      have hreads := readsToEnd_of_openAt hat
      unfold Cursor.rest at hreads
      rw [hpos, List.drop_zero] at hreads
      exact hreads

/-- The path is absolute; or the working directory is at most 16 names deep, none of them is a dot,
and both paths together fit in the buffer. -/
def JoinsInFull (t : VfsTree) (cwd : Nat) (path : CStr) : Prop :=
  path.head? = some (chr '/') ∨
    (pathOf t cwd).length ≤ cwdPartsMax ∧ (∀ w ∈ pathOf t cwd, ¬Dot w) ∧
      roomFor (pathOf t cwd) + 1 + path.length < vfsPathMax

theorem sameFile_of_joins (h : TreeOk t) (hcwd : cwd < t.count) (hjoins : JoinsInFull t cwd kpath) :
    SameFile t cwd kpath := by
  rcases hjoins with habs | ⟨hdepth, hplain, hroom⟩
  · exact Or.inl habs
  · have hprint : Printable t cwd := by
      refine ⟨hdepth, ?_, hplain⟩
      omega
    have hfits : (vfsPathJoin vfsPathMax (vfsGetCwdPath t cwd vfsPathMax) kpath).isSome := by
      rw [vfsPathJoin_isSome_iff, length_slashed_cwdPath h hcwd hprint]
      exact hroom
    obtain ⟨full, hjoin⟩ := Option.isSome_iff_exists.mp hfits
    exact sameFile_of_printable h hcwd hprint hjoin

/-- Where the working directory is printed in full, only what fits behind it is opened. -/
theorem joins_of_opens (h : TreeOk k.files.fs.tree) (hcwd : k.cwd < k.files.fs.tree.count)
    (hprint : Printable k.files.fs.tree k.cwd)
    (hcopy : copyUserCstr k.core path vfsPathMax = (some kpath, touched))
    (hopen : Opens mach k path fd k') : JoinsInFull k.files.fs.tree k.cwd kpath := by
  obtain ⟨kpath', full, data, size, fs, slot, hcopied, hfull, -⟩ := opens_spec hopen
  rw [hcopy] at hcopied
  obtain rfl := Option.some.inj hcopied
  by_cases habs : kpath.head? = some (chr '/')
  · exact Or.inl habs
  · unfold makeAbsPath at hfull
    rw [if_neg (by decide), if_neg habs] at hfull
    have hfits := vfsPathJoin_isSome_iff.mp (Option.isSome_of_eq_some hfull)
    rw [length_slashed_cwdPath h hcwd hprint] at hfits
    exact Or.inr ⟨hprint.depth, hprint.plain, hfits⟩

/-- In every state of every run the two calls agree where the paths are joined in full, and where
the working directory is printed in full they agree about a file only there. -/
theorem statOpenAgree_run {mounts : Mounts} {heap : Heap} {fs₀ : Fs} {es : List TreeEvent}
    (hinit : vfsInit mounts heap = some fs₀)
    (hrun : Runs.run (treeStep mach) fs₀ es = some k.files.fs)
    (hcwd : k.cwd < k.files.fs.tree.count) (hdir : (k.files.fs.tree.node k.cwd).type = .dir)
    (hpath : path ≠ 0) (hst : st ≠ 0)
    (hvalid : validateUserPtr k.core st (BitVec.ofNat 32 userStatSize) = true)
    (hcopy : copyUserCstr k.core path vfsPathMax = (some kpath, touched))
    (hslot : fdAllocSlot k.files.fds = some slot) :
    (JoinsInFull k.files.fs.tree k.cwd kpath → StatOpenAgree mach k path st) ∧
      (Printable k.files.fs.tree k.cwd → StatsFile mach k path st n →
        StatOpenAgree mach k path st → JoinsInFull k.files.fs.tree k.cwd kpath) := by
  have htree : TreeOk k.files.fs.tree := treeOk_run hinit hrun
  constructor
  · intro hjoins
    exact (agree_iff_sameFile hpath hst hvalid hcopy hslot hdir).mpr
      (sameFile_of_joins htree hcwd hjoins)
  · intro hprint hstats hagree
    obtain ⟨fd, k', hopen⟩ := hagree.opens.mp ⟨n, hstats⟩
    exact joins_of_opens htree hcwd hprint hcopy hopen

def demoCore (path : CStr) : Core :=
  { coreInit plainMach with
    mem := ByteMem.store (fun _ => 0) 0x00300000 path.length fun j => path.getD j 0 }

/-- A kernel with this file system and working directory, and a path in its memory. -/
def demoState (fs : Fs) (cwd : Nat) (path : CStr) : KState where
  core := demoCore path
  services := serviceInit
  files :=
    { fs := fs, fds := fun _ => { emptyFd with pid := 0 }, userCwd := some cwd,
      userBootMbi := none, userBootMagic := 0, keyboard := fun _ => 0 }

def demoFile : List TreeEvent := demoDirs ++ [.writeFile 7 (cstr "f") (fun _ => 7) 1]

theorem statOpenAgree_demo : ∃ fs₀ fs, vfsInit (fsInit none) plainHeap = some fs₀ ∧
    Runs.run (treeStep plainMach) fs₀ demoFile = some fs ∧
      StatsFile plainMach (demoState fs 7 (cstr "f")) 0x00300000 0x00300100 1 ∧
        StatOpenAgree plainMach (demoState fs 7 (cstr "f")) 0x00300000 0x00300100 := by
  have hview : (callsFrom plainMach (fsInit none) plainHeap demoFile).map (fun fs =>
      (fs.tree.count, (fs.tree.node 7).type, pathOf fs.tree 7,
        statSize plainMach fs 7 (cstr "f"))) =
      some (9, .dir, [cstr "tmp", cstr "a", cstr "b"], some 1) := by decide +kernel
  obtain ⟨fs, hcalls, hfs⟩ := Option.map_eq_some_iff.mp hview
  obtain ⟨fs₀, hinit, hrun⟩ := Option.bind_eq_some_iff.mp hcalls
  simp only [Prod.mk.injEq] at hfs
  obtain ⟨hcount, htype, hnames, hsize⟩ := hfs
  have hcwd : 7 < fs.tree.count := by
    rw [hcount]
    decide
  have hjoins : JoinsInFull fs.tree 7 (cstr "f") := by
    unfold JoinsInFull
    rw [hnames]
    decide
  have hcopy : (copyUserCstr (demoCore (cstr "f")) 0x00300000 vfsPathMax).1 =
      some (cstr "f") := by decide +kernel
  have hpair := Prod.mk.eta (p := copyUserCstr (demoCore (cstr "f")) 0x00300000 vfsPathMax)
  rw [hcopy] at hpair
  have hvalid : validateUserPtr (demoCore (cstr "f")) 0x00300100
      (BitVec.ofNat 32 userStatSize) = true := by decide +kernel
  have hslot : fdAllocSlot (fun _ => { emptyFd with pid := 0 }) = some 3 := by decide +kernel
  have hstats := (@statsFile_iff plainMach (demoState fs 7 (cstr "f")) 0x00300000 0x00300100 1
    (cstr "f") _ (by decide) (by decide) hvalid hpair.symm).mpr hsize
  have hagree := @statOpenAgree_run plainMach (demoState fs 7 (cstr "f")) 0x00300000 0x00300100 1
    3 (cstr "f") _ _ _ _ _ hinit hrun hcwd htype (by decide) (by decide) hvalid hpair.symm hslot
  exact ⟨fs₀, fs, hinit, hrun, hstats, hagree.1 hjoins⟩

/-- A file `f` in the innermost of seventeen directories: `ksys_stat` finds it, and `ksys_open`
looks in the directory above. -/
theorem not_statOpenAgree_deep : ∃ fs₀ fs, vfsInit (fsInit none) plainHeap = some fs₀ ∧
    Runs.run (treeStep plainMach) fs₀ (nestedDirs ++ [.writeFile 22 (cstr "f") (fun _ => 7) 1]) =
      some fs ∧ (fs.tree.node 22).type = .dir ∧
        ¬StatOpenAgree plainMach (demoState fs 22 (cstr "f")) 0x00300000 0x00300100 := by
  have hview : (callsFrom plainMach (fsInit none) plainHeap
      (nestedDirs ++ [.writeFile 22 (cstr "f") (fun _ => 7) 1])).map (fun fs =>
        ((fs.tree.node 22).type,
          (ksysStat plainMach (demoState fs 22 (cstr "f")) 0x00300000 0x00300100).done.map
            (fun r => (r.1, ByteMem.loadWords r.2.core.mem 0x00300100 2)),
          (ksysOpen plainMach (demoState fs 22 (cstr "f")) 0x00300000 0).done.map Prod.fst)) =
      some (.dir, some (0, [modeFile, 1]), some errInval) := by decide +kernel
  obtain ⟨fs, hcalls, hfs⟩ := Option.map_eq_some_iff.mp hview
  obtain ⟨fs₀, hinit, hrun⟩ := Option.bind_eq_some_iff.mp hcalls
  simp only [Prod.mk.injEq] at hfs
  obtain ⟨htype, hstat, hopen⟩ := hfs
  refine ⟨fs₀, fs, hinit, hrun, htype, fun hagree => ?_⟩
  obtain ⟨⟨r, k⟩, hdone, hstored⟩ := Option.map_eq_some_iff.mp hstat
  simp only [Prod.mk.injEq] at hstored
  obtain ⟨rfl, hload⟩ := hstored
  obtain ⟨fd, k', hopens, hfd⟩ := hagree.opens.mp ⟨1, k, hdone, hload⟩
  rw [hopens, Option.map_some, Option.some.injEq] at hopen
  have hfails : fd = errInval := hopen
  rw [hfails] at hfd
  exact absurd hfd (by decide)

end SlopOS.Proofs.StatOpen
