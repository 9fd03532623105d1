import SlopOS.Proofs.DiscPaths
/-!
# The directories of a disc

The directories that the records of a disc lead to, and whether the functions
that scan them come back.  A scan of a directory always ends exactly if its size
is at most `scanSizeMax`; `iso_extent_valid` also admits larger ones, because the
size is rounded up to sectors with a sum that wraps.
-/

namespace SlopOS.Proofs.DiscDirs

open SlopOS.Support SlopOS.Support.PathText SlopOS.Kernel
open SlopOS.Proofs.DiscScan SlopOS.Proofs.DiscPaths

/-- A component that fits the buffer of the path walk. -/
structure CompOk (comp : CStr) : Prop where
  ne_nil : comp ≠ []
  no_slash : chr '/' ∉ comp
  short : comp.length < direntNameSize

/-- `dir` is the root or a directory below it; `volumeSectors` is what the volume descriptor
says. -/
inductive DirOnDisc (read : Disc) (volumeSectors : U32) : IsoDirLoc → Prop
  | root {root : IsoDirLoc} : isoReadPvdRoot read = some (root, volumeSectors) →
      isoExtentValid root.extentLba root.size volumeSectors = true →
      DirOnDisc read volumeSectors root
  | child {dir child : IsoDirLoc} {name : CStr} : DirOnDisc read volumeSectors dir → CompOk name →
      isoFindChild read dir name = some (some child) → child.flags &&& 0x02 ≠ 0 →
      isoExtentValid child.extentLba child.size volumeSectors = true →
      DirOnDisc read volumeSectors child

variable {read : Disc} {volumeSectors : U32} {root dir child : IsoDirLoc} {name path : CStr}
variable {comps : List CStr}

theorem compOk_of_mem (hmem : name ∈ components (chr '/') path)
    (hlen : name.length < direntNameSize) : CompOk name :=
  ⟨ne_nil_of_mem_components hmem, sep_not_mem_of_mem_components hmem, hlen⟩

theorem descend_eq_some (h : descend read volumeSectors dir name = some (some child)) :
    name.length < direntNameSize ∧ isoFindChild read dir name = some (some child) ∧
      child.flags &&& 0x02 ≠ 0 ∧
      isoExtentValid child.extentLba child.size volumeSectors = true := by
  unfold descend at h
  split at h
  · cases h
  rename_i hlen
  split at h
  · cases h
  · cases h
  rename_i found hfind
  split at h
  · cases h
  rename_i hflags
  split at h
  · cases h
  rename_i hvalid
  cases h
  exact ⟨Nat.not_le.mp hlen, hfind, hflags, by simpa using hvalid⟩

theorem descend_of_child (hlen : name.length < direntNameSize)
    (hfind : isoFindChild read dir name = some (some child)) (hflags : child.flags &&& 0x02 ≠ 0)
    (hvalid : isoExtentValid child.extentLba child.size volumeSectors = true) :
    descend read volumeSectors dir name = some (some child) := by
  unfold descend
  rw [if_neg (Nat.not_le.mpr hlen), hfind]
  dsimp only
  rw [if_neg hflags, hvalid]
  rfl

theorem dirOnDisc_descend (hdir : DirOnDisc read volumeSectors dir)
    (hmem : name ∈ components (chr '/') path)
    (h : descend read volumeSectors dir name = some (some child)) :
    DirOnDisc read volumeSectors child := by
  obtain ⟨hlen, hfind, hflags, hvalid⟩ := descend_eq_some h
  exact .child hdir (compOk_of_mem hmem hlen) hfind hflags hvalid

theorem dirOnDisc_descendAll (hdir : DirOnDisc read volumeSectors dir)
    (hmem : ∀ comp ∈ comps, comp ∈ components (chr '/') path)
    (h : descendAll read volumeSectors comps dir = some (some child)) :
    DirOnDisc read volumeSectors child := by
  induction comps generalizing dir with
  | nil =>
      cases h
      exact hdir
  | cons comp comps ih =>
      rw [descendAll] at h
      split at h
      · cases h
      · cases h
      rename_i next hnext
      have hon := dirOnDisc_descend hdir (hmem comp List.mem_cons_self) hnext
      exact ih hon (fun c hc => hmem c (List.mem_cons_of_mem _ hc)) h

theorem mem_components_of_ended (hmem : name ∈ endedWords (chr '/') path) :
    name ∈ components (chr '/') path := by
  rw [components_eq_ended]
  exact List.mem_append_left _ hmem

theorem isoSplit_eq_some {last : CStr}
    (h : isoSplit read volumeSectors root path = some (some (dir, last))) :
    descendAll read volumeSectors (endedWords (chr '/') path) root = some (some dir) ∧
      last = lastPiece (chr '/') path ∧ last.length < direntNameSize := by
  unfold isoSplit at h
  split at h
  · cases h
  · cases h
  rename_i found hfound
  dsimp only at h
  split at h
  · cases h
  rename_i hlen
  cases h
  exact ⟨hfound, rfl, Nat.not_le.mp hlen⟩

theorem dirOnDisc_isoSplit {last : CStr} (hroot : DirOnDisc read volumeSectors root)
    (h : isoSplit read volumeSectors root path = some (some (dir, last))) :
    DirOnDisc read volumeSectors dir :=
  dirOnDisc_descendAll hroot (fun _ => mem_components_of_ended) (isoSplit_eq_some h).1

theorem descendAll_append (comps : List CStr) (dir : IsoDirLoc) :
    descendAll read volumeSectors (comps ++ [name]) dir =
      match descendAll read volumeSectors comps dir with
      | none => none
      | some none => some none
      | some (some child) => descend read volumeSectors child name := by
  induction comps generalizing dir with
  | nil =>
      rw [List.nil_append, descendAll, descendAll]
      dsimp only
      cases descend read volumeSectors dir name with
      | none => rfl
      | some found => cases found <;> rfl
  | cons comp comps ih =>
      rw [List.cons_append, descendAll, descendAll]
      cases descend read volumeSectors dir comp with
      | none => rfl
      | some found =>
          cases found with
          | none => rfl
          | some child => exact ih child

theorem descendAll_append_some : descendAll read volumeSectors (comps ++ [name]) dir =
      some (some child) ↔
    ∃ parent, descendAll read volumeSectors comps dir = some (some parent) ∧
      descend read volumeSectors parent name = some (some child) := by
  rw [descendAll_append]
  cases descendAll read volumeSectors comps dir with
  | none => simp
  | some found => cases found <;> simp

/-- A path resolves to the directory that its components lead to. -/
theorem isoResolvePath_dir_iff : isoResolvePath read path = some (some (dir, true)) ↔
    ∃ root volumeSectors, isoReadPvdRoot read = some (root, volumeSectors) ∧
      isoExtentValid root.extentLba root.size volumeSectors = true ∧
      descendAll read volumeSectors (components (chr '/') path) root = some (some dir) := by
  rw [isoResolvePath_eq, components_eq_ended]
  constructor
  · intro h
    split at h
    · cases h
    rename_i root volumeSectors hpvd
    split at h
    · cases h
    rename_i hroot
    refine ⟨root, volumeSectors, hpvd, by simpa using hroot, ?_⟩
    split at h
    · cases h
    · cases h
    rename_i parent last hsplit
    obtain ⟨hended, rfl, hlen⟩ := isoSplit_eq_some hsplit
    split at h
    · rename_i hlast
      cases h
      rw [if_pos hlast, List.append_nil]
      exact hended
    rename_i hlast
    split at h
    · cases h
    · cases h
    rename_i child hchild
    split at h
    · cases h
    rename_i hvalid
    simp only [Option.some_inj, Prod.mk.injEq, decide_eq_true_eq] at h
    obtain ⟨rfl, hflags⟩ := h
    rw [if_neg hlast]
    exact descendAll_append_some.mpr
      ⟨parent, hended, descend_of_child hlen hchild hflags (by simpa using hvalid)⟩
  · rintro ⟨root, volumeSectors, hpvd, hroot, hdir⟩
    rw [hpvd]
    dsimp only
    rw [hroot, isoSplit]
    by_cases hlast : lastPiece (chr '/') path = []
    · rw [if_pos hlast, List.append_nil] at hdir
      rw [hdir, hlast]
      rfl
    · rw [if_neg hlast] at hdir
      obtain ⟨parent, hended, hdown⟩ := descendAll_append_some.mp hdir
      obtain ⟨hlen, hfind, hflags, hvalid⟩ := descend_eq_some hdown
      rw [hended]
      dsimp only
      rw [if_neg (Nat.not_le.mpr hlen)]
      dsimp only
      rw [if_neg hlast, hfind]
      dsimp only
      rw [hvalid, decide_eq_true hflags]
      rfl

theorem dirOnDisc_of_resolve (h : isoResolvePath read path = some (some (dir, true))) :
    ∃ volumeSectors, DirOnDisc read volumeSectors dir := by
  obtain ⟨root, volumeSectors, hpvd, hroot, hdir⟩ := isoResolvePath_dir_iff.mp h
  exact ⟨volumeSectors, dirOnDisc_descendAll (.root hpvd hroot) (fun _ => id) hdir⟩

/-! ## Every directory has a path -/

theorem comps_of_dirOnDisc (h : DirOnDisc read volumeSectors dir) :
    ∃ root comps, isoReadPvdRoot read = some (root, volumeSectors) ∧
      isoExtentValid root.extentLba root.size volumeSectors = true ∧
      (∀ comp ∈ comps, CompOk comp) ∧
      descendAll read volumeSectors comps root = some (some dir) := by
  induction h with
  | root hpvd hvalid => exact ⟨_, [], hpvd, hvalid, by simp, rfl⟩
  | @child parent child name _ hname hfind hflags hvalid ih =>
      obtain ⟨root, comps, hpvd, hroot, hcomps, hdescend⟩ := ih
      refine ⟨root, comps ++ [name], hpvd, hroot, fun comp hcomp => ?_, ?_⟩
      · rcases List.mem_append.mp hcomp with hcomp | hcomp
        · exact hcomps comp hcomp
        · rw [List.mem_singleton.mp hcomp]
          exact hname
      · exact descendAll_append_some.mpr
          ⟨parent, hdescend, descend_of_child hname.short hfind hflags hvalid⟩

theorem isoResolvePath_of_dirOnDisc (h : DirOnDisc read volumeSectors dir) :
    ∃ path, isoResolvePath read path = some (some (dir, true)) := by
  obtain ⟨root, comps, hpvd, hroot, hcomps, hdescend⟩ := comps_of_dirOnDisc h
  obtain ⟨hended, hlast⟩ := @ended_flatMap _ _ (chr '/') _
    fun comp hcomp => ⟨(hcomps comp hcomp).ne_nil, (hcomps comp hcomp).no_slash⟩
  refine ⟨comps.flatMap fun w => w ++ [chr '/'],
    isoResolvePath_dir_iff.mpr ⟨root, volumeSectors, hpvd, hroot, ?_⟩⟩
  rw [components_eq_ended, hlast, if_pos rfl, List.append_nil, hended]
  exact hdescend

/-! ## Termination -/

/-- Every scan of `dir` ends, whatever the disc holds, and on the way to its end its offset
grows. -/
def ScansEnd (dir : IsoDirLoc) : Prop :=
  ∀ read : Disc, (∀ name, (isoFindChild read dir name).isSome) ∧ (isoListDir read dir).isSome ∧
    (∀ maxEntries, (isoListDirEntries read dir maxEntries).isSome) ∧
    ∀ offset next, StepsTo read dir offset next → offset.toNat < next.toNat

theorem scansEnd_iff (dir : IsoDirLoc) : ScansEnd dir ↔ dir.size.toNat ≤ scanSizeMax := by
  constructor
  · intro h
    by_contra hsize
    have hblank : Blank (fun _ => some fun _ => 0) dir := fun _ => rfl
    have hloop : isoFindChild (fun _ => some fun _ => 0) dir [] = none :=
      findChildLoop_blank hblank (Nat.not_le.mp hsize) rfl
    have hend := (h fun _ => some fun _ => 0).1 []
    rw [hloop] at hend
    cases hend
  · intro hsize read
    have hlist : (isoListDir read dir).isSome := isoListDir_isSome hsize
    refine ⟨fun name => isoFindChild_isSome hsize, hlist, fun maxEntries => ?_,
      fun offset next => stepsTo_lt hsize⟩
    unfold isoListDirEntries
    rw [Option.isSome_map]
    exact hlist

def PathsEnd (read : Disc) : Prop :=
  ∀ path heap, (isoResolvePath read path).isSome ∧ (isoReadFileAlloc read heap path).isSome ∧
    (isoOpsListDir read path).isSome

theorem descendAll_isSome (hdir : DirOnDisc read volumeSectors dir)
    (hmem : ∀ comp ∈ comps, comp ∈ components (chr '/') path)
    (hsmall : ∀ d, DirOnDisc read volumeSectors d → d.size.toNat ≤ scanSizeMax) :
    (descendAll read volumeSectors comps dir).isSome := by
  induction comps generalizing dir with
  | nil => rfl
  | cons comp comps ih =>
      have hcomp := hmem comp List.mem_cons_self
      rw [descendAll]
      cases hnext : descend read volumeSectors dir comp with
      | none =>
          have hfind : (isoFindChild read dir comp).isSome := isoFindChild_isSome (hsmall dir hdir)
          obtain ⟨found, hfound⟩ := Option.isSome_iff_exists.mp hfind
          unfold descend at hnext
          rw [hfound] at hnext
          cases found with
          | none => simp at hnext
          | some child =>
              dsimp only at hnext
              split at hnext
              · cases hnext
              split at hnext
              · cases hnext
              split at hnext <;> cases hnext
      | some found =>
          cases found with
          | none => rfl
          | some child =>
              exact ih (dirOnDisc_descend hdir hcomp hnext)
                fun c hc => hmem c (List.mem_cons_of_mem _ hc)

theorem isoSplit_isSome (hroot : DirOnDisc read volumeSectors root)
    (hsmall : ∀ d, DirOnDisc read volumeSectors d → d.size.toNat ≤ scanSizeMax) :
    (isoSplit read volumeSectors root path).isSome := by
  have hall := @descendAll_isSome _ _ _ path _ hroot (fun _ => mem_components_of_ended) hsmall
  obtain ⟨found, hfound⟩ := Option.isSome_iff_exists.mp hall
  unfold isoSplit
  rw [hfound]
  cases found with
  | none => rfl
  | some dir =>
      dsimp only
      split <;> rfl

section SmallDirs

variable (hsmall : ∀ volumeSectors dir, DirOnDisc read volumeSectors dir →
  dir.size.toNat ≤ scanSizeMax)
include hsmall

theorem walk_isSome {root : IsoDirLoc} {volumeSectors : U32} (path : CStr)
    (hpvd : isoReadPvdRoot read = some (root, volumeSectors))
    (hvalid : isoExtentValid root.extentLba root.size volumeSectors = true) :
    (isoSplit read volumeSectors root path).isSome ∧
      ∀ dir last, isoSplit read volumeSectors root path = some (some (dir, last)) →
        (isoFindChild read dir last).isSome := by
  have hroot : DirOnDisc read volumeSectors root := .root hpvd hvalid
  refine ⟨isoSplit_isSome hroot (hsmall volumeSectors), fun dir last hsplit => ?_⟩
  exact isoFindChild_isSome (hsmall volumeSectors dir (dirOnDisc_isoSplit hroot hsplit))

theorem isoResolvePath_isSome (path : CStr) : (isoResolvePath read path).isSome := by
  rw [isoResolvePath_eq]
  split
  · rfl
  rename_i root volumeSectors hpvd
  split
  · rfl
  rename_i hvalid
  obtain ⟨hsplit, hfind⟩ := walk_isSome hsmall path hpvd (by simpa using hvalid)
  split
  · rename_i hnone
    rw [hnone] at hsplit
    cases hsplit
  · rfl
  rename_i dir last hparts
  split
  · rfl
  split
  · rename_i hnone
    have hsome := hfind dir last hparts
    rw [hnone] at hsome
    cases hsome
  · rfl
  split <;> rfl

theorem isoReadFileAlloc_isSome (heap : Heap) (path : CStr) :
    (isoReadFileAlloc read heap path).isSome := by
  rw [isoReadFileAlloc_eq]
  split
  · rfl
  rename_i root volumeSectors hpvd
  split
  · rfl
  rename_i hvalid
  obtain ⟨hsplit, hfind⟩ := walk_isSome hsmall path hpvd (by simpa using hvalid)
  split
  · rename_i hnone
    rw [hnone] at hsplit
    cases hsplit
  · rfl
  rename_i dir last hparts
  split
  · rfl
  split
  · rename_i hnone
    have hsome := hfind dir last hparts
    rw [hnone] at hsome
    cases hsome
  · rfl
  split
  · rfl
  split
  · rfl
  split
  · rfl
  split <;> rfl

theorem isoOpsListDir_isSome (path : CStr) : (isoOpsListDir read path).isSome := by
  unfold isoOpsListDir
  split
  · rename_i hnone
    have hsome := isoResolvePath_isSome hsmall path
    rw [hnone] at hsome
    cases hsome
  · rfl
  · rename_i loc isDir hloc
    split
    · rename_i htrue
      rw [htrue] at hloc
      obtain ⟨volumeSectors, hdir⟩ := dirOnDisc_of_resolve hloc
      exact isoListDir_isSome (hsmall volumeSectors loc hdir)
    · rfl

theorem pathsEnd_of_small : PathsEnd read := fun path heap =>
  ⟨isoResolvePath_isSome hsmall path, isoReadFileAlloc_isSome hsmall heap path,
    isoOpsListDir_isSome hsmall path⟩

end SmallDirs

/-- Exactly the directories of at most `scanSizeMax` bytes have scans that end whatever the
disc holds, and a disc without larger ones answers every path. -/
theorem scans_end (dir : IsoDirLoc) (read : Disc) :
    (ScansEnd dir ↔ dir.size.toNat ≤ scanSizeMax) ∧
      ((∀ volumeSectors d, DirOnDisc read volumeSectors d → d.size.toNat ≤ scanSizeMax) →
        PathsEnd read) :=
  ⟨scansEnd_iff dir, pathsEnd_of_small⟩

/-- A volume of 100 sectors whose root directory claims `size` bytes from sector 20 on;
every other sector is empty. -/
def blankDisc (size : U32) : Disc := fun lba =>
  if lba = 16 then some fun i =>
    ([1] ++ cstr "CD001" ++ [1]).getD i (if i = 80 then 100 else if i = 156 then 34
      else if i = 158 then 20 else if 166 ≤ i ∧ i < 170 then ByteMem.byteOf size (i - 166)
      else if i = 181 then 2 else 0)
  else some fun _ => 0

def blankRoot (size : U32) : IsoDirLoc := ⟨20, size, 2⟩

theorem blank_blankDisc (size : U32) : Blank (blankDisc size) (blankRoot size) := by
  intro offset
  have hne : (20 : U32) + offset / 2048 ≠ 16 := by
    intro heq
    have hnat := congrArg BitVec.toNat heq
    have hlt := offset.isLt
    rw [BitVec.toNat_add, toNat_div] at hnat
    change (20 + offset.toNat / 2048) % 2 ^ 32 = 16 at hnat
    omega
  unfold blankDisc blankRoot
  rw [if_neg hne]

theorem dirOnDisc_blankDisc (h : DirOnDisc (blankDisc 2048) volumeSectors dir) :
    dir = blankRoot 2048 := by
  have hpvd : isoReadPvdRoot (blankDisc 2048) = some (blankRoot 2048, 100) := by decide +kernel
  induction h with
  | root hroot _ =>
      rw [hpvd] at hroot
      exact (congrArg Prod.fst (Option.some.inj hroot)).symm
  | @child parent child name _ _ hfind _ _ ih =>
      have hskip : scanNext (blankDisc 2048) (blankRoot 2048) 0 = .skip 2048 := rfl
      have hdone : scanNext (blankDisc 2048) (blankRoot 2048) 2048 = .done := rfl
      have hnone : isoFindChild (blankDisc 2048) (blankRoot 2048) name = some none := by
        change findChildLoop _ _ _ (4294967295 + 1 + 1) 0 = _
        rw [findChildLoop_succ, hskip]
        dsimp only
        rw [findChildLoop_succ, hdone]
      rw [ih, hnone] at hfind
      cases hfind

theorem scans_end_demo : ScansEnd (blankRoot 2048) ∧ PathsEnd (blankDisc 2048) := by
  have hend := scans_end (blankRoot 2048) (blankDisc 2048)
  refine ⟨hend.1.mpr (by decide), hend.2 fun volumeSectors dir hdir => ?_⟩
  rw [dirOnDisc_blankDisc hdir]
  decide

/-- The sum that rounds the size up wraps, so a root of `0xFFFFFFFF` bytes passes; looking for
a name in it goes on for ever. -/
theorem not_pathsEnd_largeRoot : ¬PathsEnd (blankDisc 0xFFFFFFFF) := by
  intro hall
  have hpvd : isoReadPvdRoot (blankDisc 0xFFFFFFFF) = some (blankRoot 0xFFFFFFFF, 100) := by
    decide +kernel
  have hfind : isoFindChild (blankDisc 0xFFFFFFFF) (blankRoot 0xFFFFFFFF) (cstr "a") = none :=
    findChildLoop_blank (blank_blankDisc _) (by decide) rfl
  have hresolve : isoResolvePath (blankDisc 0xFFFFFFFF) (cstr "/a") = none := by
    have hsplit : isoSplit (blankDisc 0xFFFFFFFF) 100 (blankRoot 0xFFFFFFFF) (cstr "/a") =
        some (some (blankRoot 0xFFFFFFFF, cstr "a")) := rfl
    rw [isoResolvePath_eq, hpvd]
    dsimp only
    rw [if_neg (by decide), hsplit]
    dsimp only
    rw [if_neg (by decide), hfind]
  have hend := (hall (cstr "/a") ⟨0, 0, 0, false⟩).1
  rw [hresolve] at hend
  cases hend

end SlopOS.Proofs.DiscDirs
