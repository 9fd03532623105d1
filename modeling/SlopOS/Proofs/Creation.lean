import SlopOS.Proofs.PrintedPaths
/-!
# What a call that creates something leaves

`vfs_touch` and `vfs_make_dir` take the last name off the path with rules of
their own; `vfs_write_file` then goes the way of `vfs_resolve_from`.  `Named`
are the paths that both read alike.  For the others, the dots and the slashless
names of more than 31 bytes, what is created is not what the path leads to.
-/

namespace SlopOS.Proofs.Creation

open SlopOS.Support SlopOS.Kernel
open SlopOS.Proofs.FileTree SlopOS.Proofs.FilePaths SlopOS.Proofs.FileEdits
open SlopOS.Proofs.TreeRuns SlopOS.Proofs.PrintedPaths

variable {t u : VfsTree} {fs fs' fs₀ : Fs} {mach : Machine} {mounts : Mounts} {heap : Heap}
variable {es : List TreeEvent} {n m c cwd parent : Nat} {path name : CStr} {type : VfsNodeType}
variable {data : Nat → U8} {size : U32}

/-! ## The three outcomes -/

/-- The call adds a node to a directory in which its name was free. -/
structure Creates (fs : Fs) (cwd : Nat) (path : CStr) (type : VfsNodeType) (parent : Nat)
    (name : CStr) (fs' : Fs) : Prop where
  target : Target fs.tree cwd path parent name
  fresh : vfsFindChild fs.tree parent name = none
  room : (kcalloc fs.heap vfsNodeSize).map Prod.snd = some fs'.heap
  tree : fs'.tree = fs.tree.addNode name type (some parent)
  mounts : fs'.mounts = fs.mounts

theorem creates_of_alloc (htarget : Target fs.tree cwd path parent name)
    (hfresh : vfsFindChild fs.tree parent name = none)
    (halloc : vfsAllocNode fs name type (some parent) = some (n, fs')) :
    Creates fs cwd path type parent name fs' := by
  obtain ⟨⟨addr, heap'⟩, hroom, hpair⟩ := Option.map_eq_some_iff.mp halloc
  cases hpair
  refine ⟨htarget, hfresh, ?_, rfl, rfl⟩
  rw [hroom]
  rfl

theorem vfsMakeDir_cases (fs : Fs) (cwd : Nat) (path : CStr) :
    vfsMakeDir fs cwd path = (false, fs) ∨
      ∃ parent name fs', vfsMakeDir fs cwd path = (true, fs') ∧
        Creates fs cwd path .dir parent name fs' := by
  unfold vfsMakeDir
  cases hparent : vfsParentDir fs.tree cwd path with
  | none => exact Or.inl rfl
  | some target =>
      obtain ⟨parent, name⟩ := target
      dsimp only
      cases hfind : vfsFindChild fs.tree parent name with
      | some c => exact Or.inl rfl
      | none =>
          rw [if_neg (by decide)]
          cases halloc : vfsAllocNode fs name .dir (some parent) with
          | none => exact Or.inl rfl
          | some made =>
              obtain ⟨n, fs'⟩ := made
              exact Or.inr ⟨parent, name, fs', rfl,
                creates_of_alloc (vfsParentDir_spec hparent) hfind halloc⟩

structure Taken (fs : Fs) (cwd : Nat) (path : CStr) (parent : Nat) (name : CStr) (c : Nat) :
    Prop where
  target : Target fs.tree cwd path parent name
  find : vfsFindChild fs.tree parent name = some c

theorem vfsTouch_cases (fs : Fs) (cwd : Nat) (path : CStr) :
    vfsTouch fs cwd path = (false, fs) ∨
      (∃ parent name c, vfsTouch fs cwd path = (true, fs) ∧ Taken fs cwd path parent name c ∧
        (fs.tree.node c).type = .file) ∨
      ∃ parent name fs', vfsTouch fs cwd path = (true, fs') ∧
        Creates fs cwd path .file parent name fs' := by
  unfold vfsTouch
  cases hparent : vfsParentDir fs.tree cwd path with
  | none => exact Or.inl rfl
  | some target =>
      obtain ⟨parent, name⟩ := target
      have htarget := vfsParentDir_spec hparent
      dsimp only
      cases hfind : vfsFindChild fs.tree parent name with
      | some c =>
          dsimp only
          by_cases hfile : (fs.tree.node c).type = .file
          · rw [decide_eq_true hfile]
            exact Or.inr (Or.inl ⟨parent, name, c, rfl, ⟨htarget, hfind⟩, hfile⟩)
          · rw [decide_eq_false hfile]
            exact Or.inl rfl
      | none =>
          dsimp only
          cases halloc : vfsAllocNode fs name .file (some parent) with
          | none => exact Or.inl rfl
          | some made =>
              obtain ⟨n, fs'⟩ := made
              exact Or.inr (Or.inr ⟨parent, name, fs', rfl,
                creates_of_alloc htarget hfind halloc⟩)

theorem vfsTouch_failed {fs₁ : Fs} (h : vfsTouch fs cwd path = (false, fs₁)) : fs₁ = fs := by
  rcases vfsTouch_cases fs cwd path with heq | ⟨_, _, _, heq, -⟩ | ⟨_, _, _, heq, -⟩
  · rw [heq] at h
    exact (Prod.mk.inj h).2.symm
  · rw [heq] at h
    cases h
  · rw [heq] at h
    cases h

/-! ## The new node -/

/-- Nothing has changed, or the node `new` is there in front of a directory's children. -/
def GainsAtMost (t u : VfsTree) (new : Nat) : Prop :=
  u = t ∨ new = t.count ∧ u.count = t.count + 1 ∧ ∃ dir < t.count,
    ∀ m < t.count, u.node m = { t.node m with
        firstChild := if m = dir then some new else (t.node m).firstChild } ∧
      children u m = if m = dir then new :: children t m else children t m

theorem Creates.addable (h : Creates fs cwd path type parent name fs') (hok : TreeOk fs.tree)
    (hcwd : cwd < fs.tree.count) : Addable fs.tree parent name :=
  ⟨Target.parent_lt h.target hok hcwd, h.target.isDir, h.target.nameOk, h.fresh⟩

theorem Creates.gains (h : Creates fs cwd path type parent name fs') (hok : TreeOk fs.tree)
    (hcwd : cwd < fs.tree.count) : GainsAtMost fs.tree fs'.tree fs.tree.count := by
  have hdir := (h.addable hok hcwd).dir_lt
  rw [h.tree]
  refine Or.inr ⟨rfl, rfl, parent, hdir, fun m hm => ⟨node_addNode hdir hm, ?_⟩⟩
  exact children_addNode hok hdir hm

theorem Creates.edited (h : Creates fs cwd path type parent name fs') (hok : TreeOk fs.tree)
    (hcwd : cwd < fs.tree.count) :
    Edited (fun _ _ => True) (fun _ _ => False) fs.tree fs'.tree := by
  rw [h.tree]
  exact .add .refl (h.addable hok hcwd) trivial

theorem Creates.find (h : Creates fs cwd path type parent name fs') (hok : TreeOk fs.tree)
    (hcwd : cwd < fs.tree.count) : vfsFindChild fs'.tree parent name = some fs.tree.count := by
  rw [h.tree]
  exact (h.addable hok hcwd).find hok

theorem Creates.new (h : Creates fs cwd path type parent name fs') :
    (fs'.tree.node fs.tree.count).type = type ∧ children fs'.tree fs.tree.count = [] ∧
      (fs'.tree.node fs.tree.count).data = none ∧ (fs'.tree.node fs.tree.count).size = 0 := by
  have hnew := @node_addNode_new fs.tree parent name type
  have hnone := @children_addNode_new fs.tree parent name type
  rw [h.tree, hnew]
  exact ⟨rfl, hnone, rfl, rfl⟩

/-! ## Paths that are read alike -/

/-- Not a dot, and with a slash or short enough for a name. -/
structure Named (path : CStr) : Prop where
  noDot : ¬Dot path
  short : chr '/' ∈ path ∨ path.length ≤ vfsNameMax

instance Named.decidable (path : CStr) : Decidable (Named path) :=
  decidable_of_iff
    (¬Dot path ∧ (path.any (fun c => decide (c = chr '/')) = true ∨ path.length ≤ vfsNameMax))
    ⟨fun h => ⟨h.1, by simpa using h.2⟩, fun h => ⟨h.noDot, by simpa using h.short⟩⟩

/-- In a tree with the same ways the path leads to the child that the call is about. -/
theorem Named.resolve (h : Named path) (htarget : Target t cwd path parent name)
    (hsame : ∀ ws m, stepAll t (startOf cwd path) ws = some m →
      stepAll u (startOf cwd path) ws = some m) :
    vfsResolveFrom u cwd path = vfsFindChild u parent name := by
  have hdot : path ≠ cstr "." := fun heq => h.noDot (Or.inl heq)
  have hdots : path ≠ cstr ".." := fun heq => h.noDot (Or.inr heq)
  rcases Target.resolve htarget hsame hdot hdots with heq | ⟨hslash, hlong, -⟩
  · exact heq
  · rcases h.short with hmem | hshort
    · exact absurd hmem hslash
    · omega

theorem noSlash_of_not_named (h : ¬Named path) : path ≠ [] ∧ chr '/' ∉ path := by
  by_cases hdot : Dot path
  · rcases hdot with rfl | rfl <;> decide
  · have hlong : ¬(chr '/' ∈ path ∨ path.length ≤ vfsNameMax) := fun hshort => h ⟨hdot, hshort⟩
    rw [not_or] at hlong
    refine ⟨?_, hlong.1⟩
    rintro rfl
    exact hlong.2 (Nat.zero_le _)

/-- The other paths have no slash, so the call works in the working directory. -/
theorem target_of_not_named (h : ¬Named path) (htarget : Target t cwd path parent name) :
    parent = cwd ∧ name = strCopy path (vfsNameMax + 1) := by
  rcases htarget.how with ⟨-, -, hparent, hname⟩ | ⟨-, -, hwords, hnd, hnds⟩
  · exact ⟨hparent, hname⟩
  · obtain ⟨hne, hslash⟩ := noSlash_of_not_named h
    have hone : words path = [path] := PathText.components_word hne hslash
    rw [hone] at hwords
    have hname := (List.cons.inj hwords).1
    exfalso
    apply h
    rw [hname]
    refine ⟨?_, Or.inr htarget.nameOk.short⟩
    rintro (hdot | hdots)
    · exact hnd hdot
    · exact hnds hdots

theorem parentDir_of_not_named (h : ¬Named path)
    (hgate : vfsMountSubpath (vfsCheckPath t cwd path) = none) (hdir : (t.node cwd).type = .dir) :
    vfsParentDir t cwd path = some (cwd, strCopy path (vfsNameMax + 1)) := by
  obtain ⟨hne, hslash⟩ := noSlash_of_not_named h
  have hsplit : vfsSplitParent path = some ([], strCopy path (vfsNameMax + 1)) := by
    unfold vfsSplitParent
    rw [if_neg hne, if_pos hslash]
  unfold vfsParentDir
  rw [hgate, hsplit]
  simp [hdir]

theorem resolve_of_not_named (h : ¬Named path) (hok : TreeOk t) (hcwd : cwd < t.count)
    (hdir : (t.node cwd).type = .dir) (hres : vfsResolveFrom t cwd path = some n) :
    Dot path ∧ (t.node n).type = .dir := by
  obtain ⟨hne, hslash⟩ := noSlash_of_not_named h
  have hone : words path = [path] := PathText.components_word hne hslash
  rw [vfsResolveFrom_eq, startOf_of_noSlash hslash, hone, stepAll_cons] at hres
  obtain ⟨m, hm, hmn⟩ := Option.bind_eq_some_iff.mp hres
  obtain rfl := Option.some.inj hmn
  unfold stepTo at hm
  by_cases hlen : vfsNameMax + 1 ≤ path.length
  · rw [if_pos hlen] at hm
    cases hm
  rw [if_neg hlen] at hm
  have hdot : Dot path := by
    by_contra hdot
    exact h ⟨hdot, Or.inr (by omega)⟩
  refine ⟨hdot, ?_⟩
  rcases hdot with hdot | hdots
  · rw [if_pos hdot] at hm
    rw [← Option.some.inj hm]
    exact hdir
  · have hne : path ≠ cstr "." := by
      rw [hdots]
      decide
    rw [if_neg hne, if_pos hdots] at hm
    rw [← Option.some.inj hm]
    cases hparent : (t.node cwd).parent with
    | none => exact hdir
    | some p =>
        obtain ⟨q, hq, -, hmem⟩ := hok.listed cwd hcwd (hok.ne_root hparent)
        rw [hparent] at hq
        rw [← Option.some.inj hq] at hmem
        exact hok.dir_of_mem (hok.parent_lt hcwd hparent).2 hmem

/-! ## `vfs_touch` and `vfs_make_dir` -/

/-- After a successful `vfs_touch` the path leads to a file. -/
def TouchDone (fs : Fs) (cwd : Nat) (path : CStr) : Prop :=
  (vfsTouch fs cwd path).1 = true →
    ∃ n < (vfsTouch fs cwd path).2.tree.count,
      vfsResolveFrom (vfsTouch fs cwd path).2.tree cwd path = some n ∧
      ((vfsTouch fs cwd path).2.tree.node n).type = .file ∧
      GainsAtMost fs.tree (vfsTouch fs cwd path).2.tree n

/-- After a successful `vfs_make_dir` the path, which led nowhere, leads to a new empty directory. -/
def MakeDirDone (fs : Fs) (cwd : Nat) (path : CStr) : Prop :=
  (vfsMakeDir fs cwd path).1 = true →
    vfsResolveFrom fs.tree cwd path = none ∧
      let u := (vfsMakeDir fs cwd path).2.tree
      vfsResolveFrom u cwd path = some fs.tree.count ∧
        (u.node fs.tree.count).type = .dir ∧ children u fs.tree.count = [] ∧
        (u.node fs.tree.count).data = none ∧ (u.node fs.tree.count).size = 0 ∧
        GainsAtMost fs.tree u fs.tree.count

/-- The path is a dot or a slashless name of more than 31 bytes, and the name that
`vfs_split_parent` makes of it is that of a file, or free with room for a node. -/
structure Misnames (fs : Fs) (cwd : Nat) (path : CStr) : Prop where
  notNamed : ¬Named path
  allowed : vfsMountSubpath (vfsCheckPath fs.tree cwd path) = none
  usable : match vfsFindChild fs.tree cwd (strCopy path (vfsNameMax + 1)) with
    | some c => (fs.tree.node c).type = .file
    | none => (kcalloc fs.heap vfsNodeSize).isSome

theorem misnames_of_creates (h : Creates fs cwd path type parent name fs') (hnot : ¬Named path) :
    Misnames fs cwd path := by
  obtain ⟨hparent, hname⟩ := target_of_not_named hnot h.target
  have hfresh := h.fresh
  rw [hparent, hname] at hfresh
  refine ⟨hnot, h.target.allowed, ?_⟩
  rw [hfresh]
  obtain ⟨made, hmade, -⟩ := Option.map_eq_some_iff.mp h.room
  exact Option.isSome_of_eq_some hmade

theorem misnames_of_taken (h : Taken fs cwd path parent name c)
    (hfile : (fs.tree.node c).type = .file) (hnot : ¬Named path) : Misnames fs cwd path := by
  obtain ⟨hparent, hname⟩ := target_of_not_named hnot h.target
  have hfind := h.find
  rw [hparent, hname] at hfind
  refine ⟨hnot, h.target.allowed, ?_⟩
  rw [hfind]
  exact hfile

theorem touchDone (hok : TreeOk fs.tree) (hcwd : cwd < fs.tree.count)
    (h : ¬Misnames fs cwd path) : TouchDone fs cwd path := by
  unfold TouchDone
  have hstart := TreeOk.startOf_lt hok hcwd path
  rcases vfsTouch_cases fs cwd path with heq | ⟨parent, name, c, heq, htaken, hfile⟩ |
    ⟨parent, name, fs', heq, hcreates⟩
  · rw [heq]
    nofun
  · rw [heq]
    intro _
    have hnamed : Named path := not_not.mp fun hnot => h (misnames_of_taken htaken hfile hnot)
    have hparent := Target.parent_lt htaken.target hok hcwd
    refine ⟨c, (hok.find_lt hparent htaken.find).1, ?_, hfile, Or.inl rfl⟩
    rw [hnamed.resolve htaken.target fun _ _ => id]
    exact htaken.find
  · rw [heq]
    intro _
    have hnamed : Named path := not_not.mp fun hnot => h (misnames_of_creates hcreates hnot)
    have hedits := hcreates.edited hok hcwd
    refine ⟨fs.tree.count, ?_, ?_, hcreates.new.1, hcreates.gains hok hcwd⟩
    · show _ < fs'.tree.count
      rw [hcreates.tree]
      exact Nat.lt_succ_self _
    · rw [hnamed.resolve hcreates.target fun _ _ => hedits.stepAll hok hstart]
      exact hcreates.find hok hcwd

theorem makeDirDone (hok : TreeOk fs.tree) (hcwd : cwd < fs.tree.count)
    (h : ¬Misnames fs cwd path) : MakeDirDone fs cwd path := by
  unfold MakeDirDone
  have hstart := TreeOk.startOf_lt hok hcwd path
  rcases vfsMakeDir_cases fs cwd path with heq | ⟨parent, name, fs', heq, hcreates⟩
  · rw [heq]
    nofun
  · rw [heq]
    intro _
    have hnamed : Named path := not_not.mp fun hnot => h (misnames_of_creates hcreates hnot)
    have hedits := hcreates.edited hok hcwd
    obtain ⟨htype, hempty, hdata, hsize⟩ := hcreates.new
    refine ⟨?_, ?_, htype, hempty, hdata, hsize, hcreates.gains hok hcwd⟩
    · rw [hnamed.resolve hcreates.target fun _ _ => id]
      exact hcreates.fresh
    · rw [hnamed.resolve hcreates.target fun _ _ => hedits.stepAll hok hstart]
      exact hcreates.find hok hcwd

/-- Where a path is misnamed `vfs_touch` succeeds, and the path leads to no file. -/
theorem not_touchDone (hok : TreeOk fs.tree) (hcwd : cwd < fs.tree.count)
    (hdir : (fs.tree.node cwd).type = .dir) (h : Misnames fs cwd path) : ¬TouchDone fs cwd path := by
  have hparent := parentDir_of_not_named h.notNamed h.allowed hdir
  intro hdone
  have husable := h.usable
  have htrue : (vfsTouch fs cwd path).1 = true := by
    unfold vfsTouch vfsAllocNode
    rw [hparent]
    dsimp only
    split
    · rename_i c hfind
      rw [hfind] at husable
      exact decide_eq_true husable
    · rename_i hfree
      rw [hfree] at husable
      obtain ⟨made, hmade⟩ := Option.isSome_iff_exists.mp husable
      rw [hmade]
      rfl
  obtain ⟨n, -, hres, hfile, -⟩ := hdone htrue
  obtain ⟨hedits, -, -⟩ := vfsTouch_edits hok hcwd path
  have hdir' : ((vfsTouch fs cwd path).2.tree.node cwd).type = .dir := by
    rw [(hedits.old hok hcwd).2.1]
    exact hdir
  have hlt := Nat.lt_of_lt_of_le hcwd hedits.count_le
  obtain ⟨-, htype⟩ := resolve_of_not_named h.notNamed (hedits.treeOk hok) hlt hdir' hres
  rw [hfile] at htype
  cases htype

/-- In every state that a run makes, from every working directory. -/
theorem creation_iff (hinit : vfsInit mounts heap = some fs₀)
    (hrun : Runs.run (treeStep mach) fs₀ es = some fs) (hcwd : cwd < fs.tree.count)
    (hdir : (fs.tree.node cwd).type = .dir) (path : CStr) :
    TouchDone fs cwd path ∧ MakeDirDone fs cwd path ↔ ¬Misnames fs cwd path := by
  have hok := treeOk_run hinit hrun
  constructor
  · intro h hmis
    exact not_touchDone hok hcwd hdir hmis h.1
  · intro h
    exact ⟨touchDone hok hcwd h, makeDirDone hok hcwd h⟩

theorem creation_demo : ∃ fs₀, vfsInit (fsInit none) plainHeap = some fs₀ ∧
    TouchDone fs₀ vfsRoot (cstr "docs//./new.txt") ∧
      MakeDirDone fs₀ vfsRoot (cstr "docs//./new.txt") := by
  have hview : (callsFrom plainMach (fsInit none) plainHeap []).map (fun fs =>
      (decide (vfsRoot < fs.tree.count), (fs.tree.node vfsRoot).type)) = some (true, .dir) := by
    decide +kernel
  obtain ⟨fs₀, hcalls, hfs⟩ := Option.map_eq_some_iff.mp hview
  obtain ⟨fs, hinit, hrun⟩ := Option.bind_eq_some_iff.mp hcalls
  obtain ⟨hcount, hdir⟩ := Prod.mk.inj hfs
  obtain rfl := Option.some.inj hrun
  refine ⟨fs, hinit, ?_⟩
  apply (@creation_iff _ _ plainMach _ _ [] _ hinit rfl (of_decide_eq_true hcount) hdir
    (cstr "docs//./new.txt")).mpr
  exact fun hmis => hmis.notNamed (by decide)

/-- `touch` of a name of 32 bytes makes a file with the first 31 of them, and the path leads
nowhere; `mkdir .` makes a directory although the path led to one. -/
theorem not_creation_long : ∃ fs₀, vfsInit (fsInit none) plainHeap = some fs₀ ∧
    ¬TouchDone fs₀ vfsRoot (List.replicate 32 97) ∧ ¬MakeDirDone fs₀ vfsRoot (cstr ".") := by
  have hview : (vfsInit (fsInit none) plainHeap).map (fun fs =>
      (((vfsTouch fs vfsRoot (List.replicate 32 97)).1,
        vfsResolveFrom (vfsTouch fs vfsRoot (List.replicate 32 97)).2.tree vfsRoot
          (List.replicate 32 97)),
        (vfsMakeDir fs vfsRoot (cstr ".")).1, vfsResolveFrom fs.tree vfsRoot (cstr "."))) =
      some ((true, none), true, some vfsRoot) := by decide +kernel
  obtain ⟨fs₀, hinit, hfs⟩ := Option.map_eq_some_iff.mp hview
  obtain ⟨htouch, hmake⟩ := Prod.mk.inj hfs
  obtain ⟨htrue, hnone⟩ := Prod.mk.inj htouch
  obtain ⟨hmade, hled⟩ := Prod.mk.inj hmake
  refine ⟨fs₀, hinit, fun hdone => ?_, fun hdone => ?_⟩
  · obtain ⟨n, -, hres, -⟩ := hdone htrue
    rw [hnone] at hres
    cases hres
  · have hres := (hdone hmade).1
    rw [hled] at hres
    cases hres

/-! ## `vfs_write_file` -/

/-- The call comes to an end behind its `vfs_touch`, which left `fs₁`. -/
inductive WriteEnds (fs₁ : Fs) (cwd : Nat) (path : CStr) (data : Nat → U8) (size : U32) :
    Bool × Fs → Prop
  | lost : vfsResolveFrom fs₁.tree cwd path = none → WriteEnds fs₁ cwd path data size (false, fs₁)
  | noRoom : kmalloc fs₁.heap (size + 1) = none → WriteEnds fs₁ cwd path data size (false, fs₁)
  | stored (n : Nat) (made : U32 × Heap) : vfsResolveFrom fs₁.tree cwd path = some n →
      kmalloc fs₁.heap (size + 1) = some made → WriteEnds fs₁ cwd path data size
        (true, { fs₁ with
          tree := fs₁.tree.setData n ((List.range size.toNat).map data) size
          heap := made.2 })

theorem vfsWriteFile_ends {fs₁ : Fs} (hgate : vfsMountSubpath (vfsCheckPath fs.tree cwd path) = none)
    (htouch : vfsTouch fs cwd path = (true, fs₁)) (data : Nat → U8) (size : U32) :
    WriteEnds fs₁ cwd path data size (vfsWriteFile fs cwd path data size) := by
  unfold vfsWriteFile
  rw [hgate, htouch, if_neg (by decide)]
  dsimp only
  cases hres : vfsResolveFrom fs₁.tree cwd path with
  | none => exact .lost hres
  | some n =>
      dsimp only
      cases hroom : kmalloc fs₁.heap (size + 1) with
      | none => exact .noRoom hroom
      | some made => exact .stored n made hres hroom

theorem vfsWriteFile_cases (fs : Fs) (cwd : Nat) (path : CStr) (data : Nat → U8) (size : U32) :
    vfsWriteFile fs cwd path data size = (false, fs) ∨
      ∃ fs₁, vfsMountSubpath (vfsCheckPath fs.tree cwd path) = none ∧
        vfsTouch fs cwd path = (true, fs₁) ∧
        WriteEnds fs₁ cwd path data size (vfsWriteFile fs cwd path data size) := by
  cases hgate : vfsMountSubpath (vfsCheckPath fs.tree cwd path) with
  | some subpath =>
      unfold vfsWriteFile
      rw [hgate]
      exact Or.inl rfl
  | none =>
      cases htouch : vfsTouch fs cwd path with
      | mk ok fs₁ =>
          cases ok with
          | false =>
              unfold vfsWriteFile
              rw [hgate, htouch, if_neg (by decide), vfsTouch_failed htouch]
              exact Or.inl rfl
          | true => exact Or.inr ⟨fs₁, rfl, rfl, vfsWriteFile_ends hgate htouch data size⟩

/-- What a directory shows: `vfs_stat` of any path to it. -/
def StatsAsDir (fs : Fs) (m : Nat) : Prop :=
  ∀ (mach : Machine) (cwd : Nat) (path : CStr), path ≠ [] →
    vfsMountSubpath (vfsCheckPath fs.tree cwd path) = none →
      vfsResolveFrom fs.tree cwd path = some m →
        vfsStat mach fs cwd path = some ((true, ⟨modeDir, 0⟩), fs)

/-- After a successful `vfs_write_file` the path reads back what was written, and no other node
has changed. -/
structure ReadsWritten (fs fs' : Fs) (cwd : Nat) (path : CStr) (data : Nat → U8) (size : U32) :
    Prop where
  reads : ∀ mach, vfsReadFile mach fs' cwd path =
    some (some (some ((List.range size.toNat).map data), size), fs')
  others : ∃ n, vfsResolveFrom fs'.tree cwd path = some n ∧ ∀ m < fs.tree.count, m ≠ n →
    (fs'.tree.node m).type = (fs.tree.node m).type ∧
      (fs'.tree.node m).data = (fs.tree.node m).data ∧
      (fs'.tree.node m).size = (fs.tree.node m).size
  dirs : ∀ m < fs.tree.count, (fs.tree.node m).type = .dir → StatsAsDir fs' m ∧
    (fs'.tree.node m).data = (fs.tree.node m).data ∧ (fs'.tree.node m).size = (fs.tree.node m).size

def WriteReadsBack (fs : Fs) (cwd : Nat) (path : CStr) (data : Nat → U8) (size : U32) : Prop :=
  (vfsWriteFile fs cwd path data size).1 = true →
    ReadsWritten fs (vfsWriteFile fs cwd path data size).2 cwd path data size

/-- The path is a dot, and there is a file of that name or room for one, and room for the data. -/
structure WritesDot (fs : Fs) (cwd : Nat) (path : CStr) (size : U32) : Prop where
  dot : Dot path
  allowed : vfsMountSubpath (vfsCheckPath fs.tree cwd path) = none
  isDir : (fs.tree.node cwd).type = .dir
  room : match vfsFindChild fs.tree cwd path with
    | some c => (fs.tree.node c).type = .file ∧ (kmalloc fs.heap (size + 1)).isSome
    | none => ∃ heap', (kcalloc fs.heap vfsNodeSize).map Prod.snd = some heap' ∧
        (kmalloc heap' (size + 1)).isSome

theorem statsAsDir (h : (fs.tree.node m).type = .dir) : StatsAsDir fs m := by
  intro mach cwd path hne hgate hres
  unfold vfsStat
  rw [if_neg hne, hgate, hres]
  dsimp only
  rw [if_pos h]

theorem Creates.contents (h : Creates fs cwd path type parent name fs') (hok : TreeOk fs.tree)
    (hcwd : cwd < fs.tree.count) (hm : m < fs.tree.count) :
    (fs'.tree.node m).type = (fs.tree.node m).type ∧
      (fs'.tree.node m).data = (fs.tree.node m).data ∧
      (fs'.tree.node m).size = (fs.tree.node m).size := by
  have hdir := (h.addable hok hcwd).dir_lt
  rw [h.tree, node_addNode hdir hm]
  exact ⟨rfl, rfl, rfl⟩

theorem contents_of_touch {fs₁ : Fs} (hok : TreeOk fs.tree) (hcwd : cwd < fs.tree.count)
    (htouch : vfsTouch fs cwd path = (true, fs₁)) (hm : m < fs.tree.count) :
    (fs₁.tree.node m).type = (fs.tree.node m).type ∧
      (fs₁.tree.node m).data = (fs.tree.node m).data ∧
      (fs₁.tree.node m).size = (fs.tree.node m).size := by
  rcases vfsTouch_cases fs cwd path with heq | ⟨_, _, _, heq, -⟩ | ⟨_, _, _, heq, hcreates⟩
  · rw [heq] at htouch
    cases htouch
  · rw [heq] at htouch
    cases htouch
    exact ⟨rfl, rfl, rfl⟩
  · rw [heq] at htouch
    cases htouch
    exact hcreates.contents hok hcwd hm

theorem readsWritten {fs₁ : Fs} {made : U32 × Heap} (hok : TreeOk fs.tree)
    (hcwd : cwd < fs.tree.count) (hdot : ¬Dot path)
    (hgate : vfsMountSubpath (vfsCheckPath fs.tree cwd path) = none)
    (htouch : vfsTouch fs cwd path = (true, fs₁)) (hres : vfsResolveFrom fs₁.tree cwd path = some n) :
    ReadsWritten fs { fs₁ with
      tree := fs₁.tree.setData n ((List.range size.toNat).map data) size
      heap := made.2 } cwd path data size := by
  let bytes : Bytes := (List.range size.toNat).map data
  have hfilled := @filled_of_touch n cwd path fs hok hcwd
  obtain ⟨hedits, -, -⟩ := vfsTouch_edits hok hcwd path
  rw [htouch] at hfilled hedits
  have hfile : (fs₁.tree.node n).type = .file := by
    obtain ⟨-, _, _, c, hat, hsame⟩ := hfilled rfl hres
    rw [hsame (fun h => hdot (Or.inl h)) fun h => hdot (Or.inr h)]
    exact hat.isFile
  have hok₁ := hedits.treeOk hok
  have hcwd₁ := Nat.lt_of_lt_of_le hcwd hedits.count_le
  have hlt := TreeOk.resolve_lt hok₁ hcwd₁ hres
  have hfill : Edited (fun _ _ => True) (fun _ _ => True) fs₁.tree
      (fs₁.tree.setData n bytes size) := .fill .refl hlt trivial
  have hleads := hfill.resolve hok₁ hcwd₁ hres
  have hself : (fs₁.tree.setData n bytes size).node n =
      { fs₁.tree.node n with data := some bytes, size := size } := Function.update_self _ _ _
  have hother : ∀ m, m ≠ n → (fs₁.tree.setData n bytes size).node m = fs₁.tree.node m :=
    fun m hm => Function.update_of_ne hm _ _
  have hkept : ∀ m < fs.tree.count, m ≠ n →
      ((fs₁.tree.setData n bytes size).node m).type = (fs.tree.node m).type ∧
        ((fs₁.tree.setData n bytes size).node m).data = (fs.tree.node m).data ∧
        ((fs₁.tree.setData n bytes size).node m).size = (fs.tree.node m).size := by
    intro m hm hne
    rw [hother m hne]
    exact contents_of_touch hok hcwd htouch hm
  refine ⟨fun mach => ?_, ⟨n, hleads, hkept⟩, fun m hm hdir => ?_⟩
  · unfold vfsReadFile
    dsimp only
    rw [hfill.checkPath hok₁ hcwd₁, hedits.checkPath hok hcwd, hgate]
    dsimp only
    rw [hleads]
    dsimp only
    rw [hself, if_pos hfile]
  · have hne : m ≠ n := by
      rintro rfl
      rw [← (contents_of_touch hok hcwd htouch hm).1, hfile] at hdir
      cases hdir
    obtain ⟨htype, hdata, hsize⟩ := hkept m hm hne
    refine ⟨statsAsDir ?_, hdata, hsize⟩
    exact htype.trans hdir

theorem resolve_of_dot (hdot : Dot path) : ∃ n, vfsResolveFrom t cwd path = some n := by
  rw [vfsResolveFrom_eq]
  rcases hdot with rfl | rfl
  · exact ⟨cwd, rfl⟩
  · exact ⟨(t.node cwd).parent.getD cwd, rfl⟩

theorem WritesDot.succeeds (h : WritesDot fs cwd path size) (data : Nat → U8) :
    (vfsWriteFile fs cwd path data size).1 = true := by
  have hnot : ¬Named path := fun hnamed => hnamed.noDot h.dot
  have hparent := parentDir_of_not_named hnot h.allowed h.isDir
  have hcopy : strCopy path (vfsNameMax + 1) = path := by
    rcases h.dot with rfl | rfl <;> decide
  rw [hcopy] at hparent
  have hstores : ∀ fs₁, vfsTouch fs cwd path = (true, fs₁) →
      (kmalloc fs₁.heap (size + 1)).isSome → (vfsWriteFile fs cwd path data size).1 = true := by
    intro fs₁ htouch hroom
    obtain ⟨n, hres⟩ := @resolve_of_dot fs₁.tree cwd path h.dot
    obtain ⟨made, hmade⟩ := Option.isSome_iff_exists.mp hroom
    unfold vfsWriteFile
    rw [h.allowed, if_neg (by decide), htouch]
    dsimp only
    rw [hres]
    dsimp only
    rw [hmade]
  have hroom := h.room
  cases hfind : vfsFindChild fs.tree cwd path with
  | some c =>
      rw [hfind] at hroom
      refine hstores fs ?_ hroom.2
      unfold vfsTouch
      rw [hparent]
      dsimp only
      rw [hfind]
      dsimp only
      rw [hroom.1]
      rfl
  | none =>
      rw [hfind] at hroom
      obtain ⟨heap', hnode, hdata⟩ := hroom
      obtain ⟨made, hmade, rfl⟩ := Option.map_eq_some_iff.mp hnode
      refine hstores { fs with
        tree := fs.tree.addNode path .file (some cwd)
        heap := made.2 } ?_ hdata
      unfold vfsTouch vfsAllocNode
      rw [hparent]
      dsimp only
      rw [hfind, hmade]
      rfl

/-- Nothing else goes wrong with a write that succeeds through a dot than that it does. -/
theorem writesDot_of_succeeds (hdot : Dot path)
    (hsuccess : (vfsWriteFile fs cwd path data size).1 = true) : WritesDot fs cwd path size := by
  have hnot : ¬Named path := fun hnamed => hnamed.noDot hdot
  have hcopy : strCopy path (vfsNameMax + 1) = path := by
    rcases hdot with rfl | rfl <;> decide
  rcases vfsWriteFile_cases fs cwd path data size with heq | ⟨fs₁, hgate, htouch, hends⟩
  · rw [heq] at hsuccess
    cases hsuccess
  have hroom : (kmalloc fs₁.heap (size + 1)).isSome := by
    generalize vfsWriteFile fs cwd path data size = result at hends hsuccess
    cases hends with
    | lost => cases hsuccess
    | noRoom => cases hsuccess
    | stored n made _ hmade => exact Option.isSome_of_eq_some hmade
  rcases vfsTouch_cases fs cwd path with heq | ⟨parent, name, c, heq, htaken, hfile⟩ |
    ⟨parent, name, fs', heq, hcreates⟩
  · rw [heq] at htouch
    cases htouch
  · rw [heq] at htouch
    cases htouch
    obtain ⟨hparent, hname⟩ := target_of_not_named hnot htaken.target
    have hfind := htaken.find
    rw [hparent, hname, hcopy] at hfind
    have hdir := htaken.target.isDir
    rw [hparent] at hdir
    refine ⟨hdot, hgate, hdir, ?_⟩
    rw [hfind]
    exact ⟨hfile, hroom⟩
  · rw [heq] at htouch
    cases htouch
    obtain ⟨hparent, hname⟩ := target_of_not_named hnot hcreates.target
    have hfresh := hcreates.fresh
    rw [hparent, hname, hcopy] at hfresh
    have hdir := hcreates.target.isDir
    rw [hparent] at hdir
    refine ⟨hdot, hgate, hdir, ?_⟩
    rw [hfresh]
    exact ⟨fs₁.heap, hcreates.room, hroom⟩

theorem writeReadsBack (hok : TreeOk fs.tree) (hcwd : cwd < fs.tree.count)
    (h : ¬WritesDot fs cwd path size) : WriteReadsBack fs cwd path data size := by
  intro hsuccess
  have hdot : ¬Dot path := fun hdot => h (writesDot_of_succeeds hdot hsuccess)
  rcases vfsWriteFile_cases fs cwd path data size with heq | ⟨fs₁, hgate, htouch, hends⟩
  · rw [heq] at hsuccess
    cases hsuccess
  generalize vfsWriteFile fs cwd path data size = result at hends hsuccess
  cases hends with
  | lost => cases hsuccess
  | noRoom => cases hsuccess
  | stored n made hres _ => exact readsWritten hok hcwd hdot hgate htouch hres

/-- Written through a dot, the data end up in a directory, which `vfs_read_file` does not read. -/
theorem not_writeReadsBack (hok : TreeOk fs.tree) (hcwd : cwd < fs.tree.count)
    (h : WritesDot fs cwd path size) : ¬WriteReadsBack fs cwd path data size := by
  intro hback
  have hnot : ¬Named path := fun hnamed => hnamed.noDot h.dot
  have hwritten := hback (h.succeeds data)
  obtain ⟨n, hres, -⟩ := hwritten.others
  obtain ⟨hedits, -, -⟩ := vfsWriteFile_edits hok hcwd path data size
  have hlt := Nat.lt_of_lt_of_le hcwd hedits.count_le
  have hdir : ((vfsWriteFile fs cwd path data size).2.tree.node cwd).type = .dir := by
    rw [(hedits.old hok hcwd).2.1]
    exact h.isDir
  obtain ⟨-, htype⟩ := resolve_of_not_named hnot (hedits.treeOk hok) hlt hdir hres
  have hreads := hwritten.reads plainMach
  unfold vfsReadFile at hreads
  rw [hedits.checkPath hok hcwd, h.allowed] at hreads
  dsimp only at hreads
  rw [hres] at hreads
  dsimp only at hreads
  rw [htype, if_neg (by decide)] at hreads
  cases hreads

theorem writeReadsBack_iff (hinit : vfsInit mounts heap = some fs₀)
    (hrun : Runs.run (treeStep mach) fs₀ es = some fs) (hcwd : cwd < fs.tree.count)
    (path : CStr) (data : Nat → U8) (size : U32) :
    WriteReadsBack fs cwd path data size ↔ ¬WritesDot fs cwd path size := by
  have hok := treeOk_run hinit hrun
  constructor
  · intro h hdot
    exact not_writeReadsBack hok hcwd hdot h
  · exact writeReadsBack hok hcwd

theorem writeReadsBack_demo : ∃ fs₀, vfsInit (fsInit none) plainHeap = some fs₀ ∧
    WriteReadsBack fs₀ vfsRoot (cstr "tmp//./f") (fun _ => 7) 3 := by
  have hview : (callsFrom plainMach (fsInit none) plainHeap []).map (fun fs =>
      decide (vfsRoot < fs.tree.count)) = some true := by decide +kernel
  obtain ⟨fs₀, hcalls, hcount⟩ := Option.map_eq_some_iff.mp hview
  obtain ⟨fs, hinit, hrun⟩ := Option.bind_eq_some_iff.mp hcalls
  obtain rfl := Option.some.inj hrun
  refine ⟨fs, hinit, ?_⟩
  apply (@writeReadsBack_iff _ _ plainMach _ _ [] _ hinit rfl (of_decide_eq_true hcount)
    (cstr "tmp//./f") (fun _ => 7) 3).mpr
  intro hdot
  revert hdot
  exact fun hdot => absurd hdot.dot (by decide)

/-- `echo x > .` in the root succeeds, and the root is read as no file. -/
theorem not_writeReadsBack_dot : ∃ fs₀, vfsInit (fsInit none) plainHeap = some fs₀ ∧
    ¬WriteReadsBack fs₀ vfsRoot (cstr ".") (fun _ => 7) 1 := by
  have hview : (vfsInit (fsInit none) plainHeap).map (fun fs =>
      ((vfsWriteFile fs vfsRoot (cstr ".") (fun _ => 7) 1).1,
        (vfsReadFile plainMach (vfsWriteFile fs vfsRoot (cstr ".") (fun _ => 7) 1).2 vfsRoot
          (cstr ".")).map fun found => found.1.isSome)) = some (true, some false) := by
    decide +kernel
  obtain ⟨fs₀, hinit, hfs⟩ := Option.map_eq_some_iff.mp hview
  obtain ⟨htrue, hread⟩ := Prod.mk.inj hfs
  refine ⟨fs₀, hinit, fun hback => ?_⟩
  rw [(hback htrue).reads plainMach] at hread
  cases hread

/-! ## `vfs_write_file` fails -/

/-- A path that led nowhere leads to a new, empty file, and nothing else has changed. -/
structure LeavesEmpty (t u : VfsTree) (cwd : Nat) (path : CStr) : Prop where
  before : vfsResolveFrom t cwd path = none
  leads : vfsResolveFrom u cwd path = some t.count
  isFile : (u.node t.count).type = .file
  data : (u.node t.count).data = none
  size : (u.node t.count).size = 0
  gains : GainsAtMost t u t.count

/-- A new file stays where there was no room for its contents. -/
def FailureKeeps (fs : Fs) (cwd : Nat) (path : CStr) (data : Nat → U8) (size : U32) : Prop :=
  (vfsWriteFile fs cwd path data size).1 = false →
    (vfsWriteFile fs cwd path data size).2.tree = fs.tree ∨
      kmalloc (vfsWriteFile fs cwd path data size).2.heap (size + 1) = none ∧
        LeavesEmpty fs.tree (vfsWriteFile fs cwd path data size).2.tree cwd path

theorem Creates.leavesEmpty (h : Creates fs cwd path .file parent name fs') (hok : TreeOk fs.tree)
    (hcwd : cwd < fs.tree.count) (hnamed : Named path) : LeavesEmpty fs.tree fs'.tree cwd path := by
  have hstart := TreeOk.startOf_lt hok hcwd path
  have hedits := h.edited hok hcwd
  obtain ⟨htype, -, hdata, hsize⟩ := h.new
  refine ⟨?_, ?_, htype, hdata, hsize, h.gains hok hcwd⟩
  · rw [hnamed.resolve h.target fun _ _ => id]
    exact h.fresh
  · rw [hnamed.resolve h.target fun _ _ => hedits.stepAll hok hstart]
    exact h.find hok hcwd

theorem failureKeeps (hok : TreeOk fs.tree) (hcwd : cwd < fs.tree.count) (hnamed : Named path) :
    FailureKeeps fs cwd path data size := by
  intro hfail
  rcases vfsWriteFile_cases fs cwd path data size with heq | ⟨fs₁, -, htouch, hends⟩
  · rw [heq]
    exact Or.inl rfl
  generalize vfsWriteFile fs cwd path data size = result at hends hfail
  rcases vfsTouch_cases fs cwd path with heq | ⟨parent, name, c, heq, -⟩ |
    ⟨parent, name, fs', heq, hcreates⟩
  · rw [heq] at htouch
    cases htouch
  · rw [heq] at htouch
    cases htouch
    cases hends with
    | lost => exact Or.inl rfl
    | noRoom => exact Or.inl rfl
    | stored => cases hfail
  · rw [heq] at htouch
    cases htouch
    have hempty := hcreates.leavesEmpty hok hcwd hnamed
    cases hends with
    | lost hnone =>
        rw [hempty.leads] at hnone
        cases hnone
    | noRoom hroom => exact Or.inr ⟨hroom, hempty⟩
    | stored => cases hfail

/-- A write that fails leaves the tree as it was, but for an empty file where it made one before
it found no room for the contents. -/
theorem failureKeeps_run (hinit : vfsInit mounts heap = some fs₀)
    (hrun : Runs.run (treeStep mach) fs₀ es = some fs) (hcwd : cwd < fs.tree.count)
    (hnamed : Named path) (data : Nat → U8) (size : U32) : FailureKeeps fs cwd path data size :=
  failureKeeps (treeOk_run hinit hrun) hcwd hnamed

theorem failureKeeps_demo : ∃ fs₀, vfsInit (fsInit none) plainHeap = some fs₀ ∧
    (vfsWriteFile fs₀ vfsRoot (cstr "tmp/f") (fun _ => 7) 0x00200000).1 = false ∧
      FailureKeeps fs₀ vfsRoot (cstr "tmp/f") (fun _ => 7) 0x00200000 := by
  have hview : (callsFrom plainMach (fsInit none) plainHeap []).map (fun fs =>
      (decide (vfsRoot < fs.tree.count),
        (vfsWriteFile fs vfsRoot (cstr "tmp/f") (fun _ => 7) 0x00200000).1)) =
          some (true, false) := by decide +kernel
  obtain ⟨fs₀, hcalls, hfs⟩ := Option.map_eq_some_iff.mp hview
  obtain ⟨fs, hinit, hrun⟩ := Option.bind_eq_some_iff.mp hcalls
  obtain rfl := Option.some.inj hrun
  obtain ⟨hcount, hfail⟩ := Prod.mk.inj hfs
  exact ⟨fs, hinit, hfail, @failureKeeps_run _ _ plainMach _ _ [] _ _ hinit rfl
    (of_decide_eq_true hcount) (by decide) _ _⟩

/-- Two megabytes do not fit into the heap, and the new file stays. -/
theorem not_failureKeepsTree : ∃ fs₀, vfsInit (fsInit none) plainHeap = some fs₀ ∧
    ¬((vfsWriteFile fs₀ vfsRoot (cstr "/tmp/f") (fun _ => 7) 0x00200000).1 = false →
      (vfsWriteFile fs₀ vfsRoot (cstr "/tmp/f") (fun _ => 7) 0x00200000).2.tree = fs₀.tree) := by
  have hview : (vfsInit (fsInit none) plainHeap).map (fun fs =>
      ((vfsWriteFile fs vfsRoot (cstr "/tmp/f") (fun _ => 7) 0x00200000).1, fs.tree.count,
        (vfsWriteFile fs vfsRoot (cstr "/tmp/f") (fun _ => 7) 0x00200000).2.tree.count)) =
      some (false, 6, 7) := by decide +kernel
  obtain ⟨fs₀, hinit, hfs⟩ := Option.map_eq_some_iff.mp hview
  obtain ⟨hfail, hcounts⟩ := Prod.mk.inj hfs
  obtain ⟨hold, hnew⟩ := Prod.mk.inj hcounts
  refine ⟨fs₀, hinit, fun hsame => ?_⟩
  rw [hsame hfail, hold] at hnew
  exact absurd hnew (by decide)

end SlopOS.Proofs.Creation
