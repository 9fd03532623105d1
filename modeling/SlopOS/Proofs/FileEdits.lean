import SlopOS.Proofs.FilePaths
/-!
# What the operations do to the tree

Every operation adds nodes and fills files.  `Edited` lists these changes with
what is known of each, so that an invariant of the tree is proved once for an
added node and once for new contents.
-/

namespace SlopOS.Proofs.FileEdits

open SlopOS.Support SlopOS.Support.PathText SlopOS.Kernel
open SlopOS.Proofs.FileTree SlopOS.Proofs.FilePaths

structure Addable (t : VfsTree) (dir : Nat) (name : CStr) : Prop where
  dir_lt : dir < t.count
  isDir : (t.node dir).type = .dir
  nameOk : NameOk name
  fresh : vfsFindChild t dir name = none

/-- From `t` to another tree by nodes at paths that `new` allows and by contents for nodes that
`fill` allows. -/
inductive Edited (new : List CStr → VfsNodeType → Prop) (fill : VfsTree → Nat → Prop)
    (t : VfsTree) : VfsTree → Prop
  | refl : Edited new fill t t
  | add {u : VfsTree} {dir : Nat} {name : CStr} {type : VfsNodeType} :
      Edited new fill t u → Addable u dir name → new (pathOf u dir ++ [name]) type →
        Edited new fill t (u.addNode name type (some dir))
  | fill {u : VfsTree} {n : Nat} {data : Bytes} {size : U32} :
      Edited new fill t u → n < u.count → fill u n → Edited new fill t (u.setData n data size)

variable {new new' : List CStr → VfsNodeType → Prop} {fill fill' : VfsTree → Nat → Prop}
variable {t u v : VfsTree} {n c dir cwd : Nat} {name path : CStr} {type : VfsNodeType}
variable {fs fs' : Fs} {mach : Machine}

theorem strCopy_nameOk (h : NameOk name) : strCopy name (vfsNameMax + 1) = name :=
  List.take_of_length_le h.short

theorem Addable.treeOk (h : Addable t dir name) (hok : TreeOk t) :
    TreeOk (t.addNode name type (some dir)) := by
  have hcopy := strCopy_nameOk h.nameOk
  apply treeOk_addNode hok h.dir_lt h.isDir
  · rw [hcopy]
    exact h.nameOk
  · rw [hcopy]
    exact h.fresh

theorem Edited.treeOk (h : Edited new fill t u) (hok : TreeOk t) : TreeOk u := by
  induction h with
  | refl => exact hok
  | add _ hadd _ ih => exact hadd.treeOk ih
  | fill _ _ _ ih => exact (sameShape_setData _ _ _ _).treeOk ih

theorem Edited.trans (h : Edited new fill t u) (h' : Edited new fill u v) :
    Edited new fill t v := by
  induction h' with
  | refl => exact h
  | add _ hadd hnew ih => exact .add ih hadd hnew
  | fill _ hn hfill ih => exact .fill ih hn hfill

theorem Edited.mono (h : Edited new fill t u) (hnew : ∀ ws ty, new ws ty → new' ws ty)
    (hfill : ∀ v n, fill v n → fill' v n) : Edited new' fill' t u := by
  induction h with
  | refl => exact .refl
  | add _ hadd h ih => exact .add ih hadd (hnew _ _ h)
  | fill _ hn h ih => exact .fill ih hn (hfill _ _ h)

theorem Edited.invariant {I : VfsTree → Prop} (h : Edited new fill t u) (hok : TreeOk t)
    (hadd : ∀ v dir name type, TreeOk v → I v → Addable v dir name →
      new (pathOf v dir ++ [name]) type → I (v.addNode name type (some dir)))
    (hfill : ∀ v n data size, TreeOk v → I v → n < v.count → fill v n → I (v.setData n data size))
    (ht : I t) : I u := by
  induction h with
  | refl => exact ht
  | add h ha hnew ih => exact hadd _ _ _ _ (h.treeOk hok) ih ha hnew
  | fill h hn hf ih => exact hfill _ _ _ _ (h.treeOk hok) ih hn hf

theorem Edited.count_le (h : Edited new fill t u) : t.count ≤ u.count := by
  induction h with
  | refl => exact Nat.le_refl _
  | add _ _ _ ih => exact Nat.le_succ_of_le ih
  | fill _ _ _ ih => exact ih

theorem Edited.added (h : Edited new fill t u) (hok : TreeOk t) (hold : t.count ≤ n)
    (hn : n < u.count) : new (pathOf u n) (u.node n).type := by
  induction h with
  | refl => exact absurd hn (Nat.not_lt.mpr hold)
  | @add v dir name type h hadd hnew ih =>
      have hv := h.treeOk hok
      rcases Nat.lt_or_eq_of_le (Nat.lt_succ_iff.mp hn) with hlt | rfl
      · rw [node_addNode hadd.dir_lt hlt, pathOf_addNode hv hadd.dir_lt hlt]
        exact ih hlt
      · rw [node_addNode_new, pathOf_addNode_new hv hadd.dir_lt, strCopy_nameOk hadd.nameOk]
        exact hnew
  | @fill v m data size _ _ _ ih =>
      have hshape := sameShape_setData v m data size
      rw [hshape.type, hshape.pathOf]
      exact ih hn

theorem Edited.old (h : Edited new fill t u) (hok : TreeOk t) (hn : n < t.count) :
    (u.node n).name = (t.node n).name ∧ (u.node n).type = (t.node n).type ∧
      (u.node n).parent = (t.node n).parent ∧ pathOf u n = pathOf t n := by
  induction h with
  | refl => exact ⟨rfl, rfl, rfl, rfl⟩
  | @add v dir name type h hadd _ ih =>
      have hv : n < v.count := Nat.lt_of_lt_of_le hn h.count_le
      rw [node_addNode hadd.dir_lt hv, pathOf_addNode (h.treeOk hok) hadd.dir_lt hv]
      exact ih
  | @fill v m data size _ _ _ ih =>
      have hshape := sameShape_setData v m data size
      rw [hshape.name, hshape.type, hshape.parent, hshape.pathOf]
      exact ih

theorem Edited.find (h : Edited new fill t u) (hok : TreeOk t) (hdir : dir < t.count)
    (hfind : vfsFindChild t dir name = some c) : vfsFindChild u dir name = some c := by
  induction h with
  | refl => exact hfind
  | @add v parent name' type h hadd _ ih =>
      have hv := h.treeOk hok
      have hdv : dir < v.count := Nat.lt_of_lt_of_le hdir h.count_le
      obtain ⟨hmem, hname⟩ := mem_children_of_find ih
      have hc := hv.child_lt hdv hmem
      have hmem' : c ∈ children (v.addNode name' type (some parent)) dir := by
        rw [children_addNode hv hadd.dir_lt hdv]
        split
        · exact List.mem_cons_of_mem _ hmem
        · exact hmem
      have hfound := (hadd.treeOk hv).find_of_mem (Nat.lt_succ_of_lt hdv) hmem'
      rw [node_addNode hadd.dir_lt hc] at hfound
      rwa [← hname]
  | @fill v m data size _ _ _ ih =>
      have hshape := sameShape_setData v m data size
      rw [vfsFindChild_eq, hshape.children]
      rw [vfsFindChild_eq] at ih
      simpa only [hshape.name] using ih

theorem Edited.stepTo (h : Edited new fill t u) (hok : TreeOk t) (hn : n < t.count) {w : CStr}
    (hstep : stepTo t n w = some c) : FilePaths.stepTo u n w = some c := by
  unfold FilePaths.stepTo at hstep ⊢
  rw [(h.old hok hn).2.2.1]
  split
  · rw [if_pos ‹_›] at hstep
    exact hstep
  rename_i hlong
  rw [if_neg hlong] at hstep
  split
  · rw [if_pos ‹_›] at hstep
    exact hstep
  rename_i hdot
  rw [if_neg hdot] at hstep
  split
  · rw [if_pos ‹_›] at hstep
    exact hstep
  rename_i hdots
  rw [if_neg hdots] at hstep
  exact h.find hok hn hstep

theorem Edited.stepAll (h : Edited new fill t u) (hok : TreeOk t) (hn : n < t.count)
    {ws : List CStr} (hsteps : stepAll t n ws = some c) : FilePaths.stepAll u n ws = some c := by
  induction ws generalizing n with
  | nil => exact hsteps
  | cons w ws ih =>
      rw [stepAll_cons] at hsteps ⊢
      obtain ⟨m, hm, hrest⟩ := Option.bind_eq_some_iff.mp hsteps
      rw [h.stepTo hok hn hm, Option.bind_some]
      exact ih (TreeOk.stepTo_lt hok hn hm) hrest

theorem Edited.resolve (h : Edited new fill t u) (hok : TreeOk t) (hcwd : cwd < t.count)
    (hres : vfsResolveFrom t cwd path = some n) : vfsResolveFrom u cwd path = some n := by
  rw [vfsResolveFrom_eq] at hres ⊢
  exact h.stepAll hok (TreeOk.startOf_lt hok hcwd path) hres

theorem Edited.cwdParts (h : Edited new fill t u) (hok : TreeOk t) (fuel : Nat) (hn : n < t.count) :
    cwdParts u fuel (some n) = Kernel.cwdParts t fuel (some n) := by
  induction fuel generalizing n with
  | zero => rfl
  | succ fuel ih =>
      obtain ⟨hname, -, hparent, -⟩ := h.old hok hn
      unfold Kernel.cwdParts
      rw [hname, hparent]
      by_cases hroot : n = vfsRoot
      · rw [if_pos hroot, if_pos hroot]
      rw [if_neg hroot, if_neg hroot]
      congr 1
      cases hup : (t.node n).parent with
      | none => cases fuel <;> rfl
      | some m => exact ih (TreeOk.parent_lt hok hn hup).2

theorem Edited.checkPath (h : Edited new fill t u) (hok : TreeOk t) (hcwd : cwd < t.count)
    (path : CStr) : vfsCheckPath u cwd path = vfsCheckPath t cwd path := by
  unfold vfsCheckPath vfsGetCwdPath
  rw [h.cwdParts hok cwdPartsMax hcwd]

/-! ## `vfs_make_dir` and `vfs_touch` -/

/-- The operation with this path has a free name to add and room for it, and `ws` is where the
node will be. -/
def Targeted (fs : Fs) (cwd : Nat) (path : CStr) (ws : List CStr) : Prop :=
  ∃ parent name, Target fs.tree cwd path parent name ∧ parent < fs.tree.count ∧
    vfsFindChild fs.tree parent name = none ∧ (kcalloc fs.heap vfsNodeSize).isSome ∧
      ws = pathOf fs.tree parent ++ [name]

theorem Target.parent_lt {parent : Nat} (h : Target t cwd path parent name) (hok : TreeOk t)
    (hcwd : cwd < t.count) : parent < t.count := by
  rcases h.how with ⟨-, -, rfl, -⟩ | ⟨-, hsteps, -, -, -⟩
  · exact hcwd
  · exact TreeOk.stepAll_lt hok (TreeOk.startOf_lt hok hcwd path) hsteps

theorem edited_alloc {parent : Nat} {fs₁ : Fs} (hok : TreeOk fs.tree) (hcwd : cwd < fs.tree.count)
    (htarget : Target fs.tree cwd path parent name)
    (hfresh : vfsFindChild fs.tree parent name = none)
    (halloc : vfsAllocNode fs name type (some parent) = some (n, fs₁)) :
    fs₁.tree = fs.tree.addNode name type (some parent) ∧ fs₁.mounts = fs.mounts ∧
      Addable fs.tree parent name ∧ Targeted fs cwd path (pathOf fs.tree parent ++ [name]) := by
  have hlt := Target.parent_lt htarget hok hcwd
  obtain ⟨⟨addr, heap⟩, hroom, hpair⟩ := Option.map_eq_some_iff.mp halloc
  cases hpair
  refine ⟨rfl, rfl, ⟨hlt, htarget.isDir, htarget.nameOk, hfresh⟩, ?_⟩
  exact ⟨parent, name, htarget, hlt, hfresh, Option.isSome_of_eq_some hroom, rfl⟩

theorem vfsMakeDir_edits (hok : TreeOk fs.tree) (hcwd : cwd < fs.tree.count) (path : CStr) :
    Edited (fun ws ty => ty = .dir ∧ Targeted fs cwd path ws) (fun _ _ => False)
        fs.tree (vfsMakeDir fs cwd path).2.tree ∧
      (vfsMakeDir fs cwd path).2.mounts = fs.mounts ∧
      ((vfsMakeDir fs cwd path).1 = true → ∃ ws, Targeted fs cwd path ws) := by
  unfold vfsMakeDir
  split
  · exact ⟨.refl, rfl, nofun⟩
  rename_i parent name hparent
  have htarget := vfsParentDir_spec hparent
  split
  · exact ⟨.refl, rfl, nofun⟩
  rename_i hfresh
  split
  · exact ⟨.refl, rfl, nofun⟩
  · rename_i node fs₁ halloc
    obtain ⟨htree, hmounts, hadd, hplace⟩ := edited_alloc hok hcwd htarget (by simpa using hfresh) halloc
    rw [htree]
    exact ⟨.add .refl hadd ⟨rfl, hplace⟩, hmounts, fun _ => ⟨_, hplace⟩⟩

/-- The file `c` is the one that the path of a successful call names. -/
structure FileAt (t : VfsTree) (cwd : Nat) (path : CStr) (u : VfsTree) (parent : Nat) (name : CStr)
    (c : Nat) : Prop where
  target : Target t cwd path parent name
  parent_lt : parent < t.count
  find : vfsFindChild u parent name = some c
  isFile : (u.node c).type = .file

theorem Addable.find (h : Addable t dir name) (hok : TreeOk t) :
    vfsFindChild (t.addNode name type (some dir)) dir name = some t.count := by
  have hmem : t.count ∈ children (t.addNode name type (some dir)) dir := by
    rw [children_addNode hok h.dir_lt h.dir_lt, if_pos rfl]
    exact List.mem_cons_self
  have hfind := TreeOk.find_of_mem (@Addable.treeOk _ _ _ type h hok)
    (Nat.lt_succ_of_lt h.dir_lt) hmem
  rw [node_addNode_new] at hfind
  dsimp only at hfind
  rwa [strCopy_nameOk h.nameOk] at hfind

theorem vfsTouch_edits (hok : TreeOk fs.tree) (hcwd : cwd < fs.tree.count) (path : CStr) :
    Edited (fun ws _ => Targeted fs cwd path ws) (fun _ _ => False)
        fs.tree (vfsTouch fs cwd path).2.tree ∧
      (vfsTouch fs cwd path).2.mounts = fs.mounts ∧
      ((vfsTouch fs cwd path).1 = true → ∃ parent name c,
        FileAt fs.tree cwd path (vfsTouch fs cwd path).2.tree parent name c) := by
  unfold vfsTouch
  split
  · exact ⟨.refl, rfl, nofun⟩
  rename_i parent name hparent
  have htarget := vfsParentDir_spec hparent
  split
  · rename_i c hc
    refine ⟨.refl, rfl, fun htrue => ⟨parent, name, c, htarget, ?_, hc, ?_⟩⟩
    · exact Target.parent_lt htarget hok hcwd
    · simpa using htrue
  rename_i hfresh
  split
  · exact ⟨.refl, rfl, nofun⟩
  · rename_i node fs₁ halloc
    obtain ⟨htree, hmounts, hadd, hplace⟩ := edited_alloc hok hcwd htarget hfresh halloc
    dsimp only
    rw [htree]
    refine ⟨.add .refl hadd hplace, hmounts, fun _ =>
      ⟨parent, name, fs.tree.count, htarget, hadd.dir_lt, ?_, ?_⟩⟩
    · exact hadd.find hok
    · rw [node_addNode_new]

/-! ## `vfs_write_file` -/

/-- The node that is filled is the one the path leads to: the file it names, unless the path is
a dot. -/
def Filled (t : VfsTree) (cwd : Nat) (path : CStr) (u : VfsTree) (n : Nat) : Prop :=
  vfsResolveFrom u cwd path = some n ∧ ∃ parent name c, FileAt t cwd path u parent name c ∧
    (path ≠ cstr "." → path ≠ cstr ".." → n = c)

theorem filled_of_touch (hok : TreeOk fs.tree) (hcwd : cwd < fs.tree.count)
    (htouch : (vfsTouch fs cwd path).1 = true)
    (hres : vfsResolveFrom (vfsTouch fs cwd path).2.tree cwd path = some n) :
    Filled fs.tree cwd path (vfsTouch fs cwd path).2.tree n := by
  obtain ⟨hedits, -, hfile⟩ := vfsTouch_edits hok hcwd path
  obtain ⟨parent, name, c, hat⟩ := hfile htouch
  refine ⟨hres, parent, name, c, hat, fun hdot hdots => ?_⟩
  have hstart := TreeOk.startOf_lt hok hcwd path
  rcases Target.resolve hat.target (fun _ _ => hedits.stepAll hok hstart) hdot hdots with
    heq | ⟨-, -, hnone⟩
  · rw [hres, hat.find] at heq
    exact Option.some.inj heq
  · rw [hres] at hnone
    cases hnone

/-- Both writers fill the node that the path leads to after `vfs_touch`. -/
theorem edited_fill {fs₁ : Fs} (hok : TreeOk fs.tree) (hcwd : cwd < fs.tree.count)
    (htouch : vfsTouch fs cwd path = (true, fs₁)) (hres : vfsResolveFrom fs₁.tree cwd path = some n)
    (data : Bytes) (size : U32) :
    Edited (fun ws _ => Targeted fs cwd path ws) (Filled fs.tree cwd path)
        fs.tree (fs₁.tree.setData n data size) ∧
      ∃ parent name c, FileAt fs.tree cwd path (fs₁.tree.setData n data size) parent name c := by
  obtain ⟨hedits, -, hfile⟩ := vfsTouch_edits hok hcwd path
  have hfilled := @filled_of_touch n cwd path fs hok hcwd
  rw [htouch] at hedits hfile hfilled
  have hok₁ := hedits.treeOk hok
  have hlt : n < fs₁.tree.count :=
    TreeOk.resolve_lt hok₁ (Nat.lt_of_lt_of_le hcwd hedits.count_le) hres
  constructor
  · exact .fill (hedits.mono (fun _ _ => id) fun _ _ => False.elim) hlt (hfilled rfl hres)
  · obtain ⟨parent, name, c, hat⟩ := hfile rfl
    have hstep := @Edited.fill (fun _ _ => False) (fun _ _ => True) fs₁.tree fs₁.tree n data size
      .refl hlt trivial
    refine ⟨parent, name, c, hat.target, hat.parent_lt, ?_, ?_⟩
    · exact hstep.find hok₁ (Nat.lt_of_lt_of_le hat.parent_lt hedits.count_le) hat.find
    · rw [(sameShape_setData _ _ _ _).type]
      exact hat.isFile

theorem vfsWriteFile_edits (hok : TreeOk fs.tree) (hcwd : cwd < fs.tree.count) (path : CStr)
    (data : Nat → U8) (size : U32) :
    Edited (fun ws _ => Targeted fs cwd path ws) (Filled fs.tree cwd path)
        fs.tree (vfsWriteFile fs cwd path data size).2.tree ∧
      (vfsWriteFile fs cwd path data size).2.mounts = fs.mounts ∧
      ((vfsWriteFile fs cwd path data size).1 = true → ∃ parent name c,
        FileAt fs.tree cwd path (vfsWriteFile fs cwd path data size).2.tree parent name c) := by
  obtain ⟨hedits, hmounts, -⟩ := vfsTouch_edits hok hcwd path
  have hedits' : Edited (fun ws _ => Targeted fs cwd path ws) (Filled fs.tree cwd path)
      fs.tree (vfsTouch fs cwd path).2.tree :=
    hedits.mono (fun _ _ => id) fun _ _ => False.elim
  unfold vfsWriteFile
  split
  · exact ⟨.refl, rfl, nofun⟩
  split
  · rename_i fs₁ htouch
    rw [htouch] at hedits' hmounts
    exact ⟨hedits', hmounts, nofun⟩
  rename_i fs₁ htouch
  rw [htouch] at hedits' hmounts
  split
  · exact ⟨hedits', hmounts, nofun⟩
  rename_i node hres
  split
  · exact ⟨hedits', hmounts, nofun⟩
  · obtain ⟨hfill, hat⟩ := edited_fill hok hcwd htouch hres ((List.range size.toNat).map data) size
    exact ⟨hfill, hmounts, fun _ => hat⟩

/-! ## `vfs_change_dir` -/

theorem words_component (hne : p ≠ []) (hhead : p.head? ≠ some (chr '/')) :
    words p = (p.takeWhile fun c => c ≠ chr '/') ::
      words (skipSlashes (p.dropWhile fun c => c ≠ chr '/')) := by
  rw [words_skipSlashes]
  exact components_takeWhile hne hhead

theorem nameOk_of_word (hmem : w ∈ words p) (hlen : w.length ≤ vfsNameMax) : NameOk w :=
  ⟨ne_nil_of_mem_components hmem, hlen, sep_not_mem_of_mem_components hmem⟩

/-- The ways of `vfs_ensure_dir_abs` through the words of its path. -/
inductive Ensures : Nat → Fs → Nat → List CStr → Bool × Fs → Prop
  | spent {fs : Fs} {node : Nat} {ws : List CStr} : Ensures 0 fs node ws (false, fs)
  | done {fuel : Nat} {fs : Fs} {node : Nat} : Ensures (fuel + 1) fs node [] (true, fs)
  | long {fuel : Nat} {fs : Fs} {node : Nat} {w : CStr} {ws : List CStr}
      (hlong : vfsNameMax < w.length) : Ensures (fuel + 1) fs node (w :: ws) (false, fs)
  | full {fuel : Nat} {fs : Fs} {node : Nat} {w : CStr} {ws : List CStr}
      (hnone : kcalloc fs.heap vfsNodeSize = none) : Ensures (fuel + 1) fs node (w :: ws) (false, fs)
  | file {fuel : Nat} {fs : Fs} {node child : Nat} {w : CStr} {ws : List CStr}
      (hfind : vfsFindChild fs.tree node w = some child)
      (hfile : (fs.tree.node child).type ≠ .dir) : Ensures (fuel + 1) fs node (w :: ws) (false, fs)
  | found {fuel : Nat} {fs : Fs} {node child : Nat} {w : CStr} {ws : List CStr} {r : Bool × Fs}
      (hname : NameOk w) (hfind : vfsFindChild fs.tree node w = some child)
      (hdir : (fs.tree.node child).type = .dir) (hrest : Ensures fuel fs child ws r) :
      Ensures (fuel + 1) fs node (w :: ws) r
  | made {fuel : Nat} {fs : Fs} {node : Nat} {w : CStr} {ws : List CStr} {r : Bool × Fs}
      {addr : U32} {heap : Heap} (hname : NameOk w) (hfresh : vfsFindChild fs.tree node w = none)
      (hroom : kcalloc fs.heap vfsNodeSize = some (addr, heap))
      (hrest : Ensures fuel { fs with tree := fs.tree.addNode w .dir (some node), heap := heap }
        fs.tree.count ws r) :
      Ensures (fuel + 1) fs node (w :: ws) r

theorem ensureDirLoop_ensures (fuel : Nat) (fs : Fs) (node : Nat) {p : CStr}
    (hhead : p.head? ≠ some (chr '/')) :
    Ensures fuel fs node (words p) (ensureDirLoop fuel fs node p) := by
  induction fuel generalizing fs node p with
  | zero => exact .spent
  | succ fuel ih =>
      rw [ensureDirLoop]
      by_cases hne : p = []
      · rw [if_pos hne, hne]
        exact .done
      have hmem : (p.takeWhile fun c => c ≠ chr '/') ∈ words p := by
        rw [words_component hne hhead]
        exact List.mem_cons_self
      have hrest := fun fs₁ child => ih fs₁ child (head_skipSlashes (p.dropWhile fun c => c ≠ chr '/'))
      rw [if_neg hne, words_component hne hhead]
      dsimp only
      generalize (p.takeWhile fun c => c ≠ chr '/') = comp at hmem ⊢
      split
      · rename_i hlong
        exact .long hlong
      rename_i hshort
      have hname := nameOk_of_word hmem (by omega)
      cases hfind : vfsFindChild fs.tree node comp with
      | some child =>
          dsimp only
          split
          · rename_i hfile
            exact .file hfind hfile
          · rename_i hdir
            exact .found hname hfind (not_not.mp hdir) (hrest fs child)
      | none =>
          dsimp only
          unfold vfsAllocNode
          cases hroom : kcalloc fs.heap vfsNodeSize with
          | none => exact .full hroom
          | some made =>
              have hnew : ((fs.tree.addNode comp .dir (some node)).node fs.tree.count).type =
                  .dir := by
                rw [node_addNode_new]
              dsimp only [Option.map]
              rw [if_neg (not_not.mpr hnew)]
              exact .made hname hfind hroom (hrest _ _)

theorem vfsEnsureDirAbs_ensures (hhead : path.head? = some (chr '/')) :
    Ensures (path.length + 1) fs vfsRoot (words path) (vfsEnsureDirAbs fs path) := by
  unfold vfsEnsureDirAbs
  rw [if_neg (not_not.mpr hhead), ← words_skipSlashes]
  exact ensureDirLoop_ensures _ _ _ (head_skipSlashes path)

theorem edited_of_ensures {fuel node : Nat} {ws : List CStr} {r : Bool × Fs}
    (h : Ensures fuel fs node ws r) (hok : TreeOk fs.tree) (hnode : node < fs.tree.count)
    (hdir : (fs.tree.node node).type = .dir) :
    Edited (fun vs ty => ty = .dir ∧ (kcalloc fs.heap vfsNodeSize).isSome ∧
        vs <+: pathOf fs.tree node ++ ws) (fun _ _ => False) fs.tree r.2.tree ∧
      r.2.mounts = fs.mounts := by
  induction h with
  | spent => exact ⟨.refl, rfl⟩
  | done => exact ⟨.refl, rfl⟩
  | long hlong => exact ⟨.refl, rfl⟩
  | full hnone => exact ⟨.refl, rfl⟩
  | file hfind hfile => exact ⟨.refl, rfl⟩
  | found hname hfind hchildDir hrest ih =>
      obtain ⟨hlt, hparent, -, hchildName⟩ := hok.find_lt hnode hfind
      obtain ⟨hedits, hmounts⟩ := ih hok hlt hchildDir
      rw [hok.pathOf_child hlt hparent, hchildName, List.append_assoc, List.singleton_append] at hedits
      exact ⟨hedits, hmounts⟩
  | made hname hfresh hroom hrest ih =>
      have hadd := Addable.mk hnode hdir hname hfresh
      have hsome := Option.isSome_of_eq_some hroom
      obtain ⟨hedits, hmounts⟩ := ih (hadd.treeOk hok) (Nat.lt_succ_self _) (by rw [node_addNode_new])
      rw [pathOf_addNode_new hok hnode, strCopy_nameOk hname, List.append_assoc,
        List.singleton_append] at hedits
      refine ⟨.trans (.add .refl hadd ⟨rfl, hsome, ?_⟩)
        (hedits.mono (fun _ _ h => ⟨h.1, hsome, h.2.2⟩) fun _ _ => id), hmounts⟩
      exact (List.prefix_append_right_inj _).mpr (List.cons_prefix_cons.mpr ⟨rfl, List.nil_prefix⟩)

theorem vfsEnsureDirAbs_edits (hok : TreeOk fs.tree) (path : CStr) :
    Edited (fun ws ty => ty = .dir ∧ (kcalloc fs.heap vfsNodeSize).isSome ∧ ws <+: words path)
        (fun _ _ => False) fs.tree (vfsEnsureDirAbs fs path).2.tree ∧
      (vfsEnsureDirAbs fs path).2.mounts = fs.mounts := by
  by_cases hhead : path.head? = some (chr '/')
  · have hedits := edited_of_ensures (vfsEnsureDirAbs_ensures hhead) hok hok.pos hok.rootDir
    have hroot : pathOf fs.tree vfsRoot = [] := hok.pathOf_root
    rw [hroot, List.nil_append] at hedits
    exact hedits
  · unfold vfsEnsureDirAbs
    rw [if_pos hhead]
    exact ⟨.refl, rfl⟩

/-- The text and the path on the CD under which `vfs_change_dir` makes shadows. -/
def Shadowed (mach : Machine) (fs : Fs) (check : CStr) : Prop :=
  ∃ subpath, vfsMountSubpath check = some subpath ∧
    fsPathIsDirFromMount mach fs.mounts cdromMount subpath = some true

/-- `vfs_change_dir` makes shadows for this path and has room for one, and `ws` is one of them. -/
structure ShadowAt (mach : Machine) (fs : Fs) (cwd : Nat) (path : CStr) (ws : List CStr) : Prop where
  nonempty : path ≠ []
  room : (kcalloc fs.heap vfsNodeSize).isSome
  shadowed : Shadowed mach fs (vfsCheckPath fs.tree cwd path)
  words : ws <+: words (vfsCheckPath fs.tree cwd path)

theorem vfsChangeDir_edits {r : Option NodeId} (hok : TreeOk fs.tree) (hcwd : cwd < fs.tree.count)
    (h : vfsChangeDir mach fs cwd path = some (r, fs')) :
    Edited (fun ws ty => ty = .dir ∧ ShadowAt mach fs cwd path ws) (fun _ _ => False)
        fs.tree fs'.tree ∧
      fs'.mounts = fs.mounts ∧
      ∀ n : Nat, r = some n → n < fs'.tree.count ∧ (fs'.tree.node n).type = .dir := by
  unfold vfsChangeDir at h
  dsimp only at h
  split at h
  · cases h
  · rename_i honmount
    have hne : path ≠ [] := by
      intro hnil
      rw [if_pos hnil] at honmount
      cases honmount
    rw [if_neg hne] at h honmount
    have hshadow : Shadowed mach fs (vfsCheckPath fs.tree cwd path) := by
      split at honmount
      · cases honmount
      · exact ⟨_, ‹_›, honmount⟩
    obtain ⟨hedits, hmounts⟩ := vfsEnsureDirAbs_edits hok (vfsCheckPath fs.tree cwd path)
    have hedits' : Edited (fun ws ty => ty = .dir ∧ ShadowAt mach fs cwd path ws) (fun _ _ => False)
        fs.tree (vfsEnsureDirAbs fs (vfsCheckPath fs.tree cwd path)).2.tree :=
      hedits.mono (fun ws ty h => ⟨h.1, hne, h.2.1, hshadow, h.2.2⟩) fun _ _ => id
    split at h
    · rename_i fs₁ hensure
      rw [hensure] at hedits' hmounts
      cases h
      exact ⟨hedits', hmounts, nofun⟩
    rename_i fs₁ hensure
    rw [hensure] at hedits' hmounts
    split at h
    · cases h
      exact ⟨hedits', hmounts, nofun⟩
    · rename_i node hres
      cases h
      refine ⟨hedits', hmounts, fun n hn => ?_⟩
      split at hn
      · rename_i htype
        cases hn
        exact ⟨TreeOk.resolve_lt (hedits'.treeOk hok) (hedits'.treeOk hok).pos hres, htype⟩
      · cases hn
  · split at h
    · cases h
      exact ⟨.refl, rfl, nofun⟩
    · rename_i node hres
      cases h
      refine ⟨.refl, rfl, fun n hn => ?_⟩
      split at hn
      · rename_i htype
        cases hn
        exact ⟨TreeOk.resolve_lt hok hcwd hres, htype⟩
      · cases hn

/-! ## `vfs_init` -/

theorem Targeted.eq_words {ws : List CStr} (h : Targeted fs cwd path ws) (hok : TreeOk fs.tree)
    (habs : path.head? = some (chr '/')) (hplain : ∀ w ∈ words path, w ≠ cstr "." ∧ w ≠ cstr "..") :
    ws = words path := by
  obtain ⟨parent, name, htarget, hlt, -, -, hws⟩ := h
  rcases htarget.how with ⟨-, hslash, -, -⟩ | ⟨-, hsteps, hwords, -, -⟩
  · exact absurd (List.mem_of_mem_head? habs) hslash
  · unfold startOf at hsteps
    rw [if_pos habs] at hsteps
    have hpath := TreeOk.pathOf_stepAll hok hok.root_lt
      (fun w hw => hplain w (List.dropLast_subset _ hw)) hsteps
    rw [hws, hpath, hok.pathOf_root, List.nil_append]
    exact hwords.symm

theorem vfsWriteSeedFile_edits (hok : TreeOk fs.tree) (path data : CStr) :
    Edited (fun ws _ => Targeted fs vfsRoot path ws) (Filled fs.tree vfsRoot path)
        fs.tree (vfsWriteSeedFile fs path data).2.tree ∧
      (vfsWriteSeedFile fs path data).2.mounts = fs.mounts := by
  obtain ⟨hedits, hmounts, -⟩ := vfsTouch_edits hok hok.root_lt path
  have hedits' : Edited (fun ws _ => Targeted fs vfsRoot path ws) (Filled fs.tree vfsRoot path)
      fs.tree (vfsTouch fs vfsRoot path).2.tree :=
    hedits.mono (fun _ _ => id) fun _ _ => False.elim
  unfold vfsWriteSeedFile
  split
  · rename_i fs₁ htouch
    rw [htouch] at hedits' hmounts
    exact ⟨hedits', hmounts⟩
  rename_i fs₁ htouch
  rw [htouch] at hedits' hmounts
  split
  · exact ⟨hedits', hmounts⟩
  rename_i file hres
  dsimp only
  split
  · exact ⟨hedits', hmounts⟩
  · exact ⟨(edited_fill hok hok.root_lt htouch hres _ _).1, hmounts⟩

/-- What `vfs_init` makes; it also asks for `/bin` and `/mount/cdrom`, and is refused. -/
def startPaths : List (List CStr) :=
  [[cstr "docs"], [cstr "mount"], [cstr "tmp"], [cstr "docs", cstr "readme.txt"],
    [cstr "docs", cstr "roadmap.txt"]]

def StartEdit (fs fs' : Fs) : Prop :=
  Edited (fun ws _ => ws ∈ startPaths) (fun u n => (u.node n).type = .file) fs.tree fs'.tree ∧
    fs'.mounts = fs.mounts

theorem startEdit_makeDir (path : CStr) (hok : TreeOk fs.tree) (habs : path.head? = some (chr '/'))
    (hplain : ∀ w ∈ words path, w ≠ cstr "." ∧ w ≠ cstr "..")
    (hpath : (vfsMountSubpath path).isSome ∨ words path ∈ startPaths) :
    StartEdit fs (vfsMakeDir fs vfsRoot path).2 := by
  obtain ⟨hedits, hmounts, -⟩ := vfsMakeDir_edits hok hok.root_lt path
  refine ⟨hedits.mono (fun ws ty h => ?_) fun _ _ => False.elim, hmounts⟩
  rcases hpath with hgate | hmem
  · obtain ⟨parent, name, htarget, -⟩ := h.2
    have hallowed := htarget.allowed
    unfold vfsCheckPath at hallowed
    rw [if_pos habs] at hallowed
    rw [hallowed] at hgate
    cases hgate
  · rw [h.2.eq_words hok habs hplain]
    exact hmem

theorem startEdit_seed (path : CStr) (hok : TreeOk fs.tree) (data : CStr) (habs : path.head? = some (chr '/'))
    (hplain : ∀ w ∈ words path, w ≠ cstr "." ∧ w ≠ cstr "..") (hmem : words path ∈ startPaths) :
    StartEdit fs (vfsWriteSeedFile fs path data).2 := by
  obtain ⟨hedits, hmounts⟩ := vfsWriteSeedFile_edits hok path data
  refine ⟨hedits.mono (fun ws ty h => ?_) (fun u n h => ?_), hmounts⟩
  · rw [h.eq_words hok habs hplain]
    exact hmem
  · obtain ⟨-, parent, name, c, hat, hsame⟩ := h
    rw [hsame ?_ ?_]
    · exact hat.isFile
    all_goals
      intro hdot
      rw [hdot] at habs
      revert habs
      decide

theorem StartEdit.trans {fs₁ fs₂ : Fs} (h : StartEdit fs fs₁) (h' : StartEdit fs₁ fs₂) :
    StartEdit fs fs₂ :=
  ⟨h.1.trans h'.1, h'.2.trans h.2⟩

theorem vfsInit_edits {mounts : Mounts} {heap : Heap} (h : vfsInit mounts heap = some fs) :
    Edited (fun ws _ => ws ∈ startPaths) (fun u n => (u.node n).type = .file)
        (emptyTree.addNode [] .dir none) fs.tree ∧ fs.mounts = mounts := by
  obtain ⟨⟨root, fs₀⟩, halloc, heq⟩ := Option.map_eq_some_iff.mp h
  obtain ⟨⟨addr, heap₀⟩, -, hpair⟩ := Option.map_eq_some_iff.mp halloc
  have hroot₀ : emptyTree.count = vfsRoot := rfl
  cases hpair
  rw [hroot₀] at heq
  have hroot : TreeOk (emptyTree.addNode [] .dir none) := treeOk_root []
  dsimp only at heq
  generalize hfs₀ : (⟨emptyTree.addNode [] .dir none, heap₀, mounts⟩ : Fs) = fs₀ at heq
  have hok₀ : TreeOk fs₀.tree := by
    rw [← hfs₀]
    exact hroot
  have h₁ := startEdit_makeDir (cstr "/bin") hok₀ (by decide) (by decide) (by decide)
  have h₂ := startEdit_makeDir (cstr "/docs") (h₁.1.treeOk hok₀) (by decide) (by decide)
    (by decide)
  have h₂ := h₁.trans h₂
  have h₃ := startEdit_makeDir (cstr "/mount") (h₂.1.treeOk hok₀) (by decide) (by decide)
    (by decide)
  have h₃ := h₂.trans h₃
  have h₄ := startEdit_makeDir (cstr "/mount/cdrom") (h₃.1.treeOk hok₀) (by decide)
    (by decide) (by decide)
  have h₄ := h₃.trans h₄
  have h₅ := startEdit_makeDir (cstr "/tmp") (h₄.1.treeOk hok₀) (by decide) (by decide)
    (by decide)
  have h₅ := h₄.trans h₅
  have h₆ := startEdit_seed (cstr "/docs/readme.txt") (h₅.1.treeOk hok₀)
    (cstr "SLOP in-memory VFS\nThis is not a disk-backed filesystem yet.\n") (by decide)
    (by decide) (by decide)
  have h₆ := h₅.trans h₆
  have h₇ := startEdit_seed (cstr "/docs/roadmap.txt") (h₆.1.treeOk hok₀)
    (cstr "Next: more memory management, a better VFS, and real userland.\n") (by decide)
    (by decide) (by decide)
  have h₇ := h₆.trans h₇
  rw [← heq]
  rw [← hfs₀] at h₇ ⊢
  exact h₇

end SlopOS.Proofs.FileEdits
