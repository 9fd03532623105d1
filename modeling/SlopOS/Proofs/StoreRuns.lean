import Mathlib.Data.List.Nodup
import SlopOS.Proofs.TreeStore
/-!
# Runs of the file system as runs of a store

`Serves` says what a call may do to a store of paths, and why it may refuse: it knows names and
contents, but no nodes, and of memory only whether there is enough.  Every call of `vfs.c` on the
tree does one of these things, so a run from `vfs_init` is a run of the store, and a file reads as
what was last written under its path.
-/

namespace SlopOS.Proofs.StoreRuns

open SlopOS.Support SlopOS.Kernel
open SlopOS.Support.PathStore (Entry Op Closed Grown lastOn apply_eq_some)
open SlopOS.Proofs.FileTree SlopOS.Proofs.FilePaths SlopOS.Proofs.FileEdits SlopOS.Proofs.FileCalls
open SlopOS.Proofs.TreeRuns SlopOS.Proofs.Creation SlopOS.Proofs.TreeStore

abbrev FileOp := Op CStr Bytes

/-- A call of the file system; the working directory is given beside it. -/
inductive Call
  | mkdir (path : CStr)
  | touch (path : CStr)
  | write (path : CStr) (data : Bytes)
  | cd (path : CStr)

/-- The directory `dir` and the name `name` that a path gives for something new: a path without a
slash is cut to the length of a name, else the words in front of the last lead to the directory. -/
structure Names (s : FileStore) (cwd : List CStr) (path : CStr) (dir : List CStr) (name : CStr) :
    Prop where
  isDir : s dir = some .dir
  how : (path ≠ [] ∧ chr '/' ∉ path ∧ dir = cwd ∧ name = strCopy path (vfsNameMax + 1)) ∨
    ∃ ws, words path = ws ++ [name] ∧ name ≠ cstr "." ∧ name ≠ cstr ".." ∧
      PathStore.follow (cstr ".") (cstr "..") s (startPath cwd path) ws = some dir

/-- The file is there, or it is made without contents. -/
inductive Touched (s : FileStore) (dir : List CStr) (name : CStr) : List FileOp → Prop
  | old {bytes : Bytes} : s (dir ++ [name]) = some (.file bytes) → Touched s dir name []
  | new : s (dir ++ [name]) = none → Touched s dir name [.bind dir name (.file [])]

/-- The path of a working directory as `vfs_get_cwd_path` prints it: its last sixteen names, cut to
the buffer. -/
def cwdText (cwd : List CStr) : CStr :=
  if cwd = [] then cstr "/"
  else chr '/' :: printParts (cwd.drop (cwd.length - cwdPartsMax)) (vfsPathMax - 1)

/-- The text of a path in which the mount is looked for. -/
def checkText (cwd : List CStr) (path : CStr) : CStr :=
  if path.head? = some (chr '/') then path
  else (vfsPathJoin vfsPathMax (cwdText cwd) path).getD path

/-- Whether memory is left for a new node, and then for the contents of a file. -/
structure Room where
  node : Bool
  contents : Bool

/-- Why no name is made for a path, where an entry that `blocks` is in the way. -/
inductive Refused (room : Room) (s : FileStore) (cwd : List CStr) (path : CStr)
    (blocks : Entry Bytes → Prop) : Prop
  | onMount (h : (vfsMountSubpath (checkText cwd path)).isSome)
  | nowhere (h : ∀ parent name, vfsSplitParent path = some (parent, name) →
      ∀ dir, followPath s cwd parent = some dir → s dir ≠ some .dir)
  | taken {name : CStr} {dir : List CStr} {e : Entry Bytes} (h : Names s cwd path dir name)
      (hbound : s (dir ++ [name]) = some e) (hblocks : blocks e)
  | full {name : CStr} {dir : List CStr} (h : Names s cwd path dir name)
      (hfree : s (dir ++ [name]) = none) (hroom : room.node = false)

/-- What a call may answer, and the operations that it makes for this answer. -/
inductive Serves (room : Room) (s : FileStore) (cwd : List CStr) : Call → Bool → List FileOp → Prop
  | mkdirRefused {path : CStr} (h : Refused room s cwd path fun _ => True) :
      Serves room s cwd (.mkdir path) false []
  | mkdir {path name : CStr} {dir : List CStr} (h : Names s cwd path dir name)
      (hfree : s (dir ++ [name]) = none) :
      Serves room s cwd (.mkdir path) true [.bind dir name .dir]
  | touchRefused {path : CStr} (h : Refused room s cwd path (· = .dir)) :
      Serves room s cwd (.touch path) false []
  | touch {path name : CStr} {dir : List CStr} {ops : List FileOp} (h : Names s cwd path dir name)
      (hmade : Touched s dir name ops) : Serves room s cwd (.touch path) true ops
  | writeRefused {path : CStr} {data : Bytes} (h : Refused room s cwd path (· = .dir)) :
      Serves room s cwd (.write path data) false []
  | write {path name : CStr} {dir : List CStr} {ops : List FileOp} {data : Bytes}
      (h : Names s cwd path dir name) (hmade : Touched s dir name ops) (hdot : ¬Dot path) :
      Serves room s cwd (.write path data) true (ops ++ [.write (dir ++ [name]) data])
  -- the data of a write to a dot go to the directory, where nothing reads them
  | writeDot {path name : CStr} {dir : List CStr} {ops : List FileOp} {data : Bytes}
      (h : Names s cwd path dir name) (hmade : Touched s dir name ops) (hdot : Dot path) :
      Serves room s cwd (.write path data) true ops
  -- the file has been made when the memory for its contents is missing, or its name was cut
  | writeLost {path name : CStr} {dir : List CStr} {ops : List FileOp} {data : Bytes}
      (h : Names s cwd path dir name) (hmade : Touched s dir name ops)
      (hlost : room.contents = false ∨
        ∀ s', Runs.run PathStore.apply s ops = some s' → followPath s' cwd path = none) :
      Serves room s cwd (.write path data) false ops
  -- directories that stand for those of the CD
  | cd {path : CStr} {ok : Bool} {ops : List FileOp} (hne : path ≠ [])
      (hmount : (vfsMountSubpath (checkText cwd path)).isSome)
      (hops : ∀ o ∈ ops, ∃ dir name, o = .bind dir name .dir ∧
        dir ++ [name] <+: words (checkText cwd path)) :
      Serves room s cwd (.cd path) ok ops
  | moved {path : CStr} {ok : Bool}
      (hok : ok = true ↔ ∃ dir, followPath s cwd path = some dir ∧ s dir = some .dir) :
      Serves room s cwd (.cd path) ok []

variable {mach : Machine} {mounts : Mounts} {heap : Heap} {fs₀ fs fs' u : Fs} {t : VfsTree}
variable {es : List TreeEvent} {e : TreeEvent} {n c cwd parent : Nat} {path name : CStr}
variable {type : VfsNodeType} {ops ops' : List FileOp} {data : Nat → U8} {size : U32}

/-- The operations lead from the one tree to the other. -/
def Leads (t : VfsTree) (ops : List FileOp) (t' : VfsTree) : Prop :=
  Runs.run PathStore.apply (view t) ops = some (view t')

theorem Leads.append {t' t'' : VfsTree} (h : Leads t ops t') (h' : Leads t' ops' t'') :
    Leads t (ops ++ ops') t'' := by
  unfold Leads at h ⊢
  rw [Runs.run_append, h, Option.bind_some]
  exact h'

theorem leads_one {t' : VfsTree} {o : FileOp} (h : PathStore.apply (view t) o = some (view t')) :
    Leads t [o] t' := by
  unfold Leads Runs.run
  rw [h]
  rfl

/-! ## One call -/

theorem names_of_target (h : Target t cwd path parent name) (hok : TreeOk t)
    (hcwd : cwd < t.count) : Names (view t) (pathOf t cwd) path (pathOf t parent) name := by
  have hlt := Target.parent_lt h hok hcwd
  refine ⟨?_, ?_⟩
  · rw [view_pathOf hok hlt, entryOf_dir.mpr h.isDir]
  · rcases h.how with ⟨hne, hslash, rfl, hname⟩ | ⟨-, hsteps, hwords, hdot, hdots⟩
    · exact Or.inl ⟨hne, hslash, rfl, hname⟩
    · refine Or.inr ⟨_, hwords, hdot, hdots, ?_⟩
      rw [← pathOf_startOf hok, ← stepAll_view hok (TreeOk.startOf_lt hok hcwd path), hsteps]
      rfl

theorem view_free (hok : TreeOk t) (hlt : parent < t.count)
    (hfresh : vfsFindChild t parent name = none) : view t (pathOf t parent ++ [name]) = none := by
  rw [view_child hok hlt, hfresh]
  rfl

theorem leads_addNode (type : VfsNodeType) (h : Addable t parent name) (hok : TreeOk t) :
    Leads t [.bind (pathOf t parent) name (freshEntry type)]
      (t.addNode name type (some parent)) := by
  refine leads_one (apply_eq_some.mpr ⟨⟨?_, view_free hok h.dir_lt h.fresh⟩, ?_⟩)
  · rw [view_pathOf hok h.dir_lt, entryOf_dir.mpr h.isDir]
  · exact view_addNode h hok

theorem cwdText_eq (hok : TreeOk t) (hcwd : cwd < t.count) :
    vfsGetCwdPath t cwd vfsPathMax = cwdText (pathOf t cwd) := by
  unfold vfsGetCwdPath cwdText
  rw [if_neg (by decide)]
  by_cases hroot : cwd = vfsRoot
  · rw [if_pos hroot, if_pos ((hok.pathOf_eq_nil_iff hcwd).mpr hroot)]
    rfl
  · rw [if_neg hroot, if_neg fun h => hroot ((hok.pathOf_eq_nil_iff hcwd).mp h),
      PrintedPaths.cwdParts_eq hok hcwd, List.take_reverse, List.reverse_reverse]
    rfl

theorem checkText_eq (hok : TreeOk t) (hcwd : cwd < t.count) (path : CStr) :
    vfsCheckPath t cwd path = checkText (pathOf t cwd) path := by
  unfold vfsCheckPath checkText
  rw [cwdText_eq hok hcwd]

/-- The room that the heap has for a call; the contents are taken behind the node. -/
def roomOf (fs fs₁ : Fs) (size : U32) : Room :=
  ⟨(kcalloc fs.heap vfsNodeSize).isSome, (kmalloc fs₁.heap (size + 1)).isSome⟩

theorem refused_of_parentDir {room : Room} {blocks : Entry Bytes → Prop} (hok : TreeOk t)
    (hcwd : cwd < t.count) (h : vfsParentDir t cwd path = none) :
    Refused room (view t) (pathOf t cwd) path blocks := by
  unfold vfsParentDir at h
  split at h
  · rename_i hmount
    rw [checkText_eq hok hcwd] at hmount
    exact .onMount hmount
  refine .nowhere fun parent name hsplit dir hdir hbound => ?_
  rw [hsplit] at h
  dsimp only at h
  have hresolve : (if parent = [] then some cwd else vfsResolveFrom t cwd parent) =
      vfsResolveFrom t cwd parent := by
    split
    · rename_i hnil
      rw [hnil]
      rfl
    · rfl
  rw [hresolve] at h
  rw [← resolve_view hok hcwd] at hdir
  obtain ⟨n, hres, rfl⟩ := Option.map_eq_some_iff.mp hdir
  rw [view_pathOf hok (TreeOk.resolve_lt hok hcwd hres), Option.some_inj, entryOf_dir] at hbound
  rw [hres] at h
  dsimp only at h
  rw [if_pos hbound] at h
  cases h

theorem refused_of_alloc {room : Room} {blocks : Entry Bytes → Prop} (hok : TreeOk fs.tree)
    (hcwd : cwd < fs.tree.count) (h : Target fs.tree cwd path parent name)
    (hfresh : vfsFindChild fs.tree parent name = none)
    (halloc : vfsAllocNode fs name type (some parent) = none)
    (hroom : room.node = (kcalloc fs.heap vfsNodeSize).isSome) :
    Refused room (view fs.tree) (pathOf fs.tree cwd) path blocks := by
  refine .full (names_of_target h hok hcwd) (view_free hok (Target.parent_lt h hok hcwd) hfresh) ?_
  rw [hroom, Option.map_eq_none_iff.mp halloc]
  rfl

theorem makeDir_refused (hok : TreeOk fs.tree) (hcwd : cwd < fs.tree.count) {room : Room}
    (hroom : room.node = (kcalloc fs.heap vfsNodeSize).isSome)
    (h : (vfsMakeDir fs cwd path).1 = false) :
    Refused room (view fs.tree) (pathOf fs.tree cwd) path fun _ => True := by
  unfold vfsMakeDir at h
  split at h
  · rename_i hparent
    exact refused_of_parentDir hok hcwd hparent
  rename_i parent name hparent
  have htarget := vfsParentDir_spec hparent
  split at h
  · rename_i hfind
    obtain ⟨c, hfind⟩ := Option.isSome_iff_exists.mp hfind
    refine .taken (names_of_target htarget hok hcwd) (e := entryOf fs.tree c) ?_ trivial
    rw [view_child hok (Target.parent_lt htarget hok hcwd), hfind]
    rfl
  rename_i hfresh
  split at h
  · rename_i halloc
    exact refused_of_alloc hok hcwd htarget (by simpa using hfresh) halloc hroom
  · cases h

theorem touch_refused (hok : TreeOk fs.tree) (hcwd : cwd < fs.tree.count) {room : Room}
    (hroom : room.node = (kcalloc fs.heap vfsNodeSize).isSome)
    (h : (vfsTouch fs cwd path).1 = false) :
    Refused room (view fs.tree) (pathOf fs.tree cwd) path (· = .dir) := by
  unfold vfsTouch at h
  split at h
  · rename_i hparent
    exact refused_of_parentDir hok hcwd hparent
  rename_i parent name hparent
  have htarget := vfsParentDir_spec hparent
  split at h
  · rename_i c hfind
    have hdir : (fs.tree.node c).type = .dir := by
      cases htype : (fs.tree.node c).type with
      | dir => rfl
      | file => exact absurd htype (of_decide_eq_false h)
    refine .taken (names_of_target htarget hok hcwd) ?_ rfl
    rw [view_child hok (Target.parent_lt htarget hok hcwd), hfind, Option.map_some,
      entryOf_dir.mpr hdir]
  rename_i hfresh
  split at h
  · rename_i halloc
    exact refused_of_alloc hok hcwd htarget hfresh halloc hroom
  · cases h

theorem makeDir_serves (hok : TreeOk fs.tree) (hcwd : cwd < fs.tree.count) (path : CStr) :
    ∃ ops, Serves (roomOf fs fs 0) (view fs.tree) (pathOf fs.tree cwd) (.mkdir path)
        (vfsMakeDir fs cwd path).1 ops ∧
      Leads fs.tree ops (vfsMakeDir fs cwd path).2.tree := by
  rcases vfsMakeDir_cases fs cwd path with heq | ⟨parent, name, fs', heq, hmade⟩
  · have hrefused : Refused (roomOf fs fs 0) _ _ path _ :=
      makeDir_refused hok hcwd rfl (congrArg Prod.fst heq)
    rw [heq]
    exact ⟨[], .mkdirRefused hrefused, rfl⟩
  · have hadd := hmade.addable hok hcwd
    rw [heq, hmade.tree]
    exact ⟨_, .mkdir (names_of_target hmade.target hok hcwd) (view_free hok hadd.dir_lt hmade.fresh),
      leads_addNode .dir hadd hok⟩

theorem touch_serves {fs₁ : Fs} (hok : TreeOk fs.tree) (hcwd : cwd < fs.tree.count)
    (htouch : vfsTouch fs cwd path = (true, fs₁)) :
    ∃ parent name c ops, Names (view fs.tree) (pathOf fs.tree cwd) path (pathOf fs.tree parent) name ∧
      Touched (view fs.tree) (pathOf fs.tree parent) name ops ∧ Leads fs.tree ops fs₁.tree ∧
      FileAt fs.tree cwd path fs₁.tree parent name c ∧
      pathOf fs₁.tree c = pathOf fs.tree parent ++ [name] := by
  rcases vfsTouch_cases fs cwd path with heq | ⟨parent, name, c, heq, htaken, hfile⟩ |
    ⟨parent, name, fs', heq, hmade⟩
  · rw [heq] at htouch
    cases htouch
  · rw [heq] at htouch
    cases htouch
    have hlt := Target.parent_lt htaken.target hok hcwd
    obtain ⟨hc, hparent, -, hname⟩ := hok.find_lt hlt htaken.find
    refine ⟨parent, name, c, [], names_of_target htaken.target hok hcwd, @Touched.old _ _ _ (fileBytes fs.tree c) ?_, rfl,
      ⟨htaken.target, hlt, htaken.find, hfile⟩, ?_⟩
    · rw [view_child hok hlt, htaken.find, Option.map_some, entryOf_file hfile]
    · rw [hok.pathOf_child hc hparent, hname]
  · rw [heq] at htouch
    cases htouch
    have hadd := hmade.addable hok hcwd
    have hfind := hmade.find hok hcwd
    have hnew := hmade.new
    refine ⟨parent, name, fs.tree.count, _, names_of_target hmade.target hok hcwd,
      .new (view_free hok hadd.dir_lt hmade.fresh), ?_, ⟨hmade.target, hadd.dir_lt, hfind, hnew.1⟩, ?_⟩
    · rw [hmade.tree]
      exact leads_addNode .file hadd hok
    · rw [hmade.tree, pathOf_addNode_new hok hadd.dir_lt, strCopy_nameOk hadd.nameOk]

theorem vfsTouch_serves (hok : TreeOk fs.tree) (hcwd : cwd < fs.tree.count) (path : CStr) :
    ∃ ops, Serves (roomOf fs fs 0) (view fs.tree) (pathOf fs.tree cwd) (.touch path)
        (vfsTouch fs cwd path).1 ops ∧
      Leads fs.tree ops (vfsTouch fs cwd path).2.tree := by
  cases htouch : vfsTouch fs cwd path with
  | mk ok fs₁ =>
      cases ok with
      | true =>
          obtain ⟨parent, name, c, ops, hnames, hmade, hleads, -⟩ := touch_serves hok hcwd htouch
          exact ⟨ops, .touch hnames hmade, hleads⟩
      | false =>
          have hrefused : Refused (roomOf fs fs 0) _ _ path _ :=
            touch_refused hok hcwd rfl (congrArg Prod.fst htouch)
          rw [vfsTouch_failed htouch]
          exact ⟨[], .touchRefused hrefused, rfl⟩

theorem dir_of_dot {fs₁ : Fs} (hok₁ : TreeOk fs₁.tree) (hcwd : cwd < fs₁.tree.count)
    (hdir : (fs₁.tree.node cwd).type = .dir) (hdot : Dot path)
    (hres : vfsResolveFrom fs₁.tree cwd path = some n) : (fs₁.tree.node n).type = .dir := by
  rw [vfsResolveFrom_eq] at hres
  rcases hdot with rfl | rfl
  · have hself : stepAll fs₁.tree (startOf cwd (cstr ".")) (words (cstr ".")) = some cwd := rfl
    rw [hself] at hres
    cases hres
    exact hdir
  · have hup : stepAll fs₁.tree (startOf cwd (cstr "..")) (words (cstr "..")) =
        some ((fs₁.tree.node cwd).parent.getD cwd) := rfl
    rw [hup] at hres
    cases hres
    cases hparent : (fs₁.tree.node cwd).parent with
    | none => exact hdir
    | some m =>
        obtain ⟨p, hp, hlt, hmem⟩ := hok₁.listed cwd hcwd (hok₁.ne_root hparent)
        rw [hparent] at hp
        cases hp
        exact hok₁.dir_of_mem (Nat.lt_trans hlt hcwd) hmem

theorem leads_setData {u : VfsTree} (hok : TreeOk u) (hc : c < u.count)
    (hfile : (u.node c).type = .file) (data : Nat → U8) (size : U32) :
    Leads u [.write (pathOf u c) ((List.range size.toNat).map data)]
      (u.setData c ((List.range size.toNat).map data) size) := by
  refine leads_one (apply_eq_some.mpr ⟨⟨fileBytes u c, ?_⟩, view_setData hok hc hfile data size⟩)
  rw [view_pathOf hok hc, entryOf_file hfile]

theorem writeFile_serves (hok : TreeOk fs.tree) (hcwd : cwd < fs.tree.count) (path : CStr)
    (data : Nat → U8) (size : U32) :
    ∃ ops, Serves (roomOf fs (vfsTouch fs cwd path).2 size) (view fs.tree) (pathOf fs.tree cwd)
        (.write path ((List.range size.toNat).map data)) (vfsWriteFile fs cwd path data size).1 ops ∧
      Leads fs.tree ops (vfsWriteFile fs cwd path data size).2.tree := by
  cases hgate : vfsMountSubpath (vfsCheckPath fs.tree cwd path) with
  | some subpath =>
      have hrefused : (vfsMountSubpath (checkText (pathOf fs.tree cwd) path)).isSome := by
        rw [← checkText_eq hok hcwd, hgate]
        rfl
      unfold vfsWriteFile
      rw [hgate]
      exact ⟨[], .writeRefused (.onMount hrefused), rfl⟩
  | none =>
  cases htouch : vfsTouch fs cwd path with
  | mk ok fs₁ =>
  cases ok with
  | false =>
      have hrefused : Refused (roomOf fs fs₁ size) _ _ path _ :=
        touch_refused hok hcwd rfl (congrArg Prod.fst htouch)
      unfold vfsWriteFile
      rw [hgate, htouch, if_neg (by decide), vfsTouch_failed htouch]
      rw [vfsTouch_failed htouch] at hrefused
      exact ⟨[], .writeRefused hrefused, rfl⟩
  | true =>
  have hends := vfsWriteFile_ends hgate htouch data size
  obtain ⟨parent, name, c, ops, hnames, hmade, hleads, hat, hpath⟩ := touch_serves hok hcwd htouch
  obtain ⟨hedits, -, -⟩ := vfsTouch_edits hok hcwd path
  rw [htouch] at hedits
  have hok₁ := hedits.treeOk hok
  have hcwd₁ := Nat.lt_of_lt_of_le hcwd hedits.count_le
  generalize vfsWriteFile fs cwd path data size = r at hends ⊢
  cases hends with
  | lost hres =>
      refine ⟨ops, .writeLost hnames hmade (.inr fun s' hs' => ?_), hleads⟩
      rw [Leads, hs'] at hleads
      rw [Option.some.inj hleads, ← (hedits.old hok hcwd).2.2.2, ← resolve_view hok₁ hcwd₁, hres]
      rfl
  | noRoom hroom =>
      refine ⟨ops, .writeLost hnames hmade (.inl ?_), hleads⟩
      rw [roomOf, hroom]
      rfl
  | stored n made hres hroom =>
      by_cases hdot : Dot path
      · refine ⟨ops, .writeDot hnames hmade hdot, ?_⟩
        have hcwdDir : (fs.tree.node cwd).type = .dir := by
          rcases hat.target.how with ⟨-, -, rfl, -⟩ | ⟨-, -, hwords, hd, hdd⟩
          · exact hat.target.isDir
          · rcases hdot with rfl | rfl
            · exact absurd (List.cons.inj (show [cstr "."] = [name] from hwords)).1.symm hd
            · exact absurd (List.cons.inj (show [cstr ".."] = [name] from hwords)).1.symm hdd
        have hdir₁ := (hedits.old hok hcwd).2.1.trans hcwdDir
        have hdir := dir_of_dot hok₁ hcwd₁ hdir₁ hdot hres
        unfold Leads
        rw [view_setData_dir hdir]
        exact hleads
      · refine ⟨_, .write hnames hmade hdot, hleads.append ?_⟩
        have hfilled := @filled_of_touch n cwd path fs hok hcwd
        rw [htouch] at hfilled
        obtain ⟨-, parent', name', c', hat', hsame⟩ := hfilled rfl hres
        have hparent := hat.target.parentDir.symm.trans hat'.target.parentDir
        cases hparent
        have hcc : c' = c := Option.some.inj (hat'.find.symm.trans hat.find)
        have hnc : n = c := by
          rw [hsame (fun h => hdot (Or.inl h)) (fun h => hdot (Or.inr h)), hcc]
        have hlt : c < fs₁.tree.count := by
          rw [← hnc]
          exact TreeOk.resolve_lt hok₁ hcwd₁ hres
        rw [hnc, ← hpath]
        exact leads_setData hok₁ hlt hat.isFile data size

theorem ensures_leads {fuel node : Nat} {ws : List CStr} {r : Bool × Fs}
    (h : Ensures fuel fs node ws r) (hok : TreeOk fs.tree) (hnode : node < fs.tree.count)
    (hdir : (fs.tree.node node).type = .dir) :
    ∃ ops : List FileOp, (∀ o ∈ ops, ∃ dir name, o = .bind dir name .dir ∧
        dir ++ [name] <+: pathOf fs.tree node ++ ws) ∧ Leads fs.tree ops r.2.tree := by
  induction h with
  | spent => exact ⟨[], List.forall_mem_nil _, rfl⟩
  | done => exact ⟨[], List.forall_mem_nil _, rfl⟩
  | long hlong => exact ⟨[], List.forall_mem_nil _, rfl⟩
  | full hnone => exact ⟨[], List.forall_mem_nil _, rfl⟩
  | file hfind hfile => exact ⟨[], List.forall_mem_nil _, rfl⟩
  | found hname hfind hchildDir hrest ih =>
      obtain ⟨hlt, hparent, -, hchildName⟩ := hok.find_lt hnode hfind
      obtain ⟨ops, hops, hleads⟩ := ih hok hlt hchildDir
      rw [hok.pathOf_child hlt hparent, hchildName, List.append_assoc, List.singleton_append] at hops
      exact ⟨ops, hops, hleads⟩
  | @made fuel fs node w ws r addr heap hname hfresh hroom hrest ih =>
      have hadd := Addable.mk hnode hdir hname hfresh
      obtain ⟨ops, hops, hleads⟩ :=
        ih (hadd.treeOk hok) (Nat.lt_succ_self _) (by rw [node_addNode_new])
      rw [pathOf_addNode_new hok hnode, strCopy_nameOk hname, List.append_assoc,
        List.singleton_append] at hops
      refine ⟨.bind (pathOf fs.tree node) w .dir :: ops, ?_, (leads_addNode .dir hadd hok).append hleads⟩
      intro o ho
      rcases List.mem_cons.mp ho with rfl | ho
      · exact ⟨_, _, rfl, (List.prefix_append_right_inj _).mpr
          (List.cons_prefix_cons.mpr ⟨rfl, List.nil_prefix⟩)⟩
      · exact hops o ho

theorem ensureDirAbs_leads (hok : TreeOk fs.tree) (text : CStr) :
    ∃ ops : List FileOp, (∀ o ∈ ops, ∃ dir name, o = .bind dir name .dir ∧
        dir ++ [name] <+: words text) ∧ Leads fs.tree ops (vfsEnsureDirAbs fs text).2.tree := by
  by_cases hhead : text.head? = some (chr '/')
  · have h := ensures_leads (vfsEnsureDirAbs_ensures hhead) hok hok.pos hok.rootDir
    have hroot : pathOf fs.tree vfsRoot = [] := hok.pathOf_root
    rw [hroot, List.nil_append] at h
    exact h
  · unfold vfsEnsureDirAbs
    rw [if_pos hhead]
    exact ⟨[], List.forall_mem_nil _, rfl⟩

/-- Off the mount the new working directory is where the path leads. -/
theorem moves_iff (hok : TreeOk fs.tree) (hcwd : cwd < fs.tree.count) (path : CStr) :
    ((vfsResolveFrom fs.tree cwd path).bind fun n =>
        if (fs.tree.node n).type = .dir then some n else none).isSome = true ↔
      ∃ dir, followPath (view fs.tree) (pathOf fs.tree cwd) path = some dir ∧
        view fs.tree dir = some .dir := by
  rw [← resolve_view hok hcwd path]
  cases hres : vfsResolveFrom fs.tree cwd path with
  | none => simp
  | some n =>
      have hn := TreeOk.resolve_lt hok hcwd hres
      have hview := view_pathOf hok hn
      rw [Option.bind_some, Option.map_some]
      constructor
      · intro h
        by_cases hdir : (fs.tree.node n).type = .dir
        · exact ⟨_, rfl, by rw [hview, entryOf_dir.mpr hdir]⟩
        · rw [if_neg hdir] at h
          cases h
      · rintro ⟨dir, hpath, hdir⟩
        cases hpath
        rw [hview] at hdir
        rw [if_pos (entryOf_dir.mp (Option.some.inj hdir))]
        rfl

theorem changeDir_serves {r : Option NodeId} (hok : TreeOk fs.tree) (hcwd : cwd < fs.tree.count)
    (h : vfsChangeDir mach fs cwd path = some (r, fs')) :
    ∃ ops, Serves (roomOf fs fs 0) (view fs.tree) (pathOf fs.tree cwd) (.cd path) r.isSome ops ∧
      Leads fs.tree ops fs'.tree := by
  unfold vfsChangeDir at h
  dsimp only at h
  split at h
  · cases h
  · rename_i honmount
    have hmount : (vfsMountSubpath (if path = [] then [] else vfsCheckPath fs.tree cwd path)).isSome := by
      split at honmount
      · cases honmount
      · rename_i hsub
        rw [hsub]
        rfl
    have hne : path ≠ [] := by
      rintro rfl
      cases hmount
    rw [if_neg hne] at hmount h
    obtain ⟨ops, hops, hleads⟩ := ensureDirAbs_leads hok (vfsCheckPath fs.tree cwd path)
    rw [checkText_eq hok hcwd] at hmount hops
    refine ⟨ops, .cd hne hmount hops, ?_⟩
    split at h
    · rename_i hensure
      rw [hensure] at hleads
      cases h
      exact hleads
    · rename_i hensure
      rw [hensure] at hleads
      split at h
      · cases h
        exact hleads
      · cases h
        exact hleads
  · have hmoves := moves_iff hok hcwd path
    split at h
    · rename_i hres
      cases h
      rw [hres] at hmoves
      exact ⟨[], .moved hmoves, rfl⟩
    · rename_i hres
      cases h
      rw [hres, Option.bind_some] at hmoves
      exact ⟨[], .moved hmoves, rfl⟩

/-! ## Runs -/

/-- The operations of one step: what the call serves for its answer; other users of the heap do
nothing to files. -/
def Answers (mach : Machine) (fs : Fs) : TreeEvent → List FileOp → Prop
  | .changeDir cwd path, ops => ∃ r fs', vfsChangeDir mach fs cwd path = some (r, fs') ∧
    Serves (roomOf fs fs 0) (view fs.tree) (pathOf fs.tree cwd) (.cd path) r.isSome ops
  | .makeDir cwd path, ops =>
    Serves (roomOf fs fs 0) (view fs.tree) (pathOf fs.tree cwd) (.mkdir path)
      (vfsMakeDir fs cwd path).1 ops
  | .touch cwd path, ops =>
    Serves (roomOf fs fs 0) (view fs.tree) (pathOf fs.tree cwd) (.touch path)
      (vfsTouch fs cwd path).1 ops
  | .writeFile cwd path data size, ops =>
    Serves (roomOf fs (vfsTouch fs cwd path).2 size) (view fs.tree) (pathOf fs.tree cwd)
      (.write path ((List.range size.toNat).map data)) (vfsWriteFile fs cwd path data size).1 ops
  | .useHeap _, ops => ops = []

/-- The operations of the steps of a run. -/
inductive Answered (mach : Machine) : Fs → List TreeEvent → List (List FileOp) → Prop
  | nil (fs : Fs) : Answered mach fs [] []
  | cons {fs fs' : Fs} {e : TreeEvent} {es : List TreeEvent} {ops : List FileOp}
      {rest : List (List FileOp)} (hstep : treeStep mach fs e = some fs') (h : Answers mach fs e ops)
      (hrest : Answered mach fs' es rest) : Answered mach fs (e :: es) (ops :: rest)

theorem step_answers (hok : TreeOk fs.tree) (hstep : treeStep mach fs e = some fs') :
    ∃ ops, Answers mach fs e ops ∧ Leads fs.tree ops fs'.tree := by
  cases e with
  | changeDir cwd path =>
      obtain ⟨hcwd, h⟩ := Option.ite_none_right_eq_some.mp hstep
      obtain ⟨⟨r, fs₁⟩, hchange, rfl⟩ := Option.map_eq_some_iff.mp h
      obtain ⟨ops, hserves, hleads⟩ := changeDir_serves hok hcwd hchange
      exact ⟨ops, ⟨r, fs₁, hchange, hserves⟩, hleads⟩
  | makeDir cwd path =>
      obtain ⟨hcwd, h⟩ := Option.ite_none_right_eq_some.mp hstep
      rw [← Option.some.inj h]
      exact makeDir_serves hok hcwd path
  | touch cwd path =>
      obtain ⟨hcwd, h⟩ := Option.ite_none_right_eq_some.mp hstep
      rw [← Option.some.inj h]
      exact vfsTouch_serves hok hcwd path
  | writeFile cwd path data size =>
      obtain ⟨hcwd, h⟩ := Option.ite_none_right_eq_some.mp hstep
      rw [← Option.some.inj h]
      exact writeFile_serves hok hcwd path data size
  | useHeap size =>
      obtain ⟨⟨addr, heap⟩, -, rfl⟩ := Option.map_eq_some_iff.mp hstep
      exact ⟨[], rfl, rfl⟩

theorem run_answered (hok : TreeOk fs.tree) (hrun : Runs.run (treeStep mach) fs es = some fs') :
    ∃ opss, Answered mach fs es opss ∧ Leads fs.tree opss.flatten fs'.tree := by
  induction es generalizing fs with
  | nil =>
      cases hrun
      exact ⟨[], .nil _, rfl⟩
  | cons e es ih =>
      obtain ⟨fs₁, hstep, hrest⟩ := Runs.run_cons_eq_some.mp hrun
      obtain ⟨ops, hanswers, hleads⟩ := step_answers hok hstep
      obtain ⟨opss, hanswered, hleads'⟩ := ih ((treeStep_edits hok hstep).1.treeOk hok) hrest
      exact ⟨ops :: opss, .cons hstep hanswers hanswered, hleads.append hleads'⟩

/-- The bytes that `vfs_read_file` hands out. -/
def bytesRead (found : Option (Option Bytes × U32)) : Option Bytes :=
  found.map fun (data, size) => (List.range size.toNat).map fun i => (data.getD []).getD i 0

theorem readFile_view (hok : TreeOk fs.tree) (hcwd : cwd < fs.tree.count)
    (hgate : vfsMountSubpath (vfsCheckPath fs.tree cwd path) = none) :
    ∃ found, vfsReadFile mach fs cwd path = some (found, fs) ∧
      bytesRead found = (followPath (view fs.tree) (pathOf fs.tree cwd) path).bind fun p =>
        (view fs.tree p).bind Entry.contents := by
  unfold vfsReadFile
  rw [hgate, ← resolve_view hok hcwd path]
  dsimp only
  cases hres : vfsResolveFrom fs.tree cwd path with
  | none => exact ⟨none, rfl, rfl⟩
  | some n =>
      have hview := view_pathOf hok (TreeOk.resolve_lt hok hcwd hres)
      refine ⟨_, rfl, ?_⟩
      rw [Option.map_some, Option.bind_some, hview, Option.bind_some]
      unfold entryOf
      cases htype : (fs.tree.node n).type with
      | dir => rfl
      | file => rfl

/-- After every run, each path off the mount reads the contents that the last call about the file
gave it, or those of `vfs_init`. -/
theorem reads_last (hinit : vfsInit mounts heap = some fs₀)
    (hrun : Runs.run (treeStep mach) fs₀ es = some fs) :
    ∃ opss, Answered mach fs₀ es opss ∧ ∀ cwd path, cwd < fs.tree.count →
      vfsMountSubpath (vfsCheckPath fs.tree cwd path) = none →
        ∃ found, vfsReadFile mach fs cwd path = some (found, fs) ∧
          bytesRead found = (followPath (view fs.tree) (pathOf fs.tree cwd) path).bind fun p =>
            (((lastOn opss.flatten p).map Op.entry).or (view fs₀.tree p)).bind Entry.contents := by
  have hok := (tidy_init hinit).tree
  obtain ⟨opss, hanswered, hleads⟩ := run_answered hok hrun
  refine ⟨opss, hanswered, fun cwd path hcwd hgate => ?_⟩
  obtain ⟨found, hread, hbytes⟩ :=
    @readFile_view mach fs cwd path (PrintedPaths.treeOk_run hinit hrun) hcwd hgate
  refine ⟨found, hread, ?_⟩
  rw [hbytes]
  congr 1
  funext p
  rw [PathStore.run_lookup hleads p]

theorem reads_last_demo : ∃ fs₀ fs, vfsInit (fsInit none) plainHeap = some fs₀ ∧
    Runs.run (treeStep plainMach) fs₀ demoCalls = some fs ∧
      ∃ opss, Answered plainMach fs₀ demoCalls opss ∧ ∀ cwd path, cwd < fs.tree.count →
        vfsMountSubpath (vfsCheckPath fs.tree cwd path) = none →
          ∃ found, vfsReadFile plainMach fs cwd path = some (found, fs) ∧
            bytesRead found = (followPath (view fs.tree) (pathOf fs.tree cwd) path).bind fun p =>
              (((lastOn opss.flatten p).map Op.entry).or (view fs₀.tree p)).bind Entry.contents := by
  have hcount : (callsFrom plainMach (fsInit none) plainHeap demoCalls).map (fun fs => fs.tree.count) =
      some 9 := by decide +kernel
  obtain ⟨fs, hcalls, -⟩ := Option.map_eq_some_iff.mp hcount
  obtain ⟨fs₀, hinit, hrun⟩ := Option.bind_eq_some_iff.mp hcalls
  exact ⟨fs₀, fs, hinit, hrun, reads_last hinit hrun⟩

/-! ## Listing -/

/-- The entries of the tree that `vfs_list` prints for a directory. -/
def treeEntries (t : VfsTree) (n : Nat) : List FsDirEntry :=
  (children t n).map fun c => ⟨(t.node c).name, decide ((t.node c).type = .dir)⟩

theorem treeEntries_view (h : TreeOk t) (hn : n < t.count) :
    ((treeEntries t n).map FsDirEntry.name).Nodup ∧ ∀ name isDir,
      ⟨name, isDir⟩ ∈ treeEntries t n ↔
        (view t (pathOf t n ++ [name])).map Entry.isDir = some isDir := by
  have hisDir : ∀ c, decide ((t.node c).type = .dir) = (entryOf t c).isDir := by
    intro c
    unfold entryOf
    cases (t.node c).type <;> rfl
  constructor
  · unfold treeEntries
    rw [List.map_map]
    refine List.Nodup.map_on ?_ (h.children_nodup hn)
    intro c hc d hd heq
    exact h.distinct n hn c hc d hd heq
  · intro name isDir
    unfold treeEntries
    rw [view_child h hn, List.mem_map]
    constructor
    · rintro ⟨c, hc, heq⟩
      obtain ⟨rfl, rfl⟩ := FsDirEntry.mk.inj heq
      rw [h.find_of_mem hn hc, Option.map_some, Option.map_some, hisDir]
    · intro heq
      rw [Option.map_map] at heq
      obtain ⟨c, hc, hdir⟩ := Option.map_eq_some_iff.mp heq
      obtain ⟨hmem, hname⟩ := mem_children_of_find hc
      refine ⟨c, hmem, ?_⟩
      rw [hname, hisDir]
      exact congrArg _ hdir

/-- The `/bin` of the CD behind the names of the root, if it is there and no name hides it. -/
def withBin (t : VfsTree) (entries : List FsDirEntry) (onDisc : Bool) : List FsDirEntry :=
  if onDisc && (view t [cstr "bin"]).isNone then entries ++ [⟨cstr "bin", true⟩] else entries

/-- `vfs_list` off the mount: the names bound in the directory that the path leads to, each once;
in the root also the `/bin` of the CD, once the CD has been asked for it. -/
def ListsBound (mach : Machine) (fs : Fs) (cwd : Nat) (path : CStr)
    (listed : Option (Option (List FsDirEntry))) : Prop :=
  match followPath (view fs.tree) (pathOf fs.tree cwd) path with
  | none => listed = some none
  | some p =>
    if view fs.tree p = some .dir then
      ∃ entries, (entries.map FsDirEntry.name).Nodup ∧
        (∀ name isDir, ⟨name, isDir⟩ ∈ entries ↔
          (view fs.tree (p ++ [name])).map Entry.isDir = some isDir) ∧
        listed = if p = [] then
          (fsPathIsDirFromMount mach fs.mounts cdromMount (cstr "/bin")).map fun onDisc =>
            some (withBin fs.tree entries onDisc)
          else some (some entries)
    else listed = some none

/-- The text that `vfs_list` tests for the mount. -/
def listText (t : VfsTree) (cwd : Nat) (path : CStr) : CStr :=
  if path = [] then vfsGetCwdPath t cwd vfsPathMax else vfsCheckPath t cwd path

theorem list_view (hok : TreeOk fs.tree) (hcwd : cwd < fs.tree.count)
    (hgate : vfsMountSubpath (listText fs.tree cwd path) = none) :
    ListsBound mach fs cwd path (vfsList mach fs cwd (some path)) := by
  unfold listText at hgate
  unfold ListsBound vfsList
  rw [Option.getD_some, ← resolve_view hok hcwd path]
  dsimp only
  rw [hgate]
  dsimp only
  cases hres : vfsResolveFrom fs.tree cwd path with
  | none => rfl
  | some n =>
      have hn := TreeOk.resolve_lt hok hcwd hres
      have hview := view_pathOf hok hn
      obtain ⟨hnodup, hentries⟩ := treeEntries_view hok hn
      dsimp only [Option.map_some]
      rw [hview]
      by_cases hdir : (fs.tree.node n).type = .dir
      · rw [if_pos (by rw [entryOf_dir.mpr hdir]), if_neg (not_not.mpr hdir)]
        refine ⟨treeEntries fs.tree n, hnodup, hentries, ?_⟩
        by_cases hroot : n = vfsRoot
        · have hpath : pathOf fs.tree n = [] := by rw [hroot, hok.pathOf_root]
          have hbin : (view fs.tree [cstr "bin"]).isNone = (vfsFindChild fs.tree n (cstr "bin")).isNone := by
            have hchild := view_child hok hn (cstr "bin")
            rw [hpath, List.nil_append] at hchild
            rw [hchild, Option.isNone_map]
          rw [if_pos hroot, if_pos hpath]
          unfold withBin
          rw [hbin]
          refine congrArg (Option.map · _) (funext fun onDisc => ?_)
          split <;> rfl
        · have hpath : pathOf fs.tree n ≠ [] := by
            obtain ⟨m, hparent, -, -⟩ := hok.listed n hn hroot
            rw [hok.pathOf_child hn hparent]
            exact List.append_ne_nil_of_right_ne_nil _ (List.cons_ne_nil _ _)
          rw [if_neg hroot, if_neg hpath]
          rfl
      · rw [if_pos hdir, if_neg fun heq => hdir (entryOf_dir.mp (Option.some.inj heq))]

/-- After every run a listing shows what is bound. -/
theorem lists_run (hinit : vfsInit mounts heap = some fs₀)
    (hrun : Runs.run (treeStep mach) fs₀ es = some fs) (hcwd : cwd < fs.tree.count)
    (hgate : vfsMountSubpath (listText fs.tree cwd path) = none) :
    ListsBound mach fs cwd path (vfsList mach fs cwd (some path)) :=
  list_view (PrintedPaths.treeOk_run hinit hrun) hcwd hgate

theorem lists_run_demo : ∃ fs₀ fs, vfsInit (fsInit none) plainHeap = some fs₀ ∧
    Runs.run (treeStep plainMach) fs₀ demoCalls = some fs ∧
      vfsList plainMach fs vfsRoot (some (cstr "/tmp/a")) = some (some [⟨cstr "f", false⟩]) ∧
        ListsBound plainMach fs vfsRoot (cstr "/tmp/a")
          (vfsList plainMach fs vfsRoot (some (cstr "/tmp/a"))) := by
  have hview : (callsFrom plainMach (fsInit none) plainHeap demoCalls).map (fun fs =>
      (decide (vfsRoot < fs.tree.count), vfsMountSubpath (listText fs.tree vfsRoot (cstr "/tmp/a")),
        vfsList plainMach fs vfsRoot (some (cstr "/tmp/a")))) =
      some (true, none, some (some [⟨cstr "f", false⟩])) := by decide +kernel
  obtain ⟨fs, hcalls, hfs⟩ := Option.map_eq_some_iff.mp hview
  obtain ⟨fs₀, hinit, hrun⟩ := Option.bind_eq_some_iff.mp hcalls
  simp only [Prod.mk.injEq] at hfs
  obtain ⟨hcount, hgate, hlist⟩ := hfs
  exact ⟨fs₀, fs, hinit, hrun, hlist, lists_run hinit hrun (of_decide_eq_true hcount) hgate⟩

end SlopOS.Proofs.StoreRuns
