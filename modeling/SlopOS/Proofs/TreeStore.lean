import SlopOS.Proofs.Creation
import SlopOS.Proofs.FileCalls
import SlopOS.Support.PathStore
/-!
# The tree as a store of paths

`view` forgets the nodes: under a path of names there is a directory, a file with its bytes, or
nothing.  Adding a node and filling a file are one operation of the store each, and a path leads in
the tree where its words lead in the store.
-/

namespace SlopOS.Proofs.TreeStore

open SlopOS.Support SlopOS.Kernel
open SlopOS.Support.PathStore (Entry Store Op put Closed Grown stepWord follow)
open SlopOS.Proofs.FileTree SlopOS.Proofs.FilePaths SlopOS.Proofs.FileEdits SlopOS.Proofs.FileCalls

abbrev FileStore := Store CStr Bytes

def entryOf (t : VfsTree) (n : Nat) : Entry Bytes :=
  match (t.node n).type with
  | .dir => .dir
  | .file => .file (fileBytes t n)

def descend (t : VfsTree) (n : Nat) (ws : List CStr) : Option Nat := ws.foldlM (vfsFindChild t) n

def view (t : VfsTree) : FileStore := fun ws => (descend t vfsRoot ws).map (entryOf t)

variable {t u : VfsTree} {n m c cwd dir : Nat} {ws : List CStr} {w name path : CStr}
variable {type : VfsNodeType} {e : Entry Bytes}

theorem entryOf_dir : entryOf t n = .dir ↔ (t.node n).type = .dir := by
  unfold entryOf
  cases (t.node n).type <;> simp

theorem entryOf_file (h : (t.node n).type = .file) : entryOf t n = .file (fileBytes t n) := by
  unfold entryOf
  rw [h]

/-! ## Paths and nodes -/

theorem descend_append (ws : List CStr) (w : CStr) :
    descend t n (ws ++ [w]) = (descend t n ws).bind fun m => vfsFindChild t m w := by
  unfold descend
  rw [List.foldlM_append, Option.bind_eq_bind]
  simp

theorem descend_pathOf (h : TreeOk t) : ∀ n < t.count, descend t vfsRoot (pathOf t n) = some n := by
  refine h.induction ?_ fun c n hc hparent hn ih => ?_
  · rw [h.pathOf_root]
    rfl
  · obtain ⟨n', hn', -, hmem⟩ := h.listed c hc (h.ne_root hparent)
    rw [hparent] at hn'
    cases hn'
    rw [h.pathOf_child hc hparent, descend_append, ih, Option.bind_some]
    exact h.find_of_mem hn hmem

theorem descend_eq_some (h : TreeOk t) :
    descend t vfsRoot ws = some n ↔ n < t.count ∧ pathOf t n = ws := by
  constructor
  · intro hd
    induction ws using List.reverseRecOn generalizing n with
    | nil =>
        cases hd
        exact ⟨h.root_lt, h.pathOf_root⟩
    | append_singleton ws w ih =>
        rw [descend_append] at hd
        obtain ⟨m, hm, hfind⟩ := Option.bind_eq_some_iff.mp hd
        obtain ⟨hlt, hpath⟩ := ih hm
        obtain ⟨hn, hparent, -, hname⟩ := h.find_lt hlt hfind
        exact ⟨hn, by rw [h.pathOf_child hn hparent, hpath, hname]⟩
  · rintro ⟨hn, rfl⟩
    exact descend_pathOf h n hn

theorem view_eq_some (h : TreeOk t) :
    view t ws = some e ↔ ∃ n < t.count, pathOf t n = ws ∧ entryOf t n = e := by
  unfold view
  rw [Option.map_eq_some_iff]
  constructor
  · rintro ⟨n, hd, he⟩
    obtain ⟨hn, hpath⟩ := (descend_eq_some h).mp hd
    exact ⟨n, hn, hpath, he⟩
  · rintro ⟨n, hn, hpath, he⟩
    exact ⟨n, (descend_eq_some h).mpr ⟨hn, hpath⟩, he⟩

theorem view_pathOf (h : TreeOk t) (hn : n < t.count) :
    view t (pathOf t n) = some (entryOf t n) :=
  (view_eq_some h).mpr ⟨n, hn, rfl, rfl⟩

theorem view_child (h : TreeOk t) (hn : n < t.count) (w : CStr) :
    view t (pathOf t n ++ [w]) = (vfsFindChild t n w).map (entryOf t) := by
  unfold view
  rw [descend_append, descend_pathOf h n hn, Option.bind_some]

def freshEntry : VfsNodeType → Entry Bytes
  | .dir => .dir
  | .file => .file []

theorem entryOf_new : entryOf (t.addNode name type (some dir)) t.count = freshEntry type := by
  have hnew := @node_addNode_new t dir name type
  unfold entryOf fileBytes
  rw [hnew]
  cases type <;> rfl

theorem entryOf_old (h : Addable t dir name) (hn : n < t.count) :
    entryOf (t.addNode name type (some dir)) n = entryOf t n := by
  unfold entryOf fileBytes
  rw [node_addNode h.dir_lt hn]

theorem view_addNode (h : Addable t dir name) (hok : TreeOk t) :
    view (t.addNode name type (some dir)) =
      put (view t) (pathOf t dir ++ [name]) (freshEntry type) := by
  have hok' : TreeOk (t.addNode name type (some dir)) := h.treeOk hok
  have hnew : pathOf (t.addNode name type (some dir)) t.count = pathOf t dir ++ [name] := by
    rw [pathOf_addNode_new hok h.dir_lt, strCopy_nameOk h.nameOk]
  have hfree : view t (pathOf t dir ++ [name]) = none := by
    rw [view_child hok h.dir_lt, h.fresh]
    rfl
  funext ws
  by_cases hws : ws = pathOf t dir ++ [name]
  · rw [hws, PathStore.put_self, ← hnew, view_pathOf hok' (Nat.lt_succ_self _), entryOf_new]
  · rw [PathStore.put_of_ne hws]
    apply Option.ext
    intro e
    rw [view_eq_some hok', view_eq_some hok]
    constructor
    · rintro ⟨n, hn, hpath, he⟩
      rcases Nat.lt_or_eq_of_le (Nat.lt_succ_iff.mp hn) with hlt | rfl
      · rw [pathOf_addNode hok h.dir_lt hlt] at hpath
        rw [entryOf_old h hlt] at he
        exact ⟨n, hlt, hpath, he⟩
      · rw [hnew] at hpath
        exact absurd hpath.symm hws
    · rintro ⟨n, hn, hpath, he⟩
      refine ⟨n, Nat.lt_succ_of_lt hn, ?_, ?_⟩
      · rw [pathOf_addNode hok h.dir_lt hn, hpath]
      · rw [entryOf_old h hn, he]

theorem entryOf_setData_of_ne (hne : m ≠ n) (data : Bytes) (size : U32) :
    entryOf (t.setData n data size) m = entryOf t m := by
  have hshape := sameShape_setData t n data size
  unfold entryOf
  rw [hshape.type, fileBytes_setData_of_ne hne]

theorem descend_setData (data : Bytes) (size : U32) (m : Nat) (ws : List CStr) :
    descend (t.setData n data size) m ws = descend t m ws := by
  have hshape := sameShape_setData t n data size
  have hfind : vfsFindChild (t.setData n data size) = vfsFindChild t := by
    funext dir name
    rw [vfsFindChild_eq, vfsFindChild_eq, hshape.children]
    simp only [hshape.name]
  unfold descend
  rw [hfind]

theorem view_setData (h : TreeOk t) (hn : n < t.count) (hfile : (t.node n).type = .file)
    (data : Nat → U8) (size : U32) :
    view (t.setData n ((List.range size.toNat).map data) size) =
      put (view t) (pathOf t n) (.file ((List.range size.toNat).map data)) := by
  have hshape := sameShape_setData t n ((List.range size.toNat).map data) size
  have hentry : entryOf (t.setData n ((List.range size.toNat).map data) size) n =
      .file ((List.range size.toNat).map data) := by
    rw [entryOf_file (by rw [hshape.type, hfile]), fileBytes_setData]
  funext ws
  unfold view
  rw [descend_setData]
  by_cases hws : ws = pathOf t n
  · rw [hws, PathStore.put_self, descend_pathOf h n hn, Option.map_some, hentry]
  · rw [PathStore.put_of_ne hws]
    cases hd : descend t vfsRoot ws with
    | none => rfl
    | some m =>
        have hne : m ≠ n := by
          rintro rfl
          exact hws ((descend_eq_some h).mp hd).2.symm
        rw [Option.map_some, Option.map_some, entryOf_setData_of_ne hne]

theorem view_setData_dir (hdir : (t.node n).type = .dir) (data : Bytes) (size : U32) :
    view (t.setData n data size) = view t := by
  have hshape := sameShape_setData t n data size
  funext ws
  unfold view
  rw [descend_setData]
  cases descend t vfsRoot ws with
  | none => rfl
  | some m =>
      rw [Option.map_some, Option.map_some]
      by_cases hne : m = n
      · rw [hne, entryOf_dir.mpr hdir, entryOf_dir.mpr (by rw [hshape.type, hdir])]
      · rw [entryOf_setData_of_ne hne]

/-! ## Following a path -/

def startPath (cwd : List CStr) (path : CStr) : List CStr :=
  if path.head? = some (chr '/') then [] else cwd

def followPath (s : FileStore) (cwd : List CStr) (path : CStr) : Option (List CStr) :=
  follow (cstr ".") (cstr "..") s (startPath cwd path) (words path)

theorem pathOf_startOf (h : TreeOk t) (cwd : Nat) (path : CStr) :
    pathOf t (startOf cwd path) = startPath (pathOf t cwd) path := by
  unfold startOf startPath
  split
  · exact h.pathOf_root
  · rfl

theorem pathOf_up (h : TreeOk t) (hn : n < t.count) :
    pathOf t ((t.node n).parent.getD n) = (pathOf t n).dropLast := by
  cases hparent : (t.node n).parent with
  | none =>
      have hroot : n = vfsRoot := by
        by_contra hne
        obtain ⟨m, hm, -⟩ := h.listed n hn hne
        rw [hparent] at hm
        cases hm
      rw [Option.getD_none, hroot, h.pathOf_root]
      rfl
  | some m =>
      rw [Option.getD_some, h.pathOf_child hn hparent, List.dropLast_concat]

theorem stepTo_view (h : TreeOk t) (hn : n < t.count) (w : CStr) :
    (stepTo t n w).map (pathOf t) = stepWord (cstr ".") (cstr "..") (view t) (pathOf t n) w := by
  unfold stepTo stepWord
  by_cases hlong : vfsNameMax + 1 ≤ w.length
  · have hdot : w ≠ cstr "." := by
      rintro rfl
      exact absurd hlong (by decide)
    have hdots : w ≠ cstr ".." := by
      rintro rfl
      exact absurd hlong (by decide)
    have hfree : view t (pathOf t n ++ [w]) = none := by
      rw [view_child h hn]
      cases hfind : vfsFindChild t n w with
      | none => rfl
      | some c =>
          obtain ⟨hc, hparent, -, hname⟩ := h.find_lt hn hfind
          have hshort := (h.named c hc (h.ne_root hparent)).short
          rw [hname] at hshort
          omega
    rw [if_pos hlong, if_neg hdot, if_neg hdots, hfree]
    rfl
  rw [if_neg hlong]
  by_cases hdot : w = cstr "."
  · rw [if_pos hdot, if_pos hdot]
    rfl
  rw [if_neg hdot, if_neg hdot]
  by_cases hdots : w = cstr ".."
  · rw [if_pos hdots, if_pos hdots, Option.map_some, pathOf_up h hn]
  rw [if_neg hdots, if_neg hdots, view_child h hn]
  cases hfind : vfsFindChild t n w with
  | none => rfl
  | some c =>
      obtain ⟨hc, hparent, -, hname⟩ := h.find_lt hn hfind
      rw [Option.map_some, Option.map_some, if_pos Option.isSome_some, h.pathOf_child hc hparent, hname]

theorem stepAll_view (h : TreeOk t) (hn : n < t.count) (ws : List CStr) :
    (stepAll t n ws).map (pathOf t) = follow (cstr ".") (cstr "..") (view t) (pathOf t n) ws := by
  induction ws generalizing n with
  | nil => rfl
  | cons w ws ih =>
      rw [stepAll_cons]
      unfold follow
      rw [List.foldlM_cons, ← stepTo_view h hn w]
      cases hstep : stepTo t n w with
      | none => rfl
      | some m => exact ih (TreeOk.stepTo_lt h hn hstep)

theorem resolve_view (h : TreeOk t) (hcwd : cwd < t.count) (path : CStr) :
    (vfsResolveFrom t cwd path).map (pathOf t) = followPath (view t) (pathOf t cwd) path := by
  rw [vfsResolveFrom_eq, stepAll_view h (TreeOk.startOf_lt h hcwd path), pathOf_startOf h]
  rfl

end SlopOS.Proofs.TreeStore
