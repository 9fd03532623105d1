import SlopOS.Proofs.TreeRuns
/-!
# The walk of a path

A file is not passed on the way to something else: in the walk that a path describes, each
component is looked for in a directory.  `vfs_resolve_from` never asks what a node is.  A name is
not found below a file, because a file has no children, but the two dots are not names.
-/

namespace SlopOS.Proofs.ReferenceWalk

open SlopOS.Support SlopOS.Kernel
open SlopOS.Proofs.FileTree SlopOS.Proofs.FilePaths SlopOS.Proofs.TreeRuns

/-! ## The reference -/

structure Linked (t : VfsTree) : Prop where
  rootDir : (t.node vfsRoot).type = .dir
  rootParent : (t.node vfsRoot).parent = none
  root_lt : vfsRoot < t.count
  parent_lt : ∀ c < t.count, ∀ p : Nat, (t.node c).parent = some p → p < t.count
  listed : ∀ n < t.count, ∀ c, c ∈ children t n ↔ c < t.count ∧ (t.node c).parent = some n
  listsEnd : ∀ n < t.count, ∀ fuel, t.count ≤ fuel →
    childrenFrom t fuel (t.node n).firstChild = children t n
  siblings : ∀ n < t.count, ∀ c ∈ children t n, ∀ d ∈ children t n,
    (t.node c).name = (t.node d).name → c = d
  parents : ∀ n < t.count, children t n ≠ [] → (t.node n).type = .dir

def childNamed (t : VfsTree) (dir : Nat) (name : CStr) : Option Nat :=
  (List.range t.count).find? fun c => decide ((t.node c).parent = some dir ∧ (t.node c).name = name)

def refStep (t : VfsTree) (node : Nat) (word : CStr) : Option Nat :=
  if vfsNameMax < word.length then none
  else if (t.node node).type ≠ .dir then none
  else if word = cstr "." then some node
  else if word = cstr ".." then some ((t.node node).parent.getD node)
  else childNamed t node word

def refWalk (t : VfsTree) : Nat → List CStr → Option Nat
  | node, [] => some node
  | node, word :: rest => (refStep t node word).bind fun n => refWalk t n rest

/-- The pieces of a path between its slashes, without the empty ones. -/
def pieces (path : CStr) : List CStr := (path.splitOn (chr '/')).filter fun piece => piece ≠ []

def reference (t : VfsTree) (cwd : Nat) (path : CStr) : Option Nat :=
  refWalk t (if path.head? = some (chr '/') then vfsRoot else cwd) (pieces path)

inductive Reaches (t : VfsTree) : Nat → List CStr → Nat → Prop
  | done {n : Nat} : Reaches t n [] n
  | stay {n m : Nat} {ws : List CStr} : Reaches t n ws m → Reaches t n (cstr "." :: ws) m
  | up {n m : Nat} {ws : List CStr} : Reaches t ((t.node n).parent.getD n) ws m →
      Reaches t n (cstr ".." :: ws) m
  | down {n c m : Nat} {w : CStr} {ws : List CStr} : w.length ≤ vfsNameMax → ¬Dot w →
      childNamed t n w = some c → Reaches t c ws m → Reaches t n (w :: ws) m

/-- The reference comes to a file, where the next component is a dot; the walk that does not ask
goes on from there. -/
def Passes (t : VfsTree) (start : Nat) (ws : List CStr) (m : Nat) : Prop :=
  ∃ front dot rest file, ws = front ++ dot :: rest ∧ refWalk t start front = some file ∧
    (t.node file).type = .file ∧ Dot dot ∧ Reaches t file (dot :: rest) m

/-- The path goes on from a file with a dot, and leads somewhere. -/
def PassesFile (t : VfsTree) (cwd : Nat) (path : CStr) : Prop :=
  ∃ m, Passes t (if path.head? = some (chr '/') then vfsRoot else cwd) (pieces path) m

variable {t : VfsTree} {n m c cwd : Nat} {path w : CStr} {ws vs : List CStr}

/-! ## Children -/

theorem TreeOk.linked (h : TreeOk t) : Linked t where
  rootDir := h.rootDir
  rootParent := h.rootParent
  root_lt := h.root_lt
  parent_lt _ hc _ hparent := (h.parent_lt hc hparent).2
  listed n hn c := by
    constructor
    · intro hmem
      exact ⟨h.child_lt hn hmem, (h.parentOf n hn c hmem).1⟩
    · rintro ⟨hc, hparent⟩
      obtain ⟨p, hp, -, hmem⟩ := h.listed c hc (h.ne_root hparent)
      rw [hparent] at hp
      rw [Option.some.inj hp]
      exact hmem
  listsEnd n hn _ hfuel := h.childrenFrom_fuel hn hfuel
  siblings := h.distinct
  parents n hn hne := by
    obtain ⟨c, hc⟩ := List.exists_mem_of_ne_nil _ hne
    exact h.dir_of_mem hn hc

theorem childNamed_spec (hfind : childNamed t n w = some c) :
    c < t.count ∧ (t.node c).parent = some n ∧ (t.node c).name = w := by
  have hmem := List.mem_of_find?_eq_some hfind
  have hprop := List.find?_some hfind
  rw [List.mem_range] at hmem
  exact ⟨hmem, of_decide_eq_true hprop⟩

/-- There is one child of that name at the most, and `vfs_find_child` finds it. -/
theorem Linked.find_eq (h : Linked t) (hn : n < t.count) (w : CStr) :
    vfsFindChild t n w = childNamed t n w := by
  cases hnamed : childNamed t n w with
  | none =>
      rw [find_eq_none_iff]
      intro c hmem hname
      obtain ⟨hc, hparent⟩ := (h.listed n hn c).mp hmem
      have hnot := List.find?_eq_none.mp hnamed c (List.mem_range.mpr hc)
      exact hnot (decide_eq_true ⟨hparent, hname⟩)
  | some c =>
      obtain ⟨hc, hparent, hname⟩ := childNamed_spec hnamed
      have hmem := (h.listed n hn c).mpr ⟨hc, hparent⟩
      have hsome : vfsFindChild t n w ≠ none := fun hnone =>
        find_eq_none_iff.mp hnone c hmem hname
      obtain ⟨d, hd⟩ := Option.ne_none_iff_exists'.mp hsome
      obtain ⟨hmem', hname'⟩ := mem_children_of_find hd
      rw [hd, h.siblings n hn d hmem' c hmem (hname'.trans hname.symm)]

theorem Linked.dir_of_child (h : Linked t) (hn : n < t.count) (hfind : childNamed t n w = some c) :
    (t.node n).type = .dir := by
  obtain ⟨hc, hparent, -⟩ := childNamed_spec hfind
  exact h.parents n hn (List.ne_nil_of_mem ((h.listed n hn c).mpr ⟨hc, hparent⟩))

theorem Linked.up_lt (h : Linked t) (hn : n < t.count) : (t.node n).parent.getD n < t.count := by
  cases hparent : (t.node n).parent with
  | none => exact hn
  | some p => exact h.parent_lt n hn p hparent

/-! ## The walk of the code -/

/-- `vfs_resolve_from` makes the walk that does not ask for directories. -/
theorem Linked.stepAll_iff (h : Linked t) (hn : n < t.count) :
    stepAll t n ws = some m ↔ Reaches t n ws m := by
  induction ws generalizing n with
  | nil =>
      rw [stepAll_nil]
      constructor
      · intro heq
        rw [Option.some.inj heq]
        exact .done
      · intro hreach
        cases hreach
        rfl
  | cons w ws ih =>
      rw [stepAll_cons]
      constructor
      · intro hsteps
        obtain ⟨c, hc, hrest⟩ := Option.bind_eq_some_iff.mp hsteps
        unfold stepTo at hc
        split at hc
        · cases hc
        rename_i hlen
        split at hc
        · rename_i hdot
          rw [hdot]
          rw [← Option.some.inj hc] at hrest
          exact .stay ((ih hn).mp hrest)
        rename_i hdot
        split at hc
        · rename_i hdots
          rw [hdots]
          rw [← Option.some.inj hc] at hrest
          exact .up ((ih (h.up_lt hn)).mp hrest)
        · rename_i hdots
          rw [h.find_eq hn] at hc
          have hlt := (childNamed_spec hc).1
          have hplain : ¬Dot w := fun hor => hor.elim hdot hdots
          exact .down (by omega) hplain hc ((ih hlt).mp hrest)
      · intro hreach
        cases hreach with
        | stay hrest =>
            have hstep : stepTo t n (cstr ".") = some n := rfl
            rw [hstep]
            exact (ih hn).mpr hrest
        | up hrest =>
            have hstep : stepTo t n (cstr "..") = some ((t.node n).parent.getD n) := rfl
            rw [hstep]
            exact (ih (h.up_lt hn)).mpr hrest
        | down hlen hplain hchild hrest =>
            have hstep : stepTo t n w = vfsFindChild t n w :=
              stepTo_name hlen (fun heq => hplain (Or.inl heq)) fun heq => hplain (Or.inr heq)
            rw [hstep, h.find_eq hn, hchild]
            exact (ih (childNamed_spec hchild).1).mpr hrest

theorem Linked.startOf_lt (h : Linked t) (hcwd : cwd < t.count) (path : CStr) :
    startOf cwd path < t.count := by
  unfold startOf
  split
  · exact h.root_lt
  · exact hcwd

theorem Linked.resolve_iff (h : Linked t) (hcwd : cwd < t.count) (path : CStr) :
    vfsResolveFrom t cwd path = some m ↔ Reaches t (startOf cwd path) (pieces path) m := by
  rw [vfsResolveFrom_eq]
  exact h.stepAll_iff (h.startOf_lt hcwd path)

/-! ## The two walks -/

theorem refWalk_append (t : VfsTree) (n : Nat) (vs ws : List CStr) :
    refWalk t n (vs ++ ws) = (refWalk t n vs).bind fun m => refWalk t m ws := by
  induction vs generalizing n with
  | nil => rfl
  | cons v vs ih =>
      rw [List.cons_append, refWalk, refWalk]
      cases refStep t n v with
      | none => rfl
      | some c => exact ih c

theorem refStep_dir (hdir : (t.node n).type = .dir) (hlen : w.length ≤ vfsNameMax) :
    refStep t n w =
      if w = cstr "." then some n
      else if w = cstr ".." then some ((t.node n).parent.getD n)
      else childNamed t n w := by
  unfold refStep
  rw [if_neg (Nat.not_lt.mpr hlen), if_neg (not_not.mpr hdir)]

theorem refWalk_file (hfile : (t.node n).type = .file) (w : CStr) (ws : List CStr) :
    refWalk t n (w :: ws) = none := by
  have hstep : refStep t n w = none := by
    unfold refStep
    split
    · rfl
    · rw [if_pos (by rw [hfile]; decide)]
  rw [refWalk, hstep]
  rfl

theorem Linked.reaches_of_refWalk (h : Linked t) (hn : n < t.count)
    (hwalk : refWalk t n ws = some m) : Reaches t n ws m := by
  induction ws generalizing n with
  | nil =>
      rw [← Option.some.inj hwalk]
      exact .done
  | cons w ws ih =>
      obtain ⟨c, hstep, hrest⟩ := Option.bind_eq_some_iff.mp hwalk
      unfold refStep at hstep
      split at hstep
      · cases hstep
      rename_i hlen
      split at hstep
      · cases hstep
      split at hstep
      · rename_i hdot
        rw [hdot]
        rw [← Option.some.inj hstep] at hrest
        exact .stay (ih hn hrest)
      rename_i hdot
      split at hstep
      · rename_i hdots
        rw [hdots]
        rw [← Option.some.inj hstep] at hrest
        exact .up (ih (h.up_lt hn) hrest)
      · rename_i hdots
        have hplain : ¬Dot w := fun hor => hor.elim hdot hdots
        exact .down (by omega) hplain hstep (ih (childNamed_spec hstep).1 hrest)

theorem Reaches.append (h : Reaches t n vs c) (hrest : Reaches t c ws m) :
    Reaches t n (vs ++ ws) m := by
  induction h with
  | done => exact hrest
  | stay _ ih => exact .stay (ih hrest)
  | up _ ih => exact .up (ih hrest)
  | down hlen hplain hchild _ ih => exact .down hlen hplain hchild (ih hrest)

theorem walk_or_passes_cons (hstep : refStep t n w = some c)
    (h : refWalk t c ws = some m ∨ Passes t c ws m) :
    refWalk t n (w :: ws) = some m ∨ Passes t n (w :: ws) m := by
  have hwalk : ∀ vs, refWalk t n (w :: vs) = refWalk t c vs := by
    intro vs
    rw [refWalk, hstep]
    rfl
  rcases h with hrest | ⟨front, dot, rest, file, rfl, hfront, hpassed⟩
  · left
    rw [hwalk]
    exact hrest
  · right
    refine ⟨w :: front, dot, rest, file, rfl, ?_, hpassed⟩
    rw [hwalk]
    exact hfront

/-- A walk that leads somewhere is one of the reference, or it passes a file. -/
theorem Linked.walk_or_passes (h : Linked t) (hn : n < t.count) (hreach : Reaches t n ws m) :
    refWalk t n ws = some m ∨ Passes t n ws m := by
  induction hreach with
  | done => exact Or.inl rfl
  | @stay n m ws hrest ih =>
      cases htype : (t.node n).type with
      | file => exact Or.inr ⟨[], _, ws, n, rfl, rfl, htype, Or.inl rfl, .stay hrest⟩
      | dir =>
          have hstep : refStep t n (cstr ".") = some n := refStep_dir htype (by decide)
          exact walk_or_passes_cons hstep (ih hn)
  | @up n m ws hrest ih =>
      cases htype : (t.node n).type with
      | file => exact Or.inr ⟨[], _, ws, n, rfl, rfl, htype, Or.inr rfl, .up hrest⟩
      | dir =>
          have hstep : refStep t n (cstr "..") = some ((t.node n).parent.getD n) :=
            refStep_dir htype (by decide)
          exact walk_or_passes_cons hstep (ih (h.up_lt hn))
  | @down n c m w ws hlen hplain hchild hrest ih =>
      have hstep : refStep t n w = some c := by
        rw [refStep_dir (h.dir_of_child hn hchild) hlen, if_neg fun heq => hplain (Or.inl heq),
          if_neg fun heq => hplain (Or.inr heq)]
        exact hchild
      exact walk_or_passes_cons hstep (ih (childNamed_spec hchild).1)

/-- `vfs_resolve_from` is the reference walk, unless the path goes on from a file with a dot. -/
theorem resolveFrom_eq_iff (h : Linked t) (hcwd : cwd < t.count) (path : CStr) :
    vfsResolveFrom t cwd path = reference t cwd path ↔ ¬PassesFile t cwd path := by
  have hstart := h.startOf_lt hcwd path
  constructor
  · rintro heq ⟨m, front, dot, rest, file, hpieces, hwalk, hfile, hdot, hreach⟩
    have hnone : reference t cwd path = none := by
      unfold reference
      rw [hpieces, refWalk_append, hwalk]
      exact refWalk_file hfile dot rest
    have hfront : Reaches t (startOf cwd path) front file := h.reaches_of_refWalk hstart hwalk
    have hall : Reaches t (startOf cwd path) (pieces path) m := by
      rw [hpieces]
      exact hfront.append hreach
    have hcode := (h.resolve_iff hcwd path).mpr hall
    rw [heq, hnone] at hcode
    cases hcode
  · intro hpasses
    cases hcode : vfsResolveFrom t cwd path with
    | some m =>
        have hreach := (h.resolve_iff hcwd path).mp hcode
        rcases h.walk_or_passes hstart hreach with hwalk | hpassed
        · exact hwalk.symm
        · exact absurd ⟨m, hpassed⟩ hpasses
    | none =>
        cases href : reference t cwd path with
        | none => rfl
        | some m =>
            have hreach : Reaches t (startOf cwd path) (pieces path) m :=
              h.reaches_of_refWalk hstart href
            rw [(h.resolve_iff hcwd path).mpr hreach] at hcode
            cases hcode

theorem resolveFrom_eq_demo : ∃ fs, vfsInit (fsInit none) plainHeap = some fs ∧
    vfsResolveFrom fs.tree 1 (cstr "..//docs/readme.txt/") = some 4 ∧
    vfsResolveFrom fs.tree 1 (cstr "..//docs/readme.txt/") =
      reference fs.tree 1 (cstr "..//docs/readme.txt/") := by
  have hview : (vfsInit (fsInit none) plainHeap).map (fun fs => (decide (1 < fs.tree.count),
      vfsResolveFrom fs.tree 1 (cstr "..//docs/readme.txt/"), (fs.tree.node 1).type,
      (fs.tree.node ((fs.tree.node 1).parent.getD 1)).type)) =
      some (true, some 4, .dir, .dir) := by decide +kernel
  obtain ⟨fs, hinit, hfs⟩ := Option.map_eq_some_iff.mp hview
  simp only [Prod.mk.injEq, decide_eq_true_eq] at hfs
  obtain ⟨hlt, hleads, hdir, hup⟩ := hfs
  have hlinked := TreeOk.linked (tidy_init hinit).tree
  refine ⟨fs, hinit, hleads, (resolveFrom_eq_iff hlinked hlt _).mpr ?_⟩
  rintro ⟨m, front, dot, rest, file, hpieces, hwalk, hfile, hdot, -⟩
  have hwords : pieces (cstr "..//docs/readme.txt/") =
      [cstr "..", cstr "docs", cstr "readme.txt"] := by decide
  rw [hwords] at hpieces
  -- the only dot is the first component
  cases front with
  | nil =>
      rw [← Option.some.inj hwalk, if_neg (by decide), hdir] at hfile
      cases hfile
  | cons w front =>
      have hmem : dot ∈ [cstr "docs", cstr "readme.txt"] := by
        rw [(List.cons.inj hpieces).2]
        exact List.mem_append_right front List.mem_cons_self
      simp only [List.mem_cons, List.not_mem_nil, or_false] at hmem
      rcases hmem with rfl | rfl
      · exact absurd hdot (by decide)
      · exact absurd hdot (by decide)

/-- A file is found under two more names, and so is the directory above it. -/
theorem resolveFrom_ne_dot : ∃ fs, vfsInit (fsInit none) plainHeap = some fs ∧ Linked fs.tree ∧
    (fs.tree.node 4).type = .file ∧
    vfsResolveFrom fs.tree vfsRoot (cstr "/docs/readme.txt/.") = some 4 ∧
    reference fs.tree vfsRoot (cstr "/docs/readme.txt/.") = none ∧
    vfsResolveFrom fs.tree vfsRoot (cstr "/docs/readme.txt/..") = some 1 ∧
    reference fs.tree vfsRoot (cstr "/docs/readme.txt/..") = none := by
  have hview : (vfsInit (fsInit none) plainHeap).map (fun fs => ((fs.tree.node 4).type,
      vfsResolveFrom fs.tree vfsRoot (cstr "/docs/readme.txt/."),
      reference fs.tree vfsRoot (cstr "/docs/readme.txt/."),
      vfsResolveFrom fs.tree vfsRoot (cstr "/docs/readme.txt/.."),
      reference fs.tree vfsRoot (cstr "/docs/readme.txt/.."))) =
      some (.file, some 4, none, some 1, none) := by decide +kernel
  obtain ⟨fs, hinit, hfs⟩ := Option.map_eq_some_iff.mp hview
  simp only [Prod.mk.injEq] at hfs
  exact ⟨fs, hinit, TreeOk.linked (tidy_init hinit).tree, hfs⟩

end SlopOS.Proofs.ReferenceWalk
