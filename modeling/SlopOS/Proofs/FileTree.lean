import Mathlib.Data.Nat.Init
import SlopOS.Kernel.Vfs
import SlopOS.Support.Chains
/-!
# The tree of the file system

The nodes form a tree whose links all lead to older nodes, except the one from
a directory to its newest child.  `children` is the sibling chain as a list and
`pathOf` the names from the root to a node; creating a node and replacing the
contents of a file are described by what they do to both.
-/

namespace SlopOS.Proofs.FileTree

open SlopOS.Support SlopOS.Kernel

def nextOf (t : VfsTree) (n : Nat) : Option Nat := (t.node n).nextSibling

def children (t : VfsTree) (n : Nat) : List Nat :=
  childrenFrom t t.count (t.node n).firstChild

structure NameOk (name : CStr) : Prop where
  nonempty : name ≠ []
  short : name.length ≤ vfsNameMax
  noSlash : chr '/' ∉ name

structure TreeOk (t : VfsTree) : Prop where
  pos : 0 < t.count
  rootParent : (t.node vfsRoot).parent = none
  rootDir : (t.node vfsRoot).type = .dir
  next : Chains.Descending (nextOf t) t.count
  first : ∀ n < t.count, ∀ c : Nat, (t.node n).firstChild = some c → c < t.count
  parentOf : ∀ n < t.count, ∀ c ∈ children t n, (t.node c).parent = some n ∧ n < c
  listed : ∀ c < t.count, c ≠ vfsRoot → ∃ n : Nat, (t.node c).parent = some n ∧ n < c ∧ c ∈ children t n
  distinct : ∀ n < t.count, ∀ c ∈ children t n, ∀ d ∈ children t n,
    (t.node c).name = (t.node d).name → c = d
  named : ∀ c < t.count, c ≠ vfsRoot → NameOk (t.node c).name
  dirs : ∀ n < t.count, (t.node n).firstChild ≠ none → (t.node n).type = .dir

variable {t t' : VfsTree} {n c d dir : Nat} {name : CStr} {type : VfsNodeType} {fuel : Nat}

/-! ## Children -/

theorem childrenFrom_eq_chain (start : Option Nat) :
    childrenFrom t fuel start = Chains.chain (nextOf t) fuel start := by
  induction fuel generalizing start with
  | zero => rfl
  | succ fuel ih =>
      cases start with
      | none => rfl
      | some i =>
          rw [childrenFrom, Chains.chain_some, ih]
          rfl

theorem findChildFrom_eq (start : Option NodeId) :
    findChildFrom t name fuel start =
      (childrenFrom t fuel start).find? fun c => strEq (t.node c).name name := by
  induction fuel generalizing start with
  | zero => rfl
  | succ fuel ih =>
      cases start with
      | none => rfl
      | some i =>
          rw [findChildFrom, childrenFrom, List.find?_cons, ih]
          cases strEq (t.node i).name name <;> rfl

theorem vfsFindChild_eq (t : VfsTree) (dir : NodeId) (name : CStr) :
    vfsFindChild t dir name = (children t dir).find? fun c => strEq (t.node c).name name :=
  findChildFrom_eq _

theorem mem_children_of_find (h : vfsFindChild t dir name = some c) :
    c ∈ children t dir ∧ (t.node c).name = name := by
  rw [vfsFindChild_eq] at h
  refine ⟨List.mem_of_find?_eq_some h, ?_⟩
  have hname := List.find?_some h
  simpa [strEq] using hname

theorem find_eq_none_iff :
    vfsFindChild t dir name = none ↔ ∀ c ∈ children t dir, (t.node c).name ≠ name := by
  rw [vfsFindChild_eq, List.find?_eq_none]
  simp [strEq]

theorem TreeOk.find_of_mem (h : TreeOk t) (hdir : dir < t.count) (hc : c ∈ children t dir) :
    vfsFindChild t dir (t.node c).name = some c := by
  have hsome : vfsFindChild t dir (t.node c).name ≠ none := fun hnone =>
    find_eq_none_iff.mp hnone c hc rfl
  obtain ⟨d, hd⟩ := Option.ne_none_iff_exists'.mp hsome
  obtain ⟨hmem, hname⟩ := mem_children_of_find hd
  rw [hd, h.distinct dir hdir d hmem c hc hname]

theorem TreeOk.child_lt (h : TreeOk t) (hn : n < t.count) (hc : c ∈ children t n) :
    c < t.count := by
  unfold children at hc
  rw [childrenFrom_eq_chain] at hc
  exact Chains.mem_chain_lt h.next (h.first n hn) hc

theorem TreeOk.find_lt (h : TreeOk t) (hdir : dir < t.count)
    (hfind : vfsFindChild t dir name = some c) :
    c < t.count ∧ (t.node c).parent = some dir ∧ dir < c ∧ (t.node c).name = name := by
  obtain ⟨hmem, hname⟩ := mem_children_of_find hfind
  obtain ⟨hparent, hlt⟩ := h.parentOf dir hdir c hmem
  exact ⟨h.child_lt hdir hmem, hparent, hlt, hname⟩

theorem TreeOk.parent_lt (h : TreeOk t) (hc : c < t.count) (hparent : (t.node c).parent = some n) :
    n < c ∧ n < t.count := by
  by_cases hroot : c = vfsRoot
  · rw [hroot, h.rootParent] at hparent
    cases hparent
  · obtain ⟨m, hm, hlt, -⟩ := h.listed c hc hroot
    rw [hparent] at hm
    obtain rfl := Option.some.inj hm
    exact ⟨hlt, by omega⟩

theorem TreeOk.ne_root (h : TreeOk t) (hparent : (t.node c).parent = some n) : c ≠ vfsRoot := by
  rintro rfl
  rw [h.rootParent] at hparent
  cases hparent

theorem TreeOk.children_nodup (h : TreeOk t) (hn : n < t.count) : (children t n).Nodup := by
  unfold children
  rw [childrenFrom_eq_chain]
  exact (Chains.chain_pairwise h.next (h.first n hn)).imp fun hlt => (Nat.ne_of_lt hlt).symm

theorem TreeOk.childrenFrom_fuel (h : TreeOk t) (hn : n < t.count) (hfuel : t.count ≤ fuel) :
    childrenFrom t fuel (t.node n).firstChild = children t n := by
  unfold children
  rw [childrenFrom_eq_chain, childrenFrom_eq_chain]
  refine Chains.chain_fuel h.next (h.first n hn) (fun k hk => ?_) (h.first n hn)
  exact Nat.lt_of_lt_of_le (h.first n hn k hk) hfuel

theorem TreeOk.dir_of_mem (h : TreeOk t) (hn : n < t.count) (hc : c ∈ children t n) :
    (t.node n).type = .dir := by
  apply h.dirs n hn
  intro hnone
  unfold children at hc
  rw [hnone, childrenFrom_eq_chain, Chains.chain_none] at hc
  cases hc

theorem TreeOk.root_lt (h : TreeOk t) : vfsRoot < t.count := h.pos

theorem TreeOk.up_dir (h : TreeOk t) (hn : n < t.count) :
    (t.node ((t.node n).parent.getD n)).type = .dir := by
  by_cases hroot : n = vfsRoot
  · rw [hroot, h.rootParent]
    exact h.rootDir
  · obtain ⟨p, hp, -, hmem⟩ := h.listed n hn hroot
    rw [hp, Option.getD_some]
    exact h.dir_of_mem (h.parent_lt hn hp).2 hmem

/-! ## A new node -/

section AddNode

variable (h : TreeOk t) (hdir : dir < t.count)
include h hdir

omit h hdir in
theorem node_addNode_old (hn : n ≠ t.count) (hnd : n ≠ dir) :
    (t.addNode name type (some dir)).node n = t.node n := by
  simp [VfsTree.addNode, Function.update_of_ne hn, Function.update_of_ne hnd]

omit h in
theorem node_addNode_dir : (t.addNode name type (some dir)).node dir =
    { t.node dir with firstChild := some t.count } := by
  have hne : dir ≠ t.count := by omega
  simp [VfsTree.addNode, Function.update_of_ne hne]

omit h hdir in
theorem node_addNode_new : (t.addNode name type (some dir)).node t.count =
    ⟨strCopy name (vfsNameMax + 1), type, some dir, none, (t.node dir).firstChild, none, 0⟩ := by
  simp [VfsTree.addNode]

omit h hdir in
@[simp] theorem count_addNode :
    (t.addNode name type (some dir)).count = t.count + 1 := rfl

omit h in
theorem node_addNode (hn : n < t.count) :
    (t.addNode name type (some dir)).node n =
      { t.node n with firstChild := if n = dir then some t.count else (t.node n).firstChild } := by
  by_cases hnd : n = dir
  · rw [hnd, node_addNode_dir hdir, if_pos rfl]
  · rw [node_addNode_old (by omega) hnd, if_neg hnd]

theorem children_addNode (hn : n < t.count) :
    children (t.addNode name type (some dir)) n =
      if n = dir then t.count :: children t n else children t n := by
  have hnext : ∀ i < t.count, nextOf (t.addNode name type (some dir)) i = nextOf t i := by
    intro i hi
    unfold nextOf
    rw [node_addNode hdir hi]
  -- the old part of a sibling chain, with one more turn of fuel
  have hold : ∀ start : Option Nat, (∀ k : Nat, start = some k → k < t.count) →
      ∀ fuel, t.count ≤ fuel →
      Chains.chain (nextOf (t.addNode name type (some dir))) fuel start =
        Chains.chain (nextOf t) t.count start := by
    intro start hstart fuel hfuel
    rw [Chains.chain_congr h.next hstart hnext]
    exact Chains.chain_fuel h.next hstart (fun k hk => (hstart k hk).trans_le hfuel) hstart
  unfold children
  rw [childrenFrom_eq_chain, childrenFrom_eq_chain, node_addNode hdir hn, count_addNode]
  by_cases hnd : n = dir
  · rw [if_pos hnd, if_pos hnd, Chains.chain_some]
    congr 1
    have hnew : nextOf (t.addNode name type (some dir)) t.count = (t.node n).firstChild := by
      unfold nextOf
      rw [node_addNode_new, hnd]
    rw [hnew]
    exact hold _ (h.first n hn) _ (Nat.le_refl _)
  · rw [if_neg hnd, if_neg hnd]
    exact hold _ (h.first n hn) _ (Nat.le_succ _)

omit h hdir in
theorem children_addNode_new : children (t.addNode name type (some dir)) t.count = [] := by
  unfold children
  rw [node_addNode_new, childrenFrom_eq_chain, Chains.chain_none]

theorem mem_children_addNode (hn : n < t.count) : c ∈ children (t.addNode name type (some dir)) n ↔
    (n = dir ∧ c = t.count) ∨ (c ∈ children t n ∧ c < t.count) := by
  have hold : c ∈ children t n → c ∈ children t n ∧ c < t.count := fun hc => ⟨hc, h.child_lt hn hc⟩
  rw [children_addNode h hdir hn]
  split
  · rename_i hnd
    rw [List.mem_cons]
    constructor
    · rintro (hnew | hc)
      · exact Or.inl ⟨hnd, hnew⟩
      · exact Or.inr (hold hc)
    · rintro (⟨-, hnew⟩ | ⟨hc, -⟩)
      · exact Or.inl hnew
      · exact Or.inr hc
  · rename_i hnd
    constructor
    · exact fun hc => Or.inr (hold hc)
    · rintro (⟨hn, -⟩ | ⟨hc, -⟩)
      · exact absurd hn hnd
      · exact hc

theorem distinct_addNode (hfresh : vfsFindChild t dir (strCopy name (vfsNameMax + 1)) = none)
    (hn : n < t.count) (hc : c ∈ children (t.addNode name type (some dir)) n)
    (hd : d ∈ children (t.addNode name type (some dir)) n)
    (heq : ((t.addNode name type (some dir)).node c).name =
      ((t.addNode name type (some dir)).node d).name) : c = d := by
  have hnone := find_eq_none_iff.mp hfresh
  rcases (mem_children_addNode h hdir hn).mp hc with ⟨hnd, hcn⟩ | ⟨hc', hcl⟩
  · rcases (mem_children_addNode h hdir hn).mp hd with ⟨-, hdn⟩ | ⟨hd', hdl⟩
    · rw [hcn, hdn]
    · rw [hcn, node_addNode_new, node_addNode hdir hdl] at heq
      exact absurd heq.symm (hnone d (hnd ▸ hd'))
  · rcases (mem_children_addNode h hdir hn).mp hd with ⟨hnd, hdn⟩ | ⟨hd', hdl⟩
    · rw [hdn, node_addNode_new, node_addNode hdir hcl] at heq
      exact absurd heq (hnone c (hnd ▸ hc'))
    · rw [node_addNode hdir hcl, node_addNode hdir hdl] at heq
      exact h.distinct n hn c hc' d hd' heq

theorem treeOk_addNode (hisDir : (t.node dir).type = .dir)
    (hname : NameOk (strCopy name (vfsNameMax + 1)))
    (hfresh : vfsFindChild t dir (strCopy name (vfsNameMax + 1)) = none) :
    TreeOk (t.addNode name type (some dir)) := by
  have hroot : vfsRoot < t.count := h.pos
  have hlt : ∀ {m}, m < t.count + 1 → m < t.count ∨ m = t.count := by
    intro m hm
    omega
  constructor
  case pos => exact Nat.succ_pos _
  case rootParent =>
    rw [node_addNode hdir hroot]
    exact h.rootParent
  case rootDir =>
    rw [node_addNode hdir hroot]
    exact h.rootDir
  case next =>
    intro i hi j hj
    unfold nextOf at hj
    rcases hlt hi with hi | rfl
    · rw [node_addNode hdir hi] at hj
      exact h.next i hi j hj
    · rw [node_addNode_new] at hj
      exact h.first dir hdir j hj
  case first =>
    intro m hm c hc
    rw [count_addNode]
    rcases hlt hm with hm | rfl
    · rw [node_addNode hdir hm] at hc
      dsimp only at hc
      split at hc
      · rw [← Option.some.inj hc]
        exact Nat.lt_succ_self _
      · exact Nat.lt_succ_of_lt (h.first m hm c hc)
    · rw [node_addNode_new] at hc
      cases hc
  case parentOf =>
    intro m hm c hc
    rcases hlt hm with hm | rfl
    · rcases (mem_children_addNode h hdir hm).mp hc with ⟨rfl, rfl⟩ | ⟨hold, hc⟩
      · rw [node_addNode_new]
        exact ⟨rfl, hdir⟩
      · rw [node_addNode hdir hc]
        exact h.parentOf m hm c hold
    · rw [children_addNode_new] at hc
      cases hc
  case listed =>
    intro c hc hne
    rcases hlt hc with hc | rfl
    · obtain ⟨m, hparent, hm, hin⟩ := h.listed c hc hne
      rw [node_addNode hdir hc]
      exact ⟨m, hparent, hm, (mem_children_addNode h hdir (by omega)).mpr (Or.inr ⟨hin, hc⟩)⟩
    · refine ⟨dir, ?_, hdir, (mem_children_addNode h hdir hdir).mpr (Or.inl ⟨rfl, rfl⟩)⟩
      rw [node_addNode_new]
  case distinct =>
    intro m hm c hc d hd heq
    rcases hlt hm with hm | rfl
    · exact distinct_addNode h hdir hfresh hm hc hd heq
    · rw [children_addNode_new] at hc
      cases hc
  case named =>
    intro c hc hne
    rcases hlt hc with hc | rfl
    · rw [node_addNode hdir hc]
      exact h.named c hc hne
    · rw [node_addNode_new]
      exact hname
  case dirs =>
    intro m hm hsome
    rcases hlt hm with hm | rfl
    · rw [node_addNode hdir hm] at hsome ⊢
      dsimp only at hsome ⊢
      split at hsome
      · rename_i hmd
        rw [hmd]
        exact hisDir
      · exact h.dirs m hm hsome
    · rw [node_addNode_new] at hsome
      exact absurd rfl hsome

end AddNode

/-! ## New contents -/

/-- The trees have the same nodes with the same names, types and links. -/
structure SameShape (t t' : VfsTree) : Prop where
  count : t'.count = t.count
  name : ∀ n, (t'.node n).name = (t.node n).name
  type : ∀ n, (t'.node n).type = (t.node n).type
  parent : ∀ n, (t'.node n).parent = (t.node n).parent
  firstChild : ∀ n, (t'.node n).firstChild = (t.node n).firstChild
  nextSibling : ∀ n, (t'.node n).nextSibling = (t.node n).nextSibling

theorem sameShape_setData (t : VfsTree) (n : Nat) (data : Bytes) (size : U32) :
    SameShape t (t.setData n data size) := by
  have hnode : ∀ m, (t.setData n data size).node m =
      if m = n then { t.node n with data := some data, size := size } else t.node m := by
    intro m
    by_cases hm : m = n <;> simp [VfsTree.setData, hm]
  constructor
  case count => rfl
  all_goals
    intro m
    rw [hnode]
    by_cases hm : m = n <;> simp [hm]

theorem SameShape.children (h : SameShape t t') (n : Nat) : children t' n = children t n := by
  have hnext : nextOf t' = nextOf t := by
    funext m
    exact h.nextSibling m
  unfold FileTree.children
  rw [childrenFrom_eq_chain, childrenFrom_eq_chain, hnext, h.firstChild, h.count]

theorem SameShape.treeOk (h : SameShape t t') (hok : TreeOk t) : TreeOk t' := by
  constructor
  case pos =>
    rw [h.count]
    exact hok.pos
  case rootParent =>
    rw [h.parent]
    exact hok.rootParent
  case rootDir =>
    rw [h.type]
    exact hok.rootDir
  case next =>
    intro i hi j hj
    rw [h.count] at hi
    unfold nextOf at hj
    rw [h.nextSibling] at hj
    exact hok.next i hi j hj
  case first =>
    intro m hm c hc
    rw [h.count] at hm ⊢
    rw [h.firstChild] at hc
    exact hok.first m hm c hc
  case parentOf =>
    intro m hm c hc
    rw [h.count] at hm
    rw [h.children] at hc
    rw [h.parent]
    exact hok.parentOf m hm c hc
  case listed =>
    intro c hc hne
    rw [h.count] at hc
    obtain ⟨m, hm⟩ := hok.listed c hc hne
    refine ⟨m, ?_⟩
    rw [h.parent, h.children]
    exact hm
  case distinct =>
    intro m hm c hc d hd heq
    rw [h.count] at hm
    rw [h.children] at hc hd
    rw [h.name, h.name] at heq
    exact hok.distinct m hm c hc d hd heq
  case named =>
    intro c hc hne
    rw [h.count] at hc
    rw [h.name]
    exact hok.named c hc hne
  case dirs =>
    intro m hm hsome
    rw [h.count] at hm
    rw [h.firstChild] at hsome
    rw [h.type]
    exact hok.dirs m hm hsome

/-! ## The root alone -/

theorem treeOk_root (name : CStr) : TreeOk (emptyTree.addNode name .dir none) := by
  have hroot : (emptyTree.addNode name .dir none).node 0 =
      ⟨strCopy name (vfsNameMax + 1), .dir, none, none, none, none, 0⟩ := by
    simp [VfsTree.addNode, emptyTree]
  have hcount : (emptyTree.addNode name .dir none).count = 1 := rfl
  have hzero : ∀ {n : Nat}, n < (emptyTree.addNode name .dir none).count → n = 0 := by
    intro n hn
    omega
  have hchildren : ∀ n < (emptyTree.addNode name .dir none).count,
      children (emptyTree.addNode name .dir none) n = [] := by
    intro n hn
    rw [hzero hn]
    unfold children
    rw [hroot]
    rfl
  constructor
  case pos => exact Nat.one_pos
  case rootParent => exact congrArg VfsNode.parent hroot
  case rootDir => exact congrArg VfsNode.type hroot
  case next =>
    intro i hi j hj
    rw [hzero hi] at hj
    unfold nextOf at hj
    rw [hroot] at hj
    cases hj
  case first =>
    intro m hm c hc
    rw [hzero hm, hroot] at hc
    cases hc
  case parentOf =>
    intro m hm c hc
    rw [hchildren m hm] at hc
    cases hc
  case listed =>
    intro c hc hne
    exact absurd (hzero hc) hne
  case distinct =>
    intro m hm c hc
    rw [hchildren m hm] at hc
    cases hc
  case named =>
    intro c hc hne
    exact absurd (hzero hc) hne
  case dirs =>
    intro m hm hsome
    rw [hzero hm, hroot] at hsome
    exact absurd rfl hsome

/-! ## Paths of nodes -/

/-- The names on the way up, root side first; parents are older, so the node's own number
bounds the turns. -/
def pathFrom (t : VfsTree) : Nat → Nat → List CStr
  | 0, _ => []
  | fuel + 1, n =>
    match (t.node n).parent with
    | none => []
    | some p => pathFrom t fuel p ++ [(t.node n).name]

def pathOf (t : VfsTree) (n : Nat) : List CStr := pathFrom t (n + 1) n

theorem TreeOk.pathFrom_eq (h : TreeOk t) (hn : n < t.count) (hfuel : n < fuel) :
    pathFrom t fuel n = pathOf t n := by
  have hgen : ∀ fuel fuel' n, n < t.count → n < fuel → n < fuel' →
      pathFrom t fuel n = pathFrom t fuel' n := by
    intro fuel
    induction fuel with
    | zero => exact fun _ n _ hlt => absurd hlt (Nat.not_lt_zero n)
    | succ fuel ih =>
        intro fuel' n hn hlt hlt'
        cases fuel' with
        | zero => exact absurd hlt' (Nat.not_lt_zero n)
        | succ fuel' =>
            rw [pathFrom, pathFrom]
            cases hparent : (t.node n).parent with
            | none => rfl
            | some p =>
                have hp := h.parent_lt hn hparent
                dsimp only
                rw [ih fuel' p hp.2 (by omega) (by omega)]
  exact hgen fuel (n + 1) n hn hfuel (Nat.lt_succ_self n)

theorem TreeOk.pathOf_root (h : TreeOk t) : pathOf t vfsRoot = [] := by
  unfold pathOf
  rw [pathFrom, h.rootParent]

theorem TreeOk.pathOf_child (h : TreeOk t) (hc : c < t.count)
    (hparent : (t.node c).parent = some n) :
    pathOf t c = pathOf t n ++ [(t.node c).name] := by
  obtain ⟨hlt, hn⟩ := h.parent_lt hc hparent
  have heq := h.pathFrom_eq hn hlt
  unfold pathOf at heq ⊢
  rw [pathFrom, hparent]
  dsimp only
  rw [heq]

/-- Up the tree to the root; each step goes to an older node. -/
theorem TreeOk.induction (h : TreeOk t) {P : Nat → Prop} (root : P vfsRoot)
    (child : ∀ c n : Nat, c < t.count → (t.node c).parent = some n → n < t.count → P n → P c) :
    ∀ n < t.count, P n := by
  intro n
  induction n using Nat.strong_induction_on with
  | _ n ih =>
      intro hn
      by_cases hroot : n = vfsRoot
      · rw [hroot]
        exact root
      · obtain ⟨m, hparent, hm, -⟩ := h.listed n hn hroot
        exact child n m hn hparent (by omega) (ih m hm (by omega))

theorem TreeOk.pathOf_eq_nil_iff (h : TreeOk t) (hn : n < t.count) :
    pathOf t n = [] ↔ n = vfsRoot := by
  constructor
  · intro hnil
    by_contra hroot
    obtain ⟨m, hparent, -, -⟩ := h.listed n hn hroot
    rw [h.pathOf_child hn hparent] at hnil
    exact List.append_ne_nil_of_right_ne_nil _ (List.cons_ne_nil _ _) hnil
  · rintro rfl
    exact h.pathOf_root

theorem TreeOk.nameOk_of_mem_pathOf (h : TreeOk t) (hn : n < t.count) :
    ∀ w ∈ pathOf t n, NameOk w := by
  refine TreeOk.induction h (P := fun n => ∀ w ∈ pathOf t n, NameOk w) ?_
    (fun c p hc hparent _ ih => ?_) n hn
  · rw [h.pathOf_root]
    exact List.forall_mem_nil _
  · rw [h.pathOf_child hc hparent]
    intro w hw
    rcases List.mem_append.mp hw with hw | hw
    · exact ih w hw
    · rw [List.mem_singleton.mp hw]
      exact h.named c hc (h.ne_root hparent)

theorem SameShape.pathOf (h : SameShape t t') (n : Nat) : pathOf t' n = pathOf t n := by
  have hgen : ∀ fuel n, pathFrom t' fuel n = pathFrom t fuel n := by
    intro fuel
    induction fuel with
    | zero => exact fun _ => rfl
    | succ fuel ih =>
        intro n
        rw [pathFrom, pathFrom, h.parent, h.name]
        cases (t.node n).parent with
        | none => rfl
        | some p =>
            dsimp only
            rw [ih]
  exact hgen (n + 1) n

theorem pathFrom_addNode (h : TreeOk t) (hdir : dir < t.count) (hn : n < t.count) :
    pathFrom (t.addNode name type (some dir)) fuel n = pathFrom t fuel n := by
  induction fuel generalizing n with
  | zero => rfl
  | succ fuel ih =>
      rw [pathFrom, pathFrom, node_addNode hdir hn]
      dsimp only
      cases hparent : (t.node n).parent with
      | none => rfl
      | some p =>
          dsimp only
          rw [ih (h.parent_lt hn hparent).2]

theorem pathOf_addNode (h : TreeOk t) (hdir : dir < t.count) (hn : n < t.count) :
    pathOf (t.addNode name type (some dir)) n = pathOf t n :=
  pathFrom_addNode h hdir hn

theorem pathOf_addNode_new (h : TreeOk t) (hdir : dir < t.count) :
    pathOf (t.addNode name type (some dir)) t.count =
      pathOf t dir ++ [strCopy name (vfsNameMax + 1)] := by
  unfold pathOf
  rw [pathFrom, node_addNode_new]
  dsimp only
  rw [pathFrom_addNode h hdir hdir, h.pathFrom_eq hdir hdir]
  rfl

/-! ## Subtrees -/

inductive Under (t : VfsTree) (a : Nat) : Nat → Prop
  | self : Under t a a
  | child {n c : Nat} : Under t a n → (t.node c).parent = some n → Under t a c

theorem Under.pathOf_prefix {a : Nat} (hu : Under t a n) (h : TreeOk t) (hn : n < t.count) :
    pathOf t a <+: pathOf t n := by
  induction hu with
  | self => exact List.prefix_refl _
  | @child n c _ hparent ih =>
      rw [h.pathOf_child hn hparent]
      exact (ih (h.parent_lt hn hparent).2).trans (List.prefix_append _ _)

end SlopOS.Proofs.FileTree
