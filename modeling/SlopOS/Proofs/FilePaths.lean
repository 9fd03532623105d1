import SlopOS.Proofs.FileTree
import SlopOS.Support.PathText
/-!
# Paths in the tree

`vfs_resolve_from` takes one component after the other and makes one step in
the tree for each.  `vfs_split_parent` divides a path in front of its last
component.
-/

namespace SlopOS.Proofs.FilePaths

open SlopOS.Support SlopOS.Support.PathText SlopOS.Kernel SlopOS.Proofs.FileTree

def words (path : CStr) : List CStr := components (chr '/') path

def stepTo (t : VfsTree) (node : Nat) (word : CStr) : Option Nat :=
  if vfsNameMax + 1 ≤ word.length then none
  else if word = cstr "." then some node
  else if word = cstr ".." then some ((t.node node).parent.getD node)
  else vfsFindChild t node word

def stepAll (t : VfsTree) (node : Nat) (ws : List CStr) : Option Nat := ws.foldlM (stepTo t) node

def startOf (cwd : Nat) (path : CStr) : Nat :=
  if path.head? = some (chr '/') then vfsRoot else cwd

variable {t t' : VfsTree} {n c dir cwd fuel : Nat} {name path word : CStr} {ws vs : List CStr}

@[simp] theorem stepAll_nil (t : VfsTree) (node : Nat) : stepAll t node [] = some node := rfl

theorem stepAll_cons (t : VfsTree) (node : Nat) (w : CStr) (ws : List CStr) :
    stepAll t node (w :: ws) = (stepTo t node w).bind fun n => stepAll t n ws := by
  unfold stepAll
  rw [List.foldlM_cons]
  rfl

theorem stepAll_append (t : VfsTree) (node : Nat) (vs ws : List CStr) :
    stepAll t node (vs ++ ws) = (stepAll t node vs).bind fun n => stepAll t n ws := by
  unfold stepAll
  rw [List.foldlM_append]
  rfl

/-! ## The tests for the mount -/

/-- The paths that the two tests recognise, each with the path on the CD. -/
inductive Recognised : CStr → CStr → Prop
  | cdrom : Recognised cdromMount (cstr "/")
  | belowCdrom (rest : CStr) : Recognised (cdromMount ++ chr '/' :: rest) (chr '/' :: rest)
  | bin : Recognised binAlias binAlias
  | belowBin (rest : CStr) : Recognised (binAlias ++ chr '/' :: rest) (binAlias ++ chr '/' :: rest)

theorem vfsIsCdromMountPath_cases {subpath : CStr} (h : vfsIsCdromMountPath path = some subpath) :
    Recognised path subpath := by
  unfold vfsIsCdromMountPath at h
  split at h
  · cases h
  split at h
  · cases h
  rename_i hstart
  obtain ⟨rest, rfl⟩ := strStartswith_iff.mp (not_not.mp hstart)
  have hdrop : (cdromMount ++ rest).drop 12 = rest := rfl
  rw [hdrop] at h
  cases rest with
  | nil =>
      cases h
      exact .cdrom
  | cons c rest =>
      obtain ⟨rfl, heq⟩ := Option.ite_none_right_eq_some.mp h
      cases heq
      exact .belowCdrom rest

theorem vfsIsBinAliasPath_cases {subpath : CStr} (h : vfsIsBinAliasPath path = some subpath) :
    Recognised path subpath := by
  unfold vfsIsBinAliasPath at h
  split at h
  · cases h
  split at h
  · cases h
  rename_i hstart
  obtain ⟨rest, rfl⟩ := strStartswith_iff.mp (not_not.mp hstart)
  have hdrop : (binAlias ++ rest).drop 4 = rest := rfl
  rw [hdrop] at h
  cases rest with
  | nil =>
      cases h
      exact .bin
  | cons c rest =>
      obtain ⟨rfl, heq⟩ := Option.ite_none_right_eq_some.mp h
      cases heq
      exact .belowBin rest

theorem vfsMountSubpath_cases {subpath : CStr} (h : vfsMountSubpath path = some subpath) :
    Recognised path subpath := by
  unfold vfsMountSubpath at h
  split at h
  · rename_i hcdrom
    cases h
    exact vfsIsCdromMountPath_cases hcdrom
  · exact vfsIsBinAliasPath_cases h

theorem head_of_subpath {subpath : CStr} (h : vfsMountSubpath path = some subpath) :
    path.head? = some (chr '/') := by
  cases vfsMountSubpath_cases h <;> rfl

theorem mountSubpath_relative (hrel : path.head? ≠ some (chr '/')) : vfsMountSubpath path = none := by
  cases h : vfsMountSubpath path with
  | none => rfl
  | some subpath => exact absurd (head_of_subpath h) hrel

/-! ## Taking components -/

theorem head_skipSlashes (path : CStr) : (skipSlashes path).head? ≠ some (chr '/') := by
  intro h
  exact Spans.not_of_head_dropWhile (P := fun c => c = chr '/') h rfl

theorem words_skipSlashes (path : CStr) : words (skipSlashes path) = words path :=
  components_dropWhile path

theorem vfsNextComponent_eq (path : CStr) :
    vfsNextComponent path (vfsNameMax + 1) =
      match words path with
      | [] => .done
      | w :: _ => if vfsNameMax + 1 ≤ w.length then .tooLong
        else .component w ((skipSlashes path).dropWhile fun c => c ≠ chr '/') := by
  have hskip := words_skipSlashes path
  have hhead := head_skipSlashes path
  unfold vfsNextComponent
  dsimp only
  by_cases hnil : skipSlashes path = []
  · rw [if_pos hnil, ← hskip, hnil]
    rfl
  · rw [if_neg hnil, ← hskip]
    unfold words
    rw [components_takeWhile hnil hhead]

theorem words_rest (path : CStr) {w : CStr} {rest : List CStr} (h : words path = w :: rest) :
    words ((skipSlashes path).dropWhile fun c => c ≠ chr '/') = rest := by
  have hskip := words_skipSlashes path
  have hhead := head_skipSlashes path
  have hnil : skipSlashes path ≠ [] := by
    intro hnil
    rw [hnil] at hskip
    rw [← hskip] at h
    cases h
  rw [← hskip] at h
  unfold words at h
  rw [components_takeWhile hnil hhead] at h
  exact (List.cons.inj h).2

theorem vfsWalk_eq (t : VfsTree) (node : Nat) (hfuel : (words path).length < fuel) :
    vfsWalk t fuel node path = stepAll t node (words path) := by
  induction fuel generalizing node path with
  | zero => exact absurd hfuel (Nat.not_lt_zero _)
  | succ fuel ih =>
      rw [vfsWalk, vfsNextComponent_eq]
      cases hwords : words path with
      | nil => rfl
      | cons w rest =>
          have hrest := words_rest path hwords
          have hlen : rest.length < fuel := by
            rw [hwords, List.length_cons] at hfuel
            omega
          have hgo : ∀ m, vfsWalk t fuel m ((skipSlashes path).dropWhile fun c => c ≠ chr '/') =
              stepAll t m rest := by
            intro m
            rw [ih m (by rw [hrest]; exact hlen), hrest]
          rw [stepAll_cons]
          unfold stepTo
          dsimp only
          by_cases hlong : vfsNameMax + 1 ≤ w.length
          · rw [if_pos hlong, if_pos hlong]
            rfl
          · rw [if_neg hlong, if_neg hlong]
            simp only [strEq, decide_eq_true_eq]
            split
            · exact hgo node
            split
            · exact hgo _
            · cases vfsFindChild t node w with
              | none => rfl
              | some child => exact hgo child

theorem vfsResolveFrom_eq (t : VfsTree) (cwd : Nat) (path : CStr) :
    vfsResolveFrom t cwd path = stepAll t (startOf cwd path) (words path) := by
  unfold vfsResolveFrom
  by_cases hnil : path = []
  · rw [if_pos hnil, hnil]
    rfl
  · rw [if_neg hnil]
    have hskip := words_skipSlashes path
    have hwalk : vfsWalk t ((skipSlashes path).length + 1) (startOf cwd path) (skipSlashes path) =
        stepAll t (startOf cwd path) (words path) := by
      rw [vfsWalk_eq, hskip]
      exact Nat.lt_succ_of_le (length_components_le _)
    dsimp only
    by_cases hempty : skipSlashes path = []
    · rw [if_pos hempty]
      rw [hempty] at hskip
      rw [← hskip]
      rfl
    · rw [if_neg hempty]
      exact hwalk

/-! ## Where steps lead -/

theorem TreeOk.stepTo_lt (h : TreeOk t) (hn : n < t.count) (hstep : stepTo t n word = some c) :
    c < t.count := by
  unfold stepTo at hstep
  split at hstep
  · cases hstep
  split at hstep
  · rw [← Option.some.inj hstep]
    exact hn
  split at hstep
  · rw [← Option.some.inj hstep]
    cases hparent : (t.node n).parent with
    | none => exact hn
    | some p => exact (h.parent_lt hn hparent).2
  · exact (h.find_lt hn hstep).1

theorem TreeOk.stepAll_lt (h : TreeOk t) (hn : n < t.count) (hsteps : stepAll t n ws = some c) :
    c < t.count := by
  induction ws generalizing n with
  | nil =>
      rw [← Option.some.inj hsteps]
      exact hn
  | cons w ws ih =>
      rw [stepAll_cons] at hsteps
      obtain ⟨m, hm, hrest⟩ := Option.bind_eq_some_iff.mp hsteps
      exact ih (TreeOk.stepTo_lt h hn hm) hrest

theorem TreeOk.startOf_lt (h : TreeOk t) (hcwd : cwd < t.count) (path : CStr) :
    startOf cwd path < t.count := by
  unfold startOf
  split
  · exact h.pos
  · exact hcwd

theorem TreeOk.resolve_lt (h : TreeOk t) (hcwd : cwd < t.count)
    (hres : vfsResolveFrom t cwd path = some c) : c < t.count := by
  rw [vfsResolveFrom_eq] at hres
  exact TreeOk.stepAll_lt h (TreeOk.startOf_lt h hcwd path) hres

/-- A word that is neither too long nor one of the two dots is looked up. -/
theorem stepTo_name (hlen : word.length ≤ vfsNameMax) (hdot : word ≠ cstr ".")
    (hdots : word ≠ cstr "..") : stepTo t n word = vfsFindChild t n word := by
  unfold stepTo
  rw [if_neg (by omega), if_neg hdot, if_neg hdots]

/-! ## The last component -/

/-- What `vfs_split_parent` makes of a path with a slash. -/
structure Divided (path parentPath name : CStr) : Prop where
  words : words path = FilePaths.words parentPath ++ [name]
  start : ∀ cwd, startOf cwd parentPath = startOf cwd path
  parentPath : parentPath ≠ []
  nameOk : NameOk name
  notDot : name ≠ cstr "."
  notDots : name ≠ cstr ".."

theorem split_last (hslash : chr '/' ∈ path) :
    ∃ front name, path = front ++ chr '/' :: name ∧ chr '/' ∉ name ∧
      (path.reverse.takeWhile fun c => c ≠ chr '/').reverse = name ∧
      path.take (path.length - name.length - 1) = front := by
  have hsplit := List.takeWhile_append_dropWhile (p := fun c => decide (c ≠ chr '/'))
    (l := path.reverse)
  have hmem := @sep_not_mem_takeWhile _ _ (chr '/') path.reverse
  cases hdrop : path.reverse.dropWhile fun c => decide (c ≠ chr '/') with
  | nil =>
      rw [hdrop, List.append_nil] at hsplit
      rw [hsplit, List.mem_reverse] at hmem
      exact absurd hslash hmem
  | cons c rest =>
      have hc : c = chr '/' := head?_dropWhile path.reverse c (by rw [hdrop]; rfl)
      have hpath : path = rest.reverse ++ chr '/' ::
          (path.reverse.takeWhile fun c => decide (c ≠ chr '/')).reverse := by
        rw [hdrop, hc] at hsplit
        have hrev := congrArg List.reverse hsplit
        rw [List.reverse_reverse, List.reverse_append, List.reverse_cons, List.append_assoc,
          List.singleton_append] at hrev
        exact hrev.symm
      refine ⟨rest.reverse, _, hpath, ?_, rfl, ?_⟩
      · rw [List.mem_reverse]
        exact hmem
      · have hlen : path.length - (path.reverse.takeWhile fun c => decide (c ≠ chr '/')).reverse.length
            - 1 = rest.reverse.length := by
          have h := congrArg List.length hpath
          rw [List.length_append, List.length_cons] at h
          omega
        rw [hlen]
        exact (congrArg (List.take _) hpath).trans List.take_left

theorem startOf_front (front name : CStr) (cwd : Nat) :
    startOf cwd (if front = [] then cstr "/" else front) = startOf cwd (front ++ chr '/' :: name) := by
  unfold startOf
  cases front with
  | nil => rfl
  | cons c front => rfl

theorem words_last (front : CStr) (hne : name ≠ []) (hslash : chr '/' ∉ name) :
    words (front ++ chr '/' :: name) =
      words (if front = [] then cstr "/" else front) ++ [name] := by
  unfold words
  rw [components_append_sep, components_word hne hslash]
  congr 1
  split
  · rename_i hnil
    rw [hnil]
    rfl
  · rfl

theorem vfsSplitParent_spec {parentPath : CStr} (h : vfsSplitParent path = some (parentPath, name)) :
    (path ≠ [] ∧ chr '/' ∉ path ∧ parentPath = [] ∧ name = strCopy path (vfsNameMax + 1)) ∨
      Divided path parentPath name := by
  unfold vfsSplitParent at h
  split at h
  · cases h
  rename_i hne
  split at h
  · rename_i hnone
    cases h
    exact Or.inl ⟨hne, hnone, rfl, rfl⟩
  rename_i hslash
  obtain ⟨front, last, hpath, hlast, htake, hfront⟩ := split_last (not_not.mp hslash)
  rw [htake] at h
  dsimp only at h
  rw [hfront] at h
  split at h
  · cases h
  split at h
  · cases h
  rename_i hshort
  split at h
  · cases h
  rename_i hname
  simp only [strEq, decide_eq_true_eq, not_or] at hname
  cases h
  right
  refine ⟨?_, fun cwd => ?_, ?_, ⟨hname.1, by omega, hlast⟩, hname.2.1, hname.2.2⟩
  · rw [hpath]
    exact words_last front hname.1 hlast
  · rw [hpath]
    exact startOf_front front name cwd
  · split
    · decide
    · assumption

/-- What `vfs_make_dir` and `vfs_touch` are about: a name in a directory, where the path does
not look like one of the mount. -/
structure Target (t : VfsTree) (cwd : Nat) (path : CStr) (parent : Nat) (name : CStr) : Prop where
  parentDir : vfsParentDir t cwd path = some (parent, name)
  allowed : vfsMountSubpath (vfsCheckPath t cwd path) = none
  isDir : (t.node parent).type = .dir
  nameOk : NameOk name
  how : (path ≠ [] ∧ chr '/' ∉ path ∧ parent = cwd ∧ name = strCopy path (vfsNameMax + 1)) ∨
    (words path ≠ [] ∧ stepAll t (startOf cwd path) (words path).dropLast = some parent ∧
      words path = (words path).dropLast ++ [name] ∧ name ≠ cstr "." ∧ name ≠ cstr "..")

theorem vfsParentDir_spec {parent : Nat} (h : vfsParentDir t cwd path = some (parent, name)) :
    Target t cwd path parent name := by
  have hparentDir := h
  unfold vfsParentDir at h
  split at h
  · cases h
  rename_i hgate
  split at h
  · cases h
  rename_i parentPath name' hsplit
  split at h
  · cases h
  rename_i p hp
  split at h
  · rename_i hdir
    cases h
    have hallowed : vfsMountSubpath (vfsCheckPath t cwd path) = none := by
      simpa using hgate
    rcases vfsSplitParent_spec hsplit with ⟨hne, hslash, hnil, hname⟩ | hdiv
    · rw [if_pos hnil] at hp
      cases hp
      refine ⟨hparentDir, hallowed, hdir, ?_, Or.inl ⟨hne, hslash, rfl, hname⟩⟩
      rw [hname]
      refine ⟨?_, ?_, ?_⟩
      · cases path with
        | nil => exact absurd rfl hne
        | cons c path => exact List.cons_ne_nil _ _
      · exact List.length_take_le _ _
      · exact fun hmem => hslash (List.mem_of_mem_take hmem)
    · rw [if_neg hdiv.parentPath, vfsResolveFrom_eq, hdiv.start] at hp
      refine ⟨hparentDir, hallowed, hdir, hdiv.nameOk, Or.inr ⟨?_, ?_, ?_, hdiv.notDot, hdiv.notDots⟩⟩
      · rw [hdiv.words]
        exact List.append_ne_nil_of_right_ne_nil _ (List.cons_ne_nil _ _)
      · rw [hdiv.words, List.dropLast_concat]
        exact hp
      · rw [hdiv.words, List.dropLast_concat]
  · cases h

theorem startOf_of_noSlash (hslash : chr '/' ∉ path) (cwd : Nat) : startOf cwd path = cwd := by
  unfold startOf
  rw [if_neg]
  intro hhead
  exact hslash (List.mem_of_mem_head? hhead)

/-- Where the path of a target leads in a tree in which the way to the directory is the same,
if its last word is no dot. -/
theorem Target.resolve {parent : Nat} (h : Target t cwd path parent name)
    (hsame : ∀ ws m, stepAll t (startOf cwd path) ws = some m →
      stepAll t' (startOf cwd path) ws = some m)
    (hdot : path ≠ cstr ".") (hdots : path ≠ cstr "..") :
    vfsResolveFrom t' cwd path = vfsFindChild t' parent name ∨
      (chr '/' ∉ path ∧ vfsNameMax < path.length ∧ vfsResolveFrom t' cwd path = none) := by
  rw [vfsResolveFrom_eq]
  rcases h.how with ⟨hne, hslash, hparent, hname⟩ | ⟨-, hsteps, hwords, hnd, hnds⟩
  · have hstart := startOf_of_noSlash hslash cwd
    have hone : words path = [path] := components_word hne hslash
    rw [hone, hstart, stepAll_cons]
    by_cases hlong : vfsNameMax < path.length
    · right
      refine ⟨hslash, hlong, ?_⟩
      unfold stepTo
      rw [if_pos (Nat.succ_le_of_lt hlong)]
      rfl
    · left
      have hshort : path.length ≤ vfsNameMax := Nat.not_lt.mp hlong
      have hsame : name = path := by
        rw [hname]
        exact List.take_of_length_le hshort
      rw [stepTo_name hshort hdot hdots, hparent, hsame]
      cases vfsFindChild t' cwd path <;> rfl
  · left
    rw [hwords, stepAll_append, hsame _ _ hsteps, Option.bind_some, stepAll_cons,
      stepTo_name h.nameOk.short hnd hnds]
    cases vfsFindChild t' parent name <;> rfl

theorem TreeOk.pathOf_stepAll (h : TreeOk t) (hn : n < t.count)
    (hplain : ∀ w ∈ ws, w ≠ cstr "." ∧ w ≠ cstr "..") (hsteps : stepAll t n ws = some c) :
    pathOf t c = pathOf t n ++ ws := by
  induction ws generalizing n with
  | nil =>
      rw [← Option.some.inj hsteps, List.append_nil]
  | cons w ws ih =>
      rw [stepAll_cons] at hsteps
      obtain ⟨m, hm, hrest⟩ := Option.bind_eq_some_iff.mp hsteps
      have hw := hplain w List.mem_cons_self
      have hfind : vfsFindChild t n w = some m := by
        unfold stepTo at hm
        rw [if_neg hw.1, if_neg hw.2] at hm
        split at hm
        · cases hm
        · exact hm
      obtain ⟨hlt, hparent, -, hname⟩ := h.find_lt hn hfind
      rw [ih hlt (fun v hv => hplain v (List.mem_cons_of_mem w hv)) hrest,
        h.pathOf_child hlt hparent, hname, List.append_assoc, List.singleton_append]

end SlopOS.Proofs.FilePaths
