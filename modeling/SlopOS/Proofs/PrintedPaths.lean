import SlopOS.Kernel.Syscall
import SlopOS.Proofs.TreeRuns
/-!
# Printed working directories

`vfs_get_cwd_path` prints the innermost 16 names of the way to a node, as far as
they fit.  The text leads back to the node exactly if nothing was left out and
no name is `.` or `..`.
-/

namespace SlopOS.Proofs.PrintedPaths

open SlopOS.Support SlopOS.Support.PathText SlopOS.Kernel
open SlopOS.Proofs.FileTree SlopOS.Proofs.FilePaths SlopOS.Proofs.TreeRuns

variable {t : VfsTree} {n c m cwd : Nat} {path rel full : CStr} {ws vs parts : List CStr}

/-! ## Printing -/

theorem cwdParts_eq (h : TreeOk t) (hn : n < t.count) (k : Nat) :
    cwdParts t k (some n) = (pathOf t n).reverse.take k := by
  induction k generalizing n with
  | zero => rfl
  | succ k ih =>
      rw [cwdParts]
      by_cases hroot : n = vfsRoot
      · rw [if_pos hroot, hroot, h.pathOf_root]
        rfl
      · rw [if_neg hroot]
        obtain ⟨p, hparent, -, -⟩ := h.listed n hn hroot
        rw [hparent, ih (h.parent_lt hn hparent).2, h.pathOf_child hn hparent, List.reverse_append]
        rfl

/-- The room that names need, each with a separator or the NUL behind it. -/
def roomFor (ws : List CStr) : Nat := (ws.map fun w => w.length + 1).sum

/-- The names printed are the first ones, and all of them if they fit. -/
theorem words_printParts (hparts : ∀ w ∈ parts, NameOk w) (remaining : Nat) :
    words (printParts parts remaining) <+: parts ∧
      (words (printParts parts remaining) = parts ↔ roomFor parts ≤ remaining) := by
  induction parts generalizing remaining with
  | nil => exact ⟨List.nil_prefix, by simp [printParts, roomFor, words]⟩
  | cons part parts ih =>
      have hpart := hparts part List.mem_cons_self
      obtain ⟨hpre, hall⟩ := ih (fun w hw => hparts w (List.mem_cons_of_mem part hw))
        (remaining - strLen part - 1)
      have hroom : roomFor (part :: parts) = part.length + 1 + roomFor parts := rfl
      rw [printParts]
      unfold strLen at hpre hall ⊢
      by_cases hfits : remaining < part.length + 1
      · rw [if_pos hfits, hroom]
        refine ⟨List.nil_prefix, fun h => ?_, fun h => absurd hfits (by omega)⟩
        cases h
      rw [if_neg hfits]
      by_cases hlast : parts = []
      · have hword : words part = [part] := components_word hpart.nonempty hpart.noSlash
        rw [if_pos hlast, hlast, hword]
        refine ⟨List.prefix_refl _, fun _ => ?_, fun _ => rfl⟩
        rw [show roomFor [part] = part.length + 1 from rfl]
        omega
      · have hword : words (part ++ chr '/' :: printParts parts (remaining - part.length - 1)) =
            part :: words (printParts parts (remaining - part.length - 1)) := by
          unfold words
          rw [components_append_sep, components_word hpart.nonempty hpart.noSlash]
          rfl
        rw [if_neg hlast, hword]
        refine ⟨List.cons_prefix_cons.mpr ⟨rfl, hpre⟩, ?_⟩
        rw [List.cons.injEq, hall, hroom, eq_self, true_and]
        omega

/-- Names that all fit take their room but for the last separator, and no slash is behind them. -/
theorem length_printParts (hparts : ∀ w ∈ parts, NameOk w) (hne : parts ≠ []) {remaining : Nat}
    (hroom : roomFor parts ≤ remaining) :
    (printParts parts remaining).length + 1 = roomFor parts ∧
      ∃ c, (printParts parts remaining).getLast? = some c ∧ c ≠ chr '/' := by
  induction parts generalizing remaining with
  | nil => exact absurd rfl hne
  | cons part parts ih =>
      have hpart := hparts part List.mem_cons_self
      have hsum : roomFor (part :: parts) = part.length + 1 + roomFor parts := rfl
      rw [printParts]
      unfold strLen
      rw [if_neg (by omega)]
      by_cases hlast : parts = []
      · have hend := List.getLast?_eq_some_getLast hpart.nonempty
        rw [if_pos hlast, hsum, hlast]
        refine ⟨rfl, _, hend, fun hslash => hpart.noSlash ?_⟩
        rw [← hslash]
        exact List.getLast_mem hpart.nonempty
      · obtain ⟨hlen, c, hend, hc⟩ := ih (fun w hw => hparts w (List.mem_cons_of_mem part hw)) hlast
          (show roomFor parts ≤ remaining - part.length - 1 by omega)
        rw [if_neg hlast, List.length_append, List.length_cons]
        refine ⟨by omega, c, ?_, hc⟩
        rw [List.getLast?_append, List.getLast?_cons, hend]
        rfl

theorem words_cwdPath (h : TreeOk t) (hn : n < t.count) :
    ∃ parts, parts = (pathOf t n).drop ((pathOf t n).length - cwdPartsMax) ∧
      words (vfsGetCwdPath t n vfsPathMax) <+: parts ∧
      (words (vfsGetCwdPath t n vfsPathMax) = parts ↔ roomFor parts ≤ vfsPathMax - 1) := by
  refine ⟨_, rfl, ?_⟩
  unfold vfsGetCwdPath
  rw [if_neg (by decide)]
  by_cases hroot : n = vfsRoot
  · rw [if_pos hroot, hroot, h.pathOf_root]
    decide
  · rw [if_neg hroot, if_pos (by decide), cwdParts_eq h hn]
    have hparts : ((pathOf t n).reverse.take cwdPartsMax).reverse =
        (pathOf t n).drop ((pathOf t n).length - cwdPartsMax) := by
      rw [List.reverse_take, List.reverse_reverse, List.length_reverse]
    rw [hparts]
    have hwords : ∀ s, words (chr '/' :: s) = words s := components_cons_sep
    rw [hwords]
    exact words_printParts (fun w hw => h.nameOk_of_mem_pathOf hn w (List.mem_of_mem_drop hw)) _

theorem cwdPath_head (t : VfsTree) (n : Nat) :
    (vfsGetCwdPath t n vfsPathMax).head? = some (chr '/') := by
  unfold vfsGetCwdPath
  rw [if_neg (by decide)]
  split
  · decide
  · rw [if_pos (by decide)]
    rfl

/-! ## Walking -/

/-- Without dots the names on the way to a node lead back to it. -/
theorem stepAll_pathOf (h : TreeOk t) (hn : n < t.count) (hplain : ∀ w ∈ pathOf t n, ¬Dot w) :
    stepAll t vfsRoot (pathOf t n) = some n := by
  refine TreeOk.induction h (P := fun n => (∀ w ∈ pathOf t n, ¬Dot w) →
    stepAll t vfsRoot (pathOf t n) = some n) ?_ ?_ n hn hplain
  · intro _
    rw [h.pathOf_root]
    rfl
  · intro c p hc hparent hp ih hplain
    have hpath := h.pathOf_child hc hparent
    rw [hpath] at hplain ⊢
    have hname := hplain (t.node c).name (List.mem_append_right _ List.mem_cons_self)
    have hshort := (h.named c hc (h.ne_root hparent)).short
    obtain ⟨p', hparent', -, hmem⟩ := h.listed c hc (h.ne_root hparent)
    rw [hparent] at hparent'
    cases hparent'
    rw [stepAll_append, ih fun w hw => hplain w (List.mem_append_left _ hw), Option.bind_some,
      stepAll_cons, stepTo_name hshort (fun h => hname (Or.inl h)) fun h => hname (Or.inr h),
      h.find_of_mem hp hmem]
    rfl

theorem length_pathOf_stepAll (h : TreeOk t) (hm : m < t.count) (hsteps : stepAll t m ws = some c) :
    (pathOf t c).length ≤ (pathOf t m).length + (ws.filter fun w => ¬Dot w).length := by
  induction ws generalizing m with
  | nil =>
      rw [← Option.some.inj hsteps]
      exact Nat.le_refl _
  | cons w ws ih =>
      rw [stepAll_cons] at hsteps
      obtain ⟨k, hk, hrest⟩ := Option.bind_eq_some_iff.mp hsteps
      have hle := ih (TreeOk.stepTo_lt h hm hk) hrest
      unfold stepTo at hk
      split at hk
      · cases hk
      by_cases hdot : Dot w
      · rw [List.filter_cons_of_neg (by simpa using hdot)]
        -- `.` stays and `..` goes up
        have hup : (pathOf t k).length ≤ (pathOf t m).length := by
          split at hk
          · rw [← Option.some.inj hk]
          · rw [if_pos (hdot.resolve_left ‹_›)] at hk
            rw [← Option.some.inj hk]
            cases hparent : (t.node m).parent with
            | none => exact Nat.le_refl _
            | some p =>
                rw [h.pathOf_child hm hparent, List.length_append]
                exact Nat.le_add_right _ _
        omega
      · rw [List.filter_cons_of_pos (by simpa using hdot), List.length_cons]
        rw [if_neg fun h => hdot (Or.inl h), if_neg fun h => hdot (Or.inr h)] at hk
        obtain ⟨hlt, hparent, -, -⟩ := h.find_lt hm hk
        have hlen := congrArg List.length (h.pathOf_child hlt hparent)
        rw [List.length_append, List.length_singleton] at hlen
        omega

/-! ## Back again -/

/-- Nothing is left out of the text for the node, and no name reads as something else. -/
structure Printable (t : VfsTree) (n : Nat) : Prop where
  depth : (pathOf t n).length ≤ cwdPartsMax
  room : roomFor (pathOf t n) ≤ vfsPathMax - 1
  plain : ∀ w ∈ pathOf t n, ¬Dot w

theorem resolve_cwdPath (t : VfsTree) (n : Nat) :
    vfsResolve t (vfsGetCwdPath t n vfsPathMax) =
      stepAll t vfsRoot (words (vfsGetCwdPath t n vfsPathMax)) := by
  unfold vfsResolve
  rw [vfsResolveFrom_eq]
  unfold startOf
  rw [if_pos (cwdPath_head t n)]

/-- The text leads back to the node exactly if it says everything. -/
theorem resolve_cwdPath_iff (h : TreeOk t) (hn : n < t.count) :
    vfsResolve t (vfsGetCwdPath t n vfsPathMax) = some n ↔ Printable t n := by
  obtain ⟨parts, hparts, hpre, hall⟩ := words_cwdPath h hn
  rw [resolve_cwdPath]
  constructor
  · intro hres
    have hdeep := length_pathOf_stepAll h h.root_lt hres
    rw [h.pathOf_root, List.length_nil, Nat.zero_add] at hdeep
    have hfilter := List.length_filter_le (fun w => decide ¬Dot w)
      (words (vfsGetCwdPath t n vfsPathMax))
    have hshown := hpre.length_le
    have hlen : parts.length = (pathOf t n).length - ((pathOf t n).length - cwdPartsMax) := by
      rw [hparts, List.length_drop]
    have hwords : words (vfsGetCwdPath t n vfsPathMax) = parts := hpre.eq_of_length (by omega)
    have hwhole : parts = pathOf t n := by
      rw [hparts, show (pathOf t n).length - cwdPartsMax = 0 by omega, List.drop_zero]
    refine ⟨by omega, ?_, ?_⟩
    · rw [← hwhole]
      exact hall.mp hwords
    · intro w hw
      rw [← hwhole, ← hwords] at hw
      have hevery := List.length_filter_eq_length_iff.mp (Nat.le_antisymm hfilter (by omega)) w hw
      simpa using hevery
  · intro hprint
    have hwhole : parts = pathOf t n := by
      rw [hparts, Nat.sub_eq_zero_of_le hprint.depth, List.drop_zero]
    rw [hwhole] at hall
    rw [hall.mpr hprint.room]
    exact stepAll_pathOf h hn hprint.plain

/-- The first text of a join, with a slash at its end. -/
def slashed (base : CStr) : CStr :=
  if base ≠ [] ∧ base.getLast? ≠ some (chr '/') then base ++ [chr '/'] else base

theorem vfsPathJoin_eq {size : Nat} {base : CStr} (h : vfsPathJoin size base rel = some full) :
    full = slashed base ++ rel ∧ full.length < size := by
  unfold vfsPathJoin at h
  split at h
  · cases h
  dsimp only at h
  unfold slashed
  split at h
  · cases h
  rename_i out hout
  obtain ⟨hroom, heq⟩ := Option.ite_none_left_eq_some.mp h
  obtain rfl := Option.some.inj heq
  rw [List.length_append]
  by_cases hend : base ≠ [] ∧ base.getLast? ≠ some (chr '/')
  · rw [if_pos hend] at hout ⊢
    obtain ⟨-, hslashed⟩ := Option.ite_none_left_eq_some.mp hout
    rw [← Option.some.inj hslashed] at hroom ⊢
    exact ⟨rfl, Nat.lt_of_not_le hroom⟩
  · rw [if_neg hend] at hout ⊢
    rw [← Option.some.inj hout] at hroom ⊢
    exact ⟨rfl, Nat.lt_of_not_le hroom⟩

theorem length_le_slashed (base : CStr) : base.length ≤ (slashed base).length := by
  unfold slashed
  split
  · rw [List.length_append]
    exact Nat.le_add_right _ _
  · exact Nat.le_refl _

theorem vfsPathJoin_isSome_iff {size : Nat} {base : CStr} :
    (vfsPathJoin size base rel).isSome ↔ (slashed base).length + rel.length < size := by
  constructor
  · intro hsome
    obtain ⟨full, hfull⟩ := Option.isSome_iff_exists.mp hsome
    obtain ⟨rfl, hlen⟩ := vfsPathJoin_eq hfull
    rwa [List.length_append] at hlen
  · intro hlen
    have hbase := length_le_slashed base
    unfold vfsPathJoin
    rw [if_neg (by omega)]
    unfold slashed at hlen
    by_cases hend : base ≠ [] ∧ base.getLast? ≠ some (chr '/')
    · rw [if_pos hend, List.length_append, List.length_singleton] at hlen
      dsimp only
      rw [if_pos hend, if_neg (by omega)]
      dsimp only
      rw [List.length_append, List.length_singleton, if_neg (by omega)]
      rfl
    · rw [if_neg hend] at hlen
      dsimp only
      rw [if_neg hend]
      dsimp only
      rw [if_neg (by omega)]
      rfl

/-- The text for a node, with a slash at its end, if nothing was left out. -/
theorem length_slashed_cwdPath (h : TreeOk t) (hn : n < t.count) (hprint : Printable t n) :
    (slashed (vfsGetCwdPath t n vfsPathMax)).length = roomFor (pathOf t n) + 1 := by
  unfold vfsGetCwdPath
  rw [if_neg (by decide)]
  by_cases hroot : n = vfsRoot
  · rw [if_pos hroot, hroot, h.pathOf_root]
    decide
  have hne : pathOf t n ≠ [] := by
    obtain ⟨p, hparent, -, -⟩ := h.listed n hn hroot
    rw [h.pathOf_child hn hparent]
    exact List.append_ne_nil_of_right_ne_nil _ (List.cons_ne_nil _ _)
  have hall : (pathOf t n).reverse.take cwdPartsMax = (pathOf t n).reverse := by
    apply List.take_of_length_le
    rw [List.length_reverse]
    exact hprint.depth
  obtain ⟨hlen, c, hend, hc⟩ := length_printParts (fun w hw => h.nameOk_of_mem_pathOf hn w hw) hne
    hprint.room
  rw [if_neg hroot, if_pos (by decide), cwdParts_eq h hn, hall, List.reverse_reverse]
  have hlast : (chr '/' :: printParts (pathOf t n) (vfsPathMax - 1)).getLast? ≠ some (chr '/') := by
    rw [List.getLast?_cons, hend]
    exact fun hslash => hc (Option.some.inj hslash)
  unfold slashed
  rw [if_pos ⟨List.cons_ne_nil _ _, hlast⟩, List.length_append, List.length_cons,
    List.length_singleton]
  omega

theorem slashed_eq {base : CStr} (hne : base ≠ []) :
    ∃ front, slashed base = front ++ [chr '/'] ∧ words front = words base := by
  unfold slashed
  by_cases hend : base.getLast? = some (chr '/')
  · obtain ⟨front, rfl⟩ := List.getLast?_eq_some_iff.mp hend
    refine ⟨front, if_neg fun h => h.2 hend, ?_⟩
    unfold words
    rw [components_append_sep, components_nil, List.append_nil]
  · exact ⟨base, if_pos ⟨hne, hend⟩, rfl⟩

theorem head_slashed {base : CStr} (hbase : base.head? = some (chr '/')) :
    (slashed base).head? = some (chr '/') := by
  unfold slashed
  split
  · rw [List.head?_append, hbase]
    rfl
  · exact hbase

/-- A join puts the words of the second text behind those of the first. -/
theorem words_join {size : Nat} {base : CStr} (hbase : base.head? = some (chr '/'))
    (h : vfsPathJoin size base rel = some full) :
    full.head? = some (chr '/') ∧ words full = words base ++ words rel := by
  have hne : base ≠ [] := by
    rintro rfl
    cases hbase
  obtain ⟨rfl, -⟩ := vfsPathJoin_eq h
  obtain ⟨front, hfront, hwords⟩ := slashed_eq hne
  constructor
  · rw [List.head?_append, head_slashed hbase]
    rfl
  · rw [hfront, ← hwords, List.append_assoc, List.singleton_append]
    exact components_append_sep front rel

/-- Where the absolute path leads that `make_abs_path` builds from a relative one. -/
theorem resolve_absPath (hrel : rel.head? ≠ some (chr '/'))
    (habs : makeAbsPath t n rel vfsPathMax = some full) (cwd : Nat) :
    full.head? = some (chr '/') ∧ vfsResolveFrom t cwd full =
      (vfsResolve t (vfsGetCwdPath t n vfsPathMax)).bind fun m => stepAll t m (words rel) := by
  unfold makeAbsPath at habs
  rw [if_neg (by decide), if_neg hrel] at habs
  obtain ⟨hhead, hwords⟩ := words_join (cwdPath_head t n) habs
  refine ⟨hhead, ?_⟩
  rw [vfsResolveFrom_eq, resolve_cwdPath, hwords, stepAll_append]
  unfold startOf
  rw [if_pos hhead]

/-- The printed path of the node, also with a relative path behind it, stands for the node. -/
def ReadsBack (t : VfsTree) (n : Nat) : Prop :=
  vfsResolve t (vfsGetCwdPath t n vfsPathMax) = some n ∧
    ∀ rel full, rel.head? ≠ some (chr '/') → makeAbsPath t n rel vfsPathMax = some full →
      vfsResolveFrom t n full = vfsResolveFrom t n rel

theorem readsBack_iff_printable (h : TreeOk t) (hn : n < t.count) : ReadsBack t n ↔ Printable t n := by
  rw [← resolve_cwdPath_iff h hn]
  refine ⟨And.left, fun hres => ⟨hres, fun rel full hrel habs => ?_⟩⟩
  rw [(resolve_absPath hrel habs n).2, hres, Option.bind_some, vfsResolveFrom_eq]
  unfold startOf
  rw [if_neg hrel]

section Runs

variable {mach : Machine} {mounts : Mounts} {heap : Heap} {fs₀ fs : Fs} {es : List TreeEvent}

theorem treeOk_run (hinit : vfsInit mounts heap = some fs₀)
    (hrun : Runs.run (treeStep mach) fs₀ es = some fs) : TreeOk fs.tree := by
  have hroot : TreeOk (emptyTree.addNode [] .dir none) := treeOk_root []
  refine Runs.invariant (I := fun fs => TreeOk fs.tree) (fun fs e fs' _ hfs hstep => ?_)
    (Runs.AllSteps.trivial fs₀ es) hrun ((FileEdits.vfsInit_edits hinit).1.treeOk hroot)
  exact (treeStep_edits hfs hstep).1.treeOk hfs

/-- In every tree that a run makes, the directories whose printed paths stand for them. -/
theorem readsBack_run (hinit : vfsInit mounts heap = some fs₀)
    (hrun : Runs.run (treeStep mach) fs₀ es = some fs) (hn : n < fs.tree.count)
    (_hdir : (fs.tree.node n).type = .dir) : ReadsBack fs.tree n ↔ Printable fs.tree n :=
  readsBack_iff_printable (treeOk_run hinit hrun) hn

end Runs

def demoDirs : List TreeEvent :=
  [.makeDir vfsRoot (cstr "tmp/a"), .makeDir 6 (cstr "b")]

theorem readsBack_demo : ∃ fs₀ fs, vfsInit (fsInit none) plainHeap = some fs₀ ∧
    Runs.run (treeStep plainMach) fs₀ demoDirs = some fs ∧
      pathOf fs.tree 7 = [cstr "tmp", cstr "a", cstr "b"] ∧ ReadsBack fs.tree 7 := by
  have hview : (callsFrom plainMach (fsInit none) plainHeap demoDirs).map (fun fs => (fs.tree.count,
      (fs.tree.node 7).type, pathOf fs.tree 7)) = some (8, .dir, [cstr "tmp", cstr "a", cstr "b"]) := by
    decide +kernel
  obtain ⟨fs, hcalls, hfs⟩ := Option.map_eq_some_iff.mp hview
  obtain ⟨fs₀, hinit, hrun⟩ := Option.bind_eq_some_iff.mp hcalls
  simp only [Prod.mk.injEq] at hfs
  obtain ⟨hcount, htype, hpath⟩ := hfs
  have hlt : 7 < fs.tree.count := by
    rw [hcount]
    decide
  refine ⟨fs₀, fs, hinit, hrun, hpath, (readsBack_run hinit hrun hlt htype).mpr ⟨?_, ?_, ?_⟩⟩
  all_goals
    rw [hpath]
    decide

/-- Directory `a` in directory `a`, seventeen times. -/
def nestedDirs : List TreeEvent :=
  (List.range 17).map fun i => .makeDir (if i = 0 then vfsRoot else 5 + i) (cstr "a")

/-- The text for the innermost directory leaves the outermost name out, and leads to the directory
above. -/
theorem not_readsBack_deep : ∃ fs₀ fs, vfsInit (fsInit none) plainHeap = some fs₀ ∧
    Runs.run (treeStep plainMach) fs₀ nestedDirs = some fs ∧ (fs.tree.node 22).type = .dir ∧
      vfsResolve fs.tree (vfsGetCwdPath fs.tree 22 vfsPathMax) = some 21 ∧
        ¬ReadsBack fs.tree 22 := by
  have hview : (callsFrom plainMach (fsInit none) plainHeap nestedDirs).map (fun fs =>
      ((fs.tree.node 22).type, vfsResolve fs.tree (vfsGetCwdPath fs.tree 22 vfsPathMax))) =
        some (.dir, some 21) := by decide +kernel
  obtain ⟨fs, hcalls, hfs⟩ := Option.map_eq_some_iff.mp hview
  obtain ⟨fs₀, hinit, hrun⟩ := Option.bind_eq_some_iff.mp hcalls
  obtain ⟨htype, hres⟩ := Prod.mk.inj hfs
  refine ⟨fs₀, fs, hinit, hrun, htype, hres, fun hback => ?_⟩
  exact absurd (Option.some.inj (hres.symm.trans hback.1)) (by decide)

end SlopOS.Proofs.PrintedPaths
