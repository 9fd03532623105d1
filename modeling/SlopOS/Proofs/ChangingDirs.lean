import SlopOS.Proofs.MountRuns
import SlopOS.Proofs.UserStrings
/-!
# Changing into a directory

`vfs_stat` asks the CD about a path of the mount and answers with what it hears.  `vfs_change_dir`
asks the same question, but then it needs a node for the directory: it makes the missing nodes on
the way to it in the tree, and where the CD knows of no directory it falls back to the tree.
-/

namespace SlopOS.Proofs.ChangingDirs

open SlopOS.Support SlopOS.Support.PathText SlopOS.Kernel
open SlopOS.Proofs.FileTree SlopOS.Proofs.FilePaths SlopOS.Proofs.FileEdits SlopOS.Proofs.TreeRuns
open SlopOS.Proofs.PrintedPaths
open SlopOS.Proofs.MountRuns (discMach)
open SlopOS.Proofs.ReachableStates (dirRecord demoSector)

variable {mach : Machine} {mounts : Mounts} {heap : Heap} {fs₀ fs fs' : Fs} {es : List TreeEvent}
variable {t : VfsTree} {cwd n c node fuel : Nat} {path p name : CStr} {w : CStr} {ws : List CStr}

/-! ## The way to a shadow -/

/-- The directories `ws` below `n` can be made where they are missing: all of them have names that
a node can have, and no file is in the way. -/
structure FreeWay (t : VfsTree) (n : Nat) (ws : List CStr) : Prop where
  names : ∀ w ∈ ws, w.length ≤ vfsNameMax ∧ ¬Dot w
  dirs : ∀ vs c, vs <+: ws → stepAll t n vs = some c → (t.node c).type = .dir

/-- The heap has room for so many nodes. -/
def NodesFit : Nat → Heap → Prop
  | 0, _ => True
  | count + 1, heap => ∃ addr heap', kcalloc heap vfsNodeSize = some (addr, heap') ∧
      NodesFit count heap'

theorem NodesFit.pred {count : Nat} {heap : Heap} (h : NodesFit (count + 1) heap) :
    NodesFit count heap := by
  induction count generalizing heap with
  | zero => trivial
  | succ count ih =>
      obtain ⟨addr, heap', halloc, hrest⟩ := h
      exact ⟨addr, heap', halloc, ih hrest⟩

theorem stepTo_plain (hlen : w.length ≤ vfsNameMax) (hdot : ¬Dot w) :
    stepTo t n w = vfsFindChild t n w :=
  stepTo_name hlen (fun h => hdot (Or.inl h)) fun h => hdot (Or.inr h)

theorem FreeWay.child (h : FreeWay t n (w :: ws)) (hfind : vfsFindChild t n w = some c) :
    FreeWay t c ws where
  names v hv := h.names v (List.mem_cons_of_mem w hv)
  dirs vs d hvs hsteps := by
    obtain ⟨hlen, hdot⟩ := h.names w List.mem_cons_self
    apply h.dirs (w :: vs) d (List.cons_prefix_cons.mpr ⟨rfl, hvs⟩)
    rw [stepAll_cons, stepTo_plain hlen hdot, hfind]
    exact hsteps

theorem freeWay_new (hnames : ∀ w ∈ ws, w.length ≤ vfsNameMax ∧ ¬Dot w) :
    FreeWay (t.addNode name .dir (some n)) t.count ws where
  names := hnames
  dirs vs c hvs hsteps := by
    cases vs with
    | nil =>
        rw [← Option.some.inj hsteps, node_addNode_new]
    | cons v vs =>
        obtain ⟨hlen, hdot⟩ := hnames v (hvs.subset List.mem_cons_self)
        have hnone : vfsFindChild (t.addNode name .dir (some n)) t.count v = none := by
          apply find_eq_none_iff.mpr
          intro d hd
          rw [children_addNode_new] at hd
          cases hd
        rw [stepAll_cons, stepTo_plain hlen hdot, hnone] at hsteps
        cases hsteps

/-! ## `vfs_ensure_dir_abs` -/

theorem freeWay_cons (hdir : (t.node n).type = .dir) (hlen : w.length ≤ vfsNameMax) (hdot : ¬Dot w)
    (hnames : ∀ v ∈ ws, v.length ≤ vfsNameMax ∧ ¬Dot v)
    (hrest : ∀ c, vfsFindChild t n w = some c → FreeWay t c ws) : FreeWay t n (w :: ws) where
  names v hv := by
    rcases List.mem_cons.mp hv with rfl | hv
    · exact ⟨hlen, hdot⟩
    · exact hnames v hv
  dirs vs c hvs hsteps := by
    cases vs with
    | nil =>
        rw [← Option.some.inj hsteps]
        exact hdir
    | cons v vs =>
        obtain ⟨rfl, hvs'⟩ := List.cons_prefix_cons.mp hvs
        rw [stepAll_cons, stepTo_plain hlen hdot] at hsteps
        obtain ⟨d, hfind, hsteps'⟩ := Option.bind_eq_some_iff.mp hsteps
        exact (hrest d hfind).dirs vs c hvs' hsteps'

/-- With room on the heap the loop comes to the end of a free way, and there is a directory. -/
theorem done_of_ensures {r : Bool × Fs} (h : Ensures fuel fs node ws r) (hok : TreeOk fs.tree)
    (hnode : node < fs.tree.count) (hfuel : ws.length < fuel) (hfit : NodesFit ws.length fs.heap)
    (hway : FreeWay fs.tree node ws) :
    r.1 = true ∧ ∃ c, stepAll r.2.tree node ws = some c ∧ (r.2.tree.node c).type = .dir := by
  induction h with
  | spent => exact absurd hfuel (Nat.not_lt_zero _)
  | @done fuel fs node => exact ⟨rfl, node, rfl, hway.dirs [] node List.nil_prefix rfl⟩
  | long hlong => exact absurd hlong (Nat.not_lt.mpr (hway.names _ List.mem_cons_self).1)
  | full hnone =>
      obtain ⟨addr, heap, hroom, -⟩ := hfit
      rw [hnone] at hroom
      cases hroom
  | file hfind hfile => exact absurd ((hway.child hfind).dirs [] _ List.nil_prefix rfl) hfile
  | found hname hfind hdir hrest ih =>
      obtain ⟨hlen, hdot⟩ := hway.names _ List.mem_cons_self
      have hchild := (hok.find_lt hnode hfind).1
      have hedits := (edited_of_ensures hrest hok hchild hdir).1
      rw [stepAll_cons, stepTo_plain hlen hdot, hedits.find hok hnode hfind]
      exact ih hok hchild (Nat.lt_of_succ_lt_succ hfuel) hfit.pred (hway.child hfind)
  | @made fuel fs node w ws r addr heap hname hfresh hroom hrest ih =>
      obtain ⟨hlen, hdot⟩ := hway.names w List.mem_cons_self
      obtain ⟨addr', heap', hroom', hfit'⟩ := hfit
      obtain ⟨-, rfl⟩ := Prod.mk.inj (Option.some.inj (hroom'.symm.trans hroom))
      have hadd := Addable.mk hnode (hway.dirs [] node List.nil_prefix rfl) hname hfresh
      have hok' : TreeOk (fs.tree.addNode w .dir (some node)) := hadd.treeOk hok
      have hedits := (edited_of_ensures hrest hok' (Nat.lt_succ_self _) (by rw [node_addNode_new])).1
      rw [stepAll_cons, stepTo_plain hlen hdot,
        hedits.find hok' (Nat.lt_succ_of_lt hnode) (hadd.find hok)]
      exact ih hok' (Nat.lt_succ_self _) (Nat.lt_of_succ_lt_succ hfuel) hfit'
        (freeWay_new fun v hv => hway.names v (List.mem_cons_of_mem w hv))

theorem freeWay_of_ensures {r : Bool × Fs} (h : Ensures fuel fs node ws r) (hok : TreeOk fs.tree)
    (hnode : node < fs.tree.count) (hdir : (fs.tree.node node).type = .dir)
    (hplain : ∀ w ∈ ws, ¬Dot w) (hdone : r.1 = true) : FreeWay fs.tree node ws := by
  induction h with
  | spent => cases hdone
  | done =>
      refine ⟨fun w hw => absurd hw List.not_mem_nil, fun vs c hvs hsteps => ?_⟩
      obtain rfl := List.prefix_nil.mp hvs
      rw [← Option.some.inj hsteps]
      exact hdir
  | long hlong => cases hdone
  | full hnone => cases hdone
  | file hfind hfile => cases hdone
  | found hname hfind hchildDir hrest ih =>
      have hway := ih hok (hok.find_lt hnode hfind).1 hchildDir
        (fun v hv => hplain v (List.mem_cons_of_mem _ hv)) hdone
      apply freeWay_cons hdir hname.short (hplain _ List.mem_cons_self) hway.names
      intro c hc
      rw [← Option.some.inj (hfind.symm.trans hc)]
      exact hway
  | made hname hfresh hroom hrest ih =>
      have hadd := Addable.mk hnode hdir hname hfresh
      have hway := ih (hadd.treeOk hok) (Nat.lt_succ_self _) (by rw [node_addNode_new])
        (fun v hv => hplain v (List.mem_cons_of_mem _ hv)) hdone
      apply freeWay_cons hdir hname.short (hplain _ List.mem_cons_self) hway.names
      intro c hc
      rw [hfresh] at hc
      cases hc

/-! ## Both calls -/

def StatsDir (mach : Machine) (fs : Fs) (cwd : Nat) (path : CStr) : Prop :=
  ∃ stat fs', vfsStat mach fs cwd path = some ((true, stat), fs') ∧ stat.stMode = modeDir

/-- `vfs_change_dir` succeeds where `vfs_stat` reports a directory, and otherwise leaves the tree;
the working directory of the caller is written in the first case only. -/
structure CdAgrees (mach : Machine) (fs : Fs) (cwd : Nat) (path : CStr) : Prop where
  answers : (∃ n fs', vfsChangeDir mach fs cwd path = some (some n, fs')) ↔
    StatsDir mach fs cwd path
  keeps : ∀ fs', vfsChangeDir mach fs cwd path = some (none, fs') → fs'.tree = fs.tree

def LeadsToDir (t : VfsTree) (cwd : Nat) (path : CStr) : Prop :=
  ∃ n, vfsResolveFrom t cwd path = some n ∧ (t.node n).type = .dir

/-- A directory on the CD has a free way in the tree; and where the CD has no directory at a path
of the mount the tree has none either. -/
def Shadowable (mach : Machine) (fs : Fs) (cwd : Nat) (path : CStr) : Prop :=
  ∀ subpath, vfsMountSubpath (vfsCheckPath fs.tree cwd path) = some subpath →
    (fsPathIsDirFromMount mach fs.mounts cdromMount subpath = some true →
      FreeWay fs.tree vfsRoot (words (vfsCheckPath fs.tree cwd path))) ∧
    (fsPathIsDirFromMount mach fs.mounts cdromMount subpath = some false →
      ¬LeadsToDir fs.tree cwd path)

theorem changeDir_inTree (hne : path ≠ [])
    (honmount : ∀ subpath, vfsMountSubpath (vfsCheckPath fs.tree cwd path) = some subpath →
      fsPathIsDirFromMount mach fs.mounts cdromMount subpath = some false) :
    vfsChangeDir mach fs cwd path =
      some ((vfsResolveFrom fs.tree cwd path).bind fun n =>
        if (fs.tree.node n).type = .dir then some n else none, fs) := by
  unfold vfsChangeDir
  dsimp only
  rw [if_neg hne]
  cases hsub : vfsMountSubpath (vfsCheckPath fs.tree cwd path) with
  | none =>
      dsimp only
      cases vfsResolveFrom fs.tree cwd path <;> rfl
  | some subpath =>
      dsimp only
      rw [honmount subpath hsub]
      dsimp only
      cases vfsResolveFrom fs.tree cwd path <;> rfl

theorem changeDir_succeeds_inTree (hne : path ≠ [])
    (honmount : ∀ subpath, vfsMountSubpath (vfsCheckPath fs.tree cwd path) = some subpath →
      fsPathIsDirFromMount mach fs.mounts cdromMount subpath = some false) :
    (∃ n fs', vfsChangeDir mach fs cwd path = some (some n, fs')) ↔ LeadsToDir fs.tree cwd path := by
  rw [changeDir_inTree hne honmount]
  unfold LeadsToDir
  constructor
  · rintro ⟨n, fs', heq⟩
    obtain ⟨m, hres, hdir⟩ := Option.bind_eq_some_iff.mp (Prod.mk.inj (Option.some.inj heq)).1
    obtain ⟨htype, -⟩ := Option.ite_none_right_eq_some.mp hdir
    exact ⟨m, hres, htype⟩
  · rintro ⟨n, hres, htype⟩
    refine ⟨n, fs, ?_⟩
    rw [hres, Option.bind_some, if_pos htype]

theorem statsDir_inTree (hne : path ≠ [])
    (hoff : vfsMountSubpath (vfsCheckPath fs.tree cwd path) = none) :
    StatsDir mach fs cwd path ↔ LeadsToDir fs.tree cwd path := by
  unfold StatsDir LeadsToDir vfsStat
  rw [if_neg hne, hoff]
  dsimp only
  cases vfsResolveFrom fs.tree cwd path with
  | none => simp
  | some n =>
      have hmode : ¬modeFile = modeDir := by decide
      by_cases htype : (fs.tree.node n).type = .dir
      · simp [htype]
      · simp [htype, hmode]

theorem statsDir_onMount (hne : path ≠ []) {subpath : CStr}
    (hon : vfsMountSubpath (vfsCheckPath fs.tree cwd path) = some subpath) :
    StatsDir mach fs cwd path ↔
      fsPathIsDirFromMount mach fs.mounts cdromMount subpath = some true := by
  unfold StatsDir vfsStat
  rw [if_neg hne, hon]
  dsimp only
  cases fsPathIsDirFromMount mach fs.mounts cdromMount subpath with
  | none => simp
  | some isDir =>
      cases isDir with
      | true => simp
      | false =>
          have hmode : ¬modeFile = modeDir := by decide
          refine iff_of_false ?_ (by simp)
          rintro ⟨stat, fs', hread, hdir⟩
          obtain ⟨⟨data, heap⟩, -, hpair⟩ := Option.map_eq_some_iff.mp hread
          cases data with
          | none => cases hpair
          | some bs =>
              cases hpair
              exact hmode hdir

/-! ## On the CD -/

theorem changeDir_onMount (hne : path ≠ []) {subpath : CStr}
    (hon : vfsMountSubpath (vfsCheckPath fs.tree cwd path) = some subpath)
    (hdir : fsPathIsDirFromMount mach fs.mounts cdromMount subpath = some true) :
    vfsChangeDir mach fs cwd path =
      some (if (vfsEnsureDirAbs fs (vfsCheckPath fs.tree cwd path)).1 = true then
          (vfsResolve (vfsEnsureDirAbs fs (vfsCheckPath fs.tree cwd path)).2.tree
            (vfsCheckPath fs.tree cwd path)).bind fun n =>
              if ((vfsEnsureDirAbs fs (vfsCheckPath fs.tree cwd path)).2.tree.node n).type = .dir
              then some n else none
        else none, (vfsEnsureDirAbs fs (vfsCheckPath fs.tree cwd path)).2) := by
  unfold vfsChangeDir
  dsimp only
  rw [if_neg hne, hon]
  dsimp only
  rw [hdir]
  dsimp only
  cases vfsEnsureDirAbs fs (vfsCheckPath fs.tree cwd path) with
  | mk ok fs₁ =>
      cases ok with
      | false => rfl
      | true =>
          dsimp only
          cases vfsResolve fs₁.tree (vfsCheckPath fs.tree cwd path) <;> rfl

theorem changeDir_onDisc (hok : TreeOk fs.tree) (hne : path ≠ []) {subpath : CStr}
    (hon : vfsMountSubpath (vfsCheckPath fs.tree cwd path) = some subpath)
    (hdir : fsPathIsDirFromMount mach fs.mounts cdromMount subpath = some true)
    (hfit : NodesFit (words (vfsCheckPath fs.tree cwd path)).length fs.heap)
    (hway : FreeWay fs.tree vfsRoot (words (vfsCheckPath fs.tree cwd path))) :
    ∃ n fs', vfsChangeDir mach fs cwd path = some (some n, fs') := by
  have hhead := head_of_subpath hon
  rw [changeDir_onMount hne hon hdir]
  generalize vfsCheckPath fs.tree cwd path = check at *
  have hle : (words check).length ≤ check.length := length_components_le check
  obtain ⟨hensured, c, hsteps, htype⟩ := done_of_ensures (vfsEnsureDirAbs_ensures hhead) hok
    hok.root_lt (Nat.lt_succ_of_le hle) hfit hway
  have hres : vfsResolve (vfsEnsureDirAbs fs check).2.tree check = some c := by
    unfold vfsResolve
    rw [vfsResolveFrom_eq]
    unfold startOf
    rw [if_pos hhead]
    exact hsteps
  refine ⟨c, (vfsEnsureDirAbs fs check).2, ?_⟩
  rw [if_pos hensured, hres, Option.bind_some, if_pos htype]

theorem freeWay_of_changeDir (hok : TreeOk fs.tree) (hne : path ≠ []) {subpath : CStr}
    (hon : vfsMountSubpath (vfsCheckPath fs.tree cwd path) = some subpath)
    (hdir : fsPathIsDirFromMount mach fs.mounts cdromMount subpath = some true)
    (hplain : ∀ w ∈ words (vfsCheckPath fs.tree cwd path), ¬Dot w)
    (hdone : ∃ n fs', vfsChangeDir mach fs cwd path = some (some n, fs')) :
    FreeWay fs.tree vfsRoot (words (vfsCheckPath fs.tree cwd path)) := by
  have hhead := head_of_subpath hon
  rw [changeDir_onMount hne hon hdir] at hdone
  generalize vfsCheckPath fs.tree cwd path = check at *
  obtain ⟨n, fs', heq⟩ := hdone
  have hres := (Prod.mk.inj (Option.some.inj heq)).1
  obtain ⟨hensured, -⟩ := Option.ite_none_right_eq_some.mp hres
  exact freeWay_of_ensures (vfsEnsureDirAbs_ensures hhead) hok hok.root_lt hok.rootDir hplain hensured

/-- A directory on the CD whose path has a component `.` or `..`. -/
def DotOnDisc (mach : Machine) (fs : Fs) (cwd : Nat) (path : CStr) : Prop :=
  Shadowed mach fs (vfsCheckPath fs.tree cwd path) ∧
    ∃ w ∈ words (vfsCheckPath fs.tree cwd path), Dot w

theorem cdAgrees_of_shadowable (hok : TreeOk fs.tree) (hne : path ≠ [])
    (hfit : NodesFit (words (vfsCheckPath fs.tree cwd path)).length fs.heap)
    (h : Shadowable mach fs cwd path) : CdAgrees mach fs cwd path := by
  have hinTree : ∀ subpath, vfsMountSubpath (vfsCheckPath fs.tree cwd path) = some subpath →
      fsPathIsDirFromMount mach fs.mounts cdromMount subpath = some false →
      CdAgrees mach fs cwd path := by
    intro subpath hon hfalse
    have hback : ∀ sub, vfsMountSubpath (vfsCheckPath fs.tree cwd path) = some sub →
        fsPathIsDirFromMount mach fs.mounts cdromMount sub = some false := by
      intro sub hsub
      rw [← Option.some.inj (hon.symm.trans hsub)]
      exact hfalse
    constructor
    · rw [changeDir_succeeds_inTree hne hback, statsDir_onMount hne hon, hfalse]
      exact iff_of_false ((h subpath hon).2 hfalse) (by decide)
    · intro fs' hnone
      rw [changeDir_inTree hne hback] at hnone
      rw [← (Prod.mk.inj (Option.some.inj hnone)).2]
  cases hon : vfsMountSubpath (vfsCheckPath fs.tree cwd path) with
  | none =>
      have hoff : ∀ sub, vfsMountSubpath (vfsCheckPath fs.tree cwd path) = some sub →
          fsPathIsDirFromMount mach fs.mounts cdromMount sub = some false := by
        intro sub hsub
        rw [hon] at hsub
        cases hsub
      constructor
      · rw [changeDir_succeeds_inTree hne hoff, statsDir_inTree hne hon]
      · intro fs' hnone
        rw [changeDir_inTree hne hoff] at hnone
        rw [← (Prod.mk.inj (Option.some.inj hnone)).2]
  | some subpath =>
      cases hdir : fsPathIsDirFromMount mach fs.mounts cdromMount subpath with
      | none =>
          have hnever : vfsChangeDir mach fs cwd path = none := by
            unfold vfsChangeDir
            dsimp only
            rw [if_neg hne, hon]
            dsimp only
            rw [hdir]
          constructor
          · rw [statsDir_onMount hne hon, hdir, hnever]
            simp
          · intro fs' hnone
            rw [hnever] at hnone
            cases hnone
      | some isDir =>
          cases isDir with
          | false => exact hinTree subpath hon hdir
          | true =>
              obtain ⟨n, fs', hdone⟩ := changeDir_onDisc hok hne hon hdir hfit ((h subpath hon).1 hdir)
              constructor
              · rw [statsDir_onMount hne hon]
                exact iff_of_true ⟨n, fs', hdone⟩ hdir
              · intro fs₁ hnone
                rw [hdone] at hnone
                cases hnone

theorem shadowable_of_cdAgrees (hok : TreeOk fs.tree) (hne : path ≠ [])
    (h : CdAgrees mach fs cwd path) :
    Shadowable mach fs cwd path ∨ DotOnDisc mach fs cwd path := by
  by_cases hdot : DotOnDisc mach fs cwd path
  · exact Or.inr hdot
  refine Or.inl fun subpath hon => ⟨fun hdir => ?_, fun hdir hleads => ?_⟩
  · have hdone := h.answers.mpr ((statsDir_onMount hne hon).mpr hdir)
    refine freeWay_of_changeDir hok hne hon hdir (fun w hw hword => ?_) hdone
    exact hdot ⟨⟨subpath, hon, hdir⟩, w, hw, hword⟩
  · have hback : ∀ sub, vfsMountSubpath (vfsCheckPath fs.tree cwd path) = some sub →
        fsPathIsDirFromMount mach fs.mounts cdromMount sub = some false := by
      intro sub hsub
      rw [← Option.some.inj (hon.symm.trans hsub)]
      exact hdir
    have hstat := h.answers.mp ((changeDir_succeeds_inTree hne hback).mpr hleads)
    rw [statsDir_onMount hne hon, hdir] at hstat
    cases hstat

/-- The two calls agree where a shadow can be made for a directory on the CD, and only there but
for a CD that has entries named `.` or `..`. -/
theorem cdAgrees_iff (hinit : vfsInit mounts heap = some fs₀)
    (hrun : Runs.run (treeStep mach) fs₀ es = some fs) (hne : path ≠ [])
    (hfit : NodesFit (words (vfsCheckPath fs.tree cwd path)).length fs.heap) :
    (Shadowable mach fs cwd path → CdAgrees mach fs cwd path) ∧
      (CdAgrees mach fs cwd path →
        Shadowable mach fs cwd path ∨ DotOnDisc mach fs cwd path) := by
  have hok := treeOk_run hinit hrun
  exact ⟨cdAgrees_of_shadowable hok hne hfit, shadowable_of_cdAgrees hok hne⟩

theorem nodesFit_three {heap : Heap}
    (h : ((kcalloc heap vfsNodeSize).bind fun r => (kcalloc r.2 vfsNodeSize).bind fun r' =>
      kcalloc r'.2 vfsNodeSize).isSome) : NodesFit 3 heap := by
  obtain ⟨⟨addr₃, heap₃⟩, h⟩ := Option.isSome_iff_exists.mp h
  obtain ⟨⟨addr₁, heap₁⟩, h₁, h⟩ := Option.bind_eq_some_iff.mp h
  obtain ⟨⟨addr₂, heap₂⟩, h₂, h₃⟩ := Option.bind_eq_some_iff.mp h
  exact ⟨addr₁, heap₁, h₁, addr₂, heap₂, h₂, addr₃, heap₃, h₃, trivial⟩

/-- Into the root of an empty CD. -/
theorem cdAgrees_demo : ∃ fs, vfsInit (fsInit (some 0)) plainHeap = some fs ∧
    CdAgrees discMach fs vfsRoot cdromMount := by
  have hview : (vfsInit (fsInit (some 0)) plainHeap).map (fun fs =>
      ((vfsChangeDir discMach fs vfsRoot cdromMount).map fun r => r.1.isSome,
        fsPathIsDirFromMount discMach fs.mounts cdromMount (cstr "/"),
        ((kcalloc fs.heap vfsNodeSize).bind fun r => (kcalloc r.2 vfsNodeSize).bind fun r' =>
          kcalloc r'.2 vfsNodeSize).isSome)) = some (some true, some true, true) := by
    decide +kernel
  obtain ⟨fs, hinit, hview⟩ := Option.map_eq_some_iff.mp hview
  simp only [Prod.mk.injEq] at hview
  obtain ⟨hchange, hdir, hfit⟩ := hview
  have hrun : Runs.run (treeStep discMach) fs [] = some fs := rfl
  have hok := treeOk_run hinit hrun
  have hcheck : vfsCheckPath fs.tree vfsRoot cdromMount = cdromMount := if_pos (by decide)
  have hon : vfsMountSubpath (vfsCheckPath fs.tree vfsRoot cdromMount) = some (cstr "/") := by
    rw [hcheck]
    decide
  have hdone : ∃ n fs', vfsChangeDir discMach fs vfsRoot cdromMount = some (some n, fs') := by
    obtain ⟨⟨r, fs'⟩, heq, hsome⟩ := Option.map_eq_some_iff.mp hchange
    obtain ⟨n, hn⟩ := Option.isSome_iff_exists.mp hsome
    exact ⟨n, fs', heq.trans (congrArg (fun r => some (r, fs')) hn)⟩
  have hplain : ∀ w ∈ words (vfsCheckPath fs.tree vfsRoot cdromMount), ¬Dot w := by
    rw [hcheck]
    decide
  have hroom : NodesFit (words (vfsCheckPath fs.tree vfsRoot cdromMount)).length fs.heap := by
    rw [hcheck]
    exact (nodesFit_three hfit).pred
  have hway := freeWay_of_changeDir hok (by decide) hon hdir hplain hdone
  refine ⟨fs, hinit, (cdAgrees_iff hinit hrun (by decide) hroom).1 fun subpath hsub => ?_⟩
  obtain rfl : subpath = cstr "/" := Option.some.inj (hsub.symm.trans hon)
  refine ⟨fun _ => hway, fun hfalse => ?_⟩
  rw [hdir] at hfalse
  cases hfalse

/-- A CD with one directory, whose name has 32 letters. -/
def longSector (lba : U32) : Option Bytes :=
  if lba = 18 then some (dirRecord (List.replicate 32 (chr 'A')) 19 2048 2) else demoSector lba

def longMach : Machine :=
  { plainMach with storageRead := fun _ lba => (longSector lba).map fun bytes i => bytes.getD i 0 }

def longDir : CStr := cstr "/mount/cdrom/" ++ List.replicate 32 (chr 'a')

/-- `vfs_stat` finds it, `vfs_change_dir` fails and leaves a node for the mount. -/
theorem not_cdAgrees_long : ¬∀ mach mounts heap fs₀ es fs cwd path,
    vfsInit mounts heap = some fs₀ → Runs.run (treeStep mach) fs₀ es = some fs →
      cwd < fs.tree.count → path ≠ [] →
        NodesFit (words (vfsCheckPath fs.tree cwd path)).length fs.heap →
          CdAgrees mach fs cwd path := by
  intro hclaim
  have hview : (vfsInit (fsInit (some 0)) plainHeap).map (fun fs =>
      ((vfsChangeDir longMach fs vfsRoot longDir).map fun r => (r.1.isSome, r.2.tree.count),
        fs.tree.count, ((kcalloc fs.heap vfsNodeSize).bind fun r =>
          (kcalloc r.2 vfsNodeSize).bind fun r' => kcalloc r'.2 vfsNodeSize).isSome)) =
      some (some (false, 7), 6, true) := by
    decide +kernel
  obtain ⟨fs, hinit, hview⟩ := Option.map_eq_some_iff.mp hview
  simp only [Prod.mk.injEq] at hview
  obtain ⟨hchange, hcount, hfit⟩ := hview
  obtain ⟨⟨r, fs'⟩, heq, hpair⟩ := Option.map_eq_some_iff.mp hchange
  simp only [Prod.mk.injEq, Option.isSome_eq_false_iff, Option.isNone_iff_eq_none] at hpair
  obtain ⟨rfl, hcount'⟩ := hpair
  have hcheck : vfsCheckPath fs.tree vfsRoot longDir = longDir := if_pos (by decide)
  have hroom : NodesFit (words (vfsCheckPath fs.tree vfsRoot longDir)).length fs.heap := by
    rw [hcheck]
    exact nodesFit_three hfit
  have hroot : vfsRoot < fs.tree.count := by
    rw [hcount]
    decide
  have hagrees := hclaim longMach _ _ fs [] fs vfsRoot longDir hinit rfl hroot (by decide) hroom
  have hsame := hagrees.keeps fs' heq
  rw [hsame, hcount] at hcount'
  cases hcount'

end SlopOS.Proofs.ChangingDirs
