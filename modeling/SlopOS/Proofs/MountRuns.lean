import SlopOS.Proofs.DiscDirs
import SlopOS.Proofs.TreeRuns
/-!
# The mount in the tree

The parts of the tree at `/bin` and `/mount/cdrom` are shadows of directories
on the CD that `vfs_change_dir` made, as long as the test on the text of a path
recognises every path that leads there.
-/

namespace SlopOS.Proofs.MountRuns

open SlopOS.Support SlopOS.Support.PathText SlopOS.Kernel
open SlopOS.Proofs.DiscScan SlopOS.Proofs.DiscPaths SlopOS.Proofs.DiscDirs
open SlopOS.Proofs.FileTree SlopOS.Proofs.FilePaths SlopOS.Proofs.FileEdits SlopOS.Proofs.TreeRuns

variable {mach : Machine} {mounts : Mounts} {heap : Heap} {fs₀ fs fs' : Fs} {es : List TreeEvent}
variable {e : TreeEvent} {t u : VfsTree} {n c cwd : Nat} {name path subpath : CStr}
variable {ws vs : List CStr} {read : Disc}

/-! ## Directories on the CD -/

/-- The words lead from the root directory to a directory. -/
def DirAt (read : Disc) (ws : List CStr) : Prop :=
  ∃ root volumeSectors dir, isoReadPvdRoot read = some (root, volumeSectors) ∧
    isoExtentValid root.extentLba root.size volumeSectors = true ∧
      descendAll read volumeSectors ws root = some (some dir)

theorem descendAll_front {volumeSectors : U32} {cur dir : IsoDirLoc}
    (h : descendAll read volumeSectors (vs ++ ws) cur = some (some dir)) :
    ∃ parent, descendAll read volumeSectors vs cur = some (some parent) := by
  induction vs generalizing cur with
  | nil => exact ⟨cur, rfl⟩
  | cons v vs ih =>
      rw [List.cons_append, descendAll] at h
      rw [descendAll]
      split at h
      · cases h
      · cases h
      · exact ih h

theorem DirAt.prefix (h : DirAt read ws) (hpre : vs <+: ws) : DirAt read vs := by
  obtain ⟨us, rfl⟩ := hpre
  obtain ⟨root, volumeSectors, dir, hroot, hvalid, hdir⟩ := h
  obtain ⟨parent, hparent⟩ := descendAll_front hdir
  exact ⟨root, volumeSectors, parent, hroot, hvalid, hparent⟩

theorem pathIsDir_iff : isoOpsPathIsDir read path = some true ↔ DirAt read (words path) := by
  have hresolve : isoOpsPathIsDir read path = some true ↔
      ∃ dir, isoResolvePath read path = some (some (dir, true)) := by
    unfold isoOpsPathIsDir
    rw [Option.map_eq_some_iff]
    constructor
    · rintro ⟨found, hfound, hisDir⟩
      cases found with
      | none => cases hisDir
      | some r =>
          obtain ⟨dir, isDir⟩ := r
          obtain rfl : isDir = true := hisDir
          exact ⟨dir, hfound⟩
    · rintro ⟨dir, hdir⟩
      exact ⟨_, hdir, rfl⟩
  rw [hresolve]
  constructor
  · rintro ⟨dir, hdir⟩
    obtain ⟨root, volumeSectors, hpvd, hvalid, hdown⟩ := isoResolvePath_dir_iff.mp hdir
    exact ⟨root, volumeSectors, dir, hpvd, hvalid, hdown⟩
  · rintro ⟨root, volumeSectors, dir, hpvd, hvalid, hdown⟩
    exact ⟨dir, isoResolvePath_dir_iff.mpr ⟨root, volumeSectors, hpvd, hvalid, hdown⟩⟩

/-! ## Texts of places inside the mount -/

def Inside (ws : List CStr) : Prop :=
  [cstr "bin"] <+: ws ∨ [cstr "mount", cstr "cdrom"] <+: ws

instance Inside.decidable (ws : List CStr) : Decidable (Inside ws) :=
  inferInstanceAs (Decidable (_ ∨ _))

def onDisc (ws : List CStr) : List CStr :=
  if [cstr "mount", cstr "cdrom"] <+: ws then ws.drop 2 else ws

def textOf (ws : List CStr) : CStr := ws.flatMap fun w => chr '/' :: w

theorem Inside.mono (h : Inside vs) (hpre : vs <+: ws) : Inside ws :=
  h.imp (fun h => h.trans hpre) fun h => h.trans hpre

theorem onDisc_bin (ws : List CStr) : onDisc (cstr "bin" :: ws) = cstr "bin" :: ws := by
  unfold onDisc
  rw [if_neg]
  intro h
  exact absurd (List.cons_prefix_cons.mp h).1 (by decide)

theorem onDisc_cdrom (ws : List CStr) : onDisc (cstr "mount" :: cstr "cdrom" :: ws) = ws := by
  unfold onDisc
  rw [if_pos (by simp)]
  rfl

theorem inside_cases (h : Inside ws) :
    (∃ rest, ws = cstr "bin" :: rest) ∨ ∃ rest, ws = cstr "mount" :: cstr "cdrom" :: rest := by
  rcases h with ⟨rest, h⟩ | ⟨rest, h⟩
  · exact Or.inl ⟨rest, h.symm⟩
  · exact Or.inr ⟨rest, h.symm⟩

theorem onDisc_mono (h : Inside vs) (hpre : vs <+: ws) : onDisc vs <+: onDisc ws := by
  obtain ⟨us, rfl⟩ := hpre
  rcases inside_cases h with ⟨rest, rfl⟩ | ⟨rest, rfl⟩
  · rw [List.cons_append, onDisc_bin, onDisc_bin]
    exact List.prefix_append (cstr "bin" :: rest) us
  · rw [List.cons_append, List.cons_append, onDisc_cdrom, onDisc_cdrom]
    exact List.prefix_append rest us

/-- What the tests on the text recognise is inside, and the path on the CD they give fits. -/
theorem words_of_subpath (h : vfsMountSubpath path = some subpath) :
    Inside (words path) ∧ words subpath = onDisc (words path) := by
  cases vfsMountSubpath_cases h with
  | cdrom => decide
  | belowCdrom rest =>
      have hwords : words (cdromMount ++ chr '/' :: rest) =
          cstr "mount" :: cstr "cdrom" :: words (chr '/' :: rest) := by
        unfold words
        rw [components_append_sep, components_cons_sep]
        rfl
      rw [hwords, onDisc_cdrom]
      exact ⟨Or.inr (by simp), rfl⟩
  | bin => decide
  | belowBin rest =>
      have hwords : words (binAlias ++ chr '/' :: rest) = cstr "bin" :: words (chr '/' :: rest) := by
        unfold words
        rw [components_append_sep, components_cons_sep]
        rfl
      rw [hwords, onDisc_bin]
      exact ⟨Or.inl (by simp), rfl⟩

theorem words_textOf (hws : ∀ w ∈ ws, NameOk w) : words (textOf ws) = ws := by
  induction ws with
  | nil => rfl
  | cons w ws ih =>
      have hw := hws w List.mem_cons_self
      have hhead : ∀ c ∈ (textOf ws).head?, c = chr '/' := by
        cases ws with
        | nil => nofun
        | cons v ws => exact fun c hc => (Option.some.inj hc).symm
      have htext : textOf (w :: ws) = chr '/' :: (w ++ textOf ws) := rfl
      unfold words at ih ⊢
      rw [htext, components_cons_sep, components_word_append hw.nonempty hw.noSlash hhead]
      rw [ih fun v hv => hws v (List.mem_cons_of_mem w hv)]

theorem subpath_of_inside (h : Inside ws) (hws : ∀ w ∈ ws, NameOk w) :
    ∃ subpath, vfsMountSubpath (textOf ws) = some subpath ∧ words subpath = onDisc ws := by
  have hsome : (vfsMountSubpath (textOf ws)).isSome := by
    rcases inside_cases h with ⟨rest, rfl⟩ | ⟨rest, rfl⟩
    · cases rest with
      | nil => decide
      | cons w rest => rfl
    · cases rest with
      | nil => decide
      | cons w rest => rfl
  obtain ⟨subpath, hsub⟩ := Option.isSome_iff_exists.mp hsome
  refine ⟨subpath, hsub, ?_⟩
  rw [(words_of_subpath hsub).2, words_textOf hws]

/-- The CD has a directory where the path points to. -/
def Shadow (mach : Machine) (mounts : Mounts) (ws : List CStr) : Prop :=
  ∃ subpath, vfsMountSubpath (textOf ws) = some subpath ∧
    fsPathIsDirFromMount mach mounts cdromMount subpath = some true

theorem shadow_of_shadowed (h : Shadowed mach fs path) (hpre : ws <+: words path)
    (hin : Inside ws) (hws : ∀ w ∈ ws, NameOk w) : Shadow mach fs.mounts ws := by
  obtain ⟨subpath, hsub, hdir⟩ := h
  obtain ⟨subpath', hsub', hwords⟩ := subpath_of_inside hin hws
  refine ⟨subpath', hsub', ?_⟩
  unfold fsPathIsDirFromMount at hdir ⊢
  split at hdir
  · cases hdir
  · have hat := pathIsDir_iff.mp hdir
    rw [(words_of_subpath hsub).2] at hat
    apply pathIsDir_iff.mpr
    rw [hwords]
    exact hat.prefix (onDisc_mono hin hpre)

/-! ## A run -/

/-- The nodes that a step of `vfs_change_dir` makes. -/
def made (mach : Machine) (fs : Fs) : TreeEvent → List Nat
  | .changeDir cwd path =>
    match treeStep mach fs (.changeDir cwd path) with
    | some fs' => List.range' fs.tree.count (fs'.tree.count - fs.tree.count)
    | none => []
  | _ => []

/-- The path leads to a free place inside the mount, and its text does not show it. -/
def Missed (fs : Fs) (cwd : Nat) (path : CStr) : Prop := ∃ ws, Targeted fs cwd path ws ∧ Inside ws

def NoneMissed (fs : Fs) : TreeEvent → Prop
  | .makeDir cwd path => ¬Missed fs cwd path
  | .touch cwd path => ¬Missed fs cwd path
  | .writeFile cwd path _ _ => ¬Missed fs cwd path
  | _ => True

/-- If the call with result `r` succeeds, neither the place it is about nor the node that its path
leads to is inside the mount. -/
def Outside (fs : Fs) (cwd : Nat) (path : CStr) (r : Bool × Fs) : Prop :=
  r.1 = true →
    (∃ parent name, vfsParentDir fs.tree cwd path = some (parent, name) ∧
      ¬Inside (pathOf fs.tree parent ++ [name])) ∧
    ∀ n, vfsResolveFrom r.2.tree cwd path = some n → ¬Inside (pathOf r.2.tree n)

def CallOutside (fs : Fs) : TreeEvent → Prop
  | .makeDir cwd path => cwd < fs.tree.count → Outside fs cwd path (vfsMakeDir fs cwd path)
  | .touch cwd path => cwd < fs.tree.count → Outside fs cwd path (vfsTouch fs cwd path)
  | .writeFile cwd path data size =>
    cwd < fs.tree.count → Outside fs cwd path (vfsWriteFile fs cwd path data size)
  | _ => True

/-- Node `n` lies in the subtree at `/bin` or in the one at `/mount/cdrom`. -/
def InMount (t : VfsTree) (n : Nat) : Prop :=
  n < t.count ∧ ∃ r, (vfsResolve t binAlias = some r ∨ vfsResolve t cdromMount = some r) ∧ Under t r n

structure MountKept (mach : Machine) (fs₀ : Fs) (es : List TreeEvent) (fs : Fs) : Prop where
  noFile : ∀ n, InMount fs.tree n → (fs.tree.node n).type = .dir
  shadows : ∀ n, InMount fs.tree n →
    n ∈ Runs.observe (treeStep mach) (made mach) fs₀ es ∧
      Shadow mach fs.mounts (pathOf fs.tree n)
  outside : Runs.AllSteps (treeStep mach) CallOutside fs₀ es

/-- The invariant, with the nodes that `vfs_change_dir` has made so far. -/
structure Shielded (mach : Machine) (fs : Fs) (log : List Nat) : Prop where
  tree : TreeOk fs.tree
  inside : ∀ n < fs.tree.count, Inside (pathOf fs.tree n) →
    (fs.tree.node n).type = .dir ∧ n ∈ log ∧ Shadow mach fs.mounts (pathOf fs.tree n)

theorem shielded_init (h : vfsInit mounts heap = some fs) : Shielded mach fs [] := by
  have hroot : TreeOk (emptyTree.addNode [] .dir none) := treeOk_root []
  obtain ⟨hedits, -⟩ := vfsInit_edits h
  refine ⟨hedits.treeOk hroot, fun n hn hin => ?_⟩
  exfalso
  by_cases hold : n < (emptyTree.addNode [] .dir none).count
  · have hzero : n = vfsRoot := Nat.lt_one_iff.mp hold
    rw [hzero, (hedits.treeOk hroot).pathOf_root] at hin
    revert hin
    decide
  · have hmem : pathOf fs.tree n ∈ startPaths := hedits.added hroot (Nat.not_lt.mp hold) hn
    have hall : ∀ ws ∈ startPaths, ¬Inside ws := by decide
    exact hall _ hmem hin

theorem shielded_step {log : List Nat} (hno : NoneMissed fs e) (hfs : Shielded mach fs log)
    (h : treeStep mach fs e = some fs') : Shielded mach fs' (log ++ made mach fs e) := by
  obtain ⟨hedits, hmounts⟩ := treeStep_edits hfs.tree h
  have hok := hedits.treeOk hfs.tree
  refine ⟨hok, fun n hn hin => ?_⟩
  rw [hmounts]
  by_cases hold : n < fs.tree.count
  · obtain ⟨-, htype, -, hpath⟩ := hedits.old hfs.tree hold
    rw [hpath] at hin ⊢
    rw [htype]
    obtain ⟨hdir, hlog, hshadow⟩ := hfs.inside n hold hin
    exact ⟨hdir, List.mem_append_left _ hlog, hshadow⟩
  · have hadded := hedits.added hfs.tree (Nat.not_lt.mp hold) hn
    cases e with
    | changeDir cwd path =>
        obtain ⟨hdir, hat⟩ := hadded
        refine ⟨hdir, List.mem_append_right _ ?_, ?_⟩
        · unfold made
          dsimp only
          rw [h]
          dsimp only
          rw [List.mem_range'_1]
          omega
        · exact shadow_of_shadowed hat.shadowed hat.words hin (hok.nameOk_of_mem_pathOf hn)
    | makeDir cwd path => exact absurd ⟨_, hadded.2, hin⟩ hno
    | touch cwd path => exact absurd ⟨_, hadded, hin⟩ hno
    | writeFile cwd path data size => exact absurd ⟨_, hadded, hin⟩ hno
    | useHeap size => exact hadded.elim

theorem resolve_outside {new : List CStr → VfsNodeType → Prop} {fill : VfsTree → Nat → Prop}
    {parent : Nat} (htarget : Target t cwd path parent name) (hedits : Edited new fill t u)
    (hok : TreeOk t) (hcwd : cwd < t.count) (hout : ¬Inside (pathOf t parent ++ [name]))
    (hres : vfsResolveFrom u cwd path = some n) : ¬Inside (pathOf u n) := by
  have hu := hedits.treeOk hok
  have hcwd' : cwd < u.count := Nat.lt_of_lt_of_le hcwd hedits.count_le
  have hlt := Target.parent_lt htarget hok hcwd
  have hpath : pathOf u parent = pathOf t parent := (hedits.old hok hlt).2.2.2
  by_cases hdot : Dot path
  · have hname := Target.name_of_dot htarget hdot
    rw [hname] at htarget hout
    obtain ⟨-, hparent⟩ := Target.dot htarget hdot
    rw [← hpath, hparent] at hout
    -- `.` is the working directory and `..` the directory above it
    have hpre : pathOf u n <+: pathOf u cwd := by
      rw [vfsResolveFrom_eq] at hres
      rcases hdot with rfl | rfl
      · have hn : some cwd = some n := hres
        exact Option.some.inj hn ▸ List.prefix_refl _
      · have hn : some ((u.node cwd).parent.getD cwd) = some n := hres
        rw [← Option.some.inj hn]
        cases hup : (u.node cwd).parent with
        | none => exact List.prefix_refl _
        | some p =>
            rw [hu.pathOf_child hcwd' hup]
            exact List.prefix_append _ _
    exact fun hin => hout (hin.mono (hpre.trans (List.prefix_append _ _)))
  · have hstart := TreeOk.startOf_lt hok hcwd path
    rcases Target.resolve htarget (fun _ _ => hedits.stepAll hok hstart)
        (fun h => hdot (Or.inl h)) (fun h => hdot (Or.inr h)) with heq | ⟨-, -, hnone⟩
    · rw [heq] at hres
      obtain ⟨hn, hparent, -, hname⟩ :=
        hu.find_lt (Nat.lt_of_lt_of_le hlt hedits.count_le) hres
      rw [hu.pathOf_child hn hparent, hname, hpath]
      exact hout
    · rw [hnone] at hres
      cases hres

/-- A file that a call has found or made is not inside, since there are no files there. -/
theorem outside_of_fileAt {new : List CStr → VfsNodeType → Prop} {fill : VfsTree → Nat → Prop}
    {parent : Nat} {log : List Nat} (hat : FileAt fs.tree cwd path fs'.tree parent name c)
    (hedits : Edited new fill fs.tree fs'.tree) (hok : TreeOk fs.tree) (hcwd : cwd < fs.tree.count)
    (hfs' : Shielded mach fs' log) : Outside fs cwd path (true, fs') := by
  have hlt : parent < fs'.tree.count := Nat.lt_of_lt_of_le hat.parent_lt hedits.count_le
  have hout : ¬Inside (pathOf fs.tree parent ++ [name]) := by
    intro hin
    obtain ⟨hc, hparent, -, hname⟩ := hfs'.tree.find_lt hlt hat.find
    have hpath : pathOf fs'.tree c = pathOf fs.tree parent ++ [name] := by
      rw [hfs'.tree.pathOf_child hc hparent, hname, (hedits.old hok hat.parent_lt).2.2.2]
    have hdir := (hfs'.inside c hc (by rw [hpath]; exact hin)).1
    rw [hat.isFile] at hdir
    cases hdir
  intro _
  refine ⟨⟨parent, name, hat.target.parentDir, hout⟩, fun n hres => ?_⟩
  exact resolve_outside hat.target hedits hok hcwd hout hres

theorem callOutside_step {log : List Nat} (hno : NoneMissed fs e) (hfs : Shielded mach fs log) :
    CallOutside fs e := by
  cases e with
  | changeDir cwd path => trivial
  | useHeap size => trivial
  | makeDir cwd path =>
      intro hcwd htrue
      obtain ⟨hedits, -, hsome⟩ := vfsMakeDir_edits hfs.tree hcwd path
      obtain ⟨ws, htargeted⟩ := hsome htrue
      have hout : ¬Inside ws := fun hin => hno ⟨ws, htargeted, hin⟩
      obtain ⟨parent, name, htarget, -, -, -, rfl⟩ := htargeted
      refine ⟨⟨parent, name, htarget.parentDir, hout⟩, fun n hres => ?_⟩
      exact resolve_outside htarget hedits hfs.tree hcwd hout hres
  | touch cwd path =>
      intro hcwd htrue
      obtain ⟨hedits, -, hsome⟩ := vfsTouch_edits hfs.tree hcwd path
      obtain ⟨parent, name, c, hat⟩ := hsome htrue
      have hstep : treeStep mach fs (.touch cwd path) = some (vfsTouch fs cwd path).2 := if_pos hcwd
      exact outside_of_fileAt hat hedits hfs.tree hcwd (shielded_step hno hfs hstep) rfl
  | writeFile cwd path data size =>
      intro hcwd htrue
      obtain ⟨hedits, -, hsome⟩ := vfsWriteFile_edits hfs.tree hcwd path data size
      obtain ⟨parent, name, c, hat⟩ := hsome htrue
      have hstep : treeStep mach fs (.writeFile cwd path data size) =
          some (vfsWriteFile fs cwd path data size).2 := if_pos hcwd
      exact outside_of_fileAt hat hedits hfs.tree hcwd (shielded_step hno hfs hstep) rfl

theorem InMount.inside (h : InMount t n) (hok : TreeOk t) : Inside (pathOf t n) := by
  obtain ⟨hn, r, hr, hunder⟩ := h
  have hpre := hunder.pathOf_prefix hok hn
  have hroot : ∀ path : CStr, path.head? = some (chr '/') →
      (∀ w ∈ words path, w ≠ cstr "." ∧ w ≠ cstr "..") → vfsResolve t path = some r →
        pathOf t r = words path := by
    intro path habs hplain hres
    unfold vfsResolve at hres
    rw [vfsResolveFrom_eq] at hres
    unfold startOf at hres
    rw [if_pos habs] at hres
    rw [TreeOk.pathOf_stepAll hok hok.root_lt hplain hres, hok.pathOf_root, List.nil_append]
  rcases hr with hr | hr
  · rw [hroot binAlias (by decide) (by decide) hr] at hpre
    exact Or.inl hpre
  · rw [hroot cdromMount (by decide) (by decide) hr] at hpre
    exact Or.inr hpre

/-- In the two subtrees there are only shadows of directories on the CD, as long as the test on the
text recognises every path that leads there. -/
theorem mountKept_run (hinit : vfsInit mounts heap = some fs₀)
    (hno : Runs.AllSteps (treeStep mach) NoneMissed fs₀ es)
    (hrun : Runs.run (treeStep mach) fs₀ es = some fs) : MountKept mach fs₀ es fs := by
  have hend := Runs.observe_invariant (J := Shielded mach)
    (fun _ _ _ _ hno hfs hstep => shielded_step hno hfs hstep) hno hrun (shielded_init hinit)
  rw [List.nil_append] at hend
  have hin : ∀ n, InMount fs.tree n → _ := fun n h => hend.inside n h.1 (h.inside hend.tree)
  refine ⟨fun n h => (hin n h).1, fun n h => (hin n h).2, ?_⟩
  refine Runs.AllSteps.of_invariant (I := fun fs => ∃ log, Shielded mach fs log)
    (fun s e s' hno hs hstep => ?_) (fun s e hno hs => ?_) hno ⟨[], shielded_init hinit⟩
  · obtain ⟨log, hlog⟩ := hs
    exact ⟨_, shielded_step hno hlog hstep⟩
  · obtain ⟨log, hlog⟩ := hs
    exact callOutside_step hno hlog

def discMach : Machine := { plainMach with storageRead := fun _ => blankDisc 2048 }

def demoVisit : List TreeEvent :=
  [.changeDir vfsRoot (cstr "/mount/cdrom"), .makeDir vfsRoot (cstr "/docs/a"),
    .touch vfsRoot (cstr "/bin/x")]

theorem mountKept_demo : ∃ fs₀ fs, vfsInit (fsInit (some 0)) plainHeap = some fs₀ ∧
    Runs.run (treeStep discMach) fs₀ demoVisit = some fs ∧
      vfsResolve fs.tree cdromMount = some 6 ∧ MountKept discMach fs₀ demoVisit fs := by
  have hview : (callsFrom discMach (fsInit (some 0)) plainHeap demoVisit).map
      (fun fs => vfsResolve fs.tree cdromMount) = some (some 6) := by decide +kernel
  obtain ⟨fs, hcalls, hfs⟩ := Option.map_eq_some_iff.mp hview
  obtain ⟨fs₀, hinit, hrun⟩ := Option.bind_eq_some_iff.mp hcalls
  have hgate : ∀ fs, ¬Missed fs vfsRoot (cstr "/bin/x") := by
    rintro fs ⟨ws, ⟨parent, name, htarget, -⟩, -⟩
    have hallowed := htarget.allowed
    have hsub : vfsMountSubpath (vfsCheckPath fs.tree vfsRoot (cstr "/bin/x")) =
        some (cstr "/bin/x") := rfl
    rw [hsub] at hallowed
    cases hallowed
  have hdocs : ∀ fs, TreeOk fs.tree → ¬Missed fs vfsRoot (cstr "/docs/a") := by
    rintro fs hok ⟨ws, hws, hin⟩
    rw [hws.eq_words hok (by decide) (by decide)] at hin
    revert hin
    decide
  have hshield : Shielded discMach fs₀ [] := shielded_init hinit
  have hok₀ := hshield.tree
  refine ⟨fs₀, fs, hinit, hrun, hfs, mountKept_run hinit ⟨trivial, fun fs₁ h₁ => ⟨?_, ?_⟩⟩ hrun⟩
  · exact hdocs fs₁ ((treeStep_edits hok₀ h₁).1.treeOk hok₀)
  · exact fun fs₂ _ => ⟨hgate fs₂, fun _ _ => trivial⟩

/-- With a second slash in front the text is no longer recognised: a directory and a file at
`/bin` that no CD has; and `/mount/./cdrom` is the mount as well. -/
theorem not_mountKept_slashes :
    (∃ fs₀ fs es, es = [.makeDir vfsRoot (cstr "//bin"),
        .writeFile vfsRoot (cstr "//bin/x") (fun _ => 7) 1] ∧
      vfsInit (fsInit (some 0)) plainHeap = some fs₀ ∧
      Runs.run (treeStep discMach) fs₀ es = some fs ∧ InMount fs.tree 7 ∧
        (fs.tree.node 7).type = .file ∧ ¬MountKept discMach fs₀ es fs) ∧
    ∃ fs₀ fs es, es = [.touch vfsRoot (cstr "/mount/./cdrom")] ∧
      vfsInit (fsInit (some 0)) plainHeap = some fs₀ ∧
      Runs.run (treeStep discMach) fs₀ es = some fs ∧ InMount fs.tree 6 ∧
        (fs.tree.node 6).type = .file ∧ ¬MountKept discMach fs₀ es fs := by
  have hfile : ∀ {fs₀ fs : Fs} {es : List TreeEvent} {n : Nat}, InMount fs.tree n →
      (fs.tree.node n).type = .file → ¬MountKept discMach fs₀ es fs := by
    intro fs₀ fs es n hin htype hkept
    have hdir := hkept.noFile n hin
    rw [htype] at hdir
    cases hdir
  constructor
  · have hview : (callsFrom discMach (fsInit (some 0)) plainHeap [.makeDir vfsRoot (cstr "//bin"),
        .writeFile vfsRoot (cstr "//bin/x") (fun _ => 7) 1]).map (fun fs => (fs.tree.count,
          vfsResolve fs.tree binAlias, (fs.tree.node 7).parent, (fs.tree.node 7).type)) =
        some (8, some 6, some 6, .file) := by decide +kernel
    obtain ⟨fs, hcalls, hfs⟩ := Option.map_eq_some_iff.mp hview
    obtain ⟨fs₀, hinit, hrun⟩ := Option.bind_eq_some_iff.mp hcalls
    simp only [Prod.mk.injEq] at hfs
    obtain ⟨hcount, hbin, hparent, htype⟩ := hfs
    have hin : InMount fs.tree 7 := by
      refine ⟨?_, 6, Or.inl hbin, .child .self hparent⟩
      rw [hcount]
      decide
    exact ⟨fs₀, fs, _, rfl, hinit, hrun, hin, htype, hfile hin htype⟩
  · have hview : (callsFrom discMach (fsInit (some 0)) plainHeap
        [.touch vfsRoot (cstr "/mount/./cdrom")]).map (fun fs => (fs.tree.count,
          vfsResolve fs.tree cdromMount, (fs.tree.node 6).type)) = some (7, some 6, .file) := by
      decide +kernel
    obtain ⟨fs, hcalls, hfs⟩ := Option.map_eq_some_iff.mp hview
    obtain ⟨fs₀, hinit, hrun⟩ := Option.bind_eq_some_iff.mp hcalls
    simp only [Prod.mk.injEq] at hfs
    obtain ⟨hcount, hcdrom, htype⟩ := hfs
    have hin : InMount fs.tree 6 := by
      refine ⟨?_, 6, Or.inr hcdrom, .self⟩
      rw [hcount]
      decide
    exact ⟨fs₀, fs, _, rfl, hinit, hrun, hin, htype, hfile hin htype⟩

end SlopOS.Proofs.MountRuns
