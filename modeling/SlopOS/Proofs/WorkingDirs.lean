import SlopOS.Proofs.FileSessions
import SlopOS.Proofs.FileMoves
import SlopOS.Proofs.ReachableStates
import SlopOS.Proofs.TaskRuns
/-!
# Working directories

A shell and every process it has started work in a directory of the tree.  Where the events of
the kernel only name such directories, no step takes that away, and what a step does to files
and descriptors is a run of the events of `FileSessions`.
-/

namespace SlopOS.Proofs.WorkingDirs

open SlopOS.Support SlopOS.Kernel
open SlopOS.Proofs.Tables SlopOS.Proofs.FileTree SlopOS.Proofs.FileEdits SlopOS.Proofs.TreeRuns
open SlopOS.Proofs.FileSteps SlopOS.Proofs.FileCalls SlopOS.Proofs.FileSessions
open SlopOS.Proofs.Launching SlopOS.Proofs.Moves SlopOS.Proofs.StepOutcomes SlopOS.Proofs.FileMoves
open SlopOS.Proofs.TableInvariant SlopOS.Proofs.Views SlopOS.Proofs.TaskRuns

def IsDir (t : VfsTree) (n : Nat) : Prop := n < t.count ∧ (t.node n).type = .dir

/-- The tree is one, and every process works in a directory of it. -/
structure Rooted (k : KState) : Prop where
  tree : TreeOk k.files.fs.tree
  user : ∀ n, k.files.userCwd = some n → IsDir k.files.fs.tree n
  images : ∀ p image n, procGetImage k.core.proc p = some image → image.cwd = some n →
    IsDir k.files.fs.tree n

def NamesDir (t : VfsTree) : Event → Prop
  | .launch _ _ cwd _ => IsDir t cwd
  | .resume _ cwd _ => IsDir t cwd
  | .echo cwd _ _ => IsDir t cwd
  | .cd cwd _ => IsDir t cwd
  | _ => True

variable {b : Boot} {mach : Machine} {k k' k₁ : KState} {fs fs' : Fs} {s s' : Sys} {e : Event}
variable {dir : NodeId} {path : CStr} {argv : List CStr} {ctx : ExecContext} {r : Entered}
variable {t u : VfsTree} {n : Nat} {p pid : Int}
variable {cwds : NodeId → Prop} {new : List CStr → VfsNodeType → Prop} {fill : VfsTree → Nat → Prop}

theorem isDir_root (hok : TreeOk t) : IsDir t vfsRoot := ⟨hok.pos, hok.rootDir⟩

theorem IsDir.grows (h : IsDir t n) (hok : TreeOk t) (hedits : Edited new fill t u) : IsDir u n :=
  ⟨Nat.lt_of_lt_of_le h.1 hedits.count_le, (hedits.old hok h.1).2.1.trans h.2⟩

theorem Rooted.cwd (h : Rooted k) : IsDir k.files.fs.tree k.cwd := by
  unfold KState.cwd
  cases hcwd : k.files.userCwd with
  | none => exact isDir_root h.tree
  | some n => exact h.user n hcwd

/-! ## Runs of file events -/

/-- From `k` to `k'` by events on files and descriptors. -/
def Covered (mach : Machine) (k k' : KState) : Prop :=
  ∃ es, Runs.run (fileStep mach) k es = some k'

theorem Covered.trans (h : Covered mach k k₁) (h' : Covered mach k₁ k') : Covered mach k k' := by
  obtain ⟨es, hes⟩ := h
  obtain ⟨fs, hfs⟩ := h'
  exact ⟨es ++ fs, Runs.run_append_eq_some.mpr ⟨k₁, hes, hfs⟩⟩

theorem covered_of_step {e : FileEvent} (h : fileStep mach k e = some k') : Covered mach k k' :=
  ⟨[e], Runs.run_cons_eq_some.mpr ⟨k', h, rfl⟩⟩

theorem covered_turn (hfs : k'.files.fs = k.files.fs) (hfds : k'.files.fds = k.files.fds)
    (hcwd : IsDir k.files.fs.tree k'.cwd) : Covered mach k k' := by
  have hturn : turnTo k k' = k' := by
    unfold turnTo
    rw [← hfs, ← hfds]
  apply covered_of_step (e := .turn k')
  rw [fileStep, if_pos hcwd.1, hturn]

theorem covered_tree {e : TreeEvent} (h : treeStep mach k.files.fs e = some fs) :
    Covered mach k (k.setFs fs) := by
  apply covered_of_step (e := .tree e)
  rw [fileStep, h]
  rfl

def Borrows (mach : Machine) (fs fs' : Fs) : Prop :=
  ∃ sizes : List U32, Runs.run (treeStep mach) fs (sizes.map .useHeap) = some fs'

theorem Borrows.refl (fs : Fs) : Borrows mach fs fs := ⟨[], rfl⟩

theorem Borrows.trans (h : Borrows mach fs fs') {fs'' : Fs} (h' : Borrows mach fs' fs'') :
    Borrows mach fs fs'' := by
  obtain ⟨xs, hxs⟩ := h
  obtain ⟨ys, hys⟩ := h'
  refine ⟨xs ++ ys, ?_⟩
  rw [List.map_append]
  exact Runs.run_append_eq_some.mpr ⟨fs', hxs, hys⟩

theorem borrows_of_allocs {heap : Heap} (h : Allocs fs.heap heap) :
    Borrows mach fs { fs with heap := heap } := by
  rcases h with rfl | ⟨size, ptr, halloc⟩
  · exact .refl fs
  · refine ⟨[size], Runs.run_cons_eq_some.mpr ⟨_, ?_, rfl⟩⟩
    rw [treeStep, halloc]
    rfl

theorem Borrows.tree (h : Borrows mach fs fs') : fs'.tree = fs.tree := by
  obtain ⟨sizes, hrun⟩ := h
  induction sizes generalizing fs with
  | nil =>
      obtain rfl := Option.some.inj hrun
      rfl
  | cons size sizes ih =>
      obtain ⟨fs₁, hstep, hrest⟩ := Runs.run_cons_eq_some.mp hrun
      obtain ⟨⟨ptr, heap⟩, -, rfl⟩ := Option.map_eq_some_iff.mp hstep
      exact (ih hrest : fs'.tree = { fs with heap := heap }.tree)

theorem Borrows.covered (h : Borrows mach k.files.fs fs) : Covered mach k (k.setFs fs) := by
  obtain ⟨sizes, hrun⟩ := h
  induction sizes generalizing k with
  | nil =>
      obtain rfl := Option.some.inj hrun
      exact ⟨[], rfl⟩
  | cons size sizes ih =>
      obtain ⟨fs₁, hstep, hrest⟩ := Runs.run_cons_eq_some.mp hrun
      exact (covered_tree hstep).trans (ih (k := k.setFs fs₁) hrest)

theorem vfsReadFile_borrows {found : Option (Option Bytes × U32)}
    (h : vfsReadFile mach fs dir path = some (found, fs')) : Borrows mach fs fs' := by
  unfold vfsReadFile at h
  split at h
  · obtain ⟨⟨data, heap⟩, hread, hpair⟩ := Option.map_eq_some_iff.mp h
    cases hpair
    exact borrows_of_allocs (fsReadFileFromMount_allocs hread)
  split at h <;>
  · cases h
    exact .refl fs

/-! ## Launching -/

/-- What starting or continuing a process does to the files, where its working directory is one
of `cwds`. -/
structure Boards (mach : Machine) (cwds : NodeId → Prop) (k k' : KState) : Prop where
  fs : Borrows mach k.files.fs k'.files.fs
  fds : k'.files.fds = k.files.fds
  userCwd : ∀ n, k'.files.userCwd = some n → k.files.userCwd = some n ∨ cwds n

theorem boards_of_files (h : k'.files = k.files) : Boards mach cwds k k' where
  fs := by
    rw [h]
    exact .refl _
  fds := by rw [h]
  userCwd := by
    rw [h]
    exact fun _ => Or.inl

theorem boards_setFs (h : Borrows mach k.files.fs fs) : Boards mach cwds k (k.setFs fs) :=
  ⟨h, rfl, fun _ => Or.inl⟩

theorem Boards.after (h : Boards mach cwds (k.setFs fs) k') (hfs : Borrows mach k.files.fs fs) :
    Boards mach cwds k k' := ⟨hfs.trans h.fs, h.fds, h.userCwd⟩

theorem taskRunUserEnter_boards (mach : Machine) {argc : Int} {argv : Nat → Option CStr} {ok : Bool}
    (h : taskRunUserEnter k pid argc argv ctx = (ok, k')) :
    Boards mach (fun n => ctx.cwd = some n ∨
      ∃ image, procGetImage k.core.proc pid = some image ∧ image.cwd = some n) k k' := by
  unfold taskRunUserEnter at h
  split at h
  · cases h
    exact boards_of_files rfl
  rename_i image himage
  split at h
  · cases h
    exact boards_of_files rfl
  · cases h
    refine ⟨.refl _, rfl, fun n hn => Or.inr ?_⟩
    dsimp only at hn
    split at hn
    · rename_i m hcwd
      exact Or.inr ⟨image, himage, hcwd.trans hn⟩
    · exact Or.inl hn

theorem readForLoader_borrows {f : Option FileView}
    (h : readForLoader mach fs dir path = some (f, fs')) : Borrows mach fs fs' := by
  unfold readForLoader at h
  split at h
  · cases h
  · rename_i hread
    cases h
    exact vfsReadFile_borrows hread
  · rename_i hread
    cases h
    exact vfsReadFile_borrows hread

theorem execIsElfPath_borrows {isElf : Bool}
    (h : execIsElfPath mach fs dir path = some (isElf, fs')) : Borrows mach fs fs' := by
  unfold execIsElfPath at h
  split at h
  · cases h
  · rename_i hread
    cases h
    exact vfsReadFile_borrows hread
  · rename_i hread
    cases h
    exact vfsReadFile_borrows hread

theorem procGetImage_demoteCurrent (c : Core) (slot : Fin maxTasks) (q : Int) :
    procGetImage (demoteCurrent c slot).proc q = procGetImage c.proc q := by
  unfold demoteCurrent
  split
  · rfl
  split
  · exact procGetImage_procSetState (by decide)
  · rfl

theorem procGetImage_taskSetState (c : Core) (st : TaskState) (q : Int) :
    procGetImage (taskSetState c pid st).proc q = procGetImage c.proc q := by
  unfold taskSetState
  split
  · rfl
  split
  · exact (procGetImage_procSetState (by decide)).trans (procGetImage_demoteCurrent c _ q)
  · rfl

/-- The image of the process works in the directory of the shell. -/
def BornIn (cwd : Option NodeId) : Entered → Prop
  | .returned _ _ => True
  | .entered pid k => ∃ image, procGetImage k.core.proc pid = some image ∧ image.cwd = cwd

theorem taskRunUserEnter_image (k : KState) (pid argc : Int) (argv : Nat → Option CStr)
    (ctx : ExecContext) (q : Int) :
    procGetImage (taskRunUserEnter k pid argc argv ctx).2.core.proc q =
      procGetImage k.core.proc q := by
  unfold taskRunUserEnter
  split
  · rfl
  rename_i image himage
  split
  · rfl
  dsimp only
  split
  · rw [(sameTables_resume _ image pid).proc, procGetImage_procSetState (by decide),
      procGetImage_taskSetState]
  · rw [(sameTables_execute _ image pid argc argv).proc, procGetImage_procSetState (by decide),
      procGetImage_taskSetState]

theorem taskRunUserEnter_found {argc : Int} {argv : Nat → Option CStr}
    (h : taskRunUserEnter k pid argc argv ctx = (true, k')) :
    ∃ image, procGetImage k.core.proc pid = some image := by
  unfold taskRunUserEnter at h
  split at h
  · cases h
  · exact ⟨_, ‹_›⟩

theorem enter_bound (mach : Machine) {c : Core} {image : ProcImage} {argc : Int} {argv : Nat → Option CStr}
    (hcore : k.core.proc = procBindImage c.proc pid image) (hcwd : image.cwd = ctx.cwd) {ok : Bool}
    (h : taskRunUserEnter k pid argc argv ctx = (ok, k')) :
    Boards mach (fun n => ctx.cwd = some n) k k' ∧
      (ok = true → BornIn ctx.cwd (.entered pid k')) := by
  have hfound : ∀ im, procGetImage k.core.proc pid = some im → im = image := by
    intro im him
    rw [hcore, procGetImage_procBindImage] at him
    split at him
    · exact (Option.some.inj him).symm
    · rename_i hdead
      exact absurd ⟨rfl, live_of_procGetImage him⟩ hdead
  have hboards := taskRunUserEnter_boards mach h
  refine ⟨⟨hboards.fs, hboards.fds, fun n hn => ?_⟩, fun hok => ?_⟩
  · rcases hboards.userCwd n hn with hsame | hctx | ⟨im, him, hn'⟩
    · exact Or.inl hsame
    · exact Or.inr hctx
    · obtain rfl := hfound im him
      exact Or.inr (hcwd.symm.trans hn')
  · obtain rfl := hok
    obtain ⟨im, him⟩ := taskRunUserEnter_found h
    have himage := taskRunUserEnter_image k pid argc argv ctx pid
    rw [h] at himage
    refine ⟨im, himage.trans him, ?_⟩
    rw [hfound im him, hcwd]

theorem execStart_boards (k : KState) (path : CStr) (argv : List CStr) (ctx : ExecContext)
    (ppid : Int) (file : FileView) (plan : ExecLoadPlan) :
    Boards mach (fun n => ctx.cwd = some n) k
        (Entered.kernel (execStart mach k path argv ctx ppid file plan)) ∧
      BornIn ctx.cwd (execStart mach k path argv ctx ppid file plan) := by
  unfold execStart
  split
  · exact ⟨boards_of_files rfl, trivial⟩
  dsimp only
  split
  · exact ⟨boards_of_files rfl, trivial⟩
  split
  · rename_i hrun
    obtain ⟨hboards, hborn⟩ := enter_bound mach rfl rfl hrun
    exact ⟨⟨hboards.fs, hboards.fds, hboards.userCwd⟩, hborn rfl⟩
  · rename_i hrun
    obtain ⟨hboards, -⟩ := enter_bound mach rfl rfl hrun
    exact ⟨⟨hboards.fs, hboards.fds, hboards.userCwd⟩, trivial⟩

def LaunchedIn (mach : Machine) (cwd : Option NodeId) (k : KState) (r : Entered) : Prop :=
  Boards mach (fun n => cwd = some n) k (Entered.kernel r) ∧ BornIn cwd r

theorem LaunchedIn.after (h : LaunchedIn mach ctx.cwd (k.setFs fs) r)
    (hfs : Borrows mach k.files.fs fs) : LaunchedIn mach ctx.cwd k r := ⟨h.1.after hfs, h.2⟩

theorem LaunchedIn.orFailed {r : Entered} (h : LaunchedIn mach cwd k r) :
    LaunchedIn mach cwd k r.orFailed := by
  cases r with
  | returned rc k' => exact ⟨h.1, trivial⟩
  | entered pid k' => exact h

theorem execRunElfPath_launchedIn (h : execRunElfPath mach k path argv ctx = some r) :
    LaunchedIn mach ctx.cwd k r := by
  unfold execRunElfPath at h
  dsimp only at h
  split at h
  · cases h
  · rename_i hread
    cases h
    exact ⟨boards_setFs (readForLoader_borrows hread), trivial⟩
  rename_i hread
  split at h
  · cases h
  rename_i hagain
  have hfs := (readForLoader_borrows hread).trans (readForLoader_borrows hagain)
  split at h
  · cases h
    exact ⟨boards_setFs hfs, trivial⟩
  · cases h
    exact LaunchedIn.after (execStart_boards _ _ _ _ _ _ _) hfs

theorem execTry_launchedIn {paths : List CStr} (h : execTry mach k argv ctx paths = some r) :
    LaunchedIn mach ctx.cwd k r := by
  induction paths generalizing k with
  | nil =>
      cases h
      exact ⟨boards_of_files rfl, trivial⟩
  | cons p paths ih =>
      rw [execTry] at h
      split at h
      · cases h
      · rename_i hread
        exact LaunchedIn.after (ih h) (execIsElfPath_borrows hread)
      · rename_i hread
        obtain ⟨r', hrun, rfl⟩ := Option.map_eq_some_iff.mp h
        exact LaunchedIn.after (execRunElfPath_launchedIn hrun).orFailed (execIsElfPath_borrows hread)

theorem execRunPath_launchedIn (h : execRunPath mach k path argv ctx = some r) :
    LaunchedIn mach ctx.cwd k r := by
  unfold execRunPath at h
  split at h
  · cases h
    exact ⟨boards_of_files rfl, trivial⟩
  split at h
  · cases h
    exact ⟨boards_of_files rfl, trivial⟩
  · exact execTry_launchedIn h

/-! ## Images over a step -/

/-- The image is one of before, with the same directory, or that of a process just launched. -/
def KeepsCwd (s : Sys) (e : Event) (p : Int) (image : ProcImage) : Prop :=
  (∃ old, procGetImage s.kernel.core.proc p = some old ∧ old.cwd = image.cwd) ∨
    ∃ path argv cwd output, e = .launch path argv cwd output ∧ image.cwd = some cwd

theorem keepsCwd_same {image : ProcImage} (h : procGetImage s.kernel.core.proc p = some image) :
    KeepsCwd s e p image := Or.inl ⟨image, h, rfl⟩

theorem image_of_update {c c' : Core} {v : ProcView}
    (h : procView c' = Function.update (procView c) pid v) (hv : v.image = (procView c pid).image) :
    procGetImage c'.proc p = procGetImage c.proc p := by
  have hview := congrArg (fun f => (f p).image) h
  by_cases hp : p = pid
  · obtain rfl := hp
    rw [Function.update_self, hv] at hview
    exact hview
  · rw [Function.update_of_ne hp] at hview
    exact hview

/-- A process that stops keeps its image but for the saved registers. -/
theorem keepsCwd_stop {ipc : IpcTables} {c' : Core} {im image : ProcImage} {i : Fin elfProcSlots}
    {phase : Phase} (h : Stop mach { s.kernel.core with ipc := ipc } pid im i phase c')
    (himage : procGetImage c'.proc p = some image) : KeepsCwd s e p image := by
  have hstop := (h.stopped.image p).symm.trans himage
  split at hstop
  · rename_i hp
    obtain rfl := Option.some.inj hstop
    rw [hp]
    exact Or.inl ⟨im, h.owner.found, rfl⟩
  · exact keepsCwd_same hstop

theorem launched_cwd {image : ProcImage} (hstep : step b s e = some s') (hctl : s.ctl = .shell)
    (hctl' : s'.ctl = .user pid .run)
    (himage : procGetImage s'.kernel.core.proc pid = some image) :
    ∃ path argv cwd output, e = .launch path argv cwd output ∧ image.cwd = some cwd := by
  have hshell : shellStep b s.kernel e = some s' := by
    rw [← hstep, step, hctl]
  cases shellStep_cases hshell with
  | @launch path argv cwd output r _ hrun =>
      obtain ⟨-, hborn⟩ := execRunPath_launchedIn hrun
      cases r with
      | returned rc k' => cases hctl'
      | entered q k' =>
          cases hctl'
          obtain ⟨im, him, hcwd⟩ := hborn
          obtain rfl := Option.some.inj (him.symm.trans himage)
          exact ⟨path, argv, cwd, output, rfl, hcwd⟩
  | @auto _ _ ok => cases ok <;> cases hctl'
  | @resume _ _ _ _ ok => cases ok <;> cases hctl'
  | _ => cases hctl'

theorem image_step (hs : SysOk b.mach s) (hstep : step b s e = some s') {image : ProcImage}
    (himage : procGetImage s'.kernel.core.proc p = some image) : KeepsCwd s e p image := by
  have hmove := (step_ok hs hstep).move
  generalize hctl : s.ctl = ctl at hmove
  generalize hctl' : s'.ctl = ctl' at hmove
  cases hmove with
  | quiet _ view => exact keepsCwd_same ((image_of_view (congrFun view p)).symm.trans himage)
  | work _ view => exact keepsCwd_same ((image_of_view (congrFun view p)).symm.trans himage)
  | received _ _ _ view => exact keepsCwd_same ((image_of_update view rfl).symm.trans himage)
  | queued _ _ _ _ _ _ view => exact keepsCwd_same ((image_of_update view rfl).symm.trans himage)
  | delivered _ _ _ _ delivered core =>
      rw [core] at himage
      have hwoken := (delivered.woken.image p).symm.trans himage
      split at hwoken
      · rename_i hp
        obtain rfl := Option.some.inj hwoken
        rw [hp]
        exact Or.inl ⟨_, delivered.found, rfl⟩
      · rw [delivered.wrote.proc] at hwoken
        exact keepsCwd_same hwoken
  | yielded _ stop => exact keepsCwd_stop stop himage
  | blocked _ _ _ _ stop => exact keepsCwd_stop stop himage
  | exited _ gone =>
      have hgone := (gone.image p).symm.trans himage
      split at hgone
      · cases hgone
      · exact keepsCwd_same hgone
  | @launched pid _ _ _ _ launched =>
      by_cases hp : p = pid
      · obtain rfl := hp
        exact Or.inr (launched_cwd hstep hctl hctl' himage)
      · exact keepsCwd_same ((image_of_view (launched.others p hp)).symm.trans himage)
  | resumed _ _ _ _ _ _ resumed => exact keepsCwd_same ((resumed.image p).symm.trans himage)

/-! ## Files over a step -/

structure Advances (mach : Machine) (k k' : KState) : Prop where
  edits : Edited (fun _ _ => True) (fun _ _ => True) k.files.fs.tree k'.files.fs.tree
  user : ∀ n, k'.files.userCwd = some n → IsDir k'.files.fs.tree n
  covered : Covered mach k k'

theorem Rooted.user_grows (hr : Rooted k) (hcwd : k'.files.userCwd = k.files.userCwd)
    (hedits : Edited new fill k.files.fs.tree k'.files.fs.tree) (n : Nat)
    (hn : k'.files.userCwd = some n) : IsDir k'.files.fs.tree n :=
  (hr.user n (hcwd.symm.trans hn)).grows hr.tree hedits

theorem isDir_cwd (hok : TreeOk k.files.fs.tree)
    (hcwd : ∀ n, k.files.userCwd = some n → IsDir k.files.fs.tree n) :
    IsDir k.files.fs.tree k.cwd := by
  unfold KState.cwd
  cases huser : k.files.userCwd with
  | none => exact isDir_root hok
  | some n => exact hcwd n huser

theorem advances_of_files (hr : Rooted k) (h : k'.files = k.files) : Advances mach k k' where
  edits := by
    rw [h]
    exact .refl
  user := by
    rw [h]
    exact hr.user
  covered := by
    refine covered_turn (by rw [h]) (by rw [h]) ?_
    unfold KState.cwd
    rw [h]
    exact isDir_cwd hr.tree hr.user

theorem advances_boards (hr : Rooted k) (h : Boards mach cwds k k')
    (hcwds : ∀ n, cwds n → IsDir k.files.fs.tree n) : Advances mach k k' := by
  have htree := h.fs.tree
  have huser : ∀ n, k'.files.userCwd = some n → IsDir k.files.fs.tree n := fun n hn =>
    (h.userCwd n hn).elim (hr.user n) (hcwds n)
  refine ⟨?_, ?_, ?_⟩
  · rw [htree]
    exact .refl
  · rw [htree]
    exact huser
  · refine h.fs.covered.trans (covered_turn rfl h.fds ?_)
    rw [← htree] at huser
    exact isDir_cwd (htree ▸ hr.tree) huser

theorem advances_tree (hr : Rooted k) {e : TreeEvent} (hstep : treeStep mach k.files.fs e = some fs) :
    Advances mach k (k.setFs fs) := by
  have hedits := (treeStep_stores hr.tree hstep k rfl).mono (fun _ _ => id) fun _ _ _ => trivial
  exact ⟨hedits, hr.user_grows rfl hedits, covered_tree hstep⟩

theorem advances_command (hr : Rooted k) (hcwd : NamesDir k.files.fs.tree e)
    (h : FileCommand b k e fs) : Advances b.mach k (k.setFs fs) := by
  cases h with
  | echo cwd path text =>
      refine advances_tree (e := .writeFile cwd path (text.getD · 0) (BitVec.ofNat 32 text.length))
        hr ?_
      rw [treeStep, if_pos hcwd.1]
  | @cd cwd path found fs hchange =>
      refine advances_tree (e := .changeDir cwd path) hr ?_
      rw [treeStep, if_pos hcwd.1, hchange]
      rfl
  | full => exact advances_of_files hr rfl
  | @alloc size ptr heap halloc =>
      refine advances_tree (e := .useHeap size) hr ?_
      rw [treeStep, halloc]
      rfl

theorem advances_call (hr : Rooted k) {num a1 a2 a3 a4 a5 : U32} {rc : Int}
    (hdone : (syscallEntry mach k num a1 a2 a3 a4 a5).done = some (rc, k₁))
    (hfiles : k'.files = k₁.files) : Advances mach k k' := by
  have heffect := syscallEntry_effect hr.tree hr.cwd.1 hdone
  have hcwd : k'.files.userCwd = k.files.userCwd := by rw [hfiles, heffect.userCwd]
  have hedits : Edited (fun _ _ => True) (fun _ _ => True) k.files.fs.tree k'.files.fs.tree := by
    rw [hfiles]
    exact heffect.edits.mono (fun _ _ => id) fun _ _ _ => trivial
  have huser := hr.user_grows hcwd hedits
  refine ⟨hedits, huser, ?_⟩
  have hcall : Covered mach k k₁ := by
    apply covered_of_step (e := .call num a1 a2 a3)
    change (syscallEntry mach k num a1 a2 a3 a4 a5).done.map Prod.snd = _
    rw [hdone]
    rfl
  refine hcall.trans (covered_turn (by rw [hfiles]) (by rw [hfiles]) ?_)
  rw [← hfiles]
  exact isDir_cwd (hedits.treeOk hr.tree) huser

theorem shell_advances (hr : Rooted k) (hcwd : NamesDir k.files.fs.tree e)
    (h : shellStep b k e = some s') : Advances b.mach k s'.kernel := by
  cases shellStep_cases h with
  | @launch path argv cwd output r _ hrun =>
      rw [toSys_kernel]
      refine advances_boards hr (execRunPath_launchedIn hrun).1 ?_
      rintro n hn
      obtain rfl := Option.some.inj hn
      exact hcwd
  | idle => exact advances_of_files hr rfl
  | @auto i image _ _ _ himage henter =>
      refine advances_boards hr (taskRunUserEnter_boards _ henter) ?_
      rintro n (hn | ⟨im, him, hn⟩)
      · exact hr.images _ image n himage hn
      · exact hr.images _ im n him hn
  | kept => exact advances_of_files hr rfl
  | @resume pid cwd output _ _ _ _ _ _ _ henter =>
      refine advances_boards hr (taskRunUserEnter_boards _ henter) ?_
      rintro n (hn | ⟨im, him, hn⟩)
      · obtain rfl := Option.some.inj hn
        exact hcwd
      · exact hr.images _ im n him hn
  | files hfiles => exact advances_command hr hcwd hfiles
  | tick => exact advances_of_files hr rfl

theorem callOrKeeps_call {left : Bool} (h : syscallStub mach k = some (left, k')) :
    k'.files = k.files ∨ ∃ num a1 a2 a3 a4 a5 rc k₁,
      (syscallEntry mach k num a1 a2 a3 a4 a5).done = some (rc, k₁) ∧ k'.files = k₁.files := by
  cases syscallStub_cases h with
  | exited => exact Or.inl rfl
  | left => exact Or.inl rfl
  | yielded => exact Or.inl rfl
  | blocked _ hdone => exact Or.inr ⟨_, _, _, _, _, _, _, _, hdone, rfl⟩
  | returned _ hdone => exact Or.inr ⟨_, _, _, _, _, _, _, _, hdone, rfl⟩

theorem stub_advances (hr : Rooted k) {left : Bool} (h : syscallStub mach k = some (left, k₁))
    (hfiles : k'.files = k₁.files) : Advances mach k k' := by
  rcases callOrKeeps_call h with hsame | ⟨num, a1, a2, a3, a4, a5, rc, k₂, hdone, hsame⟩
  · exact advances_of_files hr (hfiles.trans hsame)
  · exact advances_call hr hdone (hfiles.trans hsame)

theorem user_advances (hr : Rooted k) {caller : Caller}
    (h : userStep b k pid caller e = some s') : Advances b.mach k s'.kernel := by
  cases userStep_cases h with
  | tick => exact advances_of_files hr rfl
  | user => exact advances_of_files hr rfl
  | back hstub => exact stub_advances hr hstub rfl
  | stopped hstub =>
      refine stub_advances hr hstub ?_
      unfold stopUser
      rfl

theorem step_advances (hr : Rooted s.kernel) (hcwd : NamesDir s.kernel.files.fs.tree e)
    (hstep : step b s e = some s') : Advances b.mach s.kernel s'.kernel := by
  unfold step at hstep
  split at hstep
  · exact shell_advances hr hcwd hstep
  · exact user_advances hr hstep

theorem rooted_step (hs : SysOk b.mach s) (hr : Rooted s.kernel)
    (hcwd : NamesDir s.kernel.files.fs.tree e) (hstep : step b s e = some s') :
    Rooted s'.kernel := by
  have hadv := step_advances hr hcwd hstep
  refine ⟨hadv.edits.treeOk hr.tree, hadv.user, ?_⟩
  intro p image n himage hn
  rcases image_step hs hstep himage with ⟨old, hold, heq⟩ | ⟨path, argv, cwd, output, rfl, heq⟩
  · exact (hr.images p old n hold (heq.trans hn)).grows hr.tree hadv.edits
  · obtain rfl := Option.some.inj (heq.symm.trans hn)
    exact IsDir.grows hcwd hr.tree hadv.edits

end SlopOS.Proofs.WorkingDirs
