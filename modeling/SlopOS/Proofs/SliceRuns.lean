import SlopOS.Proofs.Slices
/-!
# The system's steps as runs of the scheduler

Whatever a step of the whole system does to the task table, it does through the calls of `schedStep`:
so the timer finds a slice with time left in every reachable state.
-/

namespace SlopOS.Proofs.SliceRuns

open SlopOS.Support SlopOS.Kernel
open SlopOS.Proofs.Tables SlopOS.Proofs.Scheduling SlopOS.Proofs.TableInvariant
open SlopOS.Proofs.UserPointers SlopOS.Proofs.SystemCalls SlopOS.Proofs.Dispatch
open SlopOS.Proofs.Launching SlopOS.Proofs.Moves SlopOS.Proofs.ReachableStates SlopOS.Proofs.TaskRuns
open SlopOS.Proofs.Slices SlopOS.Proofs.StepOutcomes

def Sched (c c' : Core) : Prop := ∃ es, Runs.run schedStep c es = some c'

variable {mach : Machine} {b : Boot} {s s' : Sys} {e : Event} {c c' c'' : Core} {k k' : KState}
variable {pid : Int} {caller : Caller} {image : ProcImage} {st : TaskState} {v : SchedEvent}

theorem Sched.refl (c : Core) : Sched c c := ⟨[], rfl⟩

theorem Sched.trans (h : Sched c c') (h' : Sched c' c'') : Sched c c'' := by
  obtain ⟨es, hes⟩ := h
  obtain ⟨fs, hfs⟩ := h'
  exact ⟨es ++ fs, Runs.run_append_eq_some.mpr ⟨c', hes, hfs⟩⟩

theorem sched_step (h : schedStep c v = some c') : Sched c c' :=
  ⟨[v], Runs.run_cons_eq_some.mpr ⟨c', h, rfl⟩⟩

theorem sched_same (h : c'.task = c.task) : Sched c c' := by
  apply sched_step (v := .other c')
  rw [schedStep, ← h]

theorem sched_setState (hst : st ≠ .unused) (hpid : pid ≠ 0) :
    Sched c (taskSetState c pid st) := by
  apply sched_step (v := .setState pid st)
  simp [schedStep, hst, hpid]

theorem Sched.sliced (h : Sched c c') (hc : Sliced c.task) : Sliced c'.task := by
  obtain ⟨es, hes⟩ := h
  exact Runs.invariant (I := fun c : Core => Sliced c.task) (fun _ _ _ _ => schedStep_sliced)
    (Runs.AllSteps.trivial _ es) hes hc

/-! ## Running a task -/

theorem leaveTask_sched (c : Core) (ps : ProcState) (hst : st ≠ .unused) (hpid : pid ≠ 0) :
    Sched c (leaveTask c pid st ps) := by
  have hset : Sched c (taskSetState c pid st) := sched_setState hst hpid
  have hproc : Sched (taskSetState c pid st) { taskSetState c pid st with
      proc := procSetState (taskSetState c pid st).proc pid ps } := sched_same rfl
  exact (hset.trans hproc).trans (sched_step (v := .returnToKernelMain) rfl)

theorem taskStopSaved_sched (c : Core) (ps : ProcState) (why : ExecStopReason)
    (hst : st ≠ .unused) (hpid : pid ≠ 0) : Sched c (taskStopSaved c pid st ps why).2 := by
  unfold taskStopSaved
  split
  · exact .refl c
  rename_i image _
  have hsnap := (sameTables_snapshot c pid image).task
  split
  · rename_i d hd
    rw [hd] at hsnap
    exact sched_same hsnap
  · rename_i d hd
    rw [hd] at hsnap
    exact (sched_same hsnap).trans (leaveTask_sched d ps hst hpid)

theorem taskRunUserStop_sched (c : Core) (hpid : pid ≠ 0) : Sched c (taskRunUserStop c pid).2 := by
  unfold taskRunUserStop
  split
  · exact taskStopSaved_sched c .ready .yielded (by decide) hpid
  split
  · exact taskStopSaved_sched c .blocked .blocked (by decide) hpid
  · exact leaveTask_sched c .zombie (by decide) hpid

theorem taskRunUserEnter_sched (k : KState) (pid argc : Int) (argv : Nat → Option CStr)
    (ctx : ExecContext) : Sched k.core (taskRunUserEnter k pid argc argv ctx).2.core := by
  unfold taskRunUserEnter
  split
  · exact .refl k.core
  rename_i image _
  split
  · exact .refl k.core
  rename_i hguard
  have hpid : pid ≠ 0 := by
    intro h0
    apply hguard
    rw [h0]
    exact Or.inl le_rfl
  have hset : Sched k.core (taskSetState k.core pid .running) := sched_setState (by decide) hpid
  dsimp only
  split
  · exact hset.trans (sched_same (sameTables_resume _ image pid).task)
  · exact hset.trans (sched_same (sameTables_execute _ image pid argc argv).task)

theorem exitAndReap_sched (c : Core) (code : Int) (hpid : pid ≠ 0) :
    Sched c (exitAndReap c pid code) := by
  have hreap : ∀ d, Sched d (taskReapPid d pid).2 := by
    intro d
    apply sched_step (v := .reap pid)
    rw [schedStep, if_neg hpid]
  unfold exitAndReap
  dsimp only
  refine Sched.trans ?_ (hreap _)
  exact sched_same rfl

theorem callerEnd_sched {rc : Int} {stop : Option ExecStopReason} (c : Core) (hpid : pid ≠ 0)
    (hslot : ∀ i, caller = .auto i → stop = some .exited → (c.task.tasks i).pid ≠ 0) :
    Sched c (callerEnd caller c pid rc stop) := by
  cases caller with
  | run =>
      unfold callerEnd execRunElfPathEnd
      dsimp only
      split
      · exact exitAndReap_sched c _ hpid
      · exact exitAndReap_sched c _ hpid
      · exact .refl c
  | resume =>
      unfold callerEnd execResumePidEnd
      dsimp only
      split
      · exact exitAndReap_sched c _ hpid
      · exact .refl c
  | auto i =>
      unfold callerEnd taskResumeNextReadyUserEnd
      dsimp only
      split
      · rename_i hexit
        exact exitAndReap_sched c _ (hslot i rfl hexit)
      · exact .refl c

/-! ## System calls -/

theorem entry_sched {ret : Int} {sl : Fin elfProcSlots} {num a1 a2 a3 a4 a5 : U32}
    (hown : OwnerOk mach k.core pid image sl) (hexit : num ≠ sysExit)
    (hdone : (syscallEntry mach k num a1 a2 a3 a4 a5).done = some (ret, k')) :
    Sched k.core k'.core := by
  rcases entry_cases hown hexit hdone with hsend | hsame
  · unfold ksysIpcSend ksysIpcSendWith at hsend
    split at hsend
    · cases hsend
      exact .refl k.core
    · cases hsend
      exact sched_step (v := .send _ _ _) rfl
  · exact sched_same hsame.task

theorem task_saveYield (c : Core) (frame : UserContext) :
    (syscallSaveYieldContext c frame).task = c.task := by
  unfold syscallSaveYieldContext
  dsimp only
  split
  · rfl
  split
  · rfl
  · rfl

theorem stub_sched {sl : Fin elfProcSlots} {left : Bool}
    (hown : OwnerOk mach k.core pid image sl) (hstub : syscallStub mach k = some (left, k')) :
    Sched k.core k'.core := by
  cases syscallStub_cases hstub with
  | exited => exact sched_same rfl
  | left => exact sched_same rfl
  | yielded => exact sched_same (task_saveYield _ _)
  | blocked hplain hdone =>
      exact (entry_sched hown (hplain.eax_ne hown.active) hdone).trans (sched_same (task_saveYield _ _))
  | returned hplain hdone =>
      exact (entry_sched hown (hplain.eax_ne hown.active) hdone).trans (sched_same rfl)

/-! ## Launching -/

theorem execStart_sched {path : CStr} {argv : List CStr} {ctx : ExecContext} {ppid : Int}
    {file : FileView} {plan : ExecLoadPlan} (hb : Base mach k.core) :
    Sched k.core (enteredKernel (execStart mach k path argv ctx ppid file plan)).core := by
  unfold execStart
  split
  · exact .refl k.core
  rename_i pid d hspawn
  have hborn := taskSpawn_spec hb.synced hb.zombie hb.fresh hspawn
  have hpid : pid ≠ 0 := by
    have := hb.next.1
    have := hborn.pid_eq
    omega
  have hd : Sched k.core d := by
    apply sched_step (v := .spawnUser (some (execProgramNameFromPath path 16)) ppid)
    rw [schedStep, hspawn]
    rfl
  have hload : Sched k.core (elfLoadFromPlan mach d pid plan file).core :=
    hd.trans (sched_same (sameTables_load d pid plan file).task)
  dsimp only
  split
  · exact hload.trans (exitAndReap_sched _ _ hpid)
  rename_i image _
  let bound : Core := { (elfLoadFromPlan mach d pid plan file).core with
    proc := procBindImage (elfLoadFromPlan mach d pid plan file).core.proc pid
      { image with cwd := ctx.cwd, output := ctx.output } }
  have hbound : Sched k.core bound := hload.trans (sched_same rfl)
  have henter := hbound.trans
    (taskRunUserEnter_sched (k.setCore bound) pid argv.length (argv[·]?) ctx)
  split
  · rename_i hk
    rw [hk] at henter
    exact henter
  · rename_i hk
    rw [hk] at henter
    exact henter.trans (exitAndReap_sched _ _ hpid)

theorem execRunElfPath_sched {path : CStr} {argv : List CStr} {ctx : ExecContext} {r : Entered}
    (hb : Base mach k.core) (hrun : execRunElfPath mach k path argv ctx = some r) :
    Sched k.core (enteredKernel r).core := by
  unfold execRunElfPath at hrun
  dsimp only at hrun
  split at hrun
  · cases hrun
  · cases hrun
    exact .refl k.core
  split at hrun
  · cases hrun
  split at hrun
  · cases hrun
    exact .refl k.core
  · rename_i fs _ _ plan _
    cases hrun
    exact execStart_sched (k := k.setFs fs) hb

theorem execTry_sched {argv : List CStr} {ctx : ExecContext} {r : Entered} {paths : List CStr}
    (hb : Base mach k.core) (hrun : execTry mach k argv ctx paths = some r) :
    Sched k.core (enteredKernel r).core := by
  induction paths generalizing k with
  | nil =>
      cases hrun
      exact .refl k.core
  | cons path paths ih =>
      rw [execTry] at hrun
      split at hrun
      · cases hrun
      · rename_i fs _
        exact ih (k := k.setFs fs) hb hrun
      · rename_i fs _
        obtain ⟨r', hran, rfl⟩ := Option.map_eq_some_iff.mp hrun
        rw [enteredKernel_orFailed]
        exact execRunElfPath_sched (k := k.setFs fs) hb hran

theorem execRunPath_sched {path : CStr} {argv : List CStr} {ctx : ExecContext} {r : Entered}
    (hb : Base mach k.core) (hrun : execRunPath mach k path argv ctx = some r) :
    Sched k.core (enteredKernel r).core := by
  unfold execRunPath at hrun
  split at hrun
  · cases hrun
    exact .refl k.core
  split at hrun
  · cases hrun
    exact sched_same rfl
  · exact execTry_sched hb hrun

/-! ## Steps -/

theorem shellStep_sched (hb : Base b.mach s.kernel.core)
    (hstep : shellStep b s.kernel e = some s') : Sched s.kernel.core s'.kernel.core := by
  have henters : ∀ {pid : Int} {ctx : ExecContext} {ok k'},
      taskRunUserEnter s.kernel pid 0 (fun _ => none) ctx = (ok, k') →
        Sched s.kernel.core k'.core := by
    intro pid ctx ok k' henter
    have hsched := taskRunUserEnter_sched s.kernel pid 0 (fun _ => none) ctx
    rw [henter] at hsched
    exact hsched
  cases shellStep_cases hstep with
  | @launch _ _ _ _ r _ hrun =>
      have hr := execRunPath_sched hb hrun
      cases r with
      | returned rc k => exact hr
      | entered pid k => exact hr
  | idle => exact .refl _
  | auto _ _ henter => exact henters henter
  | kept => exact .refl _
  | resume _ _ _ _ henter => exact henters henter
  | files => exact .refl _
  | tick => exact sched_step (v := .tick) rfl

theorem step_sched (hs : SysOk b.mach s) (hstep : step b s e = some s') :
    Sched s.kernel.core s'.kernel.core := by
  have hctl := hs.ctl
  unfold step at hstep
  split at hstep
  · exact shellStep_sched hs.base hstep
  rename_i pid caller huser
  rw [huser] at hctl
  obtain ⟨image, sl, hown, -⟩ := ownerOk_of_running hs.base hctl.1
  cases userStep_cases hstep with
  | tick => exact sched_step (v := .tick) rfl
  | user regs bytes =>
      change Sched _ (runUser s.kernel.core pid regs bytes)
      unfold runUser
      split
      · exact .refl _
      · exact sched_same rfl
  | back hstub => exact stub_sched hown hstub
  | @stopped k hstub =>
      have hpid : pid ≠ 0 := by
        have := hctl.1.pos
        omega
      have hleft := (stub_sched hown hstub).trans (taskRunUserStop_sched k.core hpid)
      exact hleft.trans (callerEnd_sched _ hpid fun i hi hexit =>
        stop_caller hs huser hstub i hi hexit)

theorem sliced_of_reachable (hs : Reachable b s) : Sliced s.kernel.core.task := by
  obtain ⟨s₀, es, hboot, hrun⟩ := hs
  have hinit : SysOk b.mach s₀ ∧ Sliced s₀.kernel.core.task := by
    refine ⟨sysOk_kmain hboot, ?_⟩
    obtain ⟨fs, -, rfl⟩ := Option.map_eq_some_iff.mp hboot
    exact sliced_coreInit b.mach
  have hall := Runs.invariant (I := fun s : Sys => SysOk b.mach s ∧ Sliced s.kernel.core.task)
    (fun _ _ _ _ h hstep => ⟨(step_ok h.1 hstep).ok, (step_sched h.1 hstep).sliced h.2⟩)
    (Runs.AllSteps.trivial s₀ es) hrun hinit
  exact hall.2

end SlopOS.Proofs.SliceRuns
