import SlopOS.Proofs.ReachableStates
/-!
# Waiting for a message

A waiter entry is active for exactly the blocked processes, and a blocked
process comes back only through a delivery, in every run in which the shell's
`resume` is not used on a blocked process.  `exec_resume_pid` does not look at
the state of the process, and one such `resume` breaks both.
-/

namespace SlopOS.Proofs.WaitingRuns

open SlopOS.Support SlopOS.Kernel
open SlopOS.Proofs.Tables SlopOS.Proofs.Mail SlopOS.Proofs.Scheduling
open SlopOS.Proofs.TableInvariant SlopOS.Proofs.Messages SlopOS.Proofs.Leaving
open SlopOS.Proofs.Views SlopOS.Proofs.Launching SlopOS.Proofs.Moves SlopOS.Proofs.ReachableStates

def WaiterActive (c : Core) (p : Int) : Prop :=
  ∃ i, (c.ipc.waiters i).active = true ∧ (c.ipc.waiters i).pid = p

def IsBlocked (c : Core) (p : Int) : Prop :=
  procStateOf c.proc p = .blocked ∧
    ∃ i, c.task.findSlotByPid p = some i ∧ (c.task.tasks i).state = .blocked

/-- The step does not resume a blocked process by hand. -/
def ResumesReady (s : Sys) (e : Event) : Prop :=
  ∀ pid cwd output, e = .resume pid cwd output → procStateOf s.kernel.core.proc pid ≠ .blocked

/-- The step hands `msg` to `p`, which waits at `ptr`. -/
def Delivers (b : Boot) (p : Int) (ptr : U32) (msg : IpcMessage) (s : Sys) (e : Event) : Prop :=
  waiting s.kernel.core.ipc p = some ptr ∧
    ∃ s', step b s e = some s' ∧ DeliveredBy s.kernel.core s'.kernel.core p msg

/-- What the waiter table and the phases have to do with each other. -/
structure Blocking (c : Core) (ctl : Ctl) : Prop where
  blocked : ∀ p, (procView c p).waiting ≠ none ↔ (procView c p).phase = .blocked
  running : ∀ pid caller, ctl = .user pid caller → procPhase c.proc pid = .runnable

variable {b : Boot} {mach : Machine} {safe : Prop} {c c' : Core} {ctl ctl' : Ctl} {e : Event}
variable {p : Int} {s s' : Sys}

theorem taskStatePhase_eq_blocked {st : TaskState} : taskStatePhase st = .blocked ↔ st = .blocked := by
  cases st <;> simp [taskStatePhase]

theorem waiterActive_iff : WaiterActive c p ↔ waiting c.ipc p ≠ none := by
  have hkey : ∀ i, (c.ipc.waiters i).key = some p ↔
      (c.ipc.waiters i).active = true ∧ (c.ipc.waiters i).pid = p := by
    intro i
    unfold IpcWaiter.key
    by_cases ha : (c.ipc.waiters i).active <;> simp [ha]
  rw [ne_eq, waiting_eq_none_iff]
  unfold IpcTables.findWaiter
  rw [SlotTable.indexOf_eq_none]
  unfold WaiterActive
  simp only [← hkey, not_forall, not_not, ne_eq]

theorem isBlocked_iff (h : Synced c) : IsBlocked c p ↔ procPhase c.proc p = .blocked := by
  constructor
  · intro hb
    unfold procPhase
    rw [hb.1]
    rfl
  · intro hb
    refine ⟨procStatePhase_eq_blocked.mp hb, ?_⟩
    have htask : taskPhase c.task p = .blocked := by
      rw [h.sync, hb]
    have hlive : taskPhase c.task p ≠ .dead := by
      rw [htask]
      decide
    obtain ⟨i, hi⟩ := taskPhase_ne_dead_iff.mp hlive
    rw [taskPhase_of_find hi] at htask
    exact ⟨i, hi, taskStatePhase_eq_blocked.mp htask⟩

/-! ## One step -/

theorem blocking_update {v : ProcView} (h : Blocking c ctl)
    (hview : procView c' = Function.update (procView c) p v)
    (hv : v.waiting ≠ none ↔ v.phase = .blocked)
    (hrun : ∀ pid caller, ctl' = .user pid caller →
      (pid = p → v.phase = .runnable) ∧ (pid ≠ p → procPhase c.proc pid = .runnable)) :
    Blocking c' ctl' := by
  have hat : ∀ q, procView c' q = if q = p then v else procView c q := by
    intro q
    rw [hview, Function.update_apply]
  refine ⟨fun q => ?_, fun pid caller hctl => ?_⟩
  · rw [hat]
    split
    · exact hv
    · exact h.blocked q
  · obtain ⟨hsame, hother⟩ := hrun pid caller hctl
    change (procView c' pid).phase = _
    rw [hat]
    split
    · rename_i hp
      exact hsame hp
    · rename_i hp
      exact hother hp

theorem Blocking.not_waiting (h : Blocking c ctl) (hp : procPhase c.proc p ≠ .blocked) :
    waiting c.ipc p = none := by
  by_contra hne
  exact hp ((h.blocked p).mp hne)

theorem Blocking.runner (h : Blocking c (.user p caller)) : waiting c.ipc p = none := by
  apply h.not_waiting
  rw [h.running p caller rfl]
  decide

theorem launched_view {image : ProcImage} (hb : Base mach c) (h : Launched mach safe c p image c') :
    (procView c' p).waiting = none ∧ (procView c' p).inbox = (procView c p).inbox := by
  have hwait : waiting c.ipc p = none := by
    by_contra hne
    have hlt := hb.waiterPid p hne
    have hpid := h.pid_eq
    omega
  unfold procView
  rw [h.ipc]
  exact ⟨hwait, rfl⟩

theorem blocking_move (hb : Base mach c) (h : Blocking c ctl)
    (hres : ∀ pid cwd output, e = .resume pid cwd output → procPhase c.proc pid ≠ .blocked)
    (hm : Move mach safe c ctl e c' ctl') : Blocking c' ctl' := by
  cases hm with
  | quiet noCall view =>
      refine ⟨by rw [view]; exact h.blocked, fun pid caller hctl => ?_⟩
      rw [phase_of_view (congrFun view pid)]
      exact h.running pid caller hctl
  | work silent view =>
      refine ⟨by rw [view]; exact h.blocked, fun pid caller hctl => ?_⟩
      rw [phase_of_view (congrFun view pid)]
      exact h.running pid caller hctl
  | @received pid caller msg c' number result full view =>
      have hrun := h.running pid caller rfl
      refine blocking_update h view (h.blocked pid) fun pid' caller' hctl => ?_
      cases hctl
      exact ⟨fun _ => hrun, fun hne => absurd rfl hne⟩
  | @queued pid dst caller c' number result target live notReceiving empty view =>
      refine blocking_update h view (h.blocked dst) fun pid' caller' hctl => ?_
      have hrun := h.running pid' caller' hctl
      refine ⟨fun hp => ?_, fun _ => hrun⟩
      rw [← hp]
      exact hrun
  | @delivered pid dst caller ptr image sl c₁ d c' number result target send delivered core =>
      have hsame : procView c' = procView d := by
        rw [core]
        rfl
      refine blocking_update h (hsame.trans (procView_delivered delivered)) (by simp) fun pid' caller' hctl => ?_
      exact ⟨fun _ => rfl, fun _ => h.running pid' caller' hctl⟩
  | @yielded pid caller image sl c' number stop =>
      refine blocking_update h (procView_stopped stop.stopped) ?_ nofun
      have hwait : (procView c pid).waiting = none := h.runner
      simp [hwait]
  | @blocked pid caller image sl ipc c' number empty within waits stop =>
      have hview := procView_stopped stop.stopped
      rw [procView_blockedAt waits, Function.update_idem, Function.update_self] at hview
      exact blocking_update h hview (by simp) nofun
  | @exited pid caller r c' number gone =>
      have hwait : (procView c pid).waiting = none := h.runner
      have hview := procView_gone gone
      refine blocking_update h hview ?_ nofun
      change (procView c pid).waiting ≠ none ↔ Phase.dead = .blocked
      simp [hwait]
  | @launched pid e image c' noCall launched =>
      obtain ⟨hwait, -⟩ := launched_view hb launched
      have hview : procView c' = Function.update (procView c) pid (procView c' pid) := by
        funext q
        by_cases hq : q = pid
        · rw [hq, Function.update_self]
        · rw [Function.update_of_ne hq]
          exact launched.others q hq
      have hphase : (procView c' pid).phase = .runnable := launched.phase
      refine blocking_update h hview (by simp [hwait, hphase]) fun pid' caller' hctl => ?_
      cases hctl
      exact ⟨fun _ => hphase, fun hne => absurd rfl hne⟩
  | @resumed pid caller e image sl c' how found loaded valid slot fits resumed =>
      have hready : procPhase c.proc pid ≠ .blocked := by
        rcases how with ⟨-, hrun⟩ | ⟨cwd, output, he⟩
        · rw [hrun]
          decide
        · exact hres pid cwd output he
      have hwait : (procView c pid).waiting = none := h.not_waiting hready
      refine blocking_update h (procView_resumed resumed) (by simp [hwait])
        fun pid' caller' hctl => ?_
      cases hctl
      exact ⟨fun _ => rfl, fun hne => absurd rfl hne⟩

/-- A waiting process goes on waiting at the same place until a message is
delivered to it. -/
theorem waiting_move {ptr : U32} (hb : Base mach c) (h : Blocking c ctl)
    (hw : waiting c.ipc p = some ptr) (hm : Move mach safe c ctl e c' ctl') :
    waiting c'.ipc p = some ptr ∨
      ∃ msg, DeliveredBy c c' p msg := by
  have hlive : p < c.proc.nextPid := by
    apply hb.waiterPid
    rw [hw]
    simp
  -- a step that changes the view of `q`, and not its waiting
  have hupdate : ∀ {q v}, procView c' = Function.update (procView c) q v →
      v.waiting = (procView c q).waiting → waiting c'.ipc p = some ptr := by
    intro q v hview hv
    change (procView c' p).waiting = _
    rw [hview, Function.update_apply]
    split
    · rename_i hp
      rw [hv, ← hp]
      exact hw
    · exact hw
  cases hm with
  | quiet noCall view => exact Or.inl ((congrArg ProcView.waiting (congrFun view p)).trans hw)
  | work silent view => exact Or.inl ((congrArg ProcView.waiting (congrFun view p)).trans hw)
  | received number result full view => exact Or.inl (hupdate view rfl)
  | queued number result target live notReceiving empty view => exact Or.inl (hupdate view rfl)
  | @delivered pid dst caller ptr' image sl c₁ d c' number result target send delivered core =>
      by_cases hp : p = dst
      · rw [hp]
        exact Or.inr ⟨_, d, send, core⟩
      · left
        have hview := congrFun (procView_delivered delivered) p
        rw [Function.update_of_ne hp] at hview
        rw [core]
        exact (congrArg ProcView.waiting hview).trans hw
  | yielded number stop => exact Or.inl (hupdate (procView_stopped stop.stopped) rfl)
  | @blocked pid caller image sl ipc c' number empty within waits stop =>
      have hview := procView_stopped stop.stopped
      rw [procView_blockedAt waits, Function.update_idem, Function.update_self] at hview
      have hp : p ≠ pid := by
        rintro rfl
        rw [h.runner] at hw
        cases hw
      left
      change (procView c' p).waiting = _
      rw [hview, Function.update_of_ne hp]
      exact hw
  | exited number gone =>
      have hview := procView_gone gone
      exact Or.inl (hupdate hview rfl)
  | @launched pid e image c' noCall launched =>
      have hpid := launched.pid_eq
      have hview := launched.others p (by omega)
      exact Or.inl ((congrArg ProcView.waiting hview).trans hw)
  | resumed how found loaded valid slot fits resumed =>
      exact Or.inl (hupdate (procView_resumed resumed) rfl)

/-! ## Every run -/

/-- At the end of the run `es` from `s₀`: waiters are the blocked processes, and the
process in Ring 3 was given a message since it was last seen blocked. -/
def WaitsOut (b : Boot) (s₀ : Sys) (es : List Event) (s : Sys) : Prop :=
  (∀ p, WaiterActive s.kernel.core p ↔ IsBlocked s.kernel.core p) ∧
    ∀ es₁ es₂ s₁ p caller, es = es₁ ++ es₂ → Runs.run (step b) s₀ es₁ = some s₁ →
      IsBlocked s₁.kernel.core p → s.ctl = .user p caller →
        ∃ ptr, waiting s₁.kernel.core.ipc p = some ptr ∧
          ∃ msg, Runs.Sometimes (step b) (Delivers b p ptr msg) s₁ es₂

theorem blocking_kmain (h : kmain b = some s) : Blocking s.kernel.core s.ctl := by
  obtain ⟨hboot, hctl, -⟩ := kmain_spec h
  refine ⟨fun p => ?_, fun pid caller hc => ?_⟩
  · have hwait : (procView s.kernel.core p).waiting = none := by
      change waiting s.kernel.core.ipc p = none
      rw [hboot.ipc]
      exact waiting_ipcInit p
    have hphase : (procView s.kernel.core p).phase ≠ .blocked := hboot.phases p
    simp [hwait, hphase]
  · rw [hctl] at hc
    cases hc

theorem blocking_step (hs : SysOk b.mach s ∧ Blocking s.kernel.core s.ctl)
    (hres : ResumesReady s e) (hstep : step b s e = some s') :
    SysOk b.mach s' ∧ Blocking s'.kernel.core s'.ctl := by
  have hok := step_ok hs.1 hstep
  refine ⟨hok.ok, blocking_move hs.1.base hs.2 (fun pid cwd output he => ?_) hok.move⟩
  rw [ne_eq, procPhase, procStatePhase_eq_blocked]
  exact hres pid cwd output he

theorem blocking_run {s₀ : Sys} {es : List Event} (hboot : kmain b = some s₀)
    (hok : Runs.AllSteps (step b) ResumesReady s₀ es) (hrun : Runs.run (step b) s₀ es = some s) :
    SysOk b.mach s ∧ Blocking s.kernel.core s.ctl :=
  Runs.invariant (I := fun s => SysOk b.mach s ∧ Blocking s.kernel.core s.ctl)
    (fun _ _ _ hres hs hstep => blocking_step hs hres hstep) hok hrun
    ⟨sysOk_kmain hboot, blocking_kmain hboot⟩

theorem waiterActive_run {s₀ : Sys} {es : List Event} (hboot : kmain b = some s₀)
    (hok : Runs.AllSteps (step b) ResumesReady s₀ es) (hrun : Runs.run (step b) s₀ es = some s)
    (p : Int) : WaiterActive s.kernel.core p ↔ IsBlocked s.kernel.core p := by
  obtain ⟨hs, hblock⟩ := blocking_run hboot hok hrun
  rw [waiterActive_iff, isBlocked_iff hs.base.synced]
  exact hblock.blocked p

/-- A process that was blocked and is in Ring 3 again was given a message in between. -/
theorem delivered_run {s₀ s₁ : Sys} {es₁ es₂ : List Event} {p : Int} (hboot : kmain b = some s₀)
    (hok : Runs.AllSteps (step b) ResumesReady s₀ (es₁ ++ es₂))
    (hrun : Runs.run (step b) s₀ (es₁ ++ es₂) = some s)
    (hrun₁ : Runs.run (step b) s₀ es₁ = some s₁) (hblocked : IsBlocked s₁.kernel.core p)
    (hctl : s.ctl = .user p caller) :
    ∃ ptr, waiting s₁.kernel.core.ipc p = some ptr ∧
      ∃ msg, Runs.Sometimes (step b) (Delivers b p ptr msg) s₁ es₂ := by
  obtain ⟨hs, hblock⟩ := blocking_run hboot hok hrun
  obtain ⟨hs₁, hblock₁⟩ := blocking_run hboot hok.of_append hrun₁
  obtain ⟨u, hu, hrun₂⟩ := Runs.run_append_eq_some.mp hrun
  rw [hrun₁] at hu
  obtain rfl := Option.some.inj hu
  have hwait : waiting s₁.kernel.core.ipc p ≠ none :=
    (hblock₁.blocked p).mpr ((isBlocked_iff hs₁.base.synced).mp hblocked)
  obtain ⟨ptr, hptr⟩ := Option.ne_none_iff_exists'.mp hwait
  refine ⟨ptr, hptr, ?_⟩
  have hstay := Runs.invariant_or_sometimes (P := fun s e => ∃ msg, Delivers b p ptr msg s e)
    (I := fun s => (SysOk b.mach s ∧ Blocking s.kernel.core s.ctl) ∧
      waiting s.kernel.core.ipc p = some ptr)
    (fun t e t' hres ht hstep => ?_) (hok.of_append_right hrun₁) hrun₂ ⟨⟨hs₁, hblock₁⟩, hptr⟩
  · rcases hstay with ⟨-, hlast⟩ | hdeliver
    · rw [hctl] at hblock
      rw [hblock.runner] at hlast
      cases hlast
    · exact Runs.exists_of_sometimes hdeliver
  · rcases waiting_move ht.1.1.base ht.1.2 ht.2 (step_ok ht.1.1 hstep).move with
      hw | ⟨msg, hmsg⟩
    · exact Or.inl ⟨blocking_step ht.1 hres hstep, hw⟩
    · exact Or.inr ⟨msg, ht.2, t', hstep, hmsg⟩

/-- Every run that resumes no blocked process by hand. -/
theorem waitsOut_run {s₀ : Sys} {es : List Event} (hboot : kmain b = some s₀)
    (hok : Runs.AllSteps (step b) ResumesReady s₀ es) (hrun : Runs.run (step b) s₀ es = some s) :
    WaitsOut b s₀ es s := by
  refine ⟨waiterActive_run hboot hok hrun, ?_⟩
  rintro es₁ es₂ s₁ p caller rfl hrun₁ hblocked hctl
  exact delivered_run hboot hok hrun hrun₁ hblocked hctl

/-- Process 3 blocks, process 4 sends it a message, and 3 is picked up again. -/
def demoTalk : List Event :=
  demoLaunch :: demoCall sysIpcRecv 0x00300100 (fun _ => 0) ++
    demoLaunch :: demoCall sysIpcSend 0x00300200 (fun a => if a = 0x00300204 then 3 else 0) ++
    demoCall sysExit 0 (fun _ => 0) ++ [.autoResume]

theorem demoTalk_ends : ∃ s, demoRun demoTalk = some s ∧ s.ctl = .user 3 (.auto 3) := by
  have hrun : (demoRun demoTalk).map Sys.ctl = some (.user 3 (.auto 3)) := by decide +kernel
  exact exists_of_demoRun hrun

theorem waitsOut_demo : ∃ s₀ s, kmain demoBoot = some s₀ ∧ (∃ caller, s.ctl = .user 3 caller) ∧
    WaitsOut demoBoot s₀ demoTalk s := by
  obtain ⟨s, hs, hctl⟩ := demoTalk_ends
  obtain ⟨s₀, hboot, hrun⟩ := Option.bind_eq_some_iff.mp hs
  refine ⟨s₀, s, hboot, ⟨.auto 3, hctl⟩, waitsOut_run hboot ?_ hrun⟩
  apply Runs.AllSteps.of_events
  intro e he t pid cwd output hresume
  subst hresume
  simp [demoTalk, demoCall, demoLaunch] at he

/-- `resume` lets a blocked process into Ring 3: its waiter is active while it runs. -/
theorem not_waitsOut_resume : ¬∀ b s₀ es s, kmain b = some s₀ → Runs.run (step b) s₀ es = some s →
    WaitsOut b s₀ es s := by
  intro hall
  let es : List Event := demoLaunch :: demoCall sysIpcRecv 0x00300100 (fun _ => 0) ++
    [.resume 3 0 .vga]
  have hrun : (demoRun es).map (fun s => (waiting s.kernel.core.ipc 3,
      procStateOf s.kernel.core.proc 3)) = some (some 0x00300100, .running) := by decide +kernel
  obtain ⟨s, hs, hview⟩ := exists_of_demoRun hrun
  obtain ⟨s₀, hboot, hrun⟩ := Option.bind_eq_some_iff.mp hs
  obtain ⟨hwait, hstate⟩ := Prod.mk.inj hview
  have hactive : WaiterActive s.kernel.core 3 := by
    rw [waiterActive_iff, hwait]
    simp
  have hblocked := ((hall demoBoot s₀ es s hboot hrun).1 3).mp hactive
  rw [hblocked.1] at hstate
  cases hstate

end SlopOS.Proofs.WaitingRuns
