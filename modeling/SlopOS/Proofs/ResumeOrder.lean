import SlopOS.Proofs.SliceRuns
/-!
# The order in which stopped tasks are resumed

`task_resume_next_ready_user` takes the ready task of the lowest slot, and a task that yields is
ready again before the next call.  So as soon as two tasks are waiting, one of them can have all the
calls.
-/

namespace SlopOS.Proofs.ResumeOrder

open SlopOS.Support SlopOS.Kernel
open SlopOS.Proofs.Tables SlopOS.Proofs.Scheduling SlopOS.Proofs.TableInvariant
open SlopOS.Proofs.UserPointers SlopOS.Proofs.Leaving SlopOS.Proofs.Moves SlopOS.Proofs.ReachableStates
open SlopOS.Proofs.TaskStates SlopOS.Proofs.TaskRuns SlopOS.Proofs.Timer
open SlopOS.Proofs.TaskSlots (SameSlots CurrentLive live_of_findSlot taskSetState_tame
  taskReturnToKernelMain_tame)
open SlopOS.Proofs.Slices SlopOS.Proofs.SliceRuns

/-- Calls of `task_resume_next_ready_user` in which a task runs and yields, with timer ticks before
and between them; the list has the pids that run. -/
inductive Calls (b : Boot) : Sys → List Int → Sys → Prop
  | done (s : Sys) : Calls b s [] s
  | tick {s s₁ s' : Sys} {ps : List Int} (shell : s.ctl = .shell)
      (fires : step b s .tick = some s₁) (rest : Calls b s₁ ps s') : Calls b s ps s'
  | call {s s₁ s₂ s₃ s' : Sys} {p : Int} {i : Fin maxTasks} {es : List Event} {ps : List Int}
      (resumes : step b s .autoResume = some s₁) (entered : s₁.ctl = .user p (.auto i))
      (stays : Runs.AllSteps (step b) (fun t _ => t.ctl = .user p (.auto i)) s₁ es)
      (runs : Runs.run (step b) s₁ es = some s₂) (still : s₂.ctl = .user p (.auto i))
      (yields : s₂.kernel.core.ring3.regs.eax = sysYield)
      (stops : step b s₂ .syscall = some s₃) (rest : Calls b s₃ ps s') : Calls b s (p :: ps) s'

/-- The next `k` calls, if a task yields in each of them, resume `k` different tasks. -/
def ResumesAll (b : Boot) (s : Sys) (k : Nat) : Prop :=
  ∀ ps s', Calls b s ps s' → ps.length = k → ps.Nodup

/-- Process `p` could be resumed if its task were marked ready. -/
def Waiting (c : Core) (p : Int) : Prop :=
  0 < p ∧ procPhase c.proc p = .runnable ∧
    ∃ image, procGetImage c.proc p = some image ∧ image.loaded = true ∧ image.contextValid = true

/-- The task of `p`, in slot `i`, is the first of those that wait. -/
structure FirstWaiting (c : Core) (i : Fin maxTasks) (p : Int) : Prop where
  find : c.task.findSlotByPid p = some i
  waiting : Waiting c p
  least : ∀ j q, Waiting c q → c.task.findSlotByPid q = some j → i ≤ j

structure SameWaiting (c c' : Core) : Prop where
  find : c'.task.findSlotByPid = c.task.findSlotByPid
  waiting : ∀ q, Waiting c' q ↔ Waiting c q

variable {b : Boot} {mach : Machine} {s s' : Sys} {e : Event} {c c' c'' : Core} {pid p : Int}
variable {i j : Fin maxTasks} {k : Nat} {t t' : TaskTable}

/-! ## Who waits -/

theorem SameWaiting.of_same (hfind : c'.task.findSlotByPid = c.task.findSlotByPid)
    (hphase : ∀ q, procPhase c'.proc q = procPhase c.proc q)
    (himage : ∀ q, procGetImage c'.proc q = procGetImage c.proc q) : SameWaiting c c' := by
  refine ⟨hfind, fun q => ?_⟩
  unfold Waiting
  rw [hphase, himage]

theorem FirstWaiting.same (h : FirstWaiting c i p) (hs : SameWaiting c c') :
    FirstWaiting c' i p := by
  refine ⟨?_, (hs.waiting p).mpr h.waiting, fun j q hq hfind => ?_⟩
  · rw [hs.find]
    exact h.find
  · rw [hs.find] at hfind
    exact h.least j q ((hs.waiting q).mp hq) hfind

theorem state_of_waiting (hc : Synced c) (hfind : c.task.findSlotByPid p = some i)
    (hwait : Waiting c p) : taskStatePhase (c.task.tasks i).state = .runnable := by
  rw [← taskPhase_of_find hfind, hc.sync]
  exact hwait.2.1

/-- The slots that a call may take are those of waiting tasks that are marked ready. -/
theorem resumable_iff (hc : Synced c) : resumable c i = true ↔
    (c.task.tasks i).state = .ready ∧ ∃ p, c.task.findSlotByPid p = some i ∧ Waiting c p := by
  constructor
  · intro hres
    obtain ⟨hready, hpos, hsaved⟩ := resumable_spec hres
    have hfind := find_of_occupied hc i (by rw [hready]; decide)
    refine ⟨hready, _, hfind, hpos, ?_, hsaved⟩
    rw [← hc.sync, taskPhase_of_find hfind, hready]
    rfl
  · rintro ⟨hready, p, hfind, hpos, -, image, himg, hloaded, hvalid⟩
    have hpid := (occupied_of_find hfind).2
    unfold resumable
    rw [hpid, if_neg, himg]
    · dsimp only
      rw [hloaded, hvalid]
      rfl
    · rw [not_or, not_not, Int.not_le]
      exact ⟨hready, hpos⟩

theorem FirstWaiting.found (h : FirstWaiting c i p) (hc : Synced c)
    (hready : (c.task.tasks i).state = .ready) : Fin.find? (resumable c) = some i := by
  rw [Fin.find?_eq_some_iff]
  refine ⟨(resumable_iff hc).mpr ⟨hready, p, h.find, h.waiting⟩, fun j hj => ?_⟩
  rw [Bool.eq_false_iff]
  intro hres
  obtain ⟨-, q, hq, hwait⟩ := (resumable_iff hc).mp hres
  exact absurd (h.least j q hwait hq) (not_le.mpr hj)

theorem exists_first (hfind : c.task.findSlotByPid pid = some j) (hwait : Waiting c pid) :
    ∃ i p, FirstWaiting c i p := by
  induction j using WellFoundedLT.induction generalizing pid with
  | ind j ih =>
      by_cases hlower : ∃ i < j, ∃ q, Waiting c q ∧ c.task.findSlotByPid q = some i
      · obtain ⟨i, hi, q, hq, hqfind⟩ := hlower
        exact ih i hi hqfind hq
      · refine ⟨j, pid, hfind, hwait, fun i q hq hqfind => ?_⟩
        by_contra hlt
        exact hlower ⟨i, not_le.mp hlt, q, hq, hqfind⟩

/-- Where the kernel's task has the processor, every waiting task is marked ready. -/
theorem ready_of_atKernel (hc : Synced c) (hk : AtKernel c)
    (hfind : c.task.findSlotByPid p = some i) (hwait : Waiting c p) :
    (c.task.tasks i).state = .ready := by
  have hrun := state_of_waiting hc hfind hwait
  obtain ⟨slot, -, hpid, -, halone⟩ := hk.current
  have hnot : (c.task.tasks i).state ≠ .running := by
    intro hrunning
    rw [← halone i hrunning, (occupied_of_find hfind).2] at hpid
    exact absurd hpid (Int.ne_of_gt hwait.1)
  revert hrun hnot
  cases (c.task.tasks i).state <;> simp [taskStatePhase]

/-! ## Slots that keep their keys -/

theorem SameSlots.find (h : SameSlots t t') : t'.findSlotByPid = t.findSlotByPid := by
  funext q
  unfold TaskTable.findSlotByPid SlotTable.indexOf
  simp only [h.keys]

theorem currentLive_of_ok (h : CurrentOk c) : CurrentLive c.task := by
  intro i hi
  obtain ⟨j, p, hj, hfind, -⟩ := h
  rw [hj] at hi
  rw [← Option.some.inj hi]
  exact live_of_findSlot hfind

theorem sameSlots_leave {st : TaskState} (ps : ProcState) (hst : st ≠ .unused)
    (hcur : CurrentLive c.task) : SameSlots c.task (leaveTask c pid st ps).task := by
  obtain ⟨hset, -⟩ := taskSetState_tame (c := c) pid hst hcur
  obtain ⟨hback, -⟩ := taskReturnToKernelMain_tame { taskSetState c pid st with
    proc := procSetState (taskSetState c pid st).proc pid ps }
  exact hset.slots.trans hback.slots

theorem sameSlots_stopSaved {st : TaskState} (ps : ProcState) (why : ExecStopReason)
    (hst : st ≠ .unused) (hcur : CurrentLive c.task) :
    SameSlots c.task (taskStopSaved c pid st ps why).2.task := by
  unfold taskStopSaved
  split
  · exact .refl _
  rename_i image _
  have hsnap := (sameTables_snapshot c pid image).task
  split
  · rename_i d hd
    rw [hd] at hsnap
    rw [hsnap]
    exact .refl _
  · rename_i d hd
    rw [hd] at hsnap
    rw [← hsnap] at hcur ⊢
    exact sameSlots_leave ps hst hcur

/-! ## One call -/

theorem Reachable.step (hs : Reachable b s) (hstep : Kernel.step b s e = some s') :
    Reachable b s' := by
  obtain ⟨s₀, es, hboot, hrun⟩ := hs
  refine ⟨s₀, es ++ [e], hboot, Runs.run_append_eq_some.mpr ⟨s, hrun, ?_⟩⟩
  exact Runs.run_cons_eq_some.mpr ⟨s', hstep, rfl⟩

theorem resumes_first (hs : Reachable b s) (hctl : s.ctl = .shell)
    (hfirst : FirstWaiting s.kernel.core i p)
    (hready : (s.kernel.core.task.tasks i).state = .ready) :
    ∃ s₁, step b s .autoResume = some s₁ ∧ s₁.ctl = .user p (.auto i) ∧
      SameWaiting s.kernel.core s₁.kernel.core := by
  have hsys := sysOk_of_reachable hs
  have hsynced := hsys.base.synced
  obtain ⟨hpos, hrunnable, image, himg, hloaded, hvalid⟩ := hfirst.waiting
  obtain ⟨k', henter, hok⟩ := stepOk_enter (.auto i) 0 (fun _ => none)
    ⟨image.output, image.cwd, b.mbi, b.magic⟩ hsys hctl hpos himg hloaded hvalid
    (Or.inl ⟨rfl, hrunnable⟩) fun j hj => by cases hj; exact hfirst.find
  have hpid := (occupied_of_find hfirst.find).2
  refine ⟨⟨k', .user p (.auto i)⟩, ?_, rfl, ?_⟩
  · unfold step
    rw [hctl]
    dsimp only
    unfold shellStep taskResumeNextReadyUser
    dsimp only
    rw [hfirst.found hsynced hready]
    dsimp only
    rw [hpid, himg]
    dsimp only
    rw [henter]
    dsimp only
    rw [hpid]
  · have hmove := hok.move
    rw [hctl] at hmove
    cases hmove with
    | resumed how found loaded valid slot fits resumed =>
        apply SameWaiting.of_same resumed.find _ resumed.image
        intro q
        rw [resumed.phase]
        split
        · rename_i hq
          rw [hq, hrunnable]
        · rfl

theorem yields_back (hs : Reachable b s) (hctl : s.ctl = .user p (.auto i))
    (hyield : s.kernel.core.ring3.regs.eax = sysYield)
    (hrunnable : procPhase s.kernel.core.proc p = .runnable)
    (hvalid : ∀ image, procGetImage s.kernel.core.proc p = some image →
      image.contextValid = true) :
    ∃ s', step b s .syscall = some s' ∧ s'.ctl = .shell ∧ AtKernel s'.kernel.core ∧
      SameWaiting s.kernel.core s'.kernel.core := by
  have hsys := sysOk_of_reachable hs
  have hcoherent := coherent_of_reachable hs
  have hrun := hsys.ctl
  rw [hctl] at hrun
  have hpos := hrun.1.pos
  obtain ⟨image, sl, hown, hslot⟩ := ownerOk_of_running hsys.base hrun.1
  let left : KState := s.kernel.setCore (returnToKernel (setStop
    (syscallSaveYieldContext s.kernel.core s.kernel.core.ring3.regs) 1))
  have hstub : syscallStub b.mach s.kernel = some (true, left) := by
    have hfrom : (decide (s.kernel.core.ring3.regs.cs &&& 3 = 3) ||
        s.kernel.core.ring3.active) = true := by
      rw [hown.active, Bool.or_true]
    have hexit : (sysYield : U32) ≠ sysExit := by decide
    have hret : (sysYield : U32) ≠ sysRetKernel := by decide
    unfold syscallStub
    simp only [hfrom, hyield, hexit, hret, false_and, and_self, if_true, if_false]
    rfl
  obtain ⟨c', hsaved, hstopped, -⟩ := stop_spec 1 .ready .ready .yielded hsys.base.synced
    hsys.base.kernel hown hslot s.kernel.core.ring3.regs (by decide) (by decide) rfl
  have hstop : taskRunUserStop left.core p = (some .yielded, c') := hsaved
  have hp : p ≠ 0 := by omega
  have hstates := taskRunUserStop_states (coherent_stub hown hcoherent hstub) hp
  rw [hstop] at hstates
  have htask : left.core.task = s.kernel.core.task := task_saveYield _ _
  have hslots : SameSlots left.core.task c'.task := by
    have hsame : SameSlots left.core.task
        (taskStopSaved left.core p .ready .ready .yielded).2.task := by
      apply sameSlots_stopSaved
      · decide
      · rw [htask]
        exact currentLive_of_ok hsys.current
    rwa [show taskStopSaved left.core p .ready .ready .yielded = (some .yielded, c') from hsaved]
      at hsame
  refine ⟨⟨left.setCore c', .shell⟩, ?_, rfl, hstates.2 (Option.some_ne_none _), ?_⟩
  · unfold step
    rw [hctl]
    dsimp only
    unfold userStep
    dsimp only
    rw [hstub]
    exact congrArg some (stopUser_eq (k := left) hstop)
  · refine ⟨?_, fun q => ?_⟩
    · rw [← htask]
      exact SameSlots.find hslots
    · change Waiting c' q ↔ Waiting s.kernel.core q
      unfold Waiting
      rw [hstopped.phase, hstopped.image]
      by_cases hq : q = p
      · rw [hq, if_pos rfl, if_pos rfl]
        constructor
        · rintro ⟨hpos, -, -⟩
          exact ⟨hpos, hrunnable, image, hown.found, hown.loaded, hvalid image hown.found⟩
        · rintro ⟨hpos, -, -⟩
          exact ⟨hpos, rfl, stoppedImage image s.kernel.core.ring3.regs, rfl, hown.loaded, rfl⟩
      · rw [if_neg hq, if_neg hq]

/-- A call whose task yields at once: it leaves the same task as the first that waits. -/
theorem call_first (hs : Reachable b s) (hctl : s.ctl = .shell)
    (hfirst : FirstWaiting s.kernel.core i p)
    (hready : (s.kernel.core.task.tasks i).state = .ready) :
    ∃ s', Reachable b s' ∧ s'.ctl = .shell ∧ FirstWaiting s'.kernel.core i p ∧
      (s'.kernel.core.task.tasks i).state = .ready ∧
      ∀ ps t, Calls b s' ps t → Calls b s (p :: ps) t := by
  obtain ⟨s₁, hresume, hctl₁, hsame₁⟩ := resumes_first hs hctl hfirst hready
  have hreach₁ := Reachable.step hs hresume
  have hfirst₁ := hfirst.same hsame₁
  let regs : UserContext := { eax := sysYield }
  let s₂ : Sys :=
    ⟨s₁.kernel.setCore (runUser s₁.kernel.core p regs s₁.kernel.core.mem), .user p (.auto i)⟩
  have huser : step b s₁ (.user regs s₁.kernel.core.mem) = some s₂ := by
    unfold step
    rw [hctl₁]
    rfl
  have hreach₂ := Reachable.step hreach₁ huser
  obtain ⟨-, hrunnable, image, himg, -, hvalid⟩ := hfirst₁.waiting
  have hcore : s₂.kernel.core.task = s₁.kernel.core.task ∧
      s₂.kernel.core.proc = s₁.kernel.core.proc ∧ s₂.kernel.core.ring3.regs = regs := by
    change (runUser s₁.kernel.core p regs s₁.kernel.core.mem).task = _ ∧
      (runUser s₁.kernel.core p regs s₁.kernel.core.mem).proc = _ ∧
      (runUser s₁.kernel.core p regs s₁.kernel.core.mem).ring3.regs = _
    unfold runUser
    rw [himg]
    exact ⟨rfl, rfl, rfl⟩
  obtain ⟨htask, hproc, hregs⟩ := hcore
  obtain ⟨s₃, hstop, hctl₃, hkernel, hsame₃⟩ := yields_back (s := s₂) hreach₂ rfl
    (by rw [hregs]) (by rw [hproc]; exact hrunnable) (by
      intro image' himg'
      rw [hproc, himg] at himg'
      rw [← Option.some.inj himg']
      exact hvalid)
  have hsame₂ : SameWaiting s₁.kernel.core s₂.kernel.core := by
    apply SameWaiting.of_same
    · rw [htask]
    · rw [hproc]
      exact fun _ => rfl
    · rw [hproc]
      exact fun _ => rfl
  have hreach₃ := Reachable.step hreach₂ hstop
  have hfirst₃ := (hfirst₁.same hsame₂).same hsame₃
  refine ⟨s₃, hreach₃, hctl₃, hfirst₃, ?_, fun ps t hcalls => ?_⟩
  · exact ready_of_atKernel (sysOk_of_reachable hreach₃).base.synced hkernel hfirst₃.find
      hfirst₃.waiting
  · have hstays : Runs.AllSteps (step b) (fun t _ => t.ctl = .user p (.auto i)) s₁
        [.user regs s₁.kernel.core.mem] := ⟨hctl₁, fun _ _ => True.intro⟩
    have hruns : Runs.run (step b) s₁ [.user regs s₁.kernel.core.mem] = some s₂ :=
      Runs.run_cons_eq_some.mpr ⟨s₂, huser, rfl⟩
    exact .call hresume hctl₁ hstays hruns rfl (by rw [hregs]) hstop hcalls

/-! ## The timer -/

theorem time_left (hs : Reachable b s) (hfirst : FirstWaiting s.kernel.core i p)
    (hrunning : (s.kernel.core.task.tasks i).state = .running) :
    s.kernel.core.task.currentIndex = some i ∧
      s.kernel.core.task.sliceTicks < schedTimesliceTicks := by
  have hcur := (coherent_of_reachable hs).only i hrunning
  refine ⟨hcur, (sliced_of_reachable hs).slice i hcur ?_⟩
  rw [(occupied_of_find hfirst.find).2]
  exact Int.ne_of_gt hfirst.waiting.1

/-- A process that is running when the shell has the processor is marked ready when its slice is
used up. -/
theorem slice_ends (n : Nat) (hs : Reachable b s) (hctl : s.ctl = .shell)
    (hfirst : FirstWaiting s.kernel.core i p)
    (hrunning : (s.kernel.core.task.tasks i).state = .running)
    (hn : schedTimesliceTicks ≤ s.kernel.core.task.sliceTicks + n) :
    ∃ s', Reachable b s' ∧ s'.ctl = .shell ∧ FirstWaiting s'.kernel.core i p ∧
      (s'.kernel.core.task.tasks i).state = .ready ∧
      ∀ ps t, Calls b s' ps t → Calls b s ps t := by
  induction n generalizing s with
  | zero => exact absurd hn (Nat.not_le.mpr (time_left hs hfirst hrunning).2)
  | succ n ih =>
      have hsys := sysOk_of_reachable hs
      obtain ⟨hcur, -⟩ := time_left hs hfirst hrunning
      let s₁ : Sys := ⟨s.kernel.setCore (schedulerOnTimerTick s.kernel.core), .shell⟩
      have htick : step b s .tick = some s₁ := by
        unfold step
        rw [hctl]
        rfl
      have hreach₁ := Reachable.step hs htick
      have hrepaint := (schedulerOnTimerTick_spec hsys.base.synced hsys.current).1
      have hfirst₁ : FirstWaiting s₁.kernel.core i p :=
        hfirst.same (.of_same hrepaint.find hrepaint.phase hrepaint.image)
      have hcalls : ∀ ps t, Calls b s₁ ps t → Calls b s ps t := fun ps t => .tick hctl htick
      rcases tick_cases s.kernel.core hcur with ⟨-, hstay⟩ | ⟨next, -, hready, hswitch⟩
      · have hcount : s₁.kernel.core.task = countTick s.kernel.core.task i := by
          change (schedulerOnTimerTick s.kernel.core).task = _
          rw [hstay]
        have hrunning₁ : (s₁.kernel.core.task.tasks i).state = .running := by
          rw [hcount, (countTick_keeps s.kernel.core.task i i).1]
          exact hrunning
        have hslice : s₁.kernel.core.task.sliceTicks = s.kernel.core.task.sliceTicks + 1 := by
          rw [hcount]
          unfold countTick
          rw [if_pos hrunning]
        obtain ⟨s', hs', hctl', hfirst', hready', hcalls'⟩ :=
          ih hreach₁ rfl hfirst₁ hrunning₁ (by rw [hslice]; omega)
        exact ⟨s', hs', hctl', hfirst', hready', fun ps t h => hcalls ps t (hcalls' ps t h)⟩
      · have hother : i ≠ next := by
          rintro rfl
          rw [(countTick_keeps s.kernel.core.task i i).1, hrunning] at hready
          cases hready
        refine ⟨s₁, hreach₁, rfl, hfirst₁, ?_, hcalls⟩
        change ((schedulerOnTimerTick s.kernel.core).task.tasks i).state = .ready
        rw [hswitch]
        change ((((countTick s.kernel.core.task i).setState i .ready).setState next
          .running).tasks i).state = .ready
        rw [state_setState next i .running, if_neg hother, state_setState i i .ready,
          if_pos rfl]

/-! ## Many calls -/

theorem calls_again (k : Nat) (hs : Reachable b s) (hctl : s.ctl = .shell)
    (hfirst : FirstWaiting s.kernel.core i p)
    (hready : (s.kernel.core.task.tasks i).state = .ready) :
    ∃ s', Calls b s (List.replicate k p) s' := by
  induction k generalizing s with
  | zero => exact ⟨s, .done s⟩
  | succ k ih =>
      obtain ⟨s₁, hs₁, hctl₁, hfirst₁, hready₁, hcall⟩ := call_first hs hctl hfirst hready
      obtain ⟨s', hcalls⟩ := ih hs₁ hctl₁ hfirst₁ hready₁
      exact ⟨s', hcall _ _ hcalls⟩

theorem exists_calls_again (k : Nat) (hs : Reachable b s) (hctl : s.ctl = .shell)
    (hres : resumable s.kernel.core j = true) :
    ∃ p s', Calls b s (List.replicate k p) s' := by
  have hsynced := (sysOk_of_reachable hs).base.synced
  obtain ⟨-, q, hq, hwait⟩ := (resumable_iff hsynced).mp hres
  obtain ⟨i, p, hfirst⟩ := exists_first hq hwait
  have hphase := state_of_waiting hsynced hfirst.find hfirst.waiting
  by_cases hrunning : (s.kernel.core.task.tasks i).state = .running
  · obtain ⟨s₁, hs₁, hctl₁, hfirst₁, hready₁, hticks⟩ :=
      slice_ends schedTimesliceTicks hs hctl hfirst hrunning (Nat.le_add_left _ _)
    obtain ⟨s', hcalls⟩ := calls_again k hs₁ hctl₁ hfirst₁ hready₁
    exact ⟨p, s', hticks _ _ hcalls⟩
  · have hready : (s.kernel.core.task.tasks i).state = .ready := by
      revert hphase hrunning
      cases (s.kernel.core.task.tasks i).state <;> simp [taskStatePhase]
    obtain ⟨s', hcalls⟩ := calls_again k hs hctl hfirst hready
    exact ⟨p, s', hcalls⟩

/-- Where `k` tasks wait to be resumed, the next `k` calls need not resume them all, unless there is
one only. -/
theorem resumesAll_iff (b : Boot) (s : Sys) (k : Nat) (hs : Reachable b s) (hctl : s.ctl = .shell)
    (hk : k ≤ (Finset.univ.filter fun i => resumable s.kernel.core i = true).card) :
    ResumesAll b s k ↔ k ≤ 1 := by
  constructor
  · intro hall
    by_contra hmany
    have hsome : 0 < (Finset.univ.filter fun i => resumable s.kernel.core i = true).card := by
      omega
    obtain ⟨j, hj⟩ := Finset.card_pos.mp hsome
    obtain ⟨p, s', hcalls⟩ := exists_calls_again k hs hctl (Finset.mem_filter.mp hj).2
    have hnodup := hall _ s' hcalls List.length_replicate
    exact hmany (List.nodup_replicate.mp hnodup)
  · intro hone ps s' _ hlength
    rcases ps with _ | ⟨p, _ | ⟨q, ps⟩⟩
    · exact List.nodup_nil
    · exact List.nodup_singleton p
    · rw [List.length_cons, List.length_cons] at hlength
      omega

theorem call_of_run {regs : UserContext} {bytes : ByteMem.Mem} {ps : List Int} {t : Sys}
    (hrun : Runs.run (step b) s [.autoResume, .user regs bytes, .syscall] = some s')
    (hentered : (Runs.run (step b) s [.autoResume]).map Sys.ctl = some (.user p (.auto i)))
    (hyields : (Runs.run (step b) s [.autoResume, .user regs bytes]).map (fun t =>
      (t.ctl, t.kernel.core.ring3.regs.eax)) = some (.user p (.auto i), sysYield))
    (rest : Calls b s' ps t) : Calls b s (p :: ps) t := by
  obtain ⟨s₁, hresume, hrun₁⟩ := Runs.run_cons_eq_some.mp hrun
  obtain ⟨s₂, huser, hrun₂⟩ := Runs.run_cons_eq_some.mp hrun₁
  obtain ⟨s₃, hstop, hdone⟩ := Runs.run_cons_eq_some.mp hrun₂
  obtain rfl := Option.some.inj hdone
  have hfirst : Runs.run (step b) s [.autoResume] = some s₁ :=
    Runs.run_cons_eq_some.mpr ⟨s₁, hresume, rfl⟩
  have hsecond : Runs.run (step b) s₁ [.user regs bytes] = some s₂ :=
    Runs.run_cons_eq_some.mpr ⟨s₂, huser, rfl⟩
  rw [hfirst] at hentered
  rw [Runs.run_cons_eq_some.mpr ⟨s₁, hresume, hsecond⟩] at hyields
  obtain ⟨hstill, heax⟩ := Prod.mk.inj (Option.some.inj hyields)
  have hctl := Option.some.inj hentered
  have hstays : Runs.AllSteps (step b) (fun t _ => t.ctl = .user p (.auto i)) s₁
      [.user regs bytes] := ⟨hctl, fun _ _ => True.intro⟩
  exact .call hresume hctl hstays hsecond hstill heax hstop rest

/-- Two programs have been started, and each has yielded once. -/
def twoWaiting : List Event :=
  demoLaunch :: demoCall sysYield 0 (fun _ => 0) ++ demoLaunch :: demoCall sysYield 0 fun _ => 0

/-- A single call cannot resume a task twice. -/
theorem resumesAll_one : ∃ s, demoRun twoWaiting = some s ∧ ResumesAll demoBoot s 1 := by
  have hview : (demoRun twoWaiting).map (fun s => (s.ctl,
      (Finset.univ.filter fun i => resumable s.kernel.core i = true).card)) = some (.shell, 2) := by
    decide +kernel
  obtain ⟨s, hs, hfacts⟩ := exists_of_demoRun hview
  obtain ⟨hctl, hcard⟩ : _ ∧ _ := by simpa only [Prod.mk.injEq] using hfacts
  have hk : 1 ≤ (Finset.univ.filter fun i => resumable s.kernel.core i = true).card := by
    rw [hcard]
    decide
  exact ⟨s, hs, (resumesAll_iff demoBoot s 1 (reachable_of_demoRun hs) hctl hk).mpr le_rfl⟩

/-- A call of the kernel's loop, and a task that yields as soon as it runs. -/
def again : List Event := .autoResume :: demoCall sysYield 0 fun _ => 0

/-- What the two calls of `again` show. -/
def shown (s : Sys) : Option (Ctl × U32) :=
  (Runs.run (step demoBoot) s [.autoResume, .user { eax := sysYield, cs := 0x1B } fun _ => 0]).map
    fun t => (t.ctl, t.kernel.core.ring3.regs.eax)

/-- Two tasks wait, and one of them is resumed twice. -/
theorem not_resumesAll_two : ∃ s s', demoRun twoWaiting = some s ∧ s.ctl = .shell ∧
    (Finset.univ.filter fun i => resumable s.kernel.core i = true).card = 2 ∧
    Calls demoBoot s [3, 3] s' ∧ ¬ResumesAll demoBoot s 2 := by
  have hview : (demoRun twoWaiting).map (fun s => (s.ctl,
      (Finset.univ.filter fun i => resumable s.kernel.core i = true).card,
      (Runs.run (step demoBoot) s [.autoResume]).map Sys.ctl, shown s)) =
      some (.shell, 2, some (.user 3 (.auto 3)), some (.user 3 (.auto 3), sysYield)) := by
    decide +kernel
  have hview₁ : (demoRun (twoWaiting ++ again)).map (fun s =>
      ((Runs.run (step demoBoot) s [.autoResume]).map Sys.ctl, shown s)) =
      some (some (.user 3 (.auto 3)), some (.user 3 (.auto 3), sysYield)) := by
    decide +kernel
  have hview₂ : (demoRun (twoWaiting ++ again ++ again)).map Sys.ctl = some .shell := by
    decide +kernel
  obtain ⟨s, hs, hfacts⟩ := exists_of_demoRun hview
  obtain ⟨hctl, hcard, hentered, hyields⟩ : _ ∧ _ ∧ _ ∧ _ := by
    simpa only [Prod.mk.injEq] using hfacts
  obtain ⟨s₁, hs₁, hfacts₁⟩ := exists_of_demoRun hview₁
  obtain ⟨hentered₁, hyields₁⟩ : _ ∧ _ := by simpa only [Prod.mk.injEq] using hfacts₁
  obtain ⟨s₂, hs₂, -⟩ := exists_of_demoRun hview₂
  have hsplit : ∀ {es u v}, demoRun es = some u → demoRun (es ++ again) = some v →
      Runs.run (step demoBoot) u again = some v := by
    intro es u v hu hv
    obtain ⟨s₀, hboot, hrun⟩ := Option.bind_eq_some_iff.mp hu
    obtain ⟨s₀', hboot', hrun'⟩ := Option.bind_eq_some_iff.mp hv
    rw [hboot] at hboot'
    obtain rfl := Option.some.inj hboot'
    rw [Runs.run_append, hrun] at hrun'
    exact hrun'
  have hcalls : Calls demoBoot s [3, 3] s₂ :=
    call_of_run (hsplit hs hs₁) hentered hyields
      (call_of_run (hsplit hs₁ hs₂) hentered₁ hyields₁ (.done s₂))
  refine ⟨s, s₂, hs, hctl, hcard, hcalls, fun hall => ?_⟩
  have hnodup := hall [3, 3] s₂ hcalls rfl
  exact absurd hnodup (by decide)

end SlopOS.Proofs.ResumeOrder
