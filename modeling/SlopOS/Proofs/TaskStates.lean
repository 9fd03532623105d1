import SlopOS.Proofs.Scheduling
/-!
# States in the two tables

`Repaint` does not tell `READY` from `RUNNING`.  Here the states of a pid are
compared as they stand: they are the same in both tables, and only the current
task is `RUNNING`.
-/

namespace SlopOS.Proofs.TaskStates

open SlopOS.Support SlopOS.Kernel SlopOS.Proofs.Tables SlopOS.Proofs.Scheduling

def procOfTask : TaskState → ProcState
  | .unused => .unused
  | .ready => .ready
  | .running => .running
  | .blocked => .blocked
  | .zombie => .zombie

def taskStateOf (t : TaskTable) (pid : Int) : TaskState :=
  match t.findSlotByPid pid with
  | none => .unused
  | some slot => (t.tasks slot).state

structure Coherent (c : Core) : Prop where
  synced : Synced c
  kernel : procPhase c.proc 0 = .runnable
  same : ∀ p, procStateOf c.proc p = procOfTask (taskStateOf c.task p)
  only : ∀ i, (c.task.tasks i).state = .running → c.task.currentIndex = some i

/-- The kernel task has the processor. -/
structure AtKernel (c : Core) : Prop where
  current : ∃ i, c.task.currentIndex = some i ∧ (c.task.tasks i).pid = 0 ∧
    (c.task.tasks i).state = .running ∧ ∀ j, (c.task.tasks j).state = .running → j = i
  proc : procStateOf c.proc 0 = .running

variable {c c' : Core} {pid p q : Int} {slot : Fin maxTasks} {t : TaskTable}

@[simp] theorem procOfTask_eq_unused {st : TaskState} : procOfTask st = .unused ↔ st = .unused := by
  cases st <;> simp [procOfTask]

theorem procStatePhase_procOfTask (st : TaskState) :
    procStatePhase (procOfTask st) = taskStatePhase st := by
  cases st <;> rfl

theorem taskStateOf_of_find (h : t.findSlotByPid pid = some slot) :
    taskStateOf t pid = (t.tasks slot).state := by
  simp [taskStateOf, h]

/-! ## Writing a state -/

theorem taskStateOf_setState {st : TaskState} (hst : st ≠ .unused)
    (h : t.findSlotByPid pid = some slot) :
    taskStateOf (t.setState slot st) q = if q = pid then st else taskStateOf t q := by
  have hocc := (taskKey_eq_some.mp (taskKey_of_find h)).1
  unfold taskStateOf
  rw [find_setState hst hocc]
  by_cases hq : q = pid
  · rw [if_pos hq, hq, h]
    simp [TaskTable.setState, TaskTable.setTask]
  · rw [if_neg hq]
    cases hq' : t.findSlotByPid q with
    | none => rfl
    | some slot' =>
        have hne : slot' ≠ slot := by
          rintro rfl
          exact hq (SlotTable.indexOf_inj hq' h)
        simp [TaskTable.setState, TaskTable.setTask, hne]

theorem live_of_find (h : Synced c) (hfind : c.task.findSlotByPid pid = some slot) :
    procPhase c.proc pid ≠ .dead := by
  rw [← h.sync]
  exact taskPhase_ne_dead_iff.mpr ⟨slot, hfind⟩

theorem same_paint (h : Synced c) (hsame : ∀ p, procStateOf c.proc p = procOfTask (taskStateOf c.task p))
    (hfind : c.task.findSlotByPid pid = some slot) {st : TaskState} (hst : st ≠ .unused) :
    ∀ p, procStateOf (paint c slot pid st (procOfTask st)).proc p =
      procOfTask (taskStateOf (paint c slot pid st (procOfTask st)).task p) := by
  intro p
  have hproc : procOfTask st ≠ .unused := fun h => hst (procOfTask_eq_unused.mp h)
  change procStateOf (procSetState c.proc pid (procOfTask st)) p =
    procOfTask (taskStateOf (c.task.setState slot st) p)
  rw [procStateOf_procSetState hproc (live_of_find h hfind), taskStateOf_setState hst hfind]
  split
  · rfl
  · exact hsame p

theorem Coherent.ofSame (h : Coherent c) (ht : c'.task.tasks = c.task.tasks)
    (hi : c'.task.currentIndex = c.task.currentIndex) (hp : c'.proc.procs = c.proc.procs) :
    Coherent c' := by
  have hfind : c'.proc.findSlotByPid = c.proc.findSlotByPid := by
    unfold ProcTable.findSlotByPid
    rw [hp]
  have hstate : ∀ q, procStateOf c'.proc q = procStateOf c.proc q := by
    intro q
    unfold procStateOf
    rw [hfind, hp]
  have hphase : ∀ q, procPhase c'.proc q = procPhase c.proc q := fun q => by
    unfold procPhase
    rw [hstate]
  have hslot : c'.task.findSlotByPid = c.task.findSlotByPid := by
    unfold TaskTable.findSlotByPid
    rw [ht]
  refine ⟨⟨?_, ?_, fun q => ?_⟩, ?_, fun q => ?_, ?_⟩
  · rw [hp]
    exact h.synced.procs
  · rw [ht]
    exact h.synced.tasks
  · rw [hphase, ← h.synced.sync]
    unfold taskPhase
    rw [hslot, ht]
  · rw [hphase]
    exact h.kernel
  · rw [hstate, h.same]
    unfold taskStateOf
    rw [hslot, ht]
  · rw [ht, hi]
    exact h.only

/-! ## The functions of `task.c` -/

theorem coherent_paint (h : Coherent c) (hfind : c.task.findSlotByPid pid = some slot)
    {st : TaskState} (hst : st ≠ .unused) (hrun : st ≠ .running)
    (hkernel : pid = 0 → taskStatePhase st = .runnable) :
    Coherent (paint c slot pid st (procOfTask st)) := by
  have hre := paint_repaint st (procOfTask st) h.synced hfind hst
    (procStatePhase_procOfTask st).symm
  refine ⟨hre.synced, ?_, same_paint h.synced h.same hfind hst, fun i hi => ?_⟩
  · rw [hre.phase]
    by_cases h0 : pid = 0
    · rw [h0, Function.update_self, procStatePhase_procOfTask]
      exact hkernel h0
    · rw [Function.update_of_ne (Ne.symm h0)]
      exact h.kernel
  · change ((c.task.setState slot st).tasks i).state = .running at hi
    rw [state_setState] at hi
    split at hi
    · exact absurd hi hrun
    · exact h.only i hi

theorem running_demoteCurrent
    (honly : ∀ i, (c.task.tasks i).state = .running → c.task.currentIndex = some i)
    (slot : Fin maxTasks) :
    ∀ i, ((demoteCurrent c slot).task.tasks i).state = .running → i = slot := by
  intro i hi
  unfold demoteCurrent at hi
  split at hi
  · rename_i hnone
    rw [honly i hi] at hnone
    cases hnone
  rename_i cur hcur
  have hindex : ∀ i, (c.task.tasks i).state = .running → i = cur := fun i hi =>
    (Option.some.inj (hcur.symm.trans (honly i hi))).symm
  split at hi
  · change ((c.task.setState cur .ready).tasks i).state = .running at hi
    rw [state_setState] at hi
    split at hi
    · cases hi
    · rename_i hne
      exact absurd (hindex i hi) hne
  · rename_i hkeep
    obtain rfl := hindex i hi
    by_contra hne
    exact hkeep ⟨hne, hi⟩

theorem coherent_demoteCurrent (h : Coherent c) (slot : Fin maxTasks) :
    Coherent (demoteCurrent c slot) := by
  unfold demoteCurrent
  split
  · exact h
  split
  · rename_i hdemote
    have hfind := find_of_occupied h.synced _ (by rw [hdemote.2]; decide)
    exact coherent_paint h hfind (by decide) (by decide) fun _ => rfl
  · exact h

theorem demoteCurrent_spec (h : Coherent c) (slot : Fin maxTasks) :
    Coherent (demoteCurrent c slot) ∧
      ∀ i, ((demoteCurrent c slot).task.tasks i).state = .running → i = slot :=
  ⟨coherent_demoteCurrent h slot, running_demoteCurrent h.only slot⟩

/-- Slot `slot`, of process `pid`, is current, running, and the only one that is. -/
structure RunsAlone (c : Core) (slot : Fin maxTasks) (pid : Int) : Prop where
  find : c.task.findSlotByPid pid = some slot
  current : c.task.currentIndex = some slot
  running : (c.task.tasks slot).state = .running
  alone : ∀ i, (c.task.tasks i).state = .running → i = slot

theorem makeCurrent_spec (h : Coherent c) (hfind : c.task.findSlotByPid pid = some slot)
    (halone : ∀ i, (c.task.tasks i).state = .running → i = slot) :
    Coherent (makeCurrent c slot) ∧ RunsAlone (makeCurrent c slot) slot pid := by
  have hpid := (occupied_of_find hfind).2
  have hre := makeCurrent_repaint h.synced hfind
  have hpaint := same_paint h.synced h.same hfind (show TaskState.running ≠ .unused by decide)
  have hrunning : ∀ i, ((makeCurrent c slot).task.tasks i).state = .running → i = slot := by
    intro i hi
    change ((c.task.setState slot .running).tasks i).state = .running at hi
    rw [state_setState] at hi
    split at hi
    · assumption
    · exact halone i hi
  refine ⟨⟨hre.synced, ?_, fun p => ?_, fun i hi => ?_⟩, ⟨?_, rfl, ?_, hrunning⟩⟩
  · rw [hre.phase]
    by_cases h0 : pid = 0
    · rw [h0, Function.update_self]
    · rw [Function.update_of_ne (Ne.symm h0)]
      exact h.kernel
  · unfold makeCurrent
    rw [hpid]
    exact hpaint p
  · rw [hrunning i hi]
    rfl
  · exact (congrFun hre.find pid).trans hfind
  · change ((c.task.setState slot .running).tasks slot).state = .running
    rw [state_setState, if_pos rfl]

theorem atKernel_of_runsAlone (h : Coherent c) (hr : RunsAlone c slot 0) : AtKernel c := by
  refine ⟨⟨slot, hr.current, (occupied_of_find hr.find).2, hr.running, hr.alone⟩, ?_⟩
  rw [h.same, taskStateOf_of_find hr.find, hr.running]
  rfl

theorem taskReturnToKernelMain_states (h : Coherent c) :
    Coherent (taskReturnToKernelMain c) ∧ AtKernel (taskReturnToKernelMain c) := by
  obtain ⟨slot, hfind⟩ : ∃ slot, c.task.findSlotByPid 0 = some slot := by
    rw [← taskPhase_ne_dead_iff, h.synced.sync, h.kernel]
    decide
  unfold taskReturnToKernelMain
  rw [hfind]
  obtain ⟨hdem, halone⟩ := demoteCurrent_spec h slot
  have hfind' : (demoteCurrent c slot).task.findSlotByPid 0 = some slot := by
    rw [(demoteCurrent_repaint h.synced slot).find, hfind]
  obtain ⟨hmake, hruns⟩ := makeCurrent_spec hdem hfind' halone
  exact ⟨hmake, atKernel_of_runsAlone hmake hruns⟩

/-- A state other than `RUNNING` for a process other than the kernel's, in both tables. -/
theorem setBoth_states (h : Coherent c) {st : TaskState} (hst : st ≠ .unused) (hrun : st ≠ .running)
    (hkernel : pid = 0 → taskStatePhase st = .runnable) :
    Coherent { taskSetState c pid st with
      proc := procSetState (taskSetState c pid st).proc pid (procOfTask st) } := by
  unfold taskSetState
  cases hfind : c.task.findSlotByPid pid with
  | none =>
      have hnone : c.proc.findSlotByPid pid = none := by
        rw [← procPhase_eq_dead_iff, ← h.synced.sync]
        exact taskPhase_of_find_none hfind
      have hsame : procSetState c.proc pid (procOfTask st) = c.proc := by
        unfold procSetState
        rw [hnone]
      dsimp only
      rw [hsame]
      exact h
  | some slot =>
      dsimp only
      rw [if_neg hrun]
      exact coherent_paint h hfind hst hrun hkernel

theorem setRunning_states (h : Coherent c) (hlive : procPhase c.proc pid ≠ .dead) :
    ∃ slot, Coherent { taskSetState c pid .running with
        proc := procSetState (taskSetState c pid .running).proc pid .running } ∧
      RunsAlone { taskSetState c pid .running with
        proc := procSetState (taskSetState c pid .running).proc pid .running } slot pid := by
  obtain ⟨slot, hfind⟩ : ∃ slot, c.task.findSlotByPid pid = some slot := by
    rw [← taskPhase_ne_dead_iff, h.synced.sync]
    exact hlive
  obtain ⟨hdem, halone⟩ := demoteCurrent_spec h slot
  have hfind' : (demoteCurrent c slot).task.findSlotByPid pid = some slot := by
    rw [(demoteCurrent_repaint h.synced slot).find, hfind]
  have hpid := (occupied_of_find hfind').2
  have hset : taskSetState c pid .running = makeCurrent (demoteCurrent c slot) slot := by
    unfold taskSetState makeCurrent
    simp only [hfind, if_true]
    rw [hpid]
  obtain ⟨hmake, hruns⟩ := makeCurrent_spec hdem hfind' halone
  have hre := (setRunning_spec h.synced hlive).1
  rw [hset] at hre ⊢
  have hlive' := live_of_find hmake.synced hruns.find
  have hstate : procStateOf (makeCurrent (demoteCurrent c slot) slot).proc pid = .running := by
    rw [hmake.same, taskStateOf_of_find hruns.find, hruns.running]
    rfl
  refine ⟨slot, ⟨hre.synced, ?_, fun p => ?_, hmake.only⟩,
    ⟨hruns.find, hruns.current, hruns.running, hruns.alone⟩⟩
  · rw [hre.phase]
    by_cases h0 : pid = 0
    · rw [h0, Function.update_self]
    · rw [Function.update_of_ne (Ne.symm h0)]
      exact h.kernel
  · rw [procStateOf_procSetState (by decide) hlive']
    split
    · rename_i hp
      rw [hp, taskStateOf_of_find hruns.find]
      exact (congrArg procOfTask hruns.running).symm
    · exact hmake.same p

/-! ## The timer -/

theorem countTick_states (h : Coherent c) (cur : Fin maxTasks) :
    Coherent { c with task := countTick c.task cur } := by
  have hindex : (countTick c.task cur).currentIndex = c.task.currentIndex := by
    unfold countTick
    split <;> rfl
  refine ⟨(countTick_repaint h.synced cur).synced, h.kernel, fun p => ?_, fun i hi => ?_⟩
  · rw [h.same]
    unfold taskStateOf
    dsimp only
    rw [find_countTick]
    simp only [countTick_keeps]
  · change ((countTick c.task cur).tasks i).state = .running at hi
    rw [(countTick_keeps c.task cur i).1] at hi
    exact hindex.trans (h.only i hi)

theorem switchTask_states {cur next : Fin maxTasks} (h : Coherent c)
    (hindex : c.task.currentIndex = some cur) (hfind : c.task.findSlotByPid pid = some cur)
    (hready : (c.task.tasks next).state = .ready) : Coherent (switchTask c cur next) := by
  have hpid := (occupied_of_find hfind).2
  have hnext := find_of_occupied h.synced next (by rw [hready]; decide)
  -- the old task was the only one that could be running
  have hidle := coherent_paint h hfind (show TaskState.ready ≠ .unused by decide) (by decide) fun _ => rfl
  have hnone : ∀ i, ((c.task.setState cur .ready).tasks i).state = .running → i = next := by
    intro i hi
    rw [state_setState] at hi
    split at hi
    · cases hi
    · rename_i hne
      have hcur := h.only i hi
      rw [hindex] at hcur
      exact absurd (Option.some.inj hcur).symm hne
  have hre := paint_repaint .ready .ready h.synced hfind (by decide) rfl
  have hfind' : (c.task.setState cur .ready).findSlotByPid (c.task.tasks next).pid = some next :=
    (congrFun hre.find _).trans hnext
  have hmake := (makeCurrent_spec hidle hfind' hnone).1
  refine hmake.ofSame rfl rfl ?_
  unfold switchTask makeCurrent paint procOfTask
  dsimp only
  rw [hpid, pid_setState]

theorem schedulerOnTimerTick_states (h : Coherent c) (hcur : CurrentOk c) :
    Coherent (schedulerOnTimerTick c) := by
  obtain ⟨cur, p, hindex, hfind, -⟩ := hcur
  have hcount := countTick_states h cur
  have hindex' : (countTick c.task cur).currentIndex = some cur := by
    unfold countTick
    split <;> exact hindex
  have hfind' : (countTick c.task cur).findSlotByPid p = some cur := by
    rw [find_countTick, hfind]
  unfold schedulerOnTimerTick
  simp only [hindex]
  split
  · exact hcount
  split
  · exact hcount
  split
  · exact hcount
  · rename_i next hnext
    exact switchTask_states hcount hindex' hfind' (ready_of_nextReady hnext)

/-! ## Leaving and dying -/

theorem leaveTask_states (h : Coherent c) {st : TaskState} (hpid : pid ≠ 0) (hst : st ≠ .unused)
    (hrun : st ≠ .running) :
    Coherent (leaveTask c pid st (procOfTask st)) ∧
      AtKernel (leaveTask c pid st (procOfTask st)) :=
  taskReturnToKernelMain_states (setBoth_states h hst hrun fun h0 => absurd h0 hpid)

theorem procStateOf_exit_reap {t t' : ProcTable} {code r : Int}
    (hd : SlotTable.Distinct ProcessInfo.key t.procs) (hlive : procPhase t pid ≠ .dead)
    (hreap : procReapPid (procExit t pid code) pid = some (r, t')) :
    procStateOf t' q = if q = pid then .unused else procStateOf t q := by
  obtain ⟨slot, h⟩ := procPhase_ne_dead_iff.mp hlive
  have hprocs : t'.procs = Function.update t.procs slot emptyProcess := by
    unfold procReapPid at hreap
    rw [find_procExit, h, procExit_eq code h] at hreap
    dsimp only at hreap
    split at hreap
    · cases hreap
      exact Function.update_idem _ _ _
    · cases hreap
  exact procStateOf_free hd h hprocs

theorem taskStateOf_freeTask (h : Synced c) (hfind : c.task.findSlotByPid pid = some slot) :
    taskStateOf (freeTask c.task slot) q = if q = pid then .unused else taskStateOf c.task q := by
  unfold taskStateOf
  rw [(freeTask_spec h hfind).2.1 q]
  by_cases hq : q = pid
  · rw [if_pos hq, if_pos hq]
  · rw [if_neg hq, if_neg hq]
    cases hs : c.task.findSlotByPid q with
    | none => rfl
    | some slot' =>
        have hne : slot' ≠ slot := by
          rintro rfl
          exact hq (SlotTable.indexOf_inj hs hfind)
        simp [freeTask, TaskTable.setTask, hne]

theorem exitAndReap_dead (code : Int) (h : Synced c) (hdead : procPhase c.proc pid = .dead) :
    exitAndReap c pid code = c := by
  have hproc := procPhase_eq_dead_iff.mp hdead
  have htask : c.task.findSlotByPid pid = none := by
    by_contra hne
    obtain ⟨i, hi⟩ := Option.ne_none_iff_exists'.mp hne
    exact live_of_find h hi hdead
  unfold exitAndReap procReapPid taskReapPid procExit
  simp only [hproc, htask]

theorem exitAndReap_states (code : Int) (h : Coherent c) (hpid : pid ≠ 0) :
    Coherent (exitAndReap c pid code) := by
  by_cases hdead : procPhase c.proc pid = .dead
  · rw [exitAndReap_dead code h.synced hdead]
    exact h
  have hlive : procPhase c.proc pid ≠ .dead := hdead
  obtain ⟨slot, hfind⟩ : ∃ slot, c.task.findSlotByPid pid = some slot := by
    rw [← taskPhase_ne_dead_iff, h.synced.sync]
    exact hlive
  have hgone := removed_gone code h.synced hlive hfind
  have hsame : ∀ q, procStateOf (removed c pid code slot).proc q =
      procOfTask (taskStateOf (freeTask c.task slot) q) := by
    intro q
    obtain ⟨r, t, hreap, -⟩ := exit_reap_spec code h.synced.procs hlive
    have hproc : (removed c pid code slot).proc = t := by
      unfold removed reapProc
      rw [hreap]
    rw [hproc, procStateOf_exit_reap h.synced.procs hlive hreap, taskStateOf_freeTask h.synced hfind]
    split
    · rfl
    · exact h.same q
  have hkernel : procPhase (removed c pid code slot).proc 0 = .runnable := by
    rw [hgone.phase, if_neg hpid.symm]
    exact h.kernel
  have hstate : ∀ i, ((freeTask c.task slot).tasks i).state = .running →
      i ≠ slot ∧ (c.task.tasks i).state = .running := by
    intro i hi
    by_cases his : i = slot
    · rw [his] at hi
      simp [freeTask, TaskTable.setTask, emptyTask] at hi
    · simp only [freeTask, TaskTable.setTask, Function.update_of_ne his] at hi
      exact ⟨his, hi⟩
  have hmid : Coherent (removed c pid code slot) :=
    ⟨hgone.synced, hkernel, hsame, fun i hi => h.only i (hstate i hi).2⟩
  rw [exitAndReap_eq code hfind]
  split
  · exact (taskReturnToKernelMain_states hmid).1
  · exact hmid

/-! ## Being born -/

theorem taskSpawn_states {dflt : CStr} {name : Option CStr} {ppid : Int} (h : Coherent c)
    (hzombie : ∀ p, procPhase c.proc p ≠ .zombie)
    (hfresh : procPhase c.proc c.proc.nextPid = .dead)
    (hspawn : taskSpawn dflt c name ppid = some (pid, c')) : Coherent c' := by
  have hborn := taskSpawn_spec h.synced hzombie hfresh hspawn
  have hpid0 : (0 : Int) ≠ pid := by
    rintro rfl
    have hdead := h.kernel
    rw [hborn.pid_eq, hfresh] at hdead
    cases hdead
  unfold taskSpawn at hspawn
  split at hspawn
  · cases hspawn
  rename_i slot hslot
  split at hspawn
  · cases hspawn
  rename_i pid' proc hproc
  cases hspawn
  have hidle : (c.task.tasks slot).state ≠ .running := by
    intro hrun
    have hfree := (Fin.find?_eq_some_iff.mp hslot).1
    rw [hrun] at hfree
    cases hfree
  let info : TaskInfo := ⟨pid, ppid, .ready, 0, strCopy (name.getD dflt) 16⟩
  refine ⟨hborn.synced, ?_, fun q => ?_, fun i hi => ?_⟩
  · rw [hborn.phase, if_neg hpid0]
    exact h.kernel
  · change procStateOf proc q = procOfTask (taskStateOf (c.task.setTask slot info) q)
    rw [procStateOf_spawn (procPhase_eq_dead_iff.mp hfresh) hproc]
    have hnew : (c.task.setTask slot info).findSlotByPid pid = some slot := by
      apply hborn.synced.tasks.indexOf_eq_some.mpr
      simp [TaskTable.setTask, TaskInfo.key]
    by_cases hq : q = pid
    · rw [if_pos hq, hq, taskStateOf_of_find hnew]
      simp [TaskTable.setTask, info, procOfTask]
    · rw [if_neg hq, h.same]
      have hold : (c.task.setTask slot info).findSlotByPid q = c.task.findSlotByPid q :=
        hborn.find q hq
      unfold taskStateOf
      rw [← hold]
      cases hs : (c.task.setTask slot info).findSlotByPid q with
      | none => rfl
      | some slot' =>
          have hne : slot' ≠ slot := by
            rintro rfl
            exact hq (SlotTable.indexOf_inj hs hnew)
          simp [TaskTable.setTask, Function.update_of_ne hne]
  · change ((c.task.setTask slot info).tasks i).state = .running at hi
    by_cases his : i = slot
    · rw [his] at hi
      simp [TaskTable.setTask, info] at hi
    · simp only [TaskTable.setTask, Function.update_of_ne his] at hi
      exact h.only i hi

end SlopOS.Proofs.TaskStates
