import SlopOS.Kernel.Exec
import SlopOS.Proofs.Mail
/-!
# The functions of `task.c` as changes of phase

A state change in the two tables is described by the phases it leaves
(`Repaint`); slots, images and everything outside the tables stay.  Most of the
scheduler leaves every phase as it is.
-/

namespace SlopOS.Proofs.Scheduling

open SlopOS.Support SlopOS.Kernel SlopOS.Proofs.Tables

/-- The two tables hold the same pids, in the same phases. -/
structure Synced (c : Core) : Prop where
  procs : SlotTable.Distinct ProcessInfo.key c.proc.procs
  tasks : SlotTable.Distinct TaskInfo.key c.task.tasks
  sync : ∀ p, taskPhase c.task p = procPhase c.proc p

structure Repaint (c c' : Core) (phase : Int → Phase) : Prop where
  ipc : c'.ipc = c.ipc
  elf : c'.elf = c.elf
  ring3 : c'.ring3 = c.ring3
  mem : c'.mem = c.mem
  nextPid : c'.proc.nextPid = c.proc.nextPid
  image : ∀ q, procGetImage c'.proc q = procGetImage c.proc q
  find : c'.task.findSlotByPid = c.task.findSlotByPid
  synced : Synced c'
  phase : ∀ q, procPhase c'.proc q = phase q

/-- The current task is a live one that is not blocked. -/
def CurrentOk (c : Core) : Prop :=
  ∃ i p, c.task.currentIndex = some i ∧ c.task.findSlotByPid p = some i ∧
    procPhase c.proc p = .runnable

variable {c c' c'' : Core} {f g : Int → Phase} {pid : Int} {slot : Fin maxTasks}

theorem Repaint.refl (h : Synced c) : Repaint c c (procPhase c.proc) :=
  ⟨rfl, rfl, rfl, rfl, rfl, fun _ => rfl, rfl, h, fun _ => rfl⟩

theorem Repaint.trans (h : Repaint c c' f) (h' : Repaint c' c'' g) : Repaint c c'' g where
  ipc := h'.ipc.trans h.ipc
  elf := h'.elf.trans h.elf
  ring3 := h'.ring3.trans h.ring3
  mem := h'.mem.trans h.mem
  nextPid := h'.nextPid.trans h.nextPid
  image q := (h'.image q).trans (h.image q)
  find := h'.find.trans h.find
  synced := h'.synced
  phase := h'.phase

theorem Repaint.congr (h : Repaint c c' f) (hfg : ∀ q, f q = g q) : Repaint c c' g :=
  { h with phase := fun q => (h.phase q).trans (hfg q) }

theorem occupied_of_find (h : c.task.findSlotByPid pid = some slot) :
    (c.task.tasks slot).state ≠ .unused ∧ (c.task.tasks slot).pid = pid :=
  taskKey_eq_some.mp (taskKey_of_find h)

theorem find_of_occupied (h : Synced c) (slot : Fin maxTasks)
    (hocc : (c.task.tasks slot).state ≠ .unused) :
    c.task.findSlotByPid (c.task.tasks slot).pid = some slot :=
  h.tasks.indexOf_eq_some.mpr (taskKey_eq_some.mpr ⟨hocc, rfl⟩)

/-! ## Writing one state into both tables -/

/-- Slot `slot` of the task table and the process of the same pid take states of
one phase. -/
def paint (c : Core) (slot : Fin maxTasks) (pid : Int) (task : TaskState) (proc : ProcState) :
    Core :=
  { c with task := c.task.setState slot task, proc := procSetState c.proc pid proc }

theorem paint_repaint (task : TaskState) (proc : ProcState) (h : Synced c)
    (hfind : c.task.findSlotByPid pid = some slot) (ht : task ≠ .unused)
    (hp : taskStatePhase task = procStatePhase proc) :
    Repaint c (paint c slot pid task proc)
      (Function.update (procPhase c.proc) pid (procStatePhase proc)) := by
  have hocc := (occupied_of_find hfind).1
  have hproc : proc ≠ .unused := by
    rintro rfl
    exact ht (taskStatePhase_eq_dead.mp hp)
  have hlive : procPhase c.proc pid ≠ .dead := by
    rw [← h.sync]
    exact taskPhase_ne_dead_iff.mpr ⟨slot, hfind⟩
  have hphase : ∀ q, procPhase (procSetState c.proc pid proc) q =
      Function.update (procPhase c.proc) pid (procStatePhase proc) q := by
    intro q
    rw [procPhase_procSetState hproc]
    by_cases hq : q = pid
    · subst hq
      simp [hlive]
    · simp [hq]
  refine ⟨rfl, rfl, rfl, rfl, nextPid_procSetState proc,
    fun q => procGetImage_procSetState hproc, find_setState ht hocc, ⟨?_, ?_, ?_⟩, hphase⟩
  · exact distinct_procSetState hproc h.procs
  · exact distinct_setState ht hocc h.tasks
  · intro q
    change taskPhase (c.task.setState slot task) q = procPhase (procSetState c.proc pid proc) q
    rw [taskPhase_setState ht hocc, hphase q]
    by_cases hq : q = pid
    · subst hq
      simp [hfind, hp]
    · have hne : c.task.findSlotByPid q ≠ some slot := by
        intro hq'
        exact hq (SlotTable.indexOf_inj hq' hfind)
      rw [if_neg hne, h.sync, Function.update_of_ne hq]

/-- A painting that does not change the phase leaves every phase as it is. -/
theorem paint_quiet (task : TaskState) (proc : ProcState) (h : Synced c)
    (hfind : c.task.findSlotByPid pid = some slot) (ht : task ≠ .unused)
    (hp : taskStatePhase task = procStatePhase proc)
    (hsame : procPhase c.proc pid = procStatePhase proc) :
    Repaint c (paint c slot pid task proc) (procPhase c.proc) := by
  refine (paint_repaint task proc h hfind ht hp).congr fun q => ?_
  rw [← hsame, Function.update_eq_self]

/-- The scheduler's own variables are no part of what `Repaint` speaks about. -/
theorem Repaint.withTask (h : Repaint c c' f) {t : TaskTable} (ht : t.tasks = c'.task.tasks) :
    Repaint c { c' with task := t } f := by
  have hfind : t.findSlotByPid = c'.task.findSlotByPid := by
    unfold TaskTable.findSlotByPid
    rw [ht]
  refine { h with find := hfind.trans h.find, synced := ⟨h.synced.procs, ?_, fun p => ?_⟩ }
  · change SlotTable.Distinct TaskInfo.key t.tasks
    rw [ht]
    exact h.synced.tasks
  · change taskPhase t p = _
    rw [← h.synced.sync p]
    unfold taskPhase
    rw [hfind, ht]

/-! ## The functions of `task.c` -/

theorem runnable_of_running (h : Synced c) (hrun : (c.task.tasks slot).state = .running) :
    procPhase c.proc (c.task.tasks slot).pid = .runnable := by
  have hfind := find_of_occupied h slot (by simp [hrun])
  rw [← h.sync, taskPhase_of_find hfind, hrun]
  rfl

theorem demoteCurrent_repaint (h : Synced c) (slot : Fin maxTasks) :
    Repaint c (demoteCurrent c slot) (procPhase c.proc) := by
  unfold demoteCurrent
  split
  · exact Repaint.refl h
  rename_i cur _
  split
  · rename_i hcur
    have hfind := find_of_occupied h cur (by simp [hcur.2])
    exact paint_quiet .ready .ready h hfind (by simp) rfl
      (runnable_of_running h hcur.2)
  · exact Repaint.refl h

theorem makeCurrent_repaint (h : Synced c) (hfind : c.task.findSlotByPid pid = some slot) :
    Repaint c (makeCurrent c slot) (Function.update (procPhase c.proc) pid .runnable) := by
  have hpid := (occupied_of_find hfind).2
  unfold makeCurrent
  rw [hpid]
  exact (paint_repaint .running .running h hfind (by simp) rfl).withTask rfl

theorem makeCurrent_current (h : Synced c) (hfind : c.task.findSlotByPid pid = some slot) :
    CurrentOk (makeCurrent c slot) := by
  have hre := makeCurrent_repaint h hfind
  refine ⟨slot, pid, rfl, ?_, ?_⟩
  · rw [hre.find, hfind]
  · rw [hre.phase, Function.update_self]

theorem taskReturnToKernelMain_spec (h : Synced c) (hkernel : procPhase c.proc 0 = .runnable) :
    Repaint c (taskReturnToKernelMain c) (procPhase c.proc) ∧
      CurrentOk (taskReturnToKernelMain c) := by
  obtain ⟨slot, hfind⟩ : ∃ slot, c.task.findSlotByPid 0 = some slot := by
    rw [← taskPhase_ne_dead_iff, h.sync, hkernel]
    decide
  unfold taskReturnToKernelMain
  simp only [hfind]
  have hdem := demoteCurrent_repaint h slot
  have hfind' : (demoteCurrent c slot).task.findSlotByPid 0 = some slot := by
    rw [hdem.find, hfind]
  refine ⟨(hdem.trans (makeCurrent_repaint hdem.synced hfind')).congr fun q => ?_,
    makeCurrent_current hdem.synced hfind'⟩
  rw [funext hdem.phase, ← hkernel, Function.update_eq_self]

theorem setBoth_repaint (task : TaskState) (proc : ProcState) (h : Synced c)
    (hlive : procPhase c.proc pid ≠ .dead) (ht : task ≠ .unused) (hr : task ≠ .running)
    (hp : taskStatePhase task = procStatePhase proc) :
    ∃ d, taskSetState c pid task = { c with task := d } ∧ d.currentIndex = c.task.currentIndex ∧
      Repaint c { c with task := d, proc := procSetState c.proc pid proc }
        (Function.update (procPhase c.proc) pid (procStatePhase proc)) := by
  obtain ⟨slot, hfind⟩ : ∃ slot, c.task.findSlotByPid pid = some slot := by
    rw [← taskPhase_ne_dead_iff, h.sync]
    exact hlive
  refine ⟨c.task.setState slot task, ?_, rfl, paint_repaint task proc h hfind ht hp⟩
  unfold taskSetState
  simp only [hfind]
  rw [if_neg hr]

theorem setRunning_spec (h : Synced c) (hlive : procPhase c.proc pid ≠ .dead) :
    let d := taskSetState c pid .running
    let d := { d with proc := procSetState d.proc pid .running }
    Repaint c d (Function.update (procPhase c.proc) pid .runnable) ∧ CurrentOk d := by
  obtain ⟨slot, hfind⟩ : ∃ slot, c.task.findSlotByPid pid = some slot := by
    rw [← taskPhase_ne_dead_iff, h.sync]
    exact hlive
  have hdem := demoteCurrent_repaint h slot
  have hfind' : (demoteCurrent c slot).task.findSlotByPid pid = some slot := by
    rw [hdem.find, hfind]
  have hpid := (occupied_of_find hfind').2
  -- `task_set_state` is `makeCurrent` here; the second write of the state repeats it
  have hset : taskSetState c pid .running = makeCurrent (demoteCurrent c slot) slot := by
    unfold taskSetState makeCurrent
    simp only [hfind, if_true]
    rw [hpid]
  have hmake := makeCurrent_repaint hdem.synced hfind'
  have hslot : (makeCurrent (demoteCurrent c slot) slot).task.setState slot .running =
      (makeCurrent (demoteCurrent c slot) slot).task := by
    simp [makeCurrent, TaskTable.setState, TaskTable.setTask]
  have hfind'' : (makeCurrent (demoteCurrent c slot) slot).task.findSlotByPid pid = some slot := by
    rw [hmake.find, hfind']
  have hphase : procPhase (makeCurrent (demoteCurrent c slot) slot).proc pid = .runnable := by
    rw [hmake.phase, Function.update_self]
  have hagain := paint_quiet .running .running hmake.synced hfind''
    (by simp) rfl hphase
  unfold paint at hagain
  rw [hslot] at hagain
  dsimp only
  rw [hset]
  have hall := hdem.trans (hmake.trans hagain)
  refine ⟨hall.congr fun q => ?_, slot, pid, rfl, ?_, ?_⟩
  · rw [hmake.phase, funext hdem.phase]
  · exact hfind''
  · rw [hall.phase, hphase]

theorem countTick_keeps (t : TaskTable) (cur i : Fin maxTasks) :
    ((countTick t cur).tasks i).state = (t.tasks i).state ∧
      ((countTick t cur).tasks i).pid = (t.tasks i).pid := by
  unfold countTick
  split
  · by_cases hi : i = cur
    · subst hi
      simp [TaskTable.setTask]
    · simp [TaskTable.setTask, hi]
  · exact ⟨rfl, rfl⟩

theorem find_countTick (t : TaskTable) (cur : Fin maxTasks) :
    (countTick t cur).findSlotByPid = t.findSlotByPid := by
  have hkey : ∀ i, ((countTick t cur).tasks i).key = (t.tasks i).key := by
    intro i
    rw [TaskInfo.key, TaskInfo.key, (countTick_keeps t cur i).1, (countTick_keeps t cur i).2]
  funext q
  unfold TaskTable.findSlotByPid SlotTable.indexOf
  simp only [hkey]

theorem countTick_repaint (h : Synced c) (cur : Fin maxTasks) :
    Repaint c { c with task := countTick c.task cur } (procPhase c.proc) := by
  refine ⟨rfl, rfl, rfl, rfl, rfl, fun _ => rfl, find_countTick c.task cur,
    ⟨h.procs, ?_, fun q => ?_⟩, fun _ => rfl⟩
  · intro i j k hi hj
    apply h.tasks (i := i) (j := j) (k := k)
    · rw [← hi, TaskInfo.key, TaskInfo.key, (countTick_keeps c.task cur i).1,
        (countTick_keeps c.task cur i).2]
    · rw [← hj, TaskInfo.key, TaskInfo.key, (countTick_keeps c.task cur j).1,
        (countTick_keeps c.task cur j).2]
  · rw [← h.sync q]
    change taskPhase (countTick c.task cur) q = taskPhase c.task q
    unfold taskPhase
    rw [find_countTick]
    simp only [countTick_keeps]

theorem ready_of_nextReady {t : TaskTable} {cur next : Fin maxTasks}
    (h : nextReady t cur = some next) : (t.tasks next).state = .ready := by
  have hsome := List.find?_some h
  simpa using hsome

/-- The old task becomes ready and the next one running; both are runnable before
and after. -/
theorem switchTask_spec {cur next : Fin maxTasks} (h : Synced c)
    (hfind : c.task.findSlotByPid pid = some cur) (hrun : procPhase c.proc pid = .runnable)
    (hready : (c.task.tasks next).state = .ready) :
    Repaint c (switchTask c cur next) (procPhase c.proc) ∧ CurrentOk (switchTask c cur next) := by
  have hpid := (occupied_of_find hfind).2
  have hnext := find_of_occupied h next (by simp [hready])
  have hnextRun : procPhase c.proc (c.task.tasks next).pid = .runnable := by
    rw [← h.sync, taskPhase_of_find hnext, hready]
    rfl
  have hold := paint_quiet .ready .ready h hfind (by simp) rfl hrun
  have hnext' : (paint c cur pid .ready .ready).task.findSlotByPid (c.task.tasks next).pid =
      some next := by
    rw [hold.find, hnext]
  have hnew := paint_quiet .running .running hold.synced hnext'
    (by simp) rfl ((hold.phase _).trans hnextRun)
  have hall := (hold.trans hnew).congr hold.phase
  unfold switchTask
  rw [hpid]
  refine ⟨hall.withTask rfl, next, (c.task.tasks next).pid, rfl, ?_, ?_⟩
  · exact (congrFun hnew.find _).trans hnext'
  · exact (hall.phase _).trans hnextRun

theorem schedulerOnTimerTick_spec (h : Synced c) (hcur : CurrentOk c) :
    Repaint c (schedulerOnTimerTick c) (procPhase c.proc) ∧
      CurrentOk (schedulerOnTimerTick c) := by
  obtain ⟨cur, p, hindex, hfind, hrun⟩ := hcur
  have hcount := countTick_repaint h cur
  have hfind' : (countTick c.task cur).findSlotByPid p = some cur := by
    rw [find_countTick, hfind]
  have hindex' : (countTick c.task cur).currentIndex = some cur := by
    unfold countTick
    split <;> exact hindex
  have hcur' : CurrentOk { c with task := countTick c.task cur } :=
    ⟨cur, p, hindex', hfind', hrun⟩
  unfold schedulerOnTimerTick
  simp only [hindex]
  split
  · exact ⟨hcount, hcur'⟩
  split
  · exact ⟨hcount, hcur'⟩
  split
  · exact ⟨hcount, hcur'⟩
  · rename_i next hnext
    have hswitch := switchTask_spec hcount.synced hfind' hrun (ready_of_nextReady hnext)
    exact ⟨hcount.trans hswitch.1, hswitch.2⟩

/-! ## Leaving and dying -/

theorem leaveTask_repaint (task : TaskState) (proc : ProcState) (h : Synced c)
    (hkernel : procPhase c.proc 0 = .runnable) (hlive : procPhase c.proc pid ≠ .dead)
    (hpid : pid ≠ 0) (ht : task ≠ .unused) (hr : task ≠ .running)
    (hp : taskStatePhase task = procStatePhase proc) :
    Repaint c (leaveTask c pid task proc)
        (Function.update (procPhase c.proc) pid (procStatePhase proc)) ∧
      CurrentOk (leaveTask c pid task proc) := by
  obtain ⟨d, hset, -, hre⟩ := setBoth_repaint task proc h hlive ht hr hp
  unfold leaveTask
  rw [hset]
  have hkernel' : procPhase (procSetState c.proc pid proc) 0 = .runnable := by
    have h0 := hre.phase 0
    rw [Function.update_of_ne hpid.symm, hkernel] at h0
    exact h0
  have hback := taskReturnToKernelMain_spec hre.synced hkernel'
  exact ⟨(hre.trans hback.1).congr hre.phase, hback.2⟩

/-- Everything about `pid` is gone from the two tables, and nothing else. -/
structure Gone (c c' : Core) (pid : Int) : Prop where
  ipc : c'.ipc = c.ipc
  elf : c'.elf = c.elf
  ring3 : c'.ring3 = c.ring3
  mem : c'.mem = c.mem
  nextPid : c'.proc.nextPid = c.proc.nextPid
  image : ∀ q, procGetImage c'.proc q = if q = pid then none else procGetImage c.proc q
  find : ∀ q, c'.task.findSlotByPid q = if q = pid then none else c.task.findSlotByPid q
  synced : Synced c'
  phase : ∀ q, procPhase c'.proc q = if q = pid then .dead else procPhase c.proc q

theorem Gone.repaint {phase : Phase} (h : Gone c' c'' pid)
    (hre : Repaint c c' (Function.update (procPhase c.proc) pid phase)) : Gone c c'' pid where
  ipc := h.ipc.trans hre.ipc
  elf := h.elf.trans hre.elf
  ring3 := h.ring3.trans hre.ring3
  mem := h.mem.trans hre.mem
  nextPid := h.nextPid.trans hre.nextPid
  image q := by rw [h.image, hre.image]
  find q := by rw [h.find, hre.find]
  synced := h.synced
  phase q := by
    rw [h.phase, hre.phase]
    by_cases hq : q = pid
    · simp [hq]
    · simp [hq]

def freeTask (t : TaskTable) (slot : Fin maxTasks) : TaskTable :=
  { t.setTask slot emptyTask with tasksUsed := t.tasksUsed - 1 }

theorem freeTask_spec (h : Synced c) (hfind : c.task.findSlotByPid pid = some slot) :
    SlotTable.Distinct TaskInfo.key (freeTask c.task slot).tasks ∧
      (∀ q, (freeTask c.task slot).findSlotByPid q =
        if q = pid then none else c.task.findSlotByPid q) ∧
      ∀ q, taskPhase (freeTask c.task slot) q =
        if q = pid then .dead else taskPhase c.task q := by
  have hkey := taskKey_of_find hfind
  have hfinds : ∀ q, (freeTask c.task slot).findSlotByPid q =
      if q = pid then none else c.task.findSlotByPid q :=
    fun q => SlotTable.indexOf_update_free h.tasks hkey rfl
  refine ⟨h.tasks.update_free rfl, hfinds, fun q => ?_⟩
  unfold taskPhase
  rw [hfinds q]
  by_cases hq : q = pid
  · simp [hq]
  · rw [if_neg hq, if_neg hq]
    cases hs : c.task.findSlotByPid q with
    | none => rfl
    | some slot' =>
        have hne : slot' ≠ slot := by
          rintro rfl
          exact hq (SlotTable.indexOf_inj hs hfind)
        simp [freeTask, TaskTable.setTask, hne]

/-- The process table after `proc_reap_pid`, whether or not it succeeded. -/
def reapProc (t : ProcTable) (pid : Int) : ProcTable :=
  match procReapPid t pid with
  | none => t
  | some (_, t) => t

/-- Both tables without `pid`, whose task is in `slot`. -/
def removed (c : Core) (pid code : Int) (slot : Fin maxTasks) : Core :=
  { c with proc := reapProc (procExit c.proc pid code) pid, task := freeTask c.task slot }

theorem removed_gone (code : Int) (h : Synced c) (hlive : procPhase c.proc pid ≠ .dead)
    (hfind : c.task.findSlotByPid pid = some slot) : Gone c (removed c pid code slot) pid := by
  obtain ⟨r, t, hreap, hgone⟩ := exit_reap_spec code h.procs hlive
  obtain ⟨hdist, hfinds, hphases⟩ := freeTask_spec h hfind
  have hproc : removed c pid code slot = { c with proc := t, task := freeTask c.task slot } := by
    unfold removed reapProc
    rw [hreap]
  rw [hproc]
  refine ⟨rfl, rfl, rfl, rfl, hgone.next, hgone.image, hfinds, ⟨hgone.distinct, hdist, ?_⟩,
    hgone.phase⟩
  intro q
  change taskPhase (freeTask c.task slot) q = procPhase t q
  rw [hphases q, hgone.phase q, h.sync q]

theorem exitAndReap_eq (code : Int) (hfind : c.task.findSlotByPid pid = some slot) :
    exitAndReap c pid code =
      if c.task.currentIndex = some slot then taskReturnToKernelMain (removed c pid code slot)
      else removed c pid code slot := by
  unfold exitAndReap taskReapPid
  simp only [hfind]
  rfl

theorem exitAndReap_spec (code : Int) (h : Synced c) (hkernel : procPhase c.proc 0 = .runnable)
    (hlive : procPhase c.proc pid ≠ .dead) (hpid : pid ≠ 0) :
    Gone c (exitAndReap c pid code) pid ∧
      (CurrentOk c → CurrentOk (exitAndReap c pid code)) := by
  obtain ⟨slot, hfind⟩ : ∃ slot, c.task.findSlotByPid pid = some slot := by
    rw [← taskPhase_ne_dead_iff, h.sync]
    exact hlive
  -- the state between the two removals and the possible return to the kernel task
  have hmid := removed_gone code h hlive hfind
  rw [exitAndReap_eq code hfind]
  split
  · have hkernel' : procPhase (removed c pid code slot).proc 0 = .runnable := by
      rw [hmid.phase, if_neg hpid.symm, hkernel]
    have hback := taskReturnToKernelMain_spec hmid.synced hkernel'
    refine ⟨⟨hback.1.ipc, hback.1.elf, hback.1.ring3, hback.1.mem, hback.1.nextPid.trans hmid.nextPid,
      fun q => (hback.1.image q).trans (hmid.image q),
      fun q => (congrFun hback.1.find q).trans (hmid.find q), hback.1.synced,
      fun q => (hback.1.phase q).trans (hmid.phase q)⟩, fun _ => hback.2⟩
  · rename_i hcur
    refine ⟨hmid, ?_⟩
    rintro ⟨i, p, hi, hp, hrun⟩
    have hne : p ≠ pid := by
      rintro rfl
      rw [hfind] at hp
      rw [hi, ← Option.some.inj hp] at hcur
      exact hcur rfl
    refine ⟨i, p, hi, ?_, ?_⟩
    · exact (hmid.find p).trans ((if_neg hne).trans hp)
    · exact (hmid.phase p).trans ((if_neg hne).trans hrun)

/-! ## Being born -/

/-- A fresh pid has come into both tables, ready and without an image. -/
structure Born (c c' : Core) (pid : Int) : Prop where
  pid_eq : pid = c.proc.nextPid
  ipc : c'.ipc = c.ipc
  elf : c'.elf = c.elf
  ring3 : c'.ring3 = c.ring3
  mem : c'.mem = c.mem
  nextPid : c'.proc.nextPid = c.proc.nextPid + 1
  image : ∀ q, procGetImage c'.proc q = if q = pid then some emptyImage else procGetImage c.proc q
  find : ∀ q, q ≠ pid → c'.task.findSlotByPid q = c.task.findSlotByPid q
  current : c'.task.currentIndex = c.task.currentIndex
  synced : Synced c'
  phase : ∀ q, procPhase c'.proc q = if q = pid then .runnable else procPhase c.proc q

theorem taskSpawn_spec {dflt : CStr} {name : Option CStr} {ppid : Int} (h : Synced c)
    (hzombie : ∀ p, procPhase c.proc p ≠ .zombie)
    (hfresh : procPhase c.proc c.proc.nextPid = .dead)
    (hspawn : taskSpawn dflt c name ppid = some (pid, c')) : Born c c' pid := by
  unfold taskSpawn at hspawn
  split at hspawn
  · cases hspawn
  rename_i slot hslot
  split at hspawn
  · cases hspawn
  rename_i pid' proc hproc
  cases hspawn
  have hpid := procSpawnKernel_pid hproc
  have hspec := procSpawnKernel_spec h.procs (procPhase_eq_dead_iff.mp hfresh) hproc
  -- a zombie could be overwritten by the spawn, but there is none
  have hfree : (c.task.tasks slot).key = none := by
    have hstate := (Fin.find?_eq_some_iff.mp hslot).1
    have hnz : (c.task.tasks slot).state ≠ .zombie := by
      intro hz
      have hfind := find_of_occupied h slot (by simp [hz])
      apply hzombie (c.task.tasks slot).pid
      rw [← h.sync, taskPhase_of_find hfind, hz]
      rfl
    simp only [hnz, decide_false, Bool.or_false, decide_eq_true_eq] at hstate
    simp [TaskInfo.key, hstate]
  have hnone : c.task.findSlotByPid pid = none := by
    by_contra hne
    obtain ⟨i, hi⟩ := Option.ne_none_iff_exists'.mp hne
    have hlive : taskPhase c.task pid ≠ .dead := taskPhase_ne_dead_iff.mpr ⟨i, hi⟩
    rw [h.sync, hpid] at hlive
    exact hlive hfresh
  let info : TaskInfo := ⟨pid, ppid, .ready, 0, strCopy (name.getD dflt) 16⟩
  have hfind : ∀ q, (c.task.setTask slot info).findSlotByPid q =
      if q = pid then some slot else c.task.findSlotByPid q :=
    fun q => SlotTable.indexOf_update_fresh hfree rfl hnone
  refine ⟨hpid, rfl, rfl, rfl, rfl, hspec.next, fun q => ?_, fun q hq => ?_, rfl,
    ⟨hspec.distinct, h.tasks.update_fresh (k := pid) rfl hnone, fun q => ?_⟩, fun q => ?_⟩
  · rw [hpid]
    exact hspec.image q
  · exact (hfind q).trans (if_neg hq)
  · change taskPhase (c.task.setTask slot info) q = procPhase proc q
    rw [hspec.phase q, ← hpid]
    by_cases hq : q = pid
    · have hq' : (c.task.setTask slot info).findSlotByPid q = some slot :=
        (hfind q).trans (if_pos hq)
      rw [if_pos hq, taskPhase_of_find hq']
      simp [TaskTable.setTask, info, taskStatePhase]
    · rw [if_neg hq, ← h.sync q]
      unfold taskPhase
      rw [hfind q, if_neg hq]
      cases hs : c.task.findSlotByPid q with
      | none => rfl
      | some slot' =>
          have hne : slot' ≠ slot := by
            rintro rfl
            rw [taskKey_of_find hs] at hfree
            cases hfree
          simp [TaskTable.setTask, hne]
  · rw [hpid]
    exact hspec.phase q

end SlopOS.Proofs.Scheduling
