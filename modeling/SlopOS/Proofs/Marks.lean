import SlopOS.Proofs.Scheduling
/-!
# The tables without their marks

`unmark` forgets which task is `RUNNING` and what else the scheduler keeps for
itself.  It commutes with the operations of both tables, and phases, images and
slots can be read after it as well as before.
-/

namespace SlopOS.Proofs.Marks

open SlopOS.Support SlopOS.Kernel
open SlopOS.Proofs.Tables SlopOS.Proofs.Scheduling

def unmarkProcess (p : ProcessInfo) : ProcessInfo :=
  if procStatePhase p.state = .runnable then { p with state := .ready } else p

def unmarkProcs (t : ProcTable) : ProcTable :=
  { t with procs := fun i => unmarkProcess (t.procs i) }

/-- A runnable task is `READY`, and no task has used any time. -/
def unmarkTask (t : TaskInfo) : TaskInfo :=
  if taskStatePhase t.state = .runnable then { t with state := .ready, runtimeTicks := 0 }
  else { t with runtimeTicks := 0 }

def unmarkTasks (t : TaskTable) : TaskTable :=
  { tasks := fun i => unmarkTask (t.tasks i)
    tasksUsed := t.tasksUsed
    currentIndex := none
    switches := 0
    sliceTicks := 0 }

def unmark (c : Core) : Core :=
  { c with proc := unmarkProcs c.proc, task := unmarkTasks c.task }

/-- A pid whose mark may be rewritten: it is runnable, or the table does not know it. -/
def Markable (t : ProcTable) (pid : Int) : Prop :=
  procPhase t pid = .runnable ∨ procPhase t pid = .dead

/-! ## Process table -/

section Proc

variable {t t' : ProcTable} {pid q : Int} {slot : Fin maxProcs}

theorem phase_unmarkProcess (p : ProcessInfo) :
    procStatePhase (unmarkProcess p).state = procStatePhase p.state := by
  unfold unmarkProcess
  split
  · rename_i hrun
    rw [hrun]
    rfl
  · rfl

theorem key_unmarkProcess (p : ProcessInfo) : (unmarkProcess p).key = p.key := by
  have hphase := phase_unmarkProcess p
  have hdead : (unmarkProcess p).state = .unused ↔ p.state = .unused := by
    rw [← procStatePhase_eq_dead, hphase, procStatePhase_eq_dead]
  have hpid : (unmarkProcess p).pid = p.pid := by
    unfold unmarkProcess
    split <;> rfl
  unfold ProcessInfo.key
  simp only [hdead, hpid]

theorem unmarkProcess_setState {p : ProcessInfo} {st : ProcState}
    (hp : procStatePhase p.state = .runnable) (hst : procStatePhase st = .runnable) :
    unmarkProcess { p with state := st } = unmarkProcess p := by
  unfold unmarkProcess
  rw [if_pos hp, if_pos hst]

@[simp] theorem find_unmarkProcs (t : ProcTable) :
    (unmarkProcs t).findSlotByPid = t.findSlotByPid := by
  funext q
  unfold ProcTable.findSlotByPid SlotTable.indexOf unmarkProcs
  simp only [key_unmarkProcess]

@[simp] theorem procPhase_unmarkProcs (t : ProcTable) (q : Int) :
    procPhase (unmarkProcs t) q = procPhase t q := by
  unfold procPhase procStateOf
  rw [find_unmarkProcs]
  split
  · rfl
  · exact phase_unmarkProcess _

@[simp] theorem procGetImage_unmarkProcs (t : ProcTable) (q : Int) :
    procGetImage (unmarkProcs t) q = procGetImage t q := by
  unfold procGetImage
  rw [find_unmarkProcs]
  rfl

theorem distinct_unmarkProcs :
    SlotTable.Distinct ProcessInfo.key (unmarkProcs t).procs ↔
      SlotTable.Distinct ProcessInfo.key t.procs := by
  unfold SlotTable.Distinct unmarkProcs
  simp only [key_unmarkProcess]

theorem unmarkProcs_setProc (t : ProcTable) (slot : Fin maxProcs) (p : ProcessInfo) :
    unmarkProcs (t.setProc slot p) = (unmarkProcs t).setProc slot (unmarkProcess p) := by
  have hprocs := Function.comp_update unmarkProcess t.procs slot p
  unfold unmarkProcs ProcTable.setProc
  simp only [ProcTable.mk.injEq, and_true]
  exact hprocs

theorem unmarkProcs_setState {st : ProcState} (hst : procStatePhase st = .runnable)
    (hpid : Markable t pid) : unmarkProcs (procSetState t pid st) = unmarkProcs t := by
  cases hfind : t.findSlotByPid pid with
  | none => simp [procSetState, hfind]
  | some slot =>
      have hrun : procStatePhase (t.procs slot).state = .runnable := by
        have hphase := procPhase_of_find hfind
        rcases hpid with hpid | hpid
        · rw [← hphase, hpid]
        · exact absurd hpid (procPhase_ne_dead_iff.mpr ⟨slot, hfind⟩)
      rw [procs_procSetState hfind, unmarkProcs_setProc, unmarkProcess_setState hrun hst]
      unfold ProcTable.setProc unmarkProcs
      rw [Function.update_eq_self]

theorem unmarkProcs_release (t : ProcTable) (slot : Fin maxProcs) :
    unmarkProcs (procRelease t slot) = procRelease (unmarkProcs t) slot := by
  have hset := unmarkProcs_setProc t slot emptyProcess
  have hempty : unmarkProcess emptyProcess = emptyProcess := rfl
  rw [hempty] at hset
  have hprocs := congrArg ProcTable.procs hset
  exact congrArg (fun procs => ProcTable.mk procs (Function.update t.images slot emptyImage)
    (t.used - 1) t.nextPid) hprocs

theorem unmarkProcs_reap (t : ProcTable) (pid : Int) :
    unmarkProcs (reapProc t pid) = reapProc (unmarkProcs t) pid := by
  unfold reapProc procReapPid
  rw [find_unmarkProcs]
  cases t.findSlotByPid pid with
  | none => rfl
  | some slot =>
      have hzombie : ((unmarkProcs t).procs slot).state = .zombie ↔ (t.procs slot).state = .zombie := by
        change (unmarkProcess (t.procs slot)).state = .zombie ↔ _
        unfold unmarkProcess
        split
        · rename_i hrun
          constructor
          · exact nofun
          · intro hz
            rw [hz] at hrun
            cases hrun
        · rfl
      dsimp only
      by_cases hz : (t.procs slot).state = .zombie
      · rw [if_pos hz, if_pos (hzombie.mpr hz)]
        exact unmarkProcs_release t slot
      · rw [if_neg hz, if_neg fun h => hz (hzombie.mp h)]

end Proc

/-! ## Task table -/

section Task

variable {t t' : TaskTable} {pid q : Int} {slot : Fin maxTasks}

theorem phase_unmarkTask (t : TaskInfo) :
    taskStatePhase (unmarkTask t).state = taskStatePhase t.state := by
  unfold unmarkTask
  split
  · rename_i hrun
    rw [hrun]
    rfl
  · rfl

theorem pid_unmarkTask (t : TaskInfo) : (unmarkTask t).pid = t.pid := by
  unfold unmarkTask
  split <;> rfl

theorem key_unmarkTask (t : TaskInfo) : (unmarkTask t).key = t.key := by
  have hdead : (unmarkTask t).state = .unused ↔ t.state = .unused := by
    rw [← taskStatePhase_eq_dead, phase_unmarkTask, taskStatePhase_eq_dead]
  unfold TaskInfo.key
  simp only [hdead, pid_unmarkTask]

@[simp] theorem find_unmarkTasks (t : TaskTable) :
    (unmarkTasks t).findSlotByPid = t.findSlotByPid := by
  funext q
  unfold TaskTable.findSlotByPid SlotTable.indexOf unmarkTasks
  simp only [key_unmarkTask]

@[simp] theorem taskPhase_unmarkTasks (t : TaskTable) (q : Int) :
    taskPhase (unmarkTasks t) q = taskPhase t q := by
  unfold taskPhase
  rw [find_unmarkTasks]
  split
  · rfl
  · exact phase_unmarkTask _

theorem distinct_unmarkTasks :
    SlotTable.Distinct TaskInfo.key (unmarkTasks t).tasks ↔
      SlotTable.Distinct TaskInfo.key t.tasks := by
  unfold SlotTable.Distinct unmarkTasks
  simp only [key_unmarkTask]

/-- Two tables that differ in marks have slots of the same phases and pids. -/
theorem slot_of_unmark (h : unmarkTasks t' = unmarkTasks t) (i : Fin maxTasks) :
    taskStatePhase (t'.tasks i).state = taskStatePhase (t.tasks i).state ∧
      (t'.tasks i).pid = (t.tasks i).pid := by
  have hi : unmarkTask (t'.tasks i) = unmarkTask (t.tasks i) :=
    congrFun (congrArg TaskTable.tasks h) i
  refine ⟨?_, ?_⟩
  · rw [← phase_unmarkTask, hi, phase_unmarkTask]
  · rw [← pid_unmarkTask, hi, pid_unmarkTask]

theorem allocSlot_of_unmark (h : unmarkTasks t' = unmarkTasks t) : t'.allocSlot = t.allocSlot := by
  have hfree : ∀ i, (decide ((t'.tasks i).state = .unused) || decide ((t'.tasks i).state = .zombie)) =
      (decide ((t.tasks i).state = .unused) || decide ((t.tasks i).state = .zombie)) := by
    intro i
    have hphase := (slot_of_unmark h i).1
    revert hphase
    cases (t'.tasks i).state <;> cases (t.tasks i).state <;> decide
  unfold TaskTable.allocSlot
  simp only [hfree]

theorem unmarkTasks_setTask (t : TaskTable) (slot : Fin maxTasks) (info : TaskInfo) :
    unmarkTasks (t.setTask slot info) = (unmarkTasks t).setTask slot (unmarkTask info) := by
  have htasks := Function.comp_update unmarkTask t.tasks slot info
  unfold unmarkTasks TaskTable.setTask
  simp only [TaskTable.mk.injEq, and_true]
  exact htasks

theorem unmarkTasks_setState {st : TaskState} (hst : taskStatePhase st = .runnable)
    (hslot : taskStatePhase (t.tasks slot).state = .runnable) :
    unmarkTasks (t.setState slot st) = unmarkTasks t := by
  have hmark : unmarkTask { t.tasks slot with state := st } = unmarkTask (t.tasks slot) := by
    unfold unmarkTask
    rw [if_pos hst, if_pos hslot]
  unfold TaskTable.setState
  rw [unmarkTasks_setTask, hmark]
  unfold TaskTable.setTask unmarkTasks
  rw [Function.update_eq_self]

theorem unmarkTasks_countTick (t : TaskTable) (cur : Fin maxTasks) :
    unmarkTasks (countTick t cur) = unmarkTasks t := by
  unfold countTick
  split
  · have hcount : unmarkTask { t.tasks cur with runtimeTicks := (t.tasks cur).runtimeTicks + 1 } =
        unmarkTask (t.tasks cur) := rfl
    change unmarkTasks (t.setTask cur _) = _
    rw [unmarkTasks_setTask, hcount]
    unfold TaskTable.setTask unmarkTasks
    rw [Function.update_eq_self]
  · rfl

end Task

/-! ## Both tables -/

variable {c c' : Core} {pid : Int}

theorem unmark_eq (hp : unmarkProcs c'.proc = unmarkProcs c.proc)
    (ht : unmarkTasks c'.task = unmarkTasks c.task) (hi : c'.ipc = c.ipc) (he : c'.elf = c.elf)
    (hr : c'.ring3 = c.ring3) (hm : c'.mem = c.mem) : unmark c' = unmark c := by
  unfold unmark
  rw [hp, ht, hi, he, hr, hm]

theorem proc_of_unmark (h : unmark c' = unmark c) : unmarkProcs c'.proc = unmarkProcs c.proc :=
  congrArg Core.proc h

theorem task_of_unmark (h : unmark c' = unmark c) : unmarkTasks c'.task = unmarkTasks c.task :=
  congrArg Core.task h

theorem elf_of_unmark (h : unmark c' = unmark c) : c'.elf = c.elf :=
  @congrArg _ _ (unmark c') (unmark c) Core.elf h

theorem nextPid_of_unmark (h : unmark c' = unmark c) : c'.proc.nextPid = c.proc.nextPid :=
  @congrArg _ _ (unmark c') (unmark c) (fun d => d.proc.nextPid) h

theorem used_of_unmark {t t' : TaskTable} (h : unmarkTasks t' = unmarkTasks t) :
    t'.tasksUsed = t.tasksUsed :=
  @congrArg _ _ (unmarkTasks t') (unmarkTasks t) TaskTable.tasksUsed h

theorem unmark_update {p p' : ProcTable} {t t' : TaskTable} (h : unmark c' = unmark c)
    (hp : unmarkProcs p' = unmarkProcs p) (ht : unmarkTasks t' = unmarkTasks t) :
    unmark { c' with proc := p', task := t' } = unmark { c with proc := p, task := t } := by
  have helf := elf_of_unmark h
  exact unmark_eq hp ht (@congrArg _ _ (unmark c') (unmark c) Core.ipc h) helf
    (@congrArg _ _ (unmark c') (unmark c) Core.ring3 h)
    (@congrArg _ _ (unmark c') (unmark c) Core.mem h)

theorem phase_of_unmark (h : unmark c' = unmark c) (q : Int) :
    procPhase c'.proc q = procPhase c.proc q := by
  rw [← procPhase_unmarkProcs, proc_of_unmark h, procPhase_unmarkProcs]

theorem find_of_unmark (h : unmark c' = unmark c) :
    c'.task.findSlotByPid = c.task.findSlotByPid := by
  rw [← find_unmarkTasks, task_of_unmark h, find_unmarkTasks]

theorem image_of_unmark (h : unmark c' = unmark c) (q : Int) :
    procGetImage c'.proc q = procGetImage c.proc q := by
  rw [← procGetImage_unmarkProcs, proc_of_unmark h, procGetImage_unmarkProcs]

theorem synced_of_unmark (h : unmark c' = unmark c) (hs : Synced c) : Synced c' := by
  refine ⟨?_, ?_, fun p => ?_⟩
  · rw [← distinct_unmarkProcs, proc_of_unmark h, distinct_unmarkProcs]
    exact hs.procs
  · rw [← distinct_unmarkTasks, task_of_unmark h, distinct_unmarkTasks]
    exact hs.tasks
  · rw [← taskPhase_unmarkTasks, task_of_unmark h, taskPhase_unmarkTasks, phase_of_unmark h]
    exact hs.sync p

theorem repaint_of_unmark (h : unmark c' = unmark c) (hs : Synced c) :
    Repaint c c' (procPhase c.proc) where
  ipc := @congrArg _ _ (unmark c') (unmark c) Core.ipc h
  elf := elf_of_unmark h
  ring3 := @congrArg _ _ (unmark c') (unmark c) Core.ring3 h
  mem := @congrArg _ _ (unmark c') (unmark c) Core.mem h
  nextPid := nextPid_of_unmark h
  image := image_of_unmark h
  find := find_of_unmark h
  synced := synced_of_unmark h hs
  phase := phase_of_unmark h

end SlopOS.Proofs.Marks
