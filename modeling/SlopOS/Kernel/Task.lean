import SlopOS.Kernel.Core
/-!
# `task.c`: the task table and the timer

The functions that keep the task table, the process states and the notion of
the current task.  Running a user task is in `Exec`.
-/

namespace SlopOS.Kernel

open SlopOS.Support

def schedTimesliceTicks : Nat := 4

namespace TaskTable

def findSlotByPid (t : TaskTable) (pid : Int) : Option (Fin maxTasks) :=
  SlotTable.indexOf TaskInfo.key t.tasks pid

/-- `task_alloc_slot`: an unused slot, or one a zombie still occupies. -/
def allocSlot (t : TaskTable) : Option (Fin maxTasks) :=
  Fin.find? fun i => decide ((t.tasks i).state = .unused) || decide ((t.tasks i).state = .zombie)

/-- `tasks[slot] = info`. -/
def setTask (t : TaskTable) (slot : Fin maxTasks) (info : TaskInfo) : TaskTable :=
  { t with tasks := Function.update t.tasks slot info }

/-- `tasks[slot].state = state`. -/
def setState (t : TaskTable) (slot : Fin maxTasks) (state : TaskState) : TaskTable :=
  t.setTask slot { t.tasks slot with state := state }

end TaskTable

def emptyTask : TaskInfo := ⟨0, -1, .unused, 0, []⟩

def taskingInit : TaskTable :=
  { tasks := Function.update (fun _ => emptyTask) 0 ⟨0, -1, .running, 0, cstr "kmain"⟩
    tasksUsed := 1
    currentIndex := some 0
    switches := 0
    sliceTicks := 0 }

/-- The demotion that `task_return_to_kernel_main` and `task_set_state` make
first: a running current task other than `slot` becomes ready in both tables. -/
def demoteCurrent (c : Core) (slot : Fin maxTasks) : Core :=
  match c.task.currentIndex with
  | none => c
  | some cur =>
    if cur ≠ slot ∧ (c.task.tasks cur).state = .running then
      { c with
        proc := procSetState c.proc (c.task.tasks cur).pid .ready
        task := c.task.setState cur .ready }
    else c

/-- Make `slot` current and running, with a fresh time slice. -/
def makeCurrent (c : Core) (slot : Fin maxTasks) : Core :=
  { c with
    task := { c.task.setState slot .running with currentIndex := some slot, sliceTicks := 0 }
    proc := procSetState c.proc (c.task.tasks slot).pid .running }

def taskReturnToKernelMain (c : Core) : Core :=
  match c.task.findSlotByPid 0 with
  | none => { c with task := { c.task with currentIndex := none } }
  | some kernelSlot => makeCurrent (demoteCurrent c kernelSlot) kernelSlot

/-- The body that `task_spawn_kernel` and `task_spawn_user` share; `none` stands
for `-1`. -/
def taskSpawn (dflt : CStr) (c : Core) (name : Option CStr) (ppid : Int) :
    Option (Int × Core) :=
  match c.task.allocSlot with
  | none => none
  | some slot =>
    match procSpawnKernel c.proc name ppid with
    | none => none
    | some (pid, proc) =>
      let task := c.task.setTask slot ⟨pid, ppid, .ready, 0, strCopy (name.getD dflt) 16⟩
      some (pid, { c with
        proc := proc
        task := { task with tasksUsed := task.tasksUsed + 1 } })

def taskSpawnKernel : Core → Option CStr → Int → Option (Int × Core) :=
  taskSpawn (cstr "kproc")

def taskSpawnUser : Core → Option CStr → Int → Option (Int × Core) :=
  taskSpawn (cstr "uproc")

def taskSetState (c : Core) (pid : Int) (state : TaskState) : Core :=
  match c.task.findSlotByPid pid with
  | none => c
  | some slot =>
    if state = .running then
      let c := demoteCurrent c slot
      { c with
        task := { c.task.setState slot .running with
          currentIndex := some slot, sliceTicks := 0 }
        proc := procSetState c.proc pid .running }
    else { c with task := c.task.setState slot state }

/-- `task_reap_pid`; the result tells whether the pid had a slot. -/
def taskReapPid (c : Core) (pid : Int) : Bool × Core :=
  match c.task.findSlotByPid pid with
  | none => (false, c)
  | some slot =>
    let task := c.task.setTask slot emptyTask
    let c := { c with task := { task with tasksUsed := task.tasksUsed - 1 } }
    (true, if c.task.currentIndex = some slot then taskReturnToKernelMain c else c)

/-- The slot a rotation goes to: the first ready task behind the current one,
cyclically. -/
def nextReady (t : TaskTable) (cur : Fin maxTasks) : Option (Fin maxTasks) :=
  ((List.range (maxTasks - 1)).map fun n => cur + Fin.ofNat maxTasks (n + 1)).find?
    fun next => decide ((t.tasks next).state = .ready)

def countTick (t : TaskTable) (cur : Fin maxTasks) : TaskTable :=
  if (t.tasks cur).state = .running then
    let info := { t.tasks cur with runtimeTicks := (t.tasks cur).runtimeTicks + 1 }
    { t.setTask cur info with sliceTicks := t.sliceTicks + 1 }
  else t

/-- The body of the rotation loop for the task it stops at. -/
def switchTask (c : Core) (cur next : Fin maxTasks) : Core :=
  let oldPid := (c.task.tasks cur).pid
  let newPid := (c.task.tasks next).pid
  { c with
    task := { (c.task.setState cur .ready).setState next .running with
      currentIndex := some next
      sliceTicks := 0
      switches := c.task.switches + 1 }
    proc := procSetState (procSetState c.proc oldPid .ready) newPid .running }

def schedulerOnTimerTick (c : Core) : Core :=
  match c.task.currentIndex with
  | none => c
  | some cur =>
    let c := { c with task := countTick c.task cur }
    if c.task.tasksUsed ≤ 1 then c
    else if c.task.sliceTicks < schedTimesliceTicks then c
    else
      match nextReady c.task cur with
      | none => c
      | some next => switchTask c cur next

def taskCurrentPid (t : TaskTable) : Int :=
  match t.currentIndex with
  | none => -1
  | some cur => (t.tasks cur).pid

def taskCount (t : TaskTable) : Nat := t.tasksUsed

end SlopOS.Kernel
