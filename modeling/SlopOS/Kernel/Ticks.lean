import Mathlib.Data.List.FinRange
import Mathlib.Logic.Function.Iterate
import SlopOS.Kernel.System
/-!
# Launching a program while the timer runs

`kmain` enables interrupts once, and the kernel keeps them until a process comes
back from Ring 3 through the interrupt gate.  Until then the timer can fire
between any two calls that a launch makes into `proc.c` and `task.c`.  The
functions of `Exec` and `Task` that a launch goes through are written out again
here, with a `wait` in every such gap.
-/

namespace SlopOS.Kernel.Ticks

open SlopOS.Support

/-- The places between two `proc_*` or `task_*` calls of a launch, named after the
call they follow. -/
inductive Gap
  /-- Before `task_current_pid`. -/
  | called
  | parentRead
  | slotFound
  | procMade
  | spawned
  | ownerAsked (slot : Fin elfProcSlots)
  | loaded
  | bound
  | imageRead
  | taskFound
  | oldMarked
  /-- Before `proc_set_state` in `task_set_state`. -/
  | newMarked
  | taskSet
  | procSet
  | exited
  | reaped
  | reapFound
  | taskFreed
  | kernelFound
  | currentMarked
  /-- Before the last `proc_set_state` of `task_return_to_kernel_main`. -/
  | kernelMarked
deriving DecidableEq

abbrev Schedule := Gap → Nat

def noTicks : Schedule := fun _ => 0

def wait (w : Schedule) (gap : Gap) (c : Core) : Core := schedulerOnTimerTick^[w gap] c

/-! ## `task.c` -/

/-- `none` stands for `-1`. -/
def taskSpawnUser (w : Schedule) (c : Core) (name : Option CStr) (ppid : Int) :
    Option Int × Core :=
  match c.task.allocSlot with
  | none => (none, c)
  | some slot =>
    let c := wait w .slotFound c
    match procSpawnKernel c.proc name ppid with
    | none => (none, c)
    | some (pid, proc) =>
      let c := wait w .procMade { c with proc := proc }
      let task := c.task.setTask slot ⟨pid, ppid, .ready, 0, strCopy (name.getD (cstr "uproc")) 16⟩
      (some pid, { c with task := { task with tasksUsed := task.tasksUsed + 1 } })

/-- `demoteCurrent` with a gap behind its `proc_set_state`; `current_index` is read
again after it. -/
def demoteCurrent (w : Schedule) (gap : Gap) (c : Core) (slot : Fin maxTasks) : Core :=
  match c.task.currentIndex with
  | none => c
  | some cur =>
    if cur ≠ slot ∧ (c.task.tasks cur).state = .running then
      let c := wait w gap { c with proc := procSetState c.proc (c.task.tasks cur).pid .ready }
      match c.task.currentIndex with
      | none => c
      | some cur => { c with task := c.task.setState cur .ready }
    else c

/-- `task_set_state(pid, TASK_RUNNING)`. -/
def taskSetRunning (w : Schedule) (c : Core) (pid : Int) : Core :=
  match c.task.findSlotByPid pid with
  | none => c
  | some slot =>
    let c := demoteCurrent w .oldMarked (wait w .taskFound c) slot
    let c := wait w .newMarked { c with
      task := { c.task.setState slot .running with
        currentIndex := some slot, sliceTicks := 0 } }
    { c with proc := procSetState c.proc pid .running }

def taskReturnToKernelMain (w : Schedule) (c : Core) : Core :=
  match c.task.findSlotByPid 0 with
  | none => { c with task := { c.task with currentIndex := none } }
  | some kernelSlot =>
    let c := demoteCurrent w .currentMarked (wait w .kernelFound c) kernelSlot
    let c := wait w .kernelMarked { c with
      task := { c.task.setState kernelSlot .running with currentIndex := some kernelSlot } }
    { c with
      proc := procSetState c.proc (c.task.tasks kernelSlot).pid .running
      task := { c.task with sliceTicks := 0 } }

def taskReapPid (w : Schedule) (c : Core) (pid : Int) : Core :=
  match c.task.findSlotByPid pid with
  | none => c
  | some slot =>
    let c := wait w .reapFound c
    let task := c.task.setTask slot emptyTask
    let c := wait w .taskFreed { c with task := { task with tasksUsed := task.tasksUsed - 1 } }
    if c.task.currentIndex = some slot then taskReturnToKernelMain w c else c

/-! ## `elf.c` -/

/-- `slot_owner_pid[slot] = pid`. -/
def setOwner (c : Core) (slot : Fin elfProcSlots) (pid : Int) : Core :=
  { c with elf :=
    { c.elf with slotOwnerPid := Function.update c.elf.slotOwnerPid slot pid } }

/-- The second loop of `elf_slot_for_pid`, which asks `proc_state_of` for each owner. -/
def takeFreeSlot (w : Schedule) (pid : Int) :
    List (Fin elfProcSlots) → Core → Option (Fin elfProcSlots) × Core
  | [], c => (none, c)
  | i :: rest, c =>
    if c.elf.slotOwnerPid i < 0 then (some i, setOwner c i pid)
    else
      let state := procStateOf c.proc (c.elf.slotOwnerPid i)
      let c := wait w (.ownerAsked i) c
      if state = .unused then (some i, setOwner c i pid) else takeFreeSlot w pid rest c

def elfSlotForPid (w : Schedule) (c : Core) (pid : Int) : Option (Fin elfProcSlots) × Core :=
  match Fin.find? fun i => decide (c.elf.slotOwnerPid i = pid) with
  | some i => (some i, c)
  | none => takeFreeSlot w pid (List.finRange elfProcSlots) c

/-- The part of `elf_load_from_plan` behind the search for a slot, which calls neither
table. -/
def loadIntoSlot (mach : Machine) (c : Core) (slot : Fin elfProcSlots) (plan : ExecLoadPlan)
    (file : FileView) : Option ProcImage × Core :=
  match loadSegments file (zeroWindow c.mem) ⟨[], []⟩ plan.segments with
  | (false, m, _) => (none, { c with mem := m })
  | (true, m, _) =>
    (some
      { loaded := true
        entry := plan.entry
        imageBase := plan.imageBase
        imageSize := plan.imageSize
        userStackBase := mach.stackBase slot
        userStackSize := BitVec.ofNat 32 elfStackSize
        cwd := none
        output := .vga
        contextValid := false
        context := {} },
      { c with mem := m })

def elfLoadFromPlan (w : Schedule) (mach : Machine) (c : Core) (pid : Int) (plan : ExecLoadPlan)
    (file : FileView) : Option ProcImage × Core :=
  if ¬plan.valid ∨ pid < 0 then (none, c)
  else if imageOutsideWindow plan.imageBase plan.imageSize then (none, c)
  else
    match elfSlotForPid w c pid with
    | (none, c) => (none, c)
    | (some slot, c) => loadIntoSlot mach c slot plan file

/-! ## Running and cleaning up -/

def taskRunUserEnter (w : Schedule) (k : KState) (pid argc : Int) (argv : Nat → Option CStr)
    (ctx : ExecContext) : Bool × KState :=
  match procGetImage k.core.proc pid with
  | none => (false, k)
  | some image =>
    if pid ≤ 0 ∨ ¬image.loaded then (false, k)
    else
      let cwd :=
        match image.cwd with
        | some node => some node
        | none => ctx.cwd
      let files := { k.files with
        userCwd := cwd, userBootMbi := ctx.mbi, userBootMagic := ctx.magic }
      let c := wait w .taskSet (taskSetRunning w (wait w .imageRead k.core) pid)
      let c := wait w .procSet { c with proc := procSetState c.proc pid .running }
      let (ok, c) :=
        if image.contextValid then elfResumeImage c image pid
        else elfExecuteImage c image pid argc argv
      (ok, { k with core := c, files := files })

/-- `proc_exit`, `proc_reap_pid` and `task_reap_pid` in a row. -/
def exitAndReap (w : Schedule) (c : Core) (pid code : Int) : Core :=
  let c := wait w .exited { c with proc := procExit c.proc pid code }
  let proc :=
    match procReapPid c.proc pid with
    | none => c.proc
    | some (_, proc) => proc
  taskReapPid w (wait w .reaped { c with proc := proc }) pid

/-! ## Launching -/

/-- How far `exec_run_path` has got. -/
inductive Launch
  /-- It has returned `rc` without trying to run an ELF file. -/
  | notRun (rc : Int) (k : KState)
  /-- `exec_run_elf_path` has failed before it had a process. -/
  | refused (k : KState)
  /-- `exec_run_elf_path` has failed with a process, which is still to be cleaned up. -/
  | failing (pid : Int) (k : KState)
  | entered (pid : Int) (k : KState)

/-- The clean-up, and the value that `exec_run_path` returns. -/
def Launch.finish (w : Schedule) : Launch → Entered
  | .notRun rc k => .returned rc k
  | .refused k => .returned (-1) k
  | .failing pid k => .returned (-1) (k.setCore (exitAndReap w k.core pid (-1)))
  | .entered pid k => .entered pid k

/-- `exec_run_elf_path` from a prepared plan up to Ring 3. -/
def execStart (w : Schedule) (mach : Machine) (k : KState) (path : CStr) (argv : List CStr)
    (ctx : ExecContext) (ppid : Int) (file : FileView) (plan : ExecLoadPlan) : Launch :=
  match taskSpawnUser w k.core (some (execProgramNameFromPath path 16)) ppid with
  | (none, c) => .refused (k.setCore c)
  | (some pid, c) =>
    let (image, c) := elfLoadFromPlan w mach (wait w .spawned c) pid plan file
    let c := wait w .loaded c
    match image with
    | none => .failing pid (k.setCore c)
    | some image =>
      let image := { image with cwd := ctx.cwd, output := ctx.output }
      let c := wait w .bound { c with proc := procBindImage c.proc pid image }
      match taskRunUserEnter w (k.setCore c) pid argv.length (argv[·]?) ctx with
      | (true, k) => .entered pid k
      | (false, k) => .failing pid k

/-- `exec_run_elf_path` up to Ring 3. -/
def execRunElfPath (w : Schedule) (mach : Machine) (k : KState) (path : CStr)
    (argv : List CStr) (ctx : ExecContext) : Option Launch :=
  let c := wait w .called k.core
  let ppid := if taskCurrentPid c.task < 0 then 0 else taskCurrentPid c.task
  let k := k.setCore (wait w .parentRead c)
  let cwd := ctx.cwd.getD vfsRoot
  match readForLoader mach k.files.fs cwd path with
  | none => none
  | some (none, fs) => some (.refused (k.setFs fs))
  | some (some file, fs) =>
    match readForLoader mach fs cwd path with
    | none => none
    | some (again, fs) =>
      match elfPrepareLoadPlanFromVfs again with
      | none => some (.refused (k.setFs fs))
      | some plan => some (execStart w mach (k.setFs fs) path argv ctx ppid file plan)

def execTry (w : Schedule) (mach : Machine) (k : KState) (argv : List CStr) (ctx : ExecContext) :
    List CStr → Option Launch
  | [] => some (.notRun 0 k)
  | path :: paths =>
    match execIsElfPath mach k.files.fs (ctx.cwd.getD vfsRoot) path with
    | none => none
    | some (false, fs) => execTry w mach (k.setFs fs) argv ctx paths
    | some (true, fs) => execRunElfPath w mach (k.setFs fs) path argv ctx

/-- `exec_run_path` up to Ring 3 or the clean-up. -/
def execRunPath (w : Schedule) (mach : Machine) (k : KState) (path : CStr) (argv : List CStr)
    (ctx : ExecContext) : Option Launch :=
  if strEq path (cstr "/bin/mounts") then some (.notRun 1 k)
  else if strEq path (cstr "/bin/ring3test") then
    some (.notRun 1 (k.setCore (ring3Test k.core)))
  else execTry w mach k argv ctx (execCandidates path)

/-! ## The system with interrupts -/

/-- The system, and whether the kernel still has interrupts enabled. -/
structure Clocked where
  sys : Sys
  interrupts : Bool

inductive ClockedEvent
  | launch (path : CStr) (argv : List CStr) (cwd : NodeId) (output : ConsoleTarget)
    (w : Schedule)
  | plain (e : Event)

/-- The ticks of a schedule that the kernel gets to see. -/
def Clocked.ticks (s : Clocked) (w : Schedule) : Schedule :=
  if s.interrupts then w else noTicks

/-- What `exec_run_path` does in state `s`; `none` where it cannot be called or does not
return. -/
def launch (b : Boot) (s : Clocked) (path : CStr) (argv : List CStr) (cwd : NodeId)
    (output : ConsoleTarget) (w : Schedule) : Option Launch :=
  match s.sys.ctl with
  | .user _ _ => none
  | .shell =>
    -- `next_pid` is an `int`; its overflow has no meaning
    if 2 ^ 31 - 1 ≤ s.sys.kernel.core.proc.nextPid then none
    else execRunPath (s.ticks w) b.mach s.sys.kernel path argv
      ⟨output, some cwd, b.mbi, b.magic⟩

/-- Leaving Ring 3 through the gate leaves interrupts disabled. -/
def keepsInterrupts : Ctl → Ctl → Bool
  | .user _ _, .shell => false
  | _, _ => true

/-- Whether the event can happen with interrupts as they are. -/
def Clocked.admits (s : Clocked) : Event → Bool
  | .launch _ _ _ _ => false
  | .tick => s.interrupts || s.sys.ctl != .shell
  | _ => true

def clockedStep (b : Boot) (s : Clocked) : ClockedEvent → Option Clocked
  | .launch path argv cwd output w =>
    (launch b s path argv cwd output w).map fun r =>
      ⟨(r.finish (s.ticks w)).toSys .run, s.interrupts && !strEq path (cstr "/bin/ring3test")⟩
  | .plain e =>
    if s.admits e then
      (step b s.sys e).map fun s' => ⟨s', s.interrupts && keepsInterrupts s.sys.ctl s'.ctl⟩
    else none

end SlopOS.Kernel.Ticks
