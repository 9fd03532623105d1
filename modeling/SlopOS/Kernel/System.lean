import SlopOS.Kernel.Exec
/-!
# The whole kernel as a transition system

Between two steps either the shell loop has the processor or a process runs in
Ring 3; `Ctl` tells which, and on whose behalf the process runs.  The events
are the commands of the two shells, the automatic resume, timer ticks, stretches
of Ring 3 execution and `int 0x80`.  A step that the machine cannot take, or
that never returns to the shell or to Ring 3, is `none`.
-/

namespace SlopOS.Kernel

open SlopOS.Support

/-- What the boot loader, the linker and the hardware hand to `kmain`. -/
structure Boot where
  mach : Machine
  mbi : Option MultibootInfo
  magic : U32
  cd0 : Option Int
  keyboard : Nat → U8

/-- The kernel function in which a running process will be picked up again. -/
inductive Caller
  | run
  | resume
  | auto (slot : Fin maxTasks)
deriving DecidableEq

inductive Ctl
  | shell
  | user (pid : Int) (caller : Caller)
deriving DecidableEq

structure Sys where
  kernel : KState
  ctl : Ctl

inductive Event
  | launch (path : CStr) (argv : List CStr) (cwd : NodeId) (output : ConsoleTarget)
  | autoResume
  | resume (pid : Int) (cwd : NodeId) (output : ConsoleTarget)
  | echo (cwd : NodeId) (path : CStr) (text : Bytes)
  | cd (cwd : NodeId) (path : CStr)
  | alloc (size : U32)
  | tick
  | user (regs : UserContext) (bytes : ByteMem.Mem)
  | syscall

/-! ## Start-up -/

def elfInit : ElfSlots := ⟨fun _ => -1, fun _ _ => 0⟩

def ring3Init : Ring3 := ⟨false, 0, 0, 0, {}⟩

/-- The tables after `proc_init`, `ipc_init`, `tasking_init` and the two shells. -/
def coreInit (mach : Machine) : Core :=
  let c : Core :=
    { task := taskingInit, proc := procInit, ipc := ipcInit, elf := elfInit,
      ring3 := ring3Init, mem := mach.ram }
  let c := ((taskSpawnKernel c (some (cstr "shell-vga")) 0).map Prod.snd).getD c
  ((taskSpawnKernel c (some (cstr "shell-serial")) 0).map Prod.snd).getD c

/-- `kmain` up to the shell loop; `none` when there is no memory for the root
directory. -/
def kmain (b : Boot) : Option Sys :=
  (vfsInit (fsInit b.cd0) (heapInit b.mach.kernelEnd b.mbi b.magic)).map fun fs =>
    let files : Files :=
      { fs := fs, fds := fun _ => { emptyFd with pid := 0 }, userCwd := none,
        userBootMbi := none, userBootMagic := 0, keyboard := b.keyboard }
    ⟨⟨coreInit b.mach, serviceInit, files⟩, .shell⟩

/-! ## `int 0x80` -/

/-- The exit of the stub through `ring3_resume_from_user`. -/
def returnToKernel (c : Core) : Core :=
  { c with ring3 := { c.ring3 with active := false, currentPid := 0 } }

def setExit (c : Core) (exitCode : U32) : Core :=
  { c with ring3 := { c.ring3 with exitCode := exitCode } }

def setStop (c : Core) (reason : U32) : Core :=
  { c with ring3 := { c.ring3 with exitCode := 0, stopReason := reason } }

/-- `syscall_stub`: back to Ring 3 (`false`) or to the kernel function that
entered it (`true`). -/
def syscallStub (mach : Machine) (k : KState) : Option (Bool × KState) :=
  let frame := k.core.ring3.regs
  let fromUser := decide (frame.cs &&& 3 = 3) || k.core.ring3.active
  if frame.eax = sysExit ∧ fromUser then
    some (true, k.setCore (returnToKernel (setExit k.core frame.ebx)))
  else if frame.eax = sysRetKernel ∧ fromUser then
    some (true, k.setCore (returnToKernel (setStop k.core 2)))
  else if frame.eax = sysYield ∧ fromUser then
    some (true, k.setCore (returnToKernel (setStop (syscallSaveYieldContext k.core frame) 1)))
  else
    match (syscallEntry mach k frame.eax frame.ebx frame.ecx frame.edx frame.esi frame.edi).done with
    | none => none
    | some (ret, k) =>
      if ret = errBlocked then
        some (true, k.setCore (returnToKernel (setStop (syscallSaveYieldContext k.core frame) 3)))
      else
        let regs := { k.core.ring3.regs with eax := toU32 ret }
        some (false, k.setCore { k.core with ring3 := { k.core.ring3 with regs := regs } })

/-- What the kernel does once Ring 3 has been left for good. -/
def callerEnd (caller : Caller) (c : Core) (pid rc : Int) (stop : Option ExecStopReason) : Core :=
  match caller with
  | .run => execRunElfPathEnd c pid rc stop
  | .resume => execResumePidEnd c pid rc stop
  | .auto slot => taskResumeNextReadyUserEnd c slot rc stop

/-- From the return of `enter_user_mode` or `resume_user_mode` to the shell loop. -/
def stopUser (k : KState) (pid : Int) (caller : Caller) : Sys :=
  let rc := toInt k.core.ring3.exitCode
  let (stop, c) := taskRunUserStop k.core pid
  ⟨k.setCore (callerEnd caller c pid rc stop), .shell⟩

/-! ## Steps -/

def Entered.toSys (caller : Caller) : Entered → Sys
  | .returned _ k => ⟨k, .shell⟩
  | .entered pid k => ⟨k, .user pid caller⟩

/-- The addresses a process may store to: its image and its stack slot. -/
def ownAddress (image : ProcImage) (a : U32) : Bool :=
  decide (ByteMem.InRange image.imageBase image.imageSize.toNat a) ||
    decide (ByteMem.InRange image.userStackBase image.userStackSize.toNat a)

/-- A stretch of Ring 3 execution: any registers, and any bytes in the
process's own memory. -/
def runUser (c : Core) (pid : Int) (regs : UserContext) (bytes : ByteMem.Mem) : Core :=
  match procGetImage c.proc pid with
  | none => c
  | some image =>
    { c with
      mem := fun a => if ownAddress image a then bytes a else c.mem a
      ring3 := { c.ring3 with regs := regs } }

def shellStep (b : Boot) (k : KState) : Event → Option Sys
  | .launch path argv cwd output =>
    -- `next_pid` is an `int`; its overflow has no meaning
    if 2 ^ 31 - 1 ≤ k.core.proc.nextPid then none
    else (execRunPath b.mach k path argv ⟨output, some cwd, b.mbi, b.magic⟩).map
      (Entered.toSys .run)
  | .autoResume =>
    match taskResumeNextReadyUser k b.mbi b.magic with
    | none => some ⟨k, .shell⟩
    | some (i, true, k') => some ⟨k', .user (k.core.task.tasks i).pid (.auto i)⟩
    | some (_, false, k') => some ⟨k', .shell⟩
  | .resume pid cwd output =>
    some ((execResumePid k pid ⟨output, some cwd, b.mbi, b.magic⟩).toSys .resume)
  | .echo cwd path text =>
    some ⟨k.setFs (vfsWriteFile k.files.fs cwd path (text.getD · 0)
      (BitVec.ofNat 32 text.length)).2, .shell⟩
  | .cd cwd path =>
    (vfsChangeDir b.mach k.files.fs cwd path).map fun (_, fs) => ⟨k.setFs fs, .shell⟩
  | .alloc size =>
    match kmalloc k.files.fs.heap size with
    | none => some ⟨k, .shell⟩
    | some (_, heap) => some ⟨k.setFs { k.files.fs with heap := heap }, .shell⟩
  | .tick => some ⟨k.setCore (schedulerOnTimerTick k.core), .shell⟩
  | .user _ _ => none
  | .syscall => none

def userStep (b : Boot) (k : KState) (pid : Int) (caller : Caller) : Event → Option Sys
  | .tick => some ⟨k.setCore (schedulerOnTimerTick k.core), .user pid caller⟩
  | .user regs bytes => some ⟨k.setCore (runUser k.core pid regs bytes), .user pid caller⟩
  | .syscall =>
    match syscallStub b.mach k with
    | none => none
    | some (false, k) => some ⟨k, .user pid caller⟩
    | some (true, k) => some (stopUser k pid caller)
  | _ => none

def step (b : Boot) (s : Sys) (e : Event) : Option Sys :=
  match s.ctl with
  | .shell => shellStep b s.kernel e
  | .user pid caller => userStep b s.kernel pid caller e

end SlopOS.Kernel
