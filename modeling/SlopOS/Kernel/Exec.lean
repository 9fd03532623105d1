import SlopOS.Kernel.Syscall
/-!
# `exec.c`, and the part of `task.c` that runs user tasks

A process runs between two kernel operations, so `task_run_user_until_stop` is
cut in two where Ring 3 is entered: `taskRunUserEnter` goes up to the `iretd`,
`taskRunUserStop` starts when `enter_user_mode` or `resume_user_mode` returns.
The same holds of the functions that call it.
-/

namespace SlopOS.Kernel

open SlopOS.Support

/-- `struct exec_context`; `cwd` is what `*ctx->cwd` holds. -/
structure ExecContext where
  output : ConsoleTarget
  cwd : Option NodeId
  mbi : Option MultibootInfo
  magic : U32

namespace KState

def setCore (k : KState) (core : Core) : KState := { k with core := core }

end KState

/-! ## Running a task -/

def taskRunUserEnter (k : KState) (pid argc : Int) (argv : Nat → Option CStr)
    (ctx : ExecContext) : Bool × KState :=
  match procGetImage k.core.proc pid with
  | none => (false, k)
  | some image =>
    if pid ≤ 0 ∨ ¬image.loaded then (false, k)
    else
      let cwd :=
        match image.cwd with
        | some node => some node
        | none => ctx.cwd
      let files := { k.files with
        userCwd := cwd, userBootMbi := ctx.mbi, userBootMagic := ctx.magic }
      let c := taskSetState k.core pid .running
      let c := { c with proc := procSetState c.proc pid .running }
      let (ok, c) :=
        if image.contextValid then elfResumeImage c image pid
        else elfExecuteImage c image pid argc argv
      (ok, { k with core := c, files := files })

/-- Setting the state of a stopped process in both tables and going back to the
kernel task. -/
def leaveTask (c : Core) (pid : Int) (task : TaskState) (proc : ProcState) : Core :=
  let c := taskSetState c pid task
  let c := { c with proc := procSetState c.proc pid proc }
  taskReturnToKernelMain c

/-- The two branches for a process that is going to continue. -/
def taskStopSaved (c : Core) (pid : Int) (task : TaskState) (proc : ProcState)
    (reason : ExecStopReason) : Option ExecStopReason × Core :=
  match procGetImage c.proc pid with
  | none => (none, c)
  | some image =>
    match elfSnapshotImage c pid image with
    | (false, c) => (none, c)
    | (true, c) => (some reason, leaveTask c pid task proc)

def taskRunUserStop (c : Core) (pid : Int) : Option ExecStopReason × Core :=
  if c.ring3.stopReason = 1 then taskStopSaved c pid .ready .ready .yielded
  else if c.ring3.stopReason = 3 then taskStopSaved c pid .blocked .blocked .blocked
  else (some .exited, leaveTask c pid .zombie .zombie)

/-- `proc_exit`, `proc_reap_pid` and `task_reap_pid` in a row. -/
def exitAndReap (c : Core) (pid code : Int) : Core :=
  let proc := procExit c.proc pid code
  let proc :=
    match procReapPid proc pid with
    | none => proc
    | some (_, proc) => proc
  (taskReapPid { c with proc := proc } pid).2

/-- Whether the task in slot `i` is one `task_resume_next_ready_user` resumes. -/
def resumable (c : Core) (i : Fin maxTasks) : Bool :=
  if (c.task.tasks i).state ≠ .ready ∨ (c.task.tasks i).pid ≤ 0 then false
  else
    match procGetImage c.proc (c.task.tasks i).pid with
    | none => false
    | some image => image.loaded && image.contextValid

/-- `task_resume_next_ready_user` up to Ring 3: the slot it picked, whether its
task runs, and the state. -/
def taskResumeNextReadyUser (k : KState) (mbi : Option MultibootInfo) (magic : U32) :
    Option (Fin maxTasks × Bool × KState) :=
  match Fin.find? (resumable k.core) with
  | none => none
  | some i =>
    let pid := (k.core.task.tasks i).pid
    match procGetImage k.core.proc pid with
    | none => none
    | some image =>
      let (ok, k) := taskRunUserEnter k pid 0 (fun _ => none) ⟨image.output, image.cwd, mbi, magic⟩
      some (i, ok, k)

def taskResumeNextReadyUserEnd (c : Core) (i : Fin maxTasks) (exitCode : Int)
    (stop : Option ExecStopReason) : Core :=
  if stop = some .exited then exitAndReap c (c.task.tasks i).pid exitCode else c

/-! ## Launching -/

/-- The state of a call that runs a program: it has returned, or its process is
in Ring 3. -/
inductive Entered
  | returned (rc : Int) (k : KState)
  | entered (pid : Int) (k : KState)

def execHasSuffix (s suffix : CStr) : Bool :=
  decide (suffix.length ≤ s.length) && decide (s.drop (s.length - suffix.length) = suffix)

def elfMagic : List U8 := [0x7F, chr 'E', chr 'L', chr 'F']

def execIsElfPath (mach : Machine) (fs : Fs) (cwd : NodeId) (path : CStr) :
    Option (Bool × Fs) :=
  match vfsReadFile mach fs cwd path with
  | none => none
  | some (some (some data, size), fs) =>
    some (decide (4 ≤ size) && decide (data.take 4 = elfMagic), fs)
  | some (_, fs) => some (false, fs)

/-- The scan for the last slash that something follows. -/
def lastName : CStr → CStr → CStr
  | c :: d :: rest, name => lastName (d :: rest) (if c = chr '/' then d :: rest else name)
  | _, name => name

def execProgramNameFromPath (path : CStr) (outSize : Nat) : CStr :=
  if path = [] then strCopy (cstr "userprog") outSize
  else
    let name := lastName path path
    let len :=
      if 4 < name.length ∧ execHasSuffix name (cstr ".elf") then name.length - 4 else name.length
    strCopy (name.take len) outSize

/-- The bytes a data pointer of `vfs_read_file` leads to. -/
def fileView (mach : Machine) (data : Bytes) (size : U32) : FileView where
  byte i := (data[i.toNat]?).getD (mach.outside i)
  size := size

def readForLoader (mach : Machine) (fs : Fs) (cwd : NodeId) (path : CStr) :
    Option (Option FileView × Fs) :=
  match vfsReadFile mach fs cwd path with
  | none => none
  | some (some (some data, size), fs) => some (some (fileView mach data size), fs)
  | some (_, fs) => some (none, fs)

/-- `exec_run_elf_path` from a prepared plan up to Ring 3. -/
def execStart (mach : Machine) (k : KState) (path : CStr) (argv : List CStr)
    (ctx : ExecContext) (ppid : Int) (file : FileView) (plan : ExecLoadPlan) : Entered :=
  match taskSpawnUser k.core (some (execProgramNameFromPath path 16)) ppid with
  | none => .returned 0 k
  | some (pid, c) =>
    let loaded := elfLoadFromPlan mach c pid plan file
    match loaded.image with
    | none => .returned 0 (k.setCore (exitAndReap loaded.core pid (-1)))
    | some image =>
      let image := { image with cwd := ctx.cwd, output := ctx.output }
      let c := { loaded.core with proc := procBindImage loaded.core.proc pid image }
      match taskRunUserEnter (k.setCore c) pid argv.length (argv[·]?) ctx with
      | (true, k) => .entered pid k
      | (false, k) => .returned 0 (k.setCore (exitAndReap k.core pid (-1)))

/-- `exec_run_elf_path` up to Ring 3. -/
def execRunElfPath (mach : Machine) (k : KState) (path : CStr) (argv : List CStr)
    (ctx : ExecContext) : Option Entered :=
  let ppid := if taskCurrentPid k.core.task < 0 then 0 else taskCurrentPid k.core.task
  let cwd := ctx.cwd.getD vfsRoot
  match readForLoader mach k.files.fs cwd path with
  | none => none
  | some (none, fs) => some (.returned 0 (k.setFs fs))
  | some (some file, fs) =>
    match readForLoader mach fs cwd path with
    | none => none
    | some (again, fs) =>
      match elfPrepareLoadPlanFromVfs again with
      | none => some (.returned 0 (k.setFs fs))
      | some plan => some (execStart mach (k.setFs fs) path argv ctx ppid file plan)

def execRunElfPathEnd (c : Core) (pid rc : Int) (stop : Option ExecStopReason) : Core :=
  match stop with
  | none => exitAndReap c pid (-1)
  | some .exited => exitAndReap c pid rc
  | some _ => c

/-- `ring3_test`: Ring 3 for the length of one `int 0x80` with number 240. -/
def ring3Test (c : Core) : Core :=
  { c with ring3 := { c.ring3 with
      active := false, currentPid := 0, stopReason := 2, exitCode := 0 } }

/-- The name with `.elf` behind it, where the buffer has room for both. -/
def withElfSuffix (altPath : CStr) : List CStr :=
  if altPath.length + 4 < 128 then [altPath ++ cstr ".elf"] else []

/-- The paths `exec_run_path` tries in turn, after the built-in programs. -/
def execCandidates (path : CStr) : List CStr :=
  let onCd := strCopy (cstr "/mount/cdrom" ++ path) 128
  let suffixed :=
    if execHasSuffix path (cstr ".elf") then [] else withElfSuffix (strCopy path 128)
  let mounted :=
    if strStartswith path (cstr "/bin/") then
      onCd :: if execHasSuffix onCd (cstr ".elf") then [] else withElfSuffix onCd
    else []
  path :: suffixed ++ mounted

/-- `exec_run_elf_path(..) ? 1 : -1` -/
def Entered.orFailed : Entered → Entered
  | .returned rc k => .returned (if rc ≠ 0 then 1 else -1) k
  | .entered pid k => .entered pid k

def execTry (mach : Machine) (k : KState) (argv : List CStr) (ctx : ExecContext) :
    List CStr → Option Entered
  | [] => some (.returned 0 k)
  | path :: paths =>
    match execIsElfPath mach k.files.fs (ctx.cwd.getD vfsRoot) path with
    | none => none
    | some (false, fs) => execTry mach (k.setFs fs) argv ctx paths
    | some (true, fs) => (execRunElfPath mach (k.setFs fs) path argv ctx).map Entered.orFailed

/-- `exec_run_path` up to Ring 3. -/
def execRunPath (mach : Machine) (k : KState) (path : CStr) (argv : List CStr)
    (ctx : ExecContext) : Option Entered :=
  if strEq path (cstr "/bin/mounts") then some (.returned 1 k)
  else if strEq path (cstr "/bin/ring3test") then
    some (.returned 1 (k.setCore (ring3Test k.core)))
  else execTry mach k argv ctx (execCandidates path)

/-! ## The shell's `resume` -/

/-- `exec_resume_pid` up to Ring 3. -/
def execResumePid (k : KState) (pid : Int) (ctx : ExecContext) : Entered :=
  match procGetImage k.core.proc pid with
  | none => .returned 0 k
  | some image =>
    if pid ≤ 0 ∨ ¬image.loaded ∨ ¬image.contextValid then .returned 0 k
    else
      match taskRunUserEnter k pid 0 (fun _ => none) ctx with
      | (false, k) => .returned 0 k
      | (true, k) => .entered pid k

def execResumePidEnd (c : Core) (pid rc : Int) (stop : Option ExecStopReason) : Core :=
  if stop = some .exited then exitAndReap c pid rc else c

end SlopOS.Kernel
