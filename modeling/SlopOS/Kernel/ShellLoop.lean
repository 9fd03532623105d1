import SlopOS.Kernel.Shell
import SlopOS.Kernel.System
import SlopOS.Kernel.Console
/-!
# The two shells of `shell.c`

`shell_execute_line` is taken in two halves: which call a line asks for, and what
the call does.  The loop polls the keyboard and the serial line in turn; a line that
starts a process waits for it, and nothing is polled until the process has stopped.
The kernel itself moves by the transition system of `System.lean`.
-/

namespace SlopOS.Kernel

open SlopOS.Support

/-- `struct shell_context`; `input` holds its first `len` characters. -/
structure ShellContext where
  output : ConsoleTarget
  input : CStr
  cwd : NodeId
deriving DecidableEq

def shellInputMax : Nat := 127
def shellArgMax : Int := 16
def shellEchoMax : Nat := 128

/-! ## Which call a line asks for -/

/-- What a line makes the kernel do. -/
inductive ShellCall
  | nothing
  | print (text : CStr)
  | clear
  | heapSummary
  | kmalloc (size : U32)
  | vfsList (path : CStr)
  | vfsReadFile (path : CStr)
  | execResumePid (pid : Int)
  | vfsChangeDir (path : CStr)
  | vfsWriteFile (path text : CStr)
  | execRunPath (path : CStr) (argv : List CStr)
  /-- `panic`, `reboot` and `halt` -/
  | stop
deriving DecidableEq

def ShellAction.call : ShellAction → ShellCall
  | .print text => .print text
  | .kmalloc size => .kmalloc size
  | .execResumePid pid => .execResumePid pid

def shellPrintHelp : CStr :=
  cstr "Commands:\n" ++
  cstr "  help       - list commands\n" ++
  cstr "  clear      - clear screen\n" ++
  cstr "  cd PATH    - change directory (shell builtin)\n" ++
  cstr "  dir [PATH] - list directory (shell builtin)\n" ++
  cstr "  file PATH  - inspect file header (shell builtin)\n" ++
  cstr "  resume PID - resume yielded user task\n" ++
  cstr "  alloc N    - allocate N bytes from kernel heap\n" ++
  cstr "  panic      - trigger kernel panic screen\n" ++
  cstr "  reboot     - reset machine\n" ++
  cstr "  halt       - stop CPU\n" ++
  cstr "Program-style commands (/bin/*):\n" ++
  cstr "  ls [PATH], pwd, mkdir PATH, touch PATH\n" ++
  cstr "  cat PATH, writetest PATH TEXT, stdiotest PATH TEXT\n" ++
  cstr "  systeminfo, sysinfod, ps, free\n" ++
  cstr "  ipc_recv, ipc_send PID [TYPE] [ARG1] [ARG2]\n" ++
  cstr "  ipc_selftest, yieldtest\n" ++
  cstr "  svc_reg NAME, svc_lookup NAME\n" ++
  cstr "    svc_reg keeps a live service task waiting on IPC\n" ++
  cstr "  mounts, ring3test\n" ++
  cstr "  tip: try ls /mount/cdrom and cat /mount/cdrom/...\n" ++
  cstr "Shell builtins:\n" ++
  cstr "  echo TEXT, echo TEXT > PATH\n"

def shellHandleCd (arg : CStr) : ShellCall :=
  let arg := skipSpaces arg
  if arg = [] then .print (cstr "Usage: cd PATH\n") else .vfsChangeDir arg

def shellHandleDir (arg : CStr) : ShellCall :=
  let arg := skipSpaces arg
  if arg = [] then .vfsList [] else .vfsList arg

def shellHandleFile (arg : CStr) : ShellCall :=
  let arg := skipSpaces arg
  if arg = [] then .print (cstr "Usage: file PATH\n") else .vfsReadFile arg

/-- The inner loop of `shell_handle_echo`: one word behind `out`. -/
def echoPart (out : CStr) : CStr → CStr
  | [] => out
  | c :: part => if shellEchoMax ≤ out.length + 1 then out else echoPart (out ++ [c]) part

/-- The outer loop, for the words before the redirection. -/
def echoText (out : CStr) : List CStr → CStr
  | [] => out
  | part :: parts =>
    if out ≠ [] then
      if shellEchoMax ≤ out.length + 1 then out
      else echoText (echoPart (out ++ [chr ' ']) part) parts
    else echoText (echoPart out part) parts

/-- The strings of `argv` once the line has been split. -/
def shellArgs (line : CStr) : Option (List CStr) :=
  (shellSplitArgs line shellArgMax).map fun (argv, line) => argv.map (argText line)

def shellHandleEcho (line : CStr) : Option ShellCall :=
  (shellArgs line).map fun argv =>
    if argv.length < 2 then .print (cstr "\n")
    else
      let words := argv.tail.takeWhile fun arg => !strEq arg (cstr ">")
      match argv.tail.dropWhile fun arg => !strEq arg (cstr ">") with
      | [] => .print (echoText [] words ++ cstr "\n")
      | _ :: behind =>
        if words = [] then .print (cstr "echo: missing text\n")
        else
          match behind with
          | [] => .print (cstr "echo: missing redirect path\n")
          | path :: _ => .vfsWriteFile path (echoText [] words)

def shellRunProgram (line : CStr) : Option ShellCall :=
  (shellArgs line).map fun argv =>
    match argv with
    | [] => .nothing
    | name :: args =>
      let name := if strEq name (cstr "about") then cstr "systeminfo" else name
      let path :=
        if name.head? = some (chr '/') then strCopy name 64
        else strCopy (cstr "/bin/" ++ name) 64
      .execRunPath path (name :: args)

def shellExecuteLine (line : CStr) : Option ShellCall :=
  let trimmed := skipSpaces line
  if trimmed = [] then some .nothing
  else if strEq trimmed (cstr "help") then some (.print shellPrintHelp)
  else if strEq trimmed (cstr "clear") then some .clear
  else if strEq trimmed (cstr "heap") then some .heapSummary
  else if strStartswith trimmed (cstr "alloc ") then some (shellHandleAlloc (trimmed.drop 6)).call
  else if strEq trimmed (cstr "dir") then some (shellHandleDir [])
  else if strStartswith trimmed (cstr "dir ") then some (shellHandleDir (trimmed.drop 4))
  else if strStartswith trimmed (cstr "file ") then some (shellHandleFile (trimmed.drop 5))
  else if strStartswith trimmed (cstr "resume ") then some (shellHandleResume (trimmed.drop 7)).call
  else if strStartswith trimmed (cstr "cd ") then some (shellHandleCd (trimmed.drop 3))
  else if strEq trimmed (cstr "panic") then some .stop
  else if strEq trimmed (cstr "reboot") then some .stop
  else if strEq trimmed (cstr "halt") then some .stop
  else if strEq trimmed (cstr "echo") ∨ strStartswith trimmed (cstr "echo ") then
    shellHandleEcho trimmed
  else shellRunProgram trimmed

/-! ## What the call does -/

def shellPrintHeapSummary (h : Heap) : CStr :=
  if ¬h.ready then cstr "Heap is unavailable. Multiboot memory info was not provided.\n"
  else
    cstr "Heap usage: " ++ u32Dec (heapBytesUsed h) ++ cstr " / " ++ u32Dec (heapBytesTotal h) ++
      cstr " bytes, free " ++ u32Dec (heapBytesFree h) ++ cstr "\n"

def listingText : Option (List FsDirEntry) → CStr
  | none => cstr "ls: no such directory\n"
  | some entries => entries.flatMap fun e => e.name ++ cstr (if e.isDir then "/\n" else "\n")

def shellFileText : Option (Option Bytes × U32) → CStr
  | some (some data, size) =>
    let magic := (data.getD 0 0).setWidth 32 ||| (data.getD 1 0).setWidth 32 <<< (8 : Nat) |||
      (data.getD 2 0).setWidth 32 <<< (16 : Nat) ||| (data.getD 3 0).setWidth 32 <<< (24 : Nat)
    cstr "size=" ++ u32Dec size ++ (if 4 ≤ size then cstr " magic=" ++ u32Hex magic else []) ++
      cstr "\n"
  | _ => cstr "file: no such file\n"

/-- What `shell_execute_line` prints for the result of `shell_run_program`. -/
def shellUnknown (rc : Int) : CStr :=
  if rc = 0 then cstr "Unknown command/program. Type \"help\".\n" else []

/-- A call from the shell: what `shell.c` and `vfs_list` print, the context and the system after
it.  A program, `exec.c` and `elf.c` print texts of their own, which are left out. -/
def ShellCall.perform (b : Boot) (k : KState) (ctx : ShellContext) :
    ShellCall → Option (CStr × ShellContext × Sys)
  | .nothing => some ([], ctx, ⟨k, .shell⟩)
  | .print text => some (text, ctx, ⟨k, .shell⟩)
  | .clear => some (if ctx.output = .vga then [] else cstr "\n", ctx, ⟨k, .shell⟩)
  | .heapSummary => some (shellPrintHeapSummary k.files.fs.heap, ctx, ⟨k, .shell⟩)
  | .kmalloc size =>
    match Kernel.kmalloc k.files.fs.heap size with
    | none => some (cstr "Allocation failed.\n", ctx, ⟨k, .shell⟩)
    | some (ptr, heap) =>
      some (cstr "Allocated " ++ u32Dec size ++ cstr " bytes at " ++ u32Hex ptr ++ cstr "\n", ctx,
        ⟨k.setFs { k.files.fs with heap := heap }, .shell⟩)
  | .vfsList path =>
    (Kernel.vfsList b.mach k.files.fs ctx.cwd (some path)).map fun listed =>
      (listingText listed, ctx, ⟨k, .shell⟩)
  | .vfsReadFile path =>
    (Kernel.vfsReadFile b.mach k.files.fs ctx.cwd path).map fun (found, fs) =>
      (shellFileText found, ctx, ⟨k.setFs fs, .shell⟩)
  | .execResumePid pid =>
    some ([], ctx,
      (Kernel.execResumePid k pid ⟨ctx.output, some ctx.cwd, b.mbi, b.magic⟩).toSys .resume)
  | .vfsChangeDir path =>
    (Kernel.vfsChangeDir b.mach k.files.fs ctx.cwd path).map fun (found, fs) =>
      match found with
      | none => (cstr "cd: no such directory\n", ctx, ⟨k.setFs fs, .shell⟩)
      | some node => ([], { ctx with cwd := node }, ⟨k.setFs fs, .shell⟩)
  | .vfsWriteFile path text =>
    let (ok, fs) := Kernel.vfsWriteFile k.files.fs ctx.cwd path (text.getD · 0)
      (BitVec.ofNat 32 text.length)
    some (if ok then [] else cstr "echo: write failed\n", ctx, ⟨k.setFs fs, .shell⟩)
  | .execRunPath path argv =>
    if 2 ^ 31 - 1 ≤ k.core.proc.nextPid then none
    else
      (Kernel.execRunPath b.mach k path argv ⟨ctx.output, some ctx.cwd, b.mbi, b.magic⟩).map
        fun r =>
          match r with
          | .returned rc k => (shellUnknown rc, ctx, ⟨k, .shell⟩)
          | .entered pid k => ([], ctx, ⟨k, .user pid .run⟩)
  | .stop => none

/-! ## The loop -/

/-- The shell on the screen and the one on the serial line. -/
inductive Terminal
  | vga | serial
deriving DecidableEq

def Terminal.target : Terminal → ConsoleTarget
  | .vga => .vga
  | .serial => .serial

/-- Where in its body the loop is; `handled` is `handled_input`. -/
inductive LoopPoint
  | keyboard
  | serial (handled : Bool)
  | rest (handled : Bool)
deriving DecidableEq

/-- `line` is the terminal whose line has started the process in Ring 3, `printed`
what the shells themselves have put on their consoles. -/
structure ShellLoop where
  sys : Sys
  shells : Terminal → ShellContext
  printed : Terminal → CStr
  point : LoopPoint
  line : Option Terminal

inductive LoopEvent
  /-- what `shell_try_get_input` finds -/
  | poll (c : Option U8)
  | rest
  | tick
  | user (regs : UserContext) (bytes : ByteMem.Mem)
  | syscall

def ShellLoop.print (s : ShellLoop) (t : Terminal) (text : CStr) : ShellLoop :=
  { s with printed := Function.update s.printed t (s.printed t ++ text) }

def ShellLoop.setShell (s : ShellLoop) (t : Terminal) (ctx : ShellContext) : ShellLoop :=
  { s with shells := Function.update s.shells t ctx }

/-- `shell_print_prompt`, without its colours. -/
def shellPrompt (tree : VfsTree) (cwd : NodeId) : CStr := vfsGetCwdPath tree cwd 128 ++ cstr "> "

/-- The end of a line: `ctx->len = 0` and the next prompt. -/
def ShellLoop.endLine (s : ShellLoop) (t : Terminal) : ShellLoop :=
  (s.setShell t { s.shells t with input := [] }).print t
    (shellPrompt s.sys.kernel.files.fs.tree (s.shells t).cwd)

/-- A line from its newline until it has run or its process is in Ring 3. -/
def ShellLoop.runLine (b : Boot) (s : ShellLoop) (t : Terminal) : Option ShellLoop :=
  match shellExecuteLine (s.shells t).input with
  | none => none
  | some call =>
    (call.perform b s.sys.kernel (s.shells t)).map fun (text, ctx, sys) =>
      let s := ({ s with sys := sys }.setShell t ctx).print t (cstr "\n" ++ text)
      if sys.ctl = .shell then s.endLine t else { s with line := some t }

def ShellLoop.processChar (b : Boot) (s : ShellLoop) (t : Terminal) (c : U8) : Option ShellLoop :=
  let c := if c = chr '\r' then chr '\n' else c
  let ctx := s.shells t
  if c = chr '\n' then s.runLine b t
  else if c = 8 ∨ c = 127 then
    if ctx.input = [] then some s
    else some ((s.setShell t { ctx with input := ctx.input.dropLast }).print t [8])
  else if chr ' ' ≤ c ∧ c ≤ chr '~' ∧ ctx.input.length < shellInputMax then
    some ((s.setShell t { ctx with input := ctx.input ++ [c] }).print t [c])
  else some s

def ShellLoop.take (b : Boot) (s : ShellLoop) (t : Terminal) : Option U8 → Option ShellLoop
  | none => some s
  | some c => s.processChar b t c

/-- The kernel has moved; a line whose process has stopped is ended.  Behind Ring 3
`exec_run_path` does not return 0. -/
def ShellLoop.follow (s : ShellLoop) (sys : Sys) : ShellLoop :=
  let s := { s with sys := sys }
  if sys.ctl = .shell then
    match s.line with
    | none => s
    | some t => { s.endLine t with line := none }
  else s

def LoopPoint.polls : LoopPoint → Option Terminal
  | .keyboard => some .vga
  | .serial _ => some .serial
  | .rest _ => none

def LoopPoint.next (input : Bool) : LoopPoint → LoopPoint
  | .keyboard => .serial input
  | .serial handled => .rest (handled || input)
  | .rest _ => .keyboard

def loopStep (b : Boot) (s : ShellLoop) : LoopEvent → Option ShellLoop
  | .poll c =>
    match s.sys.ctl, s.point.polls with
    | .shell, some t => { s with point := s.point.next c.isSome }.take b t c
    | _, _ => none
  | .rest =>
    match s.sys.ctl, s.point with
    | .shell, .rest true => some { s with point := .keyboard }
    | .shell, .rest false =>
      (step b s.sys .autoResume).map fun sys => { s with sys := sys, point := .keyboard }
    | _, _ => none
  | .tick => (step b s.sys .tick).map s.follow
  | .user regs bytes => (step b s.sys (.user regs bytes)).map s.follow
  | .syscall => (step b s.sys .syscall).map s.follow

def shellBanner : Terminal → CStr
  | .vga => cstr "SLOP OS (microkernel bootstrap)\nType \"help\" for commands.\n\n"
  | .serial => cstr "SLOP serial console\nType \"help\" for commands.\n\n"

/-- `shell_loop` at its first turn; `serial_init` leaves the serial line ready. -/
def shellLoop (b : Boot) : Option ShellLoop :=
  (kmain b).map fun sys =>
    { sys := sys
      shells := fun t => ⟨t.target, [], vfsRoot⟩
      printed := fun t => shellBanner t ++ shellPrompt sys.kernel.files.fs.tree vfsRoot
      point := .keyboard
      line := none }

end SlopOS.Kernel
