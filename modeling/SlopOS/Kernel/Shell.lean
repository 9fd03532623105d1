import SlopOS.Kernel.Util
/-!
# `shell.c`

The splitting of a command line into arguments, which writes its NULs into the line itself, and
the handlers of `alloc` and `resume` up to the call that they make.
-/

namespace SlopOS.Kernel

def skipSpaces (s : CStr) : CStr := s.dropWhile fun c => c = chr ' '

/-! ## Arguments -/

/-- An entry of `argv`: the literal `">"`, or a pointer into the line. -/
inductive ShellArg
  | redirect
  | word (p : Nat)
deriving DecidableEq

/-- `*p`; the byte behind the line is its NUL. -/
def charAt (line : Bytes) (p : Nat) : U8 := line.getD p 0

/-- `skip_spaces(p)`. -/
def skipSpacesAt (line : Bytes) (p : Nat) : Nat :=
  p + ((line.drop p).takeWhile fun c => c = chr ' ').length

/-- Where the word at `p` ends: at a NUL, a space or a `>`. -/
def wordEnd (line : Bytes) (p : Nat) : Nat :=
  p + ((line.drop p).takeWhile fun c => c ≠ 0 ∧ c ≠ chr ' ' ∧ c ≠ chr '>').length

/-- The outer loop of `shell_split_args`, with `argv` and the line at its end. -/
def splitLoop (maxArgs : Int) : Nat → Bytes → Nat → List ShellArg → Option (List ShellArg × Bytes)
  | 0, _, _, _ => none
  | fuel + 1, line, p, argv =>
    if charAt line p = 0 ∨ maxArgs ≤ argv.length then some (argv, line)
    else
      let p := skipSpacesAt line p
      if charAt line p = 0 then some (argv, line)
      else if charAt line p = chr '>' then splitLoop maxArgs fuel line (p + 1) (argv ++ [.redirect])
      else
        let argv := argv ++ [.word p]
        let p := wordEnd line p
        -- `split_on_redirect`: the outer loop goes on at the NUL just written
        if charAt line p = chr '>' then splitLoop maxArgs fuel (line.set p 0) p argv
        else if charAt line p = 0 then splitLoop maxArgs fuel line p argv
        else splitLoop maxArgs fuel (line.set p 0) (p + 1) argv

def shellSplitArgs (line : Bytes) (maxArgs : Int) : Option (List ShellArg × Bytes) :=
  splitLoop maxArgs (line.length + 1) line 0 []

def argText (line : Bytes) : ShellArg → CStr
  | .redirect => cstr ">"
  | .word p => (line.drop p).takeWhile fun c => c ≠ 0

/-! ## Commands with a number -/

/-- What a handler prints, or the call that it makes. -/
inductive ShellAction
  | print (text : CStr)
  | kmalloc (size : U32)
  | execResumePid (pid : Int)
deriving DecidableEq

def shellHandleAlloc (arg : CStr) : ShellAction :=
  let (size, ok) := parseU32Dec arg
  if ok = false ∨ size = 0 then .print (cstr "Usage: alloc N\n") else .kmalloc size

def shellHandleResume (arg : CStr) : ShellAction :=
  let arg := skipSpaces arg
  if arg = [] then .print (cstr "Usage: resume PID\n")
  else
    let (pid, ok) := parseU32Dec arg
    if ok = false ∨ pid = 0 then .print (cstr "resume: invalid pid\n")
    else .execResumePid pid.toInt

end SlopOS.Kernel
