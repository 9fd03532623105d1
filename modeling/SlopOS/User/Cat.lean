import SlopOS.Kernel.Syscall
import SlopOS.Support.Turns
/-!
# `cat.c`

The program as a function of the kernel that its calls go to.  Its literals and its buffer are
places in user memory; what it has written to the console is kept beside the kernel.
-/

namespace SlopOS.User.Cat

open SlopOS.Support SlopOS.Kernel

structure Ran where
  kernel : KState
  out : CStr

/-- The addresses of the literals and of `buf`. -/
structure Places where
  usage : U32
  noSuchFile : U32
  newline : U32
  buf : U32

def usageText : CStr := cstr "cat: usage cat PATH\n"

def noSuchFileText : CStr := cstr "cat: no such file\n"

section Calls

variable (mach : Machine)

/-- `int $0x80`; `none` is a call that never returns. -/
def int80 (num a1 a2 a3 : U32) (r : Ran) : Option (Int × Ran) :=
  (syscallEntry mach r.kernel num a1 a2 a3 0 0).done.map fun (ret, k) => (ret, ⟨k, r.out⟩)

def sysOpen (path flags : U32) (r : Ran) : Option (Int × Ran) :=
  int80 mach Kernel.sysOpen path flags 0 r

def sysRead (fd : Int) (buf len : U32) (r : Ran) : Option (Int × Ran) :=
  int80 mach Kernel.sysRead (toU32 fd) buf len r

/-- What goes to the descriptors 1 and 2 is on the console. -/
def sysWrite (fd : Int) (buf len : U32) (r : Ran) : Option (Int × Ran) :=
  (int80 mach Kernel.sysWrite (toU32 fd) buf len r).map fun (ret, r') =>
    (ret, if fd = 1 ∨ fd = 2 then
      { r' with out := r.out ++ ByteMem.load r.kernel.core.mem buf ret.toNat } else r')

def sysClose (fd : Int) (r : Ran) : Option (Int × Ran) :=
  int80 mach Kernel.sysClose (toU32 fd) 0 0 r

/-- The loop of `cstr_len`; `none` where no character is a NUL. -/
def cstrLenLoop (m : ByteMem.Mem) : Nat → U32 → Option Nat
  | 0, _ => none
  | n + 1, s => if m s = 0 then some 0 else (cstrLenLoop m n (s + 1)).map (· + 1)

def cstrLen (m : ByteMem.Mem) (s : U32) : Option U32 :=
  if s = 0 then some 0 else (cstrLenLoop m (2 ^ 32) s).map (BitVec.ofNat 32)

/-- `(void)sys_write(1, s, cstr_len(s))` -/
def writeStr (s : U32) (r : Ran) : Option Ran :=
  (cstrLen r.kernel.core.mem s).bind fun n => (sysWrite mach 1 s n r).map Prod.snd

def copyTurn (pl : Places) (fd : Int) (r : Ran) : Ran ⊕ Option Ran :=
  match sysRead mach fd pl.buf 128 r with
  | none => .inr none
  | some (n, r) =>
    if n ≤ 0 then .inr (some r)
    else
      match sysWrite mach 1 pl.buf (toU32 n) r with
      | none => .inr none
      | some (_, r) => .inl r

/-- `main`, its loop given up after so many turns. -/
def main (pl : Places) (turns : Nat) (argc : Int) (argv : U32) (r : Ran) : Option (Int × Ran) :=
  if argc < 2 then (writeStr mach pl.usage r).map fun r => (1, r)
  else
    (sysOpen mach (ByteMem.loadWord r.kernel.core.mem (argv + 4)) 0 r).bind fun (fd, r) =>
      if fd < 0 then (writeStr mach pl.noSuchFile r).map fun r => (1, r)
      else
        (Turns.within (copyTurn mach pl fd) turns r).join.bind fun r =>
          (sysClose mach fd r).bind fun (_, r) =>
            (sysWrite mach 1 pl.newline 1 r).map fun (_, r) => (0, r)

end Calls

end SlopOS.User.Cat
