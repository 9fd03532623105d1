import SlopOS.Kernel.Types
/-!
# `crt0.asm`

`_start` up to the first instruction of `main`, which finds its parameters above the return address.
-/

namespace SlopOS.User

open SlopOS.Kernel SlopOS.Support

def push (m : ByteMem.Mem) (esp value : U32) : U32 × ByteMem.Mem :=
  (esp - 4, ByteMem.storeWord m (esp - 4) value)

/-- `_start` and its call of `main`, which pushes the address `ret`. -/
def crt0Start (m : ByteMem.Mem) (esp ret : U32) : U32 × ByteMem.Mem :=
  let eax := ByteMem.loadWord m esp
  let ebx := ByteMem.loadWord m (esp + 4)
  let (esp, m) := push m esp ebx
  let (esp, m) := push m esp eax
  push m esp ret

/-- The parameters `argc` and `argv` of a function that has just been called. -/
def mainArgs (m : ByteMem.Mem) (esp : U32) : U32 × U32 :=
  (ByteMem.loadWord m (esp + 4), ByteMem.loadWord m (esp + 8))

end SlopOS.User
