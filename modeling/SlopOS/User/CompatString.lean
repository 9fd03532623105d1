import SlopOS.Kernel.Types
import SlopOS.Support.ByteCopy
/-!
# `compat_string.c`

`memcpy` and `memmove`: the pointer that they return, and the memory.
-/

namespace SlopOS.User

open SlopOS.Kernel SlopOS.Support

def memcpy (m : ByteMem.Mem) (dst src n : U32) : U32 × ByteMem.Mem :=
  (dst, ByteMem.copyUp m dst (ByteMem.sourceAt src) n.toNat)

def memmove (m : ByteMem.Mem) (dst src n : U32) : U32 × ByteMem.Mem :=
  if dst = src then (dst, m)
  else if dst < src then memcpy m dst src n
  else (dst, ByteMem.copyDown m dst (ByteMem.sourceAt src) n.toNat)

end SlopOS.User
