import SlopOS.Kernel.Types
/-!
# `slop_alloc.c`

The allocator of the user library.  An address is an offset from
`slop_alloc_arena`, so offsets from `slopAllocArenaSize` on name the memory
behind the arena; a null pointer is `none`.
-/

namespace SlopOS.User

open SlopOS.Kernel SlopOS.Support

def slopAllocArenaSize : U32 := 32 * 1024

/-- The static data of the file. -/
structure SlopAlloc where
  arena : ByteMem.Mem
  used : U32

def slopAlignUp (value : U32) : U32 := (value + 7) &&& ~~~7

/-- `sizeof(struct slop_alloc_hdr)`. -/
def slopAllocHdrSize : U32 := 4

/-- `((struct slop_alloc_hdr *)ptr - 1)->size`. -/
def SlopAlloc.hdrSize (a : SlopAlloc) (ptr : U32) : U32 :=
  ByteMem.loadWord a.arena (ptr - slopAllocHdrSize)

/-- The first `len` turns of the loop of `slop_memcpy`. -/
def slopMemcpy (m : ByteMem.Mem) (dst src : U32) : Nat → ByteMem.Mem
  | 0 => m
  | len + 1 =>
    let m := slopMemcpy m dst src len
    Function.update m (dst + BitVec.ofNat 32 len) (m (src + BitVec.ofNat 32 len))

def slopMalloc (a : SlopAlloc) (size : U32) : Option U32 × SlopAlloc :=
  if size = 0 then (none, a)
  else
    let total := slopAlignUp (slopAllocHdrSize + size)
    let start := slopAlignUp a.used
    if slopAllocArenaSize < start + total then (none, a)
    else (some (start + slopAllocHdrSize), ⟨ByteMem.storeWord a.arena start size, start + total⟩)

def slopFree (a : SlopAlloc) (_ptr : U32) : SlopAlloc := a

def slopRealloc (a : SlopAlloc) (ptr : Option U32) (size : U32) : Option U32 × SlopAlloc :=
  match ptr with
  | none => slopMalloc a size
  | some ptr =>
    if size = 0 then (none, slopFree a ptr)
    else if size ≤ a.hdrSize ptr then (some ptr, a)
    else
      match slopMalloc a size with
      | (none, a) => (none, a)
      | (some newPtr, a) =>
        let copySize := a.hdrSize ptr
        let copySize := if size < copySize then size else copySize
        (some newPtr, { a with arena := slopMemcpy a.arena newPtr ptr copySize.toNat })

/-- The library before its first call: static data is zero. -/
def slopAllocInit : SlopAlloc := ⟨fun _ => 0, 0⟩

end SlopOS.User
