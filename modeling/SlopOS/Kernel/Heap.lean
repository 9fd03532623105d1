import SlopOS.Kernel.Util
/-!
# `heap.c`

The bump allocator.  A block is its address; what a kernel structure stores in
its block is kept with that structure, because no block is ever handed out
twice.
-/

namespace SlopOS.Kernel

open SlopOS.Support

def userImageReservedBase : U32 := 0x00300000

structure Heap where
  start : U32
  current : U32
  limit : U32
  ready : Bool
deriving Repr, DecidableEq

def alignUp (value alignment : U32) : U32 :=
  let mask := alignment - 1
  (value + mask) &&& ~~~mask

/-- `heap_init`, for a kernel image that ends at `kernelEnd`. -/
def heapInit (kernelEnd : U32) (mbi : Option MultibootInfo) (magic : U32) : Heap :=
  let heapStart := alignUp kernelEnd 16
  let unready : Heap := ⟨heapStart, heapStart, heapStart, false⟩
  match mbi with
  | none => unready
  | some mbi =>
    if magic = multibootMagic ∧ mbi.flags &&& 1 ≠ 0 then
      let heapLimit := alignUp (0x00100000 + mbi.memUpper * 1024) 16
      let heapLimit := if userImageReservedBase < heapLimit then userImageReservedBase
        else heapLimit
      if heapStart < heapLimit then ⟨heapStart, heapStart, heapLimit, true⟩ else unready
    else unready

/-- `kmalloc`: the address of the block and the heap after it, `none` for a null result. -/
def kmalloc (h : Heap) (size : U32) : Option (U32 × Heap) :=
  if ¬h.ready ∨ size = 0 then none
  else
    let start := alignUp h.current 16
    let stop := start + size
    if stop < start ∨ h.limit < stop then none
    else some (start, { h with current := alignUp stop 16 })

/-- `kcalloc`; the zeroing is the initial value of what the caller stores. -/
def kcalloc (h : Heap) (size : U32) : Option (U32 × Heap) := kmalloc h size

/-- `kcalloc` with the memory that it zeroes: block, heap and memory after it. -/
def kcallocIn (m : ByteMem.Mem) (h : Heap) (size : U32) : Option (U32 × Heap × ByteMem.Mem) :=
  match kmalloc h size with
  | none => none
  | some (ptr, h) => some (ptr, h, memZero m ptr size.toNat)

def heapBytesTotal (h : Heap) : U32 := h.limit - h.start

def heapBytesUsed (h : Heap) : U32 := h.current - h.start

def heapBytesFree (h : Heap) : U32 := h.limit - h.current

end SlopOS.Kernel
