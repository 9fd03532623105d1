import SlopOS.Kernel.Vfs
/-!
# `vfs_get_cwd_path` and its buffer

The printer of `Vfs` once more, with the bytes of `buf`, the indices that are stored to, and what
is taken off `remaining`.
-/

namespace SlopOS.Kernel

/-- `buf`; `out` is counted from `buf`.  `written` has the indices stored to, and `taken` each
subtraction from `remaining` with the value before it. -/
structure CwdBuffer where
  bytes : Nat → U8
  out : Nat
  remaining : U32
  written : List Nat
  taken : List (U32 × U32)

namespace CwdBuffer

/-- `*out = c` -/
def store (b : CwdBuffer) (c : U8) : CwdBuffer :=
  { b with bytes := Function.update b.bytes b.out c, written := b.out :: b.written }

/-- `*out++ = c` -/
def push (b : CwdBuffer) (c : U8) : CwdBuffer := { b.store c with out := b.out + 1 }

/-- `remaining -= n` -/
def take (b : CwdBuffer) (n : U32) : CwdBuffer :=
  { b with remaining := b.remaining - n, taken := (b.remaining, n) :: b.taken }

def strCopyLoop (b : CwdBuffer) : CStr → U32 → CwdBuffer
  | [], _ => b.store 0
  | c :: src, size => if 1 < size then strCopyLoop (b.push c) src (size - 1) else b.store 0

/-- `str_copy(buf, src, size)` -/
def strCopy (b : CwdBuffer) (src : CStr) (size : U32) : CwdBuffer :=
  if size = 0 then b else b.strCopyLoop src size

/-- The printing loop, over the parts from the root down. -/
def printParts (b : CwdBuffer) : List CStr → CwdBuffer
  | [] => b
  | part :: parts =>
    let len : U32 := BitVec.ofNat 32 (strLen part)
    if b.remaining < len + 1 then b
    else
      let b := (part.foldl push b).take len
      printParts (if parts = [] then b else (b.push (chr '/')).take 1) parts

end CwdBuffer

/-- `vfs_get_cwd_path`; `bytes` is what the buffer holds before. -/
def vfsGetCwdPathInto (tree : VfsTree) (cwd : NodeId) (bytes : Nat → U8) (size : U32) : CwdBuffer :=
  let b : CwdBuffer := ⟨bytes, 0, size, [], []⟩
  if size = 0 then b
  else if cwd = vfsRoot then b.strCopy (cstr "/") size
  else
    let parts := (cwdParts tree cwdPartsMax (some cwd)).reverse
    let b := if 1 < b.remaining then (b.push (chr '/')).take 1 else b
    (b.printParts parts).store 0

end SlopOS.Kernel
