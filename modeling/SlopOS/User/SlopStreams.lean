import SlopOS.User.Printf
import SlopOS.User.SlopStdio
/-!
# The output calls of `slop_stdio.c` on every kind of stream

A stream has a descriptor behind it, or memory as in `SlopStdio`.  `sys_write` is a parameter: what
it returns for a descriptor and some bytes, and the world after it.
-/

namespace SlopOS.User.Streams

open SlopOS.Kernel SlopOS.Support

/-- What is behind a stream; in memory streams `fd` is -1. -/
inductive Backing
  | fd (fd : Nat)
  | mem
deriving DecidableEq

/-- `SLOP_FILE`, with `fd` and `kind` in `backing`. -/
structure SlopStream where
  backing : Backing
  file : SlopFile
deriving DecidableEq

def SlopStream.fd (fp : SlopStream) : Int :=
  match fp.backing with
  | .fd fd => fd
  | .mem => -1

def SlopStream.setErr (fp : SlopStream) : SlopStream := { fp with file := { fp.file with err := true } }

/-- What a call returns, and what it leaves. -/
structure Done (σ ρ : Type) where
  value : ρ
  world : σ
  alloc : SlopAlloc
  stream : SlopStream

section

variable {σ : Type} (sysWrite : σ → Int → Bytes → Int × σ)

/-- The loop `while (off < len)` over what is left: whether it gets to the end, the bytes written,
and the world. -/
def writeLoop (fd : Int) (w : σ) (buf : Bytes) (off : U32) : Bool × U32 × σ :=
  if _hend : buf = [] then (true, off, w)
  else
    let (rc, w) := sysWrite w fd buf
    if rc ≤ 0 then (false, off, w)
    else writeLoop fd w (buf.drop rc.toNat) (off + BitVec.ofInt 32 rc)
termination_by buf.length
decreasing_by
  have hpos := List.length_pos_of_ne_nil _hend
  rw [List.length_drop]
  omega

def slopWriteAll (w : σ) (fd : Int) (buf : Bytes) : Int × σ :=
  let (done, _, w) := writeLoop sysWrite fd w buf 0
  (if done then 0 else -1, w)

def inMemory {ρ : Type} (w : σ) (fp : SlopStream) (d : StdioDone ρ) : Done σ ρ :=
  ⟨d.value, w, d.alloc, { fp with file := d.file }⟩

def slopFputc (w : σ) (a : SlopAlloc) (ch : Int) (fp : SlopStream) : Option (Done σ Int) :=
  let c : U8 := BitVec.ofInt 8 ch
  match fp.backing with
  | .mem => (User.slopFputc a ch fp.file).map (inMemory w fp)
  | .fd fd =>
    let (rc, w) := sysWrite w fd [c]
    if rc ≠ 1 then some ⟨-1, w, a, fp.setErr⟩ else some ⟨c.toNat, w, a, fp⟩

/-- `ptr` is null, or the bytes that it points to. -/
def slopFwrite (w : σ) (a : SlopAlloc) (ptr : Option (Nat → U8)) (size nmemb : U32) (fp : SlopStream) :
    Option (Done σ U32) :=
  match fp.backing with
  | .mem => (User.slopFwrite a ptr size nmemb fp.file).map (inMemory w fp)
  | .fd fd =>
    match ptr with
    | none => some ⟨0, w, a, fp⟩
    | some src =>
      if size = 0 ∨ nmemb = 0 then some ⟨0, w, a, fp⟩
      else
        let total := size * nmemb
        let (done, off, w) := writeLoop sysWrite fd w ((List.range total.toNat).map src) 0
        some ⟨off / size, w, a, if done then fp else fp.setErr⟩

/-- The kind of the stream is not looked at. -/
def slopFputs (w : σ) (a : SlopAlloc) (s : CStr) (fp : SlopStream) : Done σ Int :=
  let (rc, w) := slopWriteAll sysWrite w fp.fd s
  ⟨if rc = 0 then 0 else -1, w, a, fp⟩

/-- The kind of the stream is not looked at; `stack` is what `out` holds before. -/
def slopVfprintf (w : σ) (a : SlopAlloc) (strings : U32 → CStr) (stack : Nat → U8) (fp : SlopStream)
    (fmt : CStr) (ap : VaList) : Done σ Int :=
  let out := slopVfprintfOut strings fmt ap stack
  let (rc, w) := slopWriteAll sysWrite w fp.fd ((List.range out.off.toNat).map out.bytes)
  ⟨if rc = 0 then out.off.toInt else -1, w, a, fp⟩

def slopFprintf (w : σ) (a : SlopAlloc) (strings : U32 → CStr) (stack : Nat → U8) (fp : SlopStream)
    (fmt : CStr) (args : VaList) : Done σ Int :=
  slopVfprintf sysWrite w a strings stack fp fmt args

/-- `slop_fputc` for one character after the other, until a call fails: whether none does. -/
def fputcEach (w : σ) (a : SlopAlloc) (fp : SlopStream) : CStr → Option (Done σ Bool)
  | [] => some ⟨true, w, a, fp⟩
  | c :: s => do
    let d ← slopFputc sysWrite w a c.toNat fp
    if d.value < 0 then some ⟨false, d.world, d.alloc, d.stream⟩
    else fputcEach d.world d.alloc d.stream s

end

end SlopOS.User.Streams
