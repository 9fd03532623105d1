import SlopOS.Kernel.Types
import SlopOS.Support.Decimal
/-!
# The formatted output of `slop_stdio.c` and `compat_stdio.c`

`slop_vfprintf` and `vsnprintf` read a format in the same way.  They differ in when the loop goes on,
when a string is cut, and in how a character is put into the buffer.
-/

namespace SlopOS.User

open SlopOS.Kernel SlopOS.Support

/-! ## Arguments -/

abbrev VaList := Nat → U32

def VaList.arg (ap : VaList) : U32 := ap 0

def VaList.next (ap : VaList) : VaList := fun i => ap (i + 1)

/-- The argument of `%s`, with the strings in memory; `None` of them is at 0. -/
def vaString (strings : U32 → CStr) (value : U32) : CStr :=
  if value = 0 then cstr "(null)" else strings value

/-! ## The loops -/

/-- Where the characters go: whether the outer loop goes on, whether there is room for one more
character of a string, and what one character does. -/
structure Sink (σ : Type) where
  more : σ → Bool
  room : σ → Bool
  put : σ → U8 → σ

namespace Sink

variable {σ : Type} (sink : Sink σ)

def writeU32Dec (out : σ) (value : U32) : σ :=
  if value = 0 then sink.put out (chr '0')
  else (Decimal.lowDigits 16 value).reverse.foldl sink.put out

def writeS32Dec (out : σ) (value : U32) : σ :=
  if value.toInt < 0 then
    sink.writeU32Dec (sink.put out (chr '-')) (BitVec.ofInt 32 (-(value.toInt + 1)) + 1)
  else sink.writeU32Dec out value

def writeString (out : σ) : CStr → σ
  | [] => out
  | c :: s => if sink.room out then writeString (sink.put out c) s else out

def format (strings : U32 → CStr) : CStr → VaList → σ → σ
  | [], _, out => out
  | c :: fmt, ap, out =>
    if sink.more out = false then out
    else if c ≠ chr '%' then format strings fmt ap (sink.put out c)
    else
      match fmt with
      | [] => sink.put out (chr '%')
      | d :: fmt =>
        if d = chr '%' then format strings fmt ap (sink.put out (chr '%'))
        else if d = chr 'l' ∧ fmt.head? = some (chr 'u') then
          format strings fmt.tail ap.next (sink.writeU32Dec out ap.arg)
        else if d = chr 's' then
          format strings fmt ap.next (sink.writeString out (vaString strings ap.arg))
        else if d = chr 'd' then format strings fmt ap.next (sink.writeS32Dec out ap.arg)
        else if d = chr 'u' then format strings fmt ap.next (sink.writeU32Dec out ap.arg)
        else if d = chr 'c' then
          format strings fmt ap.next (sink.put out (ap.arg.setWidth 8))
        else
          let out := sink.put out (chr '%')
          if sink.room out then format strings fmt ap (sink.put out d)
          else format strings (d :: fmt) ap out
termination_by fmt => fmt.length
decreasing_by
  all_goals simp only [List.length_cons, List.length_tail]
  all_goals omega

end Sink

/-! ## The two buffers -/

/-- A buffer with the offset behind its last character, and the indices written so far. -/
structure OutBuf where
  bytes : Nat → U8
  off : U32
  written : List Nat

def OutBuf.store (b : OutBuf) (i : Nat) (c : U8) : OutBuf :=
  { b with bytes := Function.update b.bytes i c, written := i :: b.written }

/-- `out[off++] = c` -/
def OutBuf.push (b : OutBuf) (c : U8) : OutBuf :=
  { b.store b.off.toNat c with off := b.off + 1 }

/-- `sizeof(out)` -/
def slopOutSize : U32 := 512

def slopSink : Sink OutBuf where
  more b := b.off + 2 < slopOutSize
  room b := b.off + 1 < slopOutSize
  put := OutBuf.push

/-- `out` in `slop_vfprintf` before `slop_write_all(fp->fd, out, off)`. -/
def slopVfprintfOut (strings : U32 → CStr) (fmt : CStr) (ap : VaList) (bytes : Nat → U8) : OutBuf :=
  let out := slopSink.format strings fmt ap ⟨bytes, 0, []⟩
  out.store out.off.toNat 0

def appendChar (size : U32) (b : OutBuf) (c : U8) : OutBuf :=
  if b.off + 1 < size then b.push c else { b with off := b.off + 1 }

def compatSink (size : U32) : Sink OutBuf where
  more _ := true
  room _ := true
  put := appendChar size

/-- `vsnprintf` with pointers that are not null: what it returns, and the buffer. -/
def vsnprintf (bytes : Nat → U8) (size : U32) (strings : U32 → CStr) (fmt : CStr) (ap : VaList) :
    Int × OutBuf :=
  if size = 0 then (-1, ⟨bytes, 0, []⟩)
  else
    let b := (compatSink size).format strings fmt ap ⟨bytes, 0, []⟩
    (b.off.toInt, b.store (if b.off < size then b.off else size - 1).toNat 0)

end SlopOS.User
