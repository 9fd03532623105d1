import SlopOS.User.Printf
/-!
# The pieces of a format

A format is a list of pieces, and what it stands for is their texts one behind the other.  Both
printers drive their sinks with the pieces in order.
-/

namespace SlopOS.Proofs.Formats

open SlopOS.Kernel SlopOS.User SlopOS.Support

/-! ## Pieces -/

inductive Piece
  | lit (c : U8)
  | string
  | signed
  | unsigned
  | character
  | unknown (c : U8)
deriving DecidableEq

/-- `%%` is a `%`, and so is a `%` at the end. -/
def pieces : CStr → List Piece
  | [] => []
  | c :: fmt =>
    if c ≠ chr '%' then .lit c :: pieces fmt
    else
      match fmt with
      | [] => [.lit c]
      | d :: fmt =>
        if d = chr '%' then .lit d :: pieces fmt
        else if d = chr 'l' ∧ fmt.head? = some (chr 'u') then .unsigned :: pieces fmt.tail
        else if d = chr 's' then .string :: pieces fmt
        else if d = chr 'd' then .signed :: pieces fmt
        else if d = chr 'u' then .unsigned :: pieces fmt
        else if d = chr 'c' then .character :: pieces fmt
        else .unknown d :: pieces fmt
termination_by fmt => fmt.length
decreasing_by
  all_goals simp only [List.length_cons, List.length_tail]
  all_goals omega

/-- A number as a decimal numeral, with a sign where it is negative. -/
def signedText (value : U32) : CStr :=
  if value.toInt < 0 then chr '-' :: Decimal.decimal value.toInt.natAbs
  else Decimal.decimal value.toNat

namespace Piece

/-- Whether the digits of a number are printed. -/
def IsNumber (p : Piece) : Prop := p = .signed ∨ p = .unsigned

/-- The arguments behind those that the piece takes. -/
def rest (ap : VaList) : Piece → VaList
  | .lit _ | .unknown _ => ap
  | _ => ap.next

def text (strings : U32 → CStr) (ap : VaList) : Piece → CStr
  | .lit c => [c]
  | .string => vaString strings ap.arg
  | .signed => signedText ap.arg
  | .unsigned => Decimal.decimal ap.arg.toNat
  | .character => [ap.arg.setWidth 8]
  | .unknown c => [chr '%', c]

end Piece

def expand (strings : U32 → CStr) : List Piece → VaList → CStr
  | [], _ => []
  | p :: ps, ap => p.text strings ap ++ expand strings ps (p.rest ap)

/-! ## Driving a sink -/

variable {σ : Type} {sink : Sink σ} {strings : U32 → CStr} {ap : VaList} {out : σ} {p : Piece}
  {ps : List Piece} {fmt : CStr} {value : U32}

def step (sink : Sink σ) (strings : U32 → CStr) (ap : VaList) (out : σ) : Piece → σ
  | .string => sink.writeString out (vaString strings ap.arg)
  | p => (p.text strings ap).foldl sink.put out

def drive (sink : Sink σ) (strings : U32 → CStr) : List Piece → VaList → σ → σ
  | [], _, out => out
  | p :: ps, ap, out =>
    if sink.more out = false then out
    else drive sink strings ps (p.rest ap) (step sink strings ap out p)

theorem writeU32Dec_eq :
    sink.writeU32Dec out value = (Decimal.decimal value.toNat).foldl sink.put out := by
  unfold Sink.writeU32Dec
  split
  · rename_i h
    rw [h]
    rfl
  · rename_i h
    have hlt : value.toNat < 10 ^ 16 := value.isLt.trans (by decide)
    rw [Decimal.reverse_lowDigits h hlt]

theorem toNat_magnitude (h : value.toInt < 0) :
    (BitVec.ofInt 32 (-(value.toInt + 1)) + 1).toNat = value.toInt.natAbs := by
  have hge : -(2 ^ 31) ≤ value.toInt := BitVec.le_toInt value
  have hint : (BitVec.ofInt 32 (-(value.toInt + 1))).toNat = (-(value.toInt + 1)).toNat := by
    rw [BitVec.toNat_ofInt, Int.emod_eq_of_lt (by omega) (by omega)]
  rw [BitVec.toNat_add, hint, show (1 : U32).toNat = 1 from rfl, Nat.mod_eq_of_lt (by omega)]
  omega

theorem writeS32Dec_eq :
    sink.writeS32Dec out value = (signedText value).foldl sink.put out := by
  unfold Sink.writeS32Dec signedText
  split
  · rename_i h
    rw [writeU32Dec_eq, toNat_magnitude h, List.foldl_cons]
  · exact writeU32Dec_eq

/-- The loop over the format drives the sink with the pieces, if behind the `%` of an unknown
conversion there always is room for its letter. -/
theorem format_eq
    (hroom : ∀ out, sink.more out = true → sink.room (sink.put out (chr '%')) = true) :
    sink.format strings fmt ap out = drive sink strings (pieces fmt) ap out := by
  fun_induction pieces fmt generalizing ap out with
  | case1 => rw [Sink.format, drive]
  | case2 c fmt hc ih =>
      rw [Sink.format.eq_def, drive]
      dsimp only
      rw [if_pos hc, ih]
      rfl
  | case3 c hc =>
      rw [Sink.format, drive, if_neg hc, Decidable.not_not.mp hc, drive]
      rfl
  | case4 c hc fmt ih =>
      rw [Sink.format, drive, if_neg hc, if_pos rfl, ih]
      rfl
  | case5 c hc d fmt hd hl ih =>
      rw [Sink.format, drive, if_neg hc, if_neg hd, if_pos hl, ih, writeU32Dec_eq]
      rfl
  | case6 c hc fmt hd hl ih =>
      rw [Sink.format, drive, if_neg hc, if_neg hd, if_neg hl, if_pos rfl, ih]
      rfl
  | case7 c hc fmt hd hl hs ih =>
      rw [Sink.format, drive, if_neg hc, if_neg hd, if_neg hl, if_neg hs, if_pos rfl, ih,
        writeS32Dec_eq]
      rfl
  | case8 c hc fmt hd hl hs hsigned ih =>
      rw [Sink.format, drive, if_neg hc, if_neg hd, if_neg hl, if_neg hs, if_neg hsigned,
        if_pos rfl, ih, writeU32Dec_eq]
      rfl
  | case9 c hc fmt hd hl hs hsigned hunsigned ih =>
      rw [Sink.format, drive, if_neg hc, if_neg hd, if_neg hl, if_neg hs, if_neg hsigned,
        if_neg hunsigned, if_pos rfl, ih]
      rfl
  | case10 c hc d fmt hd hl hs hsigned hunsigned hchar ih =>
      rw [Sink.format, drive]
      by_cases hmore : sink.more out = false
      · rw [if_pos hmore, if_pos hmore]
      · have hput := hroom out (Bool.eq_true_of_not_eq_false hmore)
        rw [if_neg hmore, if_neg hmore, if_neg hc, if_neg hd, if_neg hl, if_neg hs, if_neg hsigned,
          if_neg hunsigned, if_neg hchar]
        dsimp only
        rw [if_pos hput, ih]
        rfl

theorem writeString_eq (hroom : ∀ out, sink.room out = true) {s : CStr} :
    sink.writeString out s = s.foldl sink.put out := by
  induction s generalizing out with
  | nil => rfl
  | cons c s ih => rw [Sink.writeString, if_pos (hroom out), ih, List.foldl_cons]

theorem drive_eq (hmore : ∀ out, sink.more out = true) (hroom : ∀ out, sink.room out = true) :
    drive sink strings ps ap out = (expand strings ps ap).foldl sink.put out := by
  induction ps generalizing ap out with
  | nil => rfl
  | cons p ps ih =>
      have hstep : step sink strings ap out p = (p.text strings ap).foldl sink.put out := by
        cases p with
        | string => exact writeString_eq hroom
        | _ => rfl
      rw [drive, if_neg (by simp [hmore out]), ih, hstep, expand, List.foldl_append]

/-! ## The buffers -/

/-- The text `t` has been sent to a buffer that keeps the first `limit` characters. -/
structure Holds (bytes : Nat → U8) (limit : Nat) (b : OutBuf) (t : CStr) : Prop where
  off : b.off.toNat = t.length
  text : ∀ i < limit, ∀ c ∈ t[i]?, b.bytes i = c
  above : ∀ i, t.length ≤ i ∨ limit ≤ i → b.bytes i = bytes i
  written : ∀ i, i ∈ b.written ↔ i < t.length ∧ i < limit

variable {bytes : Nat → U8} {limit : Nat} {b : OutBuf} {s t : CStr} {c : U8} {size : U32}

theorem holds_nil (bytes : Nat → U8) (limit : Nat) : Holds bytes limit ⟨bytes, 0, []⟩ [] where
  off := rfl
  text i _ c hc := by cases hc
  above _ _ := rfl
  written i := by simp

theorem toNat_succ {off : U32} (h : off.toNat + 1 < 2 ^ 32) : (off + 1).toNat = off.toNat + 1 := by
  rw [BitVec.toNat_add, show (1 : U32).toNat = 1 from rfl, Nat.mod_eq_of_lt h]

theorem Holds.push (h : Holds bytes limit b t) (hlimit : t.length < limit)
    (hlen : t.length + 1 < 2 ^ 32) : Holds bytes limit (b.push c) (t ++ [c]) where
  off := by
    rw [← h.off] at hlen
    have hoff : (b.push c).off.toNat = b.off.toNat + 1 := toNat_succ hlen
    rw [hoff, h.off, List.length_append, List.length_singleton]
  text i hi d hd := by
    have hoff := h.off
    by_cases hlast : i = t.length
    · rw [hlast, List.getElem?_concat_length] at hd
      obtain rfl := Option.some.inj hd
      change Function.update b.bytes b.off.toNat c i = c
      rw [hoff, hlast, Function.update_self]
    · have hlt : i < t.length := by
        have hbound := (List.getElem?_eq_some_iff.mp hd).1
        rw [List.length_append, List.length_singleton] at hbound
        omega
      rw [List.getElem?_append_left hlt] at hd
      change Function.update b.bytes b.off.toNat c i = d
      rw [hoff, Function.update_of_ne hlast]
      exact h.text i hi d hd
  above i hi := by
    rw [List.length_append, List.length_singleton] at hi
    have hne : i ≠ b.off.toNat := by
      have hoff := h.off
      omega
    change Function.update b.bytes b.off.toNat c i = bytes i
    rw [Function.update_of_ne hne]
    exact h.above i (by omega)
  written i := by
    have hoff := h.off
    change i ∈ b.off.toNat :: b.written ↔ _
    rw [List.mem_cons, h.written, List.length_append, List.length_singleton]
    omega

theorem Holds.append_push (h : Holds bytes limit b t) (hlimit : t.length + s.length ≤ limit)
    (hlen : t.length + s.length < 2 ^ 32) :
    Holds bytes limit (s.foldl OutBuf.push b) (t ++ s) := by
  induction s generalizing b t with
  | nil =>
      rw [List.append_nil]
      exact h
  | cons c s ih =>
      rw [List.length_cons] at hlimit hlen
      have hnext := ih (h.push (c := c) (by omega) (by omega))
        (by rw [List.length_append, List.length_singleton]; omega)
        (by rw [List.length_append, List.length_singleton]; omega)
      rw [List.append_assoc] at hnext
      exact hnext

end SlopOS.Proofs.Formats
