import SlopOS.Proofs.Formats
/-!
# `vsnprintf`

The counting goes on behind the end of the buffer, the storing does not.
-/

namespace SlopOS.Proofs.Vsnprintf

open SlopOS.Kernel SlopOS.User SlopOS.Support SlopOS.Proofs.Formats

variable {bytes : Nat → U8} {b : OutBuf} {s t : CStr} {c : U8} {size : U32}

theorem holds_skip {limit : Nat} (h : Holds bytes limit b t) (hlimit : limit ≤ t.length)
    (hlen : t.length + 1 < 2 ^ 32) : Holds bytes limit { b with off := b.off + 1 } (t ++ [c]) where
  off := by
    have hoff := h.off
    rw [List.length_append, List.length_singleton, ← hoff]
    exact toNat_succ (by omega)
  text i hi d hd := by
    rw [List.getElem?_append_left (by omega)] at hd
    exact h.text i hi d hd
  above i hi := by
    rw [List.length_append, List.length_singleton] at hi
    exact h.above i (by omega)
  written i := by
    have hwritten := h.written i
    rw [List.length_append, List.length_singleton]
    change i ∈ b.written ↔ _
    rw [hwritten]
    omega

theorem holds_appendChar (h : Holds bytes (size.toNat - 1) b t) (hlen : t.length + 1 < 2 ^ 32) :
    Holds bytes (size.toNat - 1) (appendChar size b c) (t ++ [c]) := by
  have hoff := h.off
  have hnext : (b.off + 1).toNat = b.off.toNat + 1 := toNat_succ (by omega)
  unfold appendChar
  split
  · rename_i hroom
    rw [BitVec.lt_def, hnext] at hroom
    exact h.push (by omega) hlen
  · rename_i hroom
    rw [BitVec.lt_def, hnext] at hroom
    exact holds_skip h (by omega) hlen

theorem holds_foldl (h : Holds bytes (size.toNat - 1) b t) (hlen : t.length + s.length < 2 ^ 32) :
    Holds bytes (size.toNat - 1) (s.foldl (appendChar size) b) (t ++ s) := by
  induction s generalizing b t with
  | nil =>
      rw [List.append_nil]
      exact h
  | cons c s ih =>
      rw [List.length_cons] at hlen
      have hnext := ih (holds_appendChar (c := c) h (by omega))
        (by rw [List.length_append, List.length_singleton]; omega)
      rw [List.append_assoc] at hnext
      exact hnext

/-- `text` is printed into a buffer of `size` bytes that held `bytes`. -/
structure Prints (bytes : Nat → U8) (size : Nat) (text : CStr) (b : OutBuf) : Prop where
  kept : ∀ i < size - 1, ∀ c ∈ text[i]?, b.bytes i = c
  nul : b.bytes (min text.length (size - 1)) = 0
  inside : ∀ i ∈ b.written, i < size
  unchanged : ∀ i, size ≤ i → b.bytes i = bytes i

theorem prints_store (h : Holds bytes (size.toNat - 1) b t) (hsize : 0 < size.toNat) :
    Prints bytes size.toNat t
      (b.store (if b.off < size then b.off else size - 1).toNat 0) := by
  have hoff := h.off
  have hend : (if b.off < size then b.off else size - 1).toNat = min t.length (size.toNat - 1) := by
    split
    · rename_i hlt
      rw [BitVec.lt_def] at hlt
      omega
    · rename_i hle
      rw [BitVec.lt_def] at hle
      have hone : (1 : U32) ≤ size := hsize
      rw [BitVec.toNat_sub_of_le hone, show (1 : U32).toNat = 1 from rfl]
      omega
  rw [hend]
  constructor
  · intro i hi c hc
    have hlt := (List.getElem?_eq_some_iff.mp hc).1
    have hne : i ≠ min t.length (size.toNat - 1) := by omega
    exact (Function.update_of_ne hne _ _).trans (h.text i hi c hc)
  · exact Function.update_self ..
  · intro i hi
    rcases List.mem_cons.mp hi with rfl | hi
    · omega
    · have hlt := ((h.written i).mp hi).2
      omega
  · intro i hi
    have hne : i ≠ min t.length (size.toNat - 1) := by omega
    exact (Function.update_of_ne hne _ _).trans (h.above i (.inr (by omega)))

/-- The call returns the length of the whole expansion and keeps what there is room for. -/
theorem vsnprintf_prints (bytes : Nat → U8) (size : U32) (strings : U32 → CStr) (fmt : CStr)
    (ap : VaList) (hsize : 1 ≤ size.toNat)
    (hlen : (expand strings (pieces fmt) ap).length < 2 ^ 31) :
    (vsnprintf bytes size strings fmt ap).1 = (expand strings (pieces fmt) ap).length ∧
      Prints bytes size.toNat (expand strings (pieces fmt) ap)
        (vsnprintf bytes size strings fmt ap).2 := by
  have hne : size ≠ 0 := by
    rintro rfl
    exact absurd hsize (by decide)
  have hdrive : (compatSink size).format strings fmt ap ⟨bytes, 0, []⟩ =
      (expand strings (pieces fmt) ap).foldl (appendChar size) ⟨bytes, 0, []⟩ := by
    rw [format_eq fun _ _ => rfl, drive_eq (fun _ => rfl) fun _ => rfl]
    rfl
  have hheld := holds_foldl (s := expand strings (pieces fmt) ap)
    (holds_nil bytes (size.toNat - 1)) (by rw [List.length_nil]; omega)
  rw [List.nil_append] at hheld
  unfold vsnprintf
  rw [if_neg hne, hdrive]
  refine ⟨?_, prints_store hheld hsize⟩
  have hoff := hheld.off
  dsimp only
  rw [BitVec.toInt_eq_toNat_of_lt (by omega), hoff]

/-- `"%d"` with the smallest number, in eight bytes. -/
theorem vsnprintf_demo :
    (vsnprintf (fun _ => 0) 8 (fun _ => []) (cstr "%d") fun _ => 0x80000000).1 = 11 := by
  have hpieces : pieces (cstr "%d") = [.signed] := by
    simp [pieces, cstr, chr]
  have htext : expand (fun _ => []) (pieces (cstr "%d")) (fun _ => 0x80000000) =
      cstr "-2147483648" := by
    rw [hpieces]
    decide
  have hlen : (cstr "-2147483648").length = 11 := by decide
  have hcall := (vsnprintf_prints (fun _ => 0) 8 (fun _ => []) (cstr "%d") (fun _ => 0x80000000)
    (by decide) (by rw [htext, hlen]; decide)).1
  rw [htext, hlen] at hcall
  exact hcall

end SlopOS.Proofs.Vsnprintf
