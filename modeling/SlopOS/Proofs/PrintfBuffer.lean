import SlopOS.Proofs.Formats
import SlopOS.Support.History
/-!
# The local buffer of `slop_vfprintf`

The loop goes on while two more bytes fit, literals and strings keep to the buffer, and the digits of
a number are put into it whatever is left.
-/

namespace SlopOS.Proofs.PrintfBuffer

open SlopOS.Kernel SlopOS.User SlopOS.Support SlopOS.Proofs.Formats

/-- Only `out[0]` to `out[511]` are written. -/
def StaysInside (b : OutBuf) : Prop := ∀ i ∈ b.written, i < 512

/-- Each number that the loop gets to ends in front of the last byte, `n` bytes being there. -/
def NumbersFit (strings : U32 → CStr) (n : Nat) (ps : List Piece) (ap : VaList) : Prop :=
  History.Each (fun front p => p.IsNumber → n + (expand strings front ap).length ≤ 509 →
    n + (expand strings (front ++ [p]) ap).length ≤ 511) ps

variable {strings : U32 → CStr} {n : Nat} {p : Piece} {ps : List Piece} {ap : VaList} {b : OutBuf}
  {bytes : Nat → U8} {s t : CStr} {fmt : CStr}

theorem more_iff (h : b.off.toNat < 1000) : slopSink.more b = true ↔ b.off.toNat ≤ 509 := by
  have hadd : (b.off + 2).toNat = b.off.toNat + 2 := by
    rw [BitVec.toNat_add, show (2 : U32).toNat = 2 from rfl, Nat.mod_eq_of_lt (by omega)]
  have hsize : slopOutSize.toNat = 512 := rfl
  change decide (b.off + 2 < slopOutSize) = true ↔ _
  rw [decide_eq_true_iff, BitVec.lt_def, hadd, hsize]
  omega

theorem room_iff (h : b.off.toNat < 1000) : slopSink.room b = true ↔ b.off.toNat ≤ 510 := by
  have hadd : (b.off + 1).toNat = b.off.toNat + 1 := toNat_succ (by omega)
  have hsize : slopOutSize.toNat = 512 := rfl
  change decide (b.off + 1 < slopOutSize) = true ↔ _
  rw [decide_eq_true_iff, BitVec.lt_def, hadd, hsize]
  omega

/-- Behind the `%` of an unknown conversion there is room for its letter. -/
theorem room_of_more (b : OutBuf) (h : slopSink.more b = true) :
    slopSink.room (slopSink.put b (chr '%')) = true := by
  change decide (b.off + 1 + 1 < slopOutSize) = true
  rw [BitVec.add_assoc]
  exact h

theorem holds_writeString (h : Holds bytes (2 ^ 32) b t) (hlen : t.length ≤ 511) :
    Holds bytes (2 ^ 32) (slopSink.writeString b s) (t ++ s.take (511 - t.length)) := by
  induction s generalizing b t with
  | nil =>
      rw [List.take_nil, List.append_nil]
      exact h
  | cons c s ih =>
      have hoff := h.off
      rw [Sink.writeString]
      by_cases hroom : t.length ≤ 510
      · obtain ⟨k, hk⟩ : ∃ k, 511 - t.length = k + 1 := ⟨510 - t.length, by omega⟩
        have hnext := ih (h.push (c := c) (by omega) (by omega))
          (by rw [List.length_append, List.length_singleton]; omega)
        have hrest : 511 - (t ++ [c]).length = k := by
          rw [List.length_append, List.length_singleton]
          omega
        rw [hrest, List.append_assoc] at hnext
        rw [if_pos ((room_iff (by omega)).mpr (by omega)), hk]
        exact hnext
      · rw [if_neg (mt (room_iff (by omega)).mp (by omega)), Nat.sub_eq_zero_of_le (by omega),
          List.take_zero, List.append_nil]
        exact h

theorem numbersFit_cons : NumbersFit strings n (p :: ps) ap ↔
    (p.IsNumber → n ≤ 509 → n + (p.text strings ap).length ≤ 511) ∧
      NumbersFit strings (n + (p.text strings ap).length) ps (p.rest ap) := by
  unfold NumbersFit
  rw [History.each_cons]
  simp only [List.nil_append, List.cons_append, expand, List.append_nil, List.length_append,
    List.length_nil, Nat.add_zero, Nat.add_assoc]

theorem numbersFit_of_gt (h : 509 < n) : NumbersFit strings n ps ap := by
  intro front p back _ _ hle
  omega

theorem drive_full (hfull : 509 < b.off.toNat) (h : b.off.toNat < 1000) :
    drive slopSink strings ps ap b = b := by
  have hmore : slopSink.more b = false :=
    Bool.eq_false_iff.mpr (mt (more_iff h).mp (Nat.not_le.mpr hfull))
  cases ps with
  | nil => rfl
  | cons p ps => rw [drive, if_pos hmore]

/-- A piece in the loop: a string may be cut at the last byte, anything else is not. -/
theorem holds_step (strings : U32 → CStr) (ap : VaList) (p : Piece) (h : Holds bytes (2 ^ 32) b t) (hlen : t.length ≤ 511)
    (htext : t.length + (p.text strings ap).length < 2 ^ 32 ∨ p = .string) : ∃ t',
    Holds bytes (2 ^ 32) (step slopSink strings ap b p) t' ∧
      (p = .string → t'.length ≤ 511) ∧ (t'.length = t.length + (p.text strings ap).length ∨
        p = .string ∧ t'.length = 511 ∧ 511 < t.length + (p.text strings ap).length) := by
  by_cases hstring : p = .string
  · subst hstring
    refine ⟨_, holds_writeString h hlen, ?_⟩
    rw [List.length_append, List.length_take]
    refine ⟨fun _ => by omega, ?_⟩
    change _ = _ + (vaString strings ap.arg).length ∨
      _ ∧ _ ∧ 511 < t.length + (vaString strings ap.arg).length
    by_cases hfits : t.length + (vaString strings ap.arg).length ≤ 511
    · exact .inl (by omega)
    · exact .inr ⟨rfl, by omega, by omega⟩
  · have hshort := htext.resolve_right hstring
    have hstep : step slopSink strings ap b p = (p.text strings ap).foldl OutBuf.push b := by
      cases p with
      | string => exact absurd rfl hstring
      | _ => rfl
    rw [hstep]
    exact ⟨_, h.append_push (by omega) hshort, fun hp => absurd hp hstring, .inl List.length_append⟩

/-- Numbers have at most eleven characters, and other pieces than strings at most two. -/
theorem length_text_le (strings : U32 → CStr) (ap : VaList) (hstring : p ≠ .string) : (p.text strings ap).length ≤ 11 := by
  have hword (value : U32) : value.toNat < 10 ^ 10 := value.isLt.trans (by decide)
  cases p with
  | lit c => exact (by decide : 1 ≤ 11)
  | string => exact absurd rfl hstring
  | signed =>
      have hsmall : ap.arg.toInt.natAbs < 10 ^ 10 := by
        have hge := BitVec.le_toInt ap.arg
        have hlt := BitVec.toInt_lt (x := ap.arg)
        omega
      have hmagnitude := Decimal.length_decimal_le (by decide) hsmall
      change (signedText ap.arg).length ≤ 11
      unfold signedText
      split
      · rw [List.length_cons]
        omega
      · exact (Decimal.length_decimal_le (by decide) (hword ap.arg)).trans (by decide)
  | unsigned => exact (Decimal.length_decimal_le (by decide) (hword ap.arg)).trans (by decide)
  | character => exact (by decide : 1 ≤ 11)
  | unknown c => exact (by decide : 2 ≤ 11)

/-- Only a number takes more than the two bytes that the loop has seen free. -/
theorem length_text_le_two (strings : U32 → CStr) (ap : VaList) (hstring : p ≠ .string) (hnumber : ¬p.IsNumber) :
    (p.text strings ap).length ≤ 2 := by
  cases p with
  | lit c => exact (by decide : 1 ≤ 2)
  | string => exact absurd rfl hstring
  | signed => exact absurd (.inl rfl) hnumber
  | unsigned => exact absurd (.inr rfl) hnumber
  | character => exact (by decide : 1 ≤ 2)
  | unknown c => exact le_rfl

/-- The loop ends inside the buffer exactly if the numbers do. -/
theorem holds_drive (strings : U32 → CStr) (ps : List Piece) (ap : VaList) (h : Holds bytes (2 ^ 32) b t) (hlen : t.length ≤ 511) : ∃ t',
    Holds bytes (2 ^ 32) (drive slopSink strings ps ap b) t' ∧
      (t'.length ≤ 511 ↔ NumbersFit strings t.length ps ap) := by
  induction ps generalizing b t ap with
  | nil => exact ⟨t, h, iff_of_true hlen History.each_nil⟩
  | cons p ps ih =>
      have hoff := h.off
      by_cases hfull : 509 < t.length
      · refine ⟨t, ?_, iff_of_true hlen (numbersFit_of_gt hfull)⟩
        rw [drive_full (by omega) (by omega)]
        exact h
      · have hmore : ¬slopSink.more b = false := by
          rw [(more_iff (by omega)).mpr (by omega)]
          decide
        obtain ⟨t', ht', hstring, htext⟩ := holds_step strings ap p h hlen
          (by
            by_cases hstring : p = .string
            · exact .inr hstring
            · have hle := length_text_le strings ap hstring
              exact .inl (by omega))
        rw [drive, if_neg hmore, numbersFit_cons]
        rcases htext with htext | ⟨rfl, hcut, hlong⟩
        · by_cases hfits : t'.length ≤ 511
          · obtain ⟨t'', ht'', hrest⟩ := ih (p.rest ap) ht' hfits
            refine ⟨t'', ht'', ?_⟩
            rw [hrest, htext]
            exact (and_iff_right fun _ _ => htext ▸ hfits).symm
          · have hother : p ≠ .string := mt hstring hfits
            have hnumber : p.IsNumber := by
              by_contra hnot
              have hle := length_text_le_two strings ap hother hnot
              omega
            have hle := length_text_le strings ap hother
            have hoff' := ht'.off
            refine ⟨t', ?_, iff_of_false hfits fun hfit => ?_⟩
            · rw [drive_full (by omega) (by omega)]
              exact ht'
            · have hin := hfit.1 hnumber (by omega)
              omega
        · have hoff' := ht'.off
          refine ⟨t', ?_, iff_of_true hcut.le ⟨?_, numbersFit_of_gt (by omega)⟩⟩
          · rw [drive_full (by omega) (by omega)]
            exact ht'
          · rintro (hp | hp)
            · exact absurd hp (by decide)
            · exact absurd hp (by decide)

theorem staysInside_store (h : Holds bytes (2 ^ 32) b t) :
    StaysInside (b.store b.off.toNat 0) ↔ t.length ≤ 511 := by
  have hlt := b.off.isLt
  have hoff := h.off
  have hwritten (i : Nat) :
      i ∈ (b.store b.off.toNat 0).written ↔ i = t.length ∨ i < t.length ∧ i < 2 ^ 32 := by
    rw [← h.written, ← hoff]
    exact List.mem_cons
  constructor
  · intro hin
    have hlast := hin t.length ((hwritten _).mpr (.inl rfl))
    omega
  · intro hle i hi
    rcases (hwritten i).mp hi with hi | hi
    · omega
    · omega

theorem staysInside_numbersFit :
    StaysInside (slopVfprintfOut strings fmt ap bytes) ↔ NumbersFit strings 0 (pieces fmt) ap := by
  obtain ⟨t, ht, hiff⟩ := holds_drive strings (pieces fmt) ap (holds_nil bytes (2 ^ 32))
    (Nat.zero_le 511)
  have hrun : slopVfprintfOut strings fmt ap bytes =
      (drive slopSink strings (pieces fmt) ap ⟨bytes, 0, []⟩).store
        (drive slopSink strings (pieces fmt) ap ⟨bytes, 0, []⟩).off.toNat 0 := by
    unfold slopVfprintfOut
    rw [format_eq room_of_more]
  rw [hrun, staysInside_store ht]
  exact hiff

/-- The call keeps to its buffer exactly if each number that the loop gets to ends in front of the
last byte. -/
theorem staysInside_iff (strings : U32 → CStr) (fmt : CStr) (ap : VaList) (bytes : Nat → U8) :
    StaysInside (slopVfprintfOut strings fmt ap bytes) ↔
      ∀ front p back, pieces fmt = front ++ p :: back → p.IsNumber →
        (expand strings front ap).length ≤ 509 →
          (expand strings (front ++ [p]) ap).length ≤ 511 := by
  rw [staysInside_numbersFit]
  unfold NumbersFit History.Each
  simp only [Nat.zero_add]

/-- `%s%d` with a string of 509 characters and the smallest number. -/
theorem not_staysInside_number : ¬StaysInside
    (slopVfprintfOut (fun _ => List.replicate 509 (chr 'x')) (cstr "%s%d")
      (fun i => if i = 0 then 1 else 0x80000000) fun _ => 0) := by
  have hpieces : pieces (cstr "%s%d") = [.string, .signed] := by
    simp [pieces, cstr, chr]
  have hdigits : (signedText 0x80000000).length = 11 := by decide
  rw [staysInside_numbersFit, hpieces]
  intro h
  have hfit := h [.string] .signed [] rfl (.inl rfl)
  have hstring : vaString (fun _ => List.replicate 509 (chr 'x')) 1 = List.replicate 509 (chr 'x') :=
    if_neg (by decide)
  simp only [List.cons_append, List.nil_append, expand, Piece.text, Piece.rest, VaList.arg,
    VaList.next, hstring, if_true, List.append_nil, List.length_append, List.length_replicate,
    Nat.add_eq_zero_iff, Nat.one_ne_zero, and_false, if_false, hdigits] at hfit
  omega

end SlopOS.Proofs.PrintfBuffer
