import SlopOS.Kernel.Console
import SlopOS.Kernel.Shell
/-!
# Numerals of the kernel

`parse_u32_dec` takes any string of digits and computes its value in a `u32`.
-/

namespace SlopOS.Proofs.Numerals

open SlopOS.Kernel SlopOS.Support SlopOS.Support.Decimal

def IsNumeral (s : CStr) : Prop := s ≠ [] ∧ ∀ c ∈ s, IsDigit c

instance (s : CStr) : Decidable (IsNumeral s) := inferInstanceAs (Decidable (_ ∧ _))

/-- `s` is accepted exactly if it is the numeral of a `u32`, as that number, and no command acts on
another number.  There is no process with a negative number. -/
structure Exact (s : CStr) : Prop where
  accepted : (parseU32Dec s).2 = true ↔ IsNumeral s ∧ value s < 2 ^ 32
  result : (parseU32Dec s).2 = true → (parseU32Dec s).1.toNat = value s
  alloc : ∀ size, shellHandleAlloc s = .kmalloc size → size.toNat = value s
  resume : ∀ arg, skipSpaces arg = s → ∀ pid, shellHandleResume arg = .execResumePid pid →
    0 ≤ pid → pid = value s

variable {s : CStr} {c : U8} {n : Nat} {v : U32}

/-! ## Parsing -/

theorem not_isDigit_iff : (c < chr '0' ∨ chr '9' < c) ↔ ¬IsDigit c := by
  have hzero : (chr '0').toNat = 48 := by decide
  have hnine : (chr '9').toNat = 57 := by decide
  unfold IsDigit
  rw [BitVec.lt_def, BitVec.lt_def, hzero, hnine]
  omega

theorem parseLoop_digits (hs : ∀ c ∈ s, IsDigit c) :
    parseU32DecLoop (BitVec.ofNat 32 n) s = (BitVec.ofNat 32 (valueFrom n s), true) := by
  induction s generalizing n with
  | nil => rfl
  | cons c s ih =>
      have hc := hs c List.mem_cons_self
      have hlow : 48 ≤ c.toNat := hc.1
      have hdigit : (c - chr '0').setWidth 32 = BitVec.ofNat 32 (c.toNat - 48) := by
        have hle : chr '0' ≤ c := hlow
        apply BitVec.eq_of_toNat_eq
        rw [BitVec.toNat_setWidth, BitVec.toNat_sub_of_le hle, BitVec.toNat_ofNat]
        rfl
      have hnext : BitVec.ofNat 32 n * 10 + (c - chr '0').setWidth 32 =
          BitVec.ofNat 32 (10 * n + (c.toNat - 48)) := by
        rw [hdigit, BitVec.ofNat_add, Nat.mul_comm, BitVec.ofNat_mul]
        rfl
      rw [parseU32DecLoop, if_neg (by rw [not_isDigit_iff]; exact not_not.mpr hc), hnext,
        ih fun d hd => hs d (List.mem_cons_of_mem c hd), valueFrom_cons]

theorem parseLoop_other (hs : ¬∀ c ∈ s, IsDigit c) : parseU32DecLoop v s = (0, false) := by
  induction s generalizing v with
  | nil => exact absurd (fun c hc => absurd hc List.not_mem_nil) hs
  | cons c s ih =>
      rw [parseU32DecLoop]
      by_cases hc : IsDigit c
      · rw [if_neg (by rw [not_isDigit_iff]; exact not_not.mpr hc)]
        apply ih
        intro hall
        exact hs (List.forall_mem_cons.mpr ⟨hc, hall⟩)
      · rw [if_pos (not_isDigit_iff.mpr hc)]

theorem parse_numeral (hs : IsNumeral s) :
    parseU32Dec s = (BitVec.ofNat 32 (value s), true) := by
  unfold parseU32Dec
  rw [if_neg hs.1]
  exact parseLoop_digits hs.2

theorem parse_other (hs : ¬IsNumeral s) : parseU32Dec s = (0, false) := by
  unfold parseU32Dec
  split
  · rfl
  · rename_i hne
    exact parseLoop_other fun hall => hs ⟨hne, hall⟩

/-! ## Printing -/

theorem u32Dec_eq : u32Dec v = decimal v.toNat := by
  unfold u32Dec
  split
  · rename_i h
    rw [h]
    rfl
  · rename_i h
    exact reverse_lowDigits h (v.isLt.trans (by decide))

theorem parse_u32Dec (v : U32) : parseU32Dec (u32Dec v) = (v, true) := by
  have hnumeral : IsNumeral (u32Dec v) := by
    rw [u32Dec_eq]
    exact ⟨decimal_ne_nil, fun c hc => isDigit_of_mem_decimal hc⟩
  rw [parse_numeral hnumeral, u32Dec_eq, value_decimal, BitVec.ofNat_toNat, BitVec.setWidth_eq]

/-! ## Exactness -/

theorem alloc_parsed {size : U32} (h : shellHandleAlloc s = .kmalloc size) :
    parseU32Dec s = (size, true) := by
  unfold shellHandleAlloc at h
  dsimp only at h
  split at h
  · cases h
  · rename_i hgo
    have hok : (parseU32Dec s).2 = true := Bool.eq_true_of_not_eq_false fun hok => hgo (.inl hok)
    exact Prod.ext (ShellAction.kmalloc.inj h) hok

theorem resume_parsed {arg : CStr} {pid : Int} (h : shellHandleResume arg = .execResumePid pid) :
    ∃ v : U32, parseU32Dec (skipSpaces arg) = (v, true) ∧ pid = v.toInt := by
  unfold shellHandleResume at h
  dsimp only at h
  split at h
  · cases h
  · split at h
    · cases h
    · rename_i hgo
      have hok : (parseU32Dec (skipSpaces arg)).2 = true :=
        Bool.eq_true_of_not_eq_false fun hok => hgo (.inl hok)
      exact ⟨_, Prod.ext rfl hok, (ShellAction.execResumePid.inj h).symm⟩

theorem exact_of_lt (hs : IsNumeral s) (hlt : value s < 2 ^ 32) : Exact s := by
  have hparse := parse_numeral hs
  have hvalue : (BitVec.ofNat 32 (value s)).toNat = value s := by
    rw [BitVec.toNat_ofNat, Nat.mod_eq_of_lt hlt]
  constructor
  · rw [hparse]
    exact iff_of_true rfl ⟨hs, hlt⟩
  · rw [hparse]
    exact fun _ => hvalue
  · intro size h
    have hsize := alloc_parsed h
    rw [hparse] at hsize
    rw [← (Prod.mk.inj hsize).1, hvalue]
  · rintro arg rfl pid h hpos
    obtain ⟨v, hv, rfl⟩ := resume_parsed h
    rw [hparse] at hv
    rw [← (Prod.mk.inj hv).1] at hpos ⊢
    have hsmall : 2 * (BitVec.ofNat 32 (value (skipSpaces arg))).toNat < 2 ^ 32 := by
      by_contra hlarge
      rw [BitVec.toInt_eq_toNat_cond, if_neg hlarge] at hpos
      omega
    rw [BitVec.toInt_eq_toNat_of_lt hsmall, hvalue]

theorem exact_of_not (hs : ¬IsNumeral s) : Exact s := by
  have hparse := parse_other hs
  constructor
  · rw [hparse]
    exact iff_of_false (by decide) fun h => hs h.1
  · rw [hparse]
    exact fun h => absurd h (by decide)
  · intro size h
    have hsize := alloc_parsed h
    rw [hparse] at hsize
    exact absurd (Prod.mk.inj hsize).2 (by decide)
  · rintro arg rfl pid h hpos
    obtain ⟨v, hv, -⟩ := resume_parsed h
    rw [hparse] at hv
    exact absurd (Prod.mk.inj hv).2 (by decide)

/-- The printer is undone, and a string is treated exactly unless it is the numeral of a larger
number. -/
theorem parse_exact (v : U32) (s : CStr) : parseU32Dec (u32Dec v) = (v, true) ∧
    (Exact s ↔ (IsNumeral s → value s < 2 ^ 32)) := by
  refine ⟨parse_u32Dec v, fun h hs => ?_, fun h => ?_⟩
  · have hok : (parseU32Dec s).2 = true := by rw [parse_numeral hs]
    exact (h.accepted.mp hok).2
  · by_cases hs : IsNumeral s
    · exact exact_of_lt hs (h hs)
    · exact exact_of_not hs

/-- `resume 4294967299` resumes process 3. -/
theorem not_exact_large : ¬Exact (cstr "4294967299") := by
  intro h
  have hpid := h.resume (cstr "4294967299") (by decide) 3 (by decide) (by decide)
  exact absurd hpid (by decide)

end SlopOS.Proofs.Numerals
