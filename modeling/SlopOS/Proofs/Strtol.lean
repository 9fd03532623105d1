import SlopOS.Support.Spans
import SlopOS.User.CompatStdlib
/-!
# `strtol`

The magnitude is a `long`, so the smallest `long` has none.
-/

namespace SlopOS.Proofs.Strtol

open SlopOS.Kernel SlopOS.User SlopOS.Support SlopOS.Support.Decimal SlopOS.Support.Spans

/-! ## The number at the start of a string -/

def body (s : CStr) : CStr := s.dropWhile fun c => IsBlank c

def unsigned (s : CStr) : CStr :=
  if (body s).head? = some (chr '+') ∨ (body s).head? = some (chr '-') then (body s).tail else body s

def digits (s : CStr) : CStr := (unsigned s).takeWhile fun c => IsDigit c

def behind (s : CStr) : CStr := (unsigned s).dropWhile fun c => IsDigit c

/-- What blanks, sign and digits denote. -/
def number (s : CStr) : Int :=
  if (body s).head? = some (chr '-') then -(value (digits s) : Int) else value (digits s)

def clamp (v : Int) : Int := max longMin (min v longMax)

/-- The call returns the clamped number, reports whether it was in range, and finds its end. -/
def Converts (s : CStr) (base : Int) : Prop :=
  strtol (some s) base = some
    { value := clamp (number s)
      errno := if longMin ≤ number s ∧ number s ≤ longMax then 0 else erange
      endptr := if digits s = [] then 0 else s.length - (behind s).length }

variable {s ds rest : CStr} {c : U8} {v : Nat} {any : Bool} {base : Int}

/-! ## The loop -/

theorem checked_of_mem {v : Int} (hmin : longMin ≤ v) (hmax : v ≤ longMax) :
    checked v = some v := if_pos ⟨hmin, hmax⟩

theorem isDigit_le (h : IsDigit c) : 48 ≤ c.toNat ∧ c.toNat ≤ 57 := h

theorem strtolLoop_stop (h : ∀ c ∈ rest.head?, ¬IsDigit c) {value : Int} :
    strtolLoop base rest value any = some ⟨value, any, false, rest⟩ := by
  cases rest with
  | nil => rfl
  | cons c p => rw [strtolLoop, if_neg (h c rfl)]

theorem strtolLoop_digit (hc : IsDigit c) (hv : (v : Int) ≤ longMax) :
    strtolLoop 10 (c :: rest) v any =
      if ((10 * v + (c.toNat - 48) : Nat) : Int) ≤ longMax then
        strtolLoop 10 rest (10 * v + (c.toNat - 48) : Nat) true
      else some ⟨longMax, true, true, (c :: rest).dropWhile fun c => IsDigit c⟩ := by
  obtain ⟨hlow, hhigh⟩ := isDigit_le hc
  have hmax : longMax = 2147483647 := rfl
  have hmin : longMin = -2147483648 := rfl
  have hroom : checked (longMax - (c.toNat - 48 : Int)) = some (longMax - (c.toNat - 48 : Int)) :=
    checked_of_mem (by omega) (by omega)
  have hdiv : (longMax - (c.toNat - 48 : Int)).tdiv 10 = (longMax - (c.toNat - 48 : Int)) / 10 :=
    Int.tdiv_eq_ediv_of_nonneg (by omega)
  rw [strtolLoop, if_pos hc]
  dsimp only
  rw [if_neg (by omega), hroom, Option.bind_eq_bind, Option.bind_some, hdiv]
  by_cases hfits : ((10 * v + (c.toNat - 48) : Nat) : Int) ≤ longMax
  · have hproduct : checked ((v : Int) * 10) = some ((v : Int) * 10) :=
      checked_of_mem (by omega) (by omega)
    have hnext : (v : Int) * 10 + (c.toNat - 48) = (10 * v + (c.toNat - 48) : Nat) := by omega
    rw [if_neg (by omega), if_pos hfits, hproduct, Option.bind_some, hnext,
      checked_of_mem (by omega) hfits, Option.bind_some]
  · rw [if_pos (by omega), if_neg hfits]

/-- The loop finds the value of the digits, or that it is too large. -/
theorem strtolLoop_digits (any : Bool) (hds : ∀ c ∈ ds, IsDigit c) (hrest : ∀ c ∈ rest.head?, ¬IsDigit c)
    (hv : (v : Int) ≤ longMax) :
    strtolLoop 10 (ds ++ rest) v any = some
      (if (valueFrom v ds : Int) ≤ longMax then ⟨valueFrom v ds, any || !ds.isEmpty, false, rest⟩
      else ⟨longMax, true, true, rest⟩) := by
  induction ds generalizing v any with
  | nil =>
      rw [List.nil_append, strtolLoop_stop hrest, valueFrom_nil, if_pos hv]
      simp
  | cons c ds ih =>
      have hc := hds c List.mem_cons_self
      rw [List.cons_append, strtolLoop_digit hc hv, valueFrom_cons]
      by_cases hfits : ((10 * v + (c.toNat - 48) : Nat) : Int) ≤ longMax
      · rw [if_pos hfits, ih true (fun d hd => hds d (List.mem_cons_of_mem c hd)) hfits]
        simp
      · have hlarge : ¬(valueFrom (10 * v + (c.toNat - 48)) ds : Int) ≤ longMax := by
          have hle := le_valueFrom (v := 10 * v + (c.toNat - 48)) (s := ds)
          omega
        rw [if_neg hfits, if_neg hlarge, ← List.cons_append, dropWhile_span hds hrest]

/-! ## The call -/

theorem digits_behind : digits s ++ behind s = unsigned s := List.takeWhile_append_dropWhile

theorem scan_digits : strtolLoop 10 (unsigned s) 0 false = some
    (if (value (digits s) : Int) ≤ longMax then
      ⟨value (digits s), !(digits s).isEmpty, false, behind s⟩
    else ⟨longMax, true, true, behind s⟩) := by
  have hds : ∀ c ∈ digits s, IsDigit c := fun c hc => of_mem_takeWhile hc
  have hrest : ∀ c ∈ (behind s).head?, ¬IsDigit c := fun c hc => not_of_head_dropWhile hc
  rw [← digits_behind]
  exact strtolLoop_digits (v := 0) false hds hrest (by decide)

theorem strtol_of_scan {scan : StrtolScan} (hbase : base = 0 ∨ base = 10)
    (hscan : strtolLoop 10 (unsigned s) 0 false = some scan) : strtol (some s) base =
      if scan.any = false then some ⟨0, if scan.range then erange else 0, 0⟩
      else (if (body s).head? = some (chr '-') then checked (-scan.value)
        else some scan.value).map fun value =>
          ⟨value, if scan.range then erange else 0, s.length - scan.p.length⟩ := by
  have hten : (if base = 0 then 10 else base) = 10 := by
    split
    · rfl
    · rename_i h
      exact hbase.resolve_left h
  unfold strtol
  dsimp only
  rw [if_neg (by omega), hten]
  change (strtolLoop 10 (unsigned s) 0 false).bind _ = _
  rw [hscan, Option.bind_some]
  by_cases hany : scan.any = false
  · rw [if_pos hany, if_pos hany]
  · rw [if_neg hany, if_neg hany]
    by_cases hneg : (body s).head? = some (chr '-')
    · rw [if_pos hneg]
      exact (if_pos hneg).trans (Option.map_eq_bind ..).symm
    · rw [if_neg hneg]
      exact if_neg hneg

theorem clamp_of_mem {v : Int} (h : longMin ≤ v ∧ v ≤ longMax) : clamp v = v := by
  unfold clamp
  rw [min_eq_left h.2, max_eq_right h.1]

theorem number_of_nil (h : digits s = []) : number s = 0 := by
  unfold number
  rw [h]
  split
  · rfl
  · rfl

theorem converts_small (hbase : base = 0 ∨ base = 10)
    (hfits : (value (digits s) : Int) ≤ longMax) : Converts s base := by
  have hmax : longMax = 2147483647 := rfl
  have hmin : longMin = -2147483648 := rfl
  have hscan := scan_digits (s := s)
  rw [if_pos hfits] at hscan
  unfold Converts
  rw [strtol_of_scan hbase hscan]
  by_cases hnil : digits s = []
  · rw [number_of_nil hnil, hnil]
    rfl
  · have hany : (!(digits s).isEmpty) = true := by simpa using hnil
    have hrange : longMin ≤ number s ∧ number s ≤ longMax := by
      unfold number
      split
      · omega
      · omega
    dsimp only
    rw [hany, if_neg (by decide), if_pos hrange, if_neg hnil, clamp_of_mem hrange]
    by_cases hneg : (body s).head? = some (chr '-')
    · have hnumber : number s = -(value (digits s) : Int) := if_pos hneg
      rw [if_pos hneg, hnumber, checked_of_mem (by omega) (by omega)]
      rfl
    · have hnumber : number s = value (digits s) := if_neg hneg
      rw [if_neg hneg, hnumber]
      rfl

/-- Where the digits are worth more than a `long`, the call returns `LONG_MAX` with the sign. -/
theorem converts_large (hbase : base = 0 ∨ base = 10)
    (hlarge : ¬(value (digits s) : Int) ≤ longMax) :
    Converts s base ↔ (body s).head? ≠ some (chr '-') := by
  have hmax : longMax = 2147483647 := rfl
  have hmin : longMin = -2147483648 := rfl
  have hscan := scan_digits (s := s)
  rw [if_neg hlarge] at hscan
  have hnil : digits s ≠ [] := by
    intro hnil
    rw [hnil, value_nil] at hlarge
    omega
  unfold Converts
  rw [strtol_of_scan hbase hscan]
  dsimp only
  rw [if_neg (by decide), if_neg hnil]
  by_cases hneg : (body s).head? = some (chr '-')
  · have hnumber : number s = -(value (digits s) : Int) := if_pos hneg
    have hclamp : clamp (number s) = longMin := by
      unfold clamp
      omega
    rw [if_pos hneg, checked_of_mem (by omega) (by omega), hclamp]
    refine iff_of_false (fun h => ?_) (not_not.mpr hneg)
    have hvalue : -longMax = longMin := congrArg StrtolDone.value (Option.some.inj h)
    omega
  · have hnumber : number s = value (digits s) := if_neg hneg
    have hclamp : clamp (number s) = longMax := by
      unfold clamp
      omega
    have hrange : ¬(longMin ≤ number s ∧ number s ≤ longMax) := by omega
    rw [if_neg hneg, hclamp, if_neg hrange]
    exact iff_of_true rfl hneg

/-- The numbers above `LONG_MIN` are converted, and no others. -/
theorem converts_iff (s : CStr) (base : Int) (hbase : base = 0 ∨ base = 10) :
    Converts s base ↔ longMin < number s := by
  have hmax : longMax = 2147483647 := rfl
  have hmin : longMin = -2147483648 := rfl
  by_cases hfits : (value (digits s) : Int) ≤ longMax
  · refine iff_of_true (converts_small hbase hfits) ?_
    unfold number
    split
    · omega
    · omega
  · rw [converts_large hbase hfits]
    by_cases hneg : (body s).head? = some (chr '-')
    · have hnumber : number s = -(value (digits s) : Int) := if_pos hneg
      exact iff_of_false (not_not.mpr hneg) (by omega)
    · have hnumber : number s = value (digits s) := if_neg hneg
      exact iff_of_true hneg (by omega)

theorem converts_demo : Converts (cstr " \t-2147483647x") 0 :=
  (converts_iff _ 0 (.inl rfl)).mpr (by decide)

/-- The smallest `long` itself. -/
theorem not_converts_smallest : ¬Converts (cstr "-2147483648") 10 := by
  intro h
  have hlarge : ¬(value (digits (cstr "-2147483648")) : Int) ≤ longMax := by decide
  exact (converts_large (.inr rfl) hlarge).mp h (by decide)

end SlopOS.Proofs.Strtol
