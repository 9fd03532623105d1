import Mathlib.Data.Nat.Digits.Lemmas
import SlopOS.Support.ByteMem
/-!
# Decimal numerals

`decimal n` is the shortest numeral of `n`, `value` what a string of digits denotes.  A printer
collects the digits of a word from the lowest up (`lowDigits`) and then sends them backwards.
-/

namespace SlopOS.Support.Decimal

open SlopOS.Support.ByteMem

def digit (d : Nat) : Byte := BitVec.ofNat 8 (48 + d)

def IsDigit (c : Byte) : Prop := 48 ≤ c.toNat ∧ c.toNat ≤ 57

instance (c : Byte) : Decidable (IsDigit c) := inferInstanceAs (Decidable (_ ∧ _))

def valueFrom (v : Nat) (s : List Byte) : Nat := s.foldl (fun v c => 10 * v + (c.toNat - 48)) v

def value (s : List Byte) : Nat := valueFrom 0 s

def decimal (n : Nat) : List Byte :=
  if n = 0 then [digit 0] else ((Nat.digits 10 n).map digit).reverse

/-- At most `limit` digits of `v`, from the lowest up. -/
def lowDigits : Nat → Word → List Byte
  | 0, _ => []
  | limit + 1, v => if 0 < v then digit (v % 10).toNat :: lowDigits limit (v / 10) else []

variable {d n v limit : Nat} {s t : List Byte} {c : Byte} {w : Word}

/-! ## Digits -/

theorem toNat_digit (hd : d < 10) : (digit d).toNat = 48 + d := by
  unfold digit
  rw [BitVec.toNat_ofNat]
  omega

theorem isDigit_digit (hd : d < 10) : IsDigit (digit d) := by
  unfold IsDigit
  rw [toNat_digit hd]
  omega

/-! ## The value of a numeral -/

@[simp] theorem valueFrom_nil : valueFrom v [] = v := rfl

@[simp] theorem valueFrom_cons : valueFrom v (c :: s) = valueFrom (10 * v + (c.toNat - 48)) s :=
  List.foldl_cons ..

@[simp] theorem value_nil : value [] = 0 := rfl

theorem value_cons : value (c :: s) = valueFrom (c.toNat - 48) s := by
  rw [value, valueFrom_cons, Nat.mul_zero, Nat.zero_add]

theorem valueFrom_append : valueFrom v (s ++ t) = valueFrom (valueFrom v s) t := List.foldl_append

theorem value_append_singleton : value (s ++ [c]) = 10 * value s + (c.toNat - 48) := valueFrom_append

theorem le_valueFrom : v ≤ valueFrom v s := by
  induction s generalizing v with
  | nil => exact le_rfl
  | cons c s ih =>
      have hnext := ih (v := 10 * v + (c.toNat - 48))
      rw [valueFrom_cons]
      omega

/-! ## The numeral of a number -/

theorem decimal_of_lt (hn : n < 10) : decimal n = [digit n] := by
  unfold decimal
  split
  · rename_i h
    rw [h]
  · rename_i h
    rw [Nat.digits_of_lt 10 n h hn]
    rfl

theorem decimal_of_ge (hn : 10 ≤ n) : decimal n = decimal (n / 10) ++ [digit (n % 10)] := by
  have hdiv : n / 10 ≠ 0 := by omega
  unfold decimal
  rw [if_neg (by omega), if_neg hdiv, Nat.digits_def' (by omega) (by omega), List.map_cons,
    List.reverse_cons]

theorem decimal_ne_nil : decimal n ≠ [] := by
  by_cases hn : n < 10
  · rw [decimal_of_lt hn]
    exact List.cons_ne_nil _ _
  · rw [decimal_of_ge (by omega)]
    exact List.append_ne_nil_of_right_ne_nil _ (List.cons_ne_nil _ _)

theorem isDigit_of_mem_decimal (hc : c ∈ decimal n) : IsDigit c := by
  induction n using Nat.strong_induction_on with
  | _ n ih =>
      by_cases hn : n < 10
      · rw [decimal_of_lt hn, List.mem_singleton] at hc
        rw [hc]
        exact isDigit_digit hn
      · rw [decimal_of_ge (by omega), List.mem_append, List.mem_singleton] at hc
        rcases hc with hc | rfl
        · exact ih (n / 10) (by omega) hc
        · exact isDigit_digit (Nat.mod_lt _ (by omega))

theorem value_decimal : value (decimal n) = n := by
  induction n using Nat.strong_induction_on with
  | _ n ih =>
      by_cases hn : n < 10
      · rw [decimal_of_lt hn, value_cons, valueFrom_nil, toNat_digit hn]
        omega
      · rw [decimal_of_ge (by omega), value_append_singleton, ih (n / 10) (by omega),
          toNat_digit (Nat.mod_lt _ (by omega))]
        omega

theorem length_decimal_le {k : Nat} (hk : 0 < k) (hn : n < 10 ^ k) : (decimal n).length ≤ k := by
  induction k generalizing n with
  | zero => exact absurd hk (lt_irrefl 0)
  | succ k ih =>
      by_cases hsmall : n < 10
      · rw [decimal_of_lt hsmall, List.length_singleton]
        omega
      · have hdiv : n / 10 < 10 ^ k := by
          rw [pow_succ] at hn
          omega
        have hpos : 0 < k := by
          apply Nat.pos_of_ne_zero
          rintro rfl
          rw [pow_zero] at hdiv
          omega
        have hlen := ih hpos hdiv
        rw [decimal_of_ge (by omega), List.length_append, List.length_singleton]
        omega

/-! ## The loop of a printer -/

theorem lowDigits_zero : lowDigits limit 0 = [] := by
  cases limit with
  | zero => rfl
  | succ limit => exact if_neg (lt_irrefl 0)

theorem reverse_lowDigits (hne : w ≠ 0) (hw : w.toNat < 10 ^ limit) :
    (lowDigits limit w).reverse = decimal w.toNat := by
  have hpos : 0 < w.toNat := BitVec.toNat_pos_of_ne_zero hne
  induction limit generalizing w with
  | zero =>
      rw [pow_zero] at hw
      omega
  | succ limit ih =>
      have hlt : 0 < w := hpos
      have hmod : (w % 10).toNat = w.toNat % 10 := BitVec.toNat_umod
      have hdiv : (w / 10).toNat = w.toNat / 10 := BitVec.toNat_udiv
      rw [lowDigits, if_pos hlt, List.reverse_cons, hmod]
      by_cases hsmall : w.toNat < 10
      · have hzero : w / 10 = 0 := by
          apply BitVec.eq_of_toNat_eq
          rw [hdiv, Nat.div_eq_of_lt hsmall]
          rfl
        rw [hzero, lowDigits_zero, decimal_of_lt hsmall, Nat.mod_eq_of_lt hsmall]
        rfl
      · have hge : 10 ≤ w.toNat := by omega
        have hrest : (w / 10).toNat < 10 ^ limit := by
          rw [hdiv]
          rw [pow_succ] at hw
          omega
        have hpos' : 0 < (w / 10).toNat := by omega
        have hne' : w / 10 ≠ 0 := fun hzero => absurd (congrArg BitVec.toNat hzero) hpos'.ne'
        rw [ih hne' hrest hpos', hdiv, decimal_of_ge hge]

end SlopOS.Support.Decimal
