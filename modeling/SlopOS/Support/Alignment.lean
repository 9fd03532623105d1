import Mathlib.Tactic.NormNum
/-!
# Masking the low bits of a word

`(value + mask) & ~mask` with a mask of `k` ones rounds up to a multiple of
`2 ^ k`, as long as the sum does not wrap.
-/

namespace SlopOS.Support.Alignment

variable {w : Nat}

theorem and_not_mask (x : BitVec w) (k : Nat) :
    x &&& ~~~(BitVec.ofNat w (2 ^ k - 1)) = (x >>> k) <<< k := by
  apply BitVec.eq_of_getLsbD_eq
  intro i hi
  rw [BitVec.getLsbD_and, BitVec.getLsbD_not, BitVec.getLsbD_ofNat, Nat.testBit_two_pow_sub_one,
    BitVec.getLsbD_shiftLeft, BitVec.getLsbD_ushiftRight]
  by_cases hk : i < k
  · simp [hi, hk]
  · have hadd : k + (i - k) = i := by omega
    simp [hi, hk, hadd]

theorem toNat_and_not_mask (x : BitVec w) (k : Nat) :
    (x &&& ~~~(BitVec.ofNat w (2 ^ k - 1))).toNat = x.toNat / 2 ^ k * 2 ^ k := by
  have hle : x.toNat / 2 ^ k * 2 ^ k ≤ x.toNat := Nat.div_mul_le_self _ _
  have hlt : x.toNat < 2 ^ w := x.isLt
  rw [and_not_mask, BitVec.toNat_shiftLeft, BitVec.toNat_ushiftRight, Nat.shiftRight_eq_div_pow,
    Nat.shiftLeft_eq]
  exact Nat.mod_eq_of_lt (Nat.lt_of_le_of_lt hle hlt)

def roundUp (n a : Nat) : Nat := (n + (a - 1)) / a * a

theorem roundUp_mod (n a : Nat) : roundUp n a % a = 0 := Nat.mul_mod_left _ _

theorem le_roundUp {n a : Nat} (ha : 0 < a) : n ≤ roundUp n a := by
  have hdiv := Nat.div_add_mod (n + (a - 1)) a
  have hmod := Nat.mod_lt (n + (a - 1)) ha
  unfold roundUp
  rw [Nat.mul_comm]
  omega

theorem roundUp_lt {n a : Nat} (ha : 0 < a) : roundUp n a < n + a := by
  have hle : (n + (a - 1)) / a * a ≤ n + (a - 1) := Nat.div_mul_le_self _ _
  unfold roundUp
  omega

theorem roundUp_eq {n a : Nat} (ha : 0 < a) (h : n % a = 0) : roundUp n a = n := by
  obtain ⟨m, rfl⟩ := Nat.dvd_of_mod_eq_zero h
  have hdiv : (a * m + (a - 1)) / a = m := by
    rw [Nat.mul_add_div ha, Nat.div_eq_of_lt (by omega), Nat.add_zero]
  rw [roundUp, hdiv, Nat.mul_comm]

/-- A multiple that bounds `n` bounds it rounded up. -/
theorem roundUp_le {n m a : Nat} (ha : 0 < a) (hm : m % a = 0) (h : n ≤ m) : roundUp n a ≤ m := by
  calc roundUp n a ≤ roundUp m a := Nat.mul_le_mul_right a (Nat.div_le_div_right (by omega))
    _ = m := roundUp_eq ha hm

end SlopOS.Support.Alignment
