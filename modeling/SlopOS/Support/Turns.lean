import Mathlib.Logic.Basic
/-!
# Loops without a bound

`turn s` is the state after one more turn, or the result if the loop is left.  `within` is the loop
with a bound on the tests; whether the loop ends at all is `Ends`, which has none.
-/

namespace SlopOS.Support.Turns

variable {σ ρ : Type}

/-- From `s` the loop is left at the `n`th test with the result `r`. -/
inductive Ends (turn : σ → σ ⊕ ρ) : σ → Nat → ρ → Prop
  | done {s r} : turn s = .inr r → Ends turn s 1 r
  | again {s s' n r} : turn s = .inl s' → Ends turn s' n r → Ends turn s (n + 1) r

def within (turn : σ → σ ⊕ ρ) : Nat → σ → Option ρ
  | 0, _ => none
  | fuel + 1, s => (turn s).elim (within turn fuel) some

variable {turn : σ → σ ⊕ ρ} {s : σ} {r : ρ} {n fuel : Nat}

theorem within_done (h : turn s = .inr r) : within turn (fuel + 1) s = some r := by
  rw [within, h]
  rfl

theorem within_again {s' : σ} (h : turn s = .inl s') :
    within turn (fuel + 1) s = within turn fuel s' := by
  rw [within, h]
  rfl

theorem within_eq_some : within turn fuel s = some r ↔ ∃ n ≤ fuel, Ends turn s n r := by
  constructor
  · intro h
    induction fuel generalizing s with
    | zero => cases h
    | succ fuel ih =>
        cases hturn : turn s with
        | inl s' =>
            rw [within_again hturn] at h
            obtain ⟨n, hn, hends⟩ := ih h
            exact ⟨n + 1, Nat.succ_le_succ hn, .again hturn hends⟩
        | inr r' =>
            rw [within_done hturn] at h
            obtain rfl := Option.some.inj h
            exact ⟨1, Nat.succ_pos fuel, .done hturn⟩
  · rintro ⟨n, hn, hends⟩
    induction hends generalizing fuel with
    | done hturn =>
        obtain ⟨fuel, rfl⟩ := Nat.exists_eq_succ_of_ne_zero (Nat.pos_iff_ne_zero.mp hn)
        exact within_done hturn
    | again hturn _ ih =>
        obtain ⟨fuel, rfl⟩ := Nat.exists_eq_succ_of_ne_zero (Nat.ne_zero_of_lt hn)
        rw [within_again hturn]
        exact ih (Nat.le_of_succ_le_succ hn)

/-- A loop all of whose states are left for another of them. -/
theorem not_ends {I : σ → Prop} (hturn : ∀ s, I s → ∃ s', turn s = .inl s' ∧ I s') (hs : I s) :
    ¬Ends turn s n r := by
  intro h
  induction h with
  | done hdone =>
      obtain ⟨s', hagain, -⟩ := hturn _ hs
      rw [hagain] at hdone
      cases hdone
  | again hagain _ ih =>
      obtain ⟨s', hagain', hs'⟩ := hturn _ hs
      rw [hagain] at hagain'
      obtain rfl := Sum.inl.inj hagain'
      exact ih hs'

end SlopOS.Support.Turns
