import Mathlib.Algebra.BigOperators.Fin
import Mathlib.Data.Finset.Card
import Mathlib.Data.Finset.Union
import Mathlib.Data.Fintype.Card
import SlopOS.Support.SlotTable
/-!
# The set of keys of a slot table

Two tables that are filled with keys of one kind are compared through the sets
of keys they hold; a table without a free slot holds as many keys as slots.
`occupied` counts the slots that have a key.
-/

namespace SlopOS.Support.SlotTable

variable {n : Nat} {α κ : Type} [DecidableEq κ]
variable {key : α → Option κ} {t : Fin n → α} {i : Fin n} {a : α} {k : κ}

def keys (key : α → Option κ) (t : Fin n → α) : Finset κ :=
  Finset.univ.biUnion fun i => (key (t i)).elim ∅ fun k => {k}

theorem mem_keys : k ∈ keys key t ↔ ∃ i, key (t i) = some k := by
  unfold keys
  rw [Finset.mem_biUnion]
  constructor
  · rintro ⟨i, -, hk⟩
    cases hi : key (t i) with
    | none =>
        rw [hi] at hk
        cases hk
    | some k' =>
        rw [hi] at hk
        exact ⟨i, hi.trans (congrArg some (Finset.mem_singleton.mp hk).symm)⟩
  · rintro ⟨i, hi⟩
    refine ⟨i, Finset.mem_univ i, ?_⟩
    rw [hi]
    exact Finset.mem_singleton_self k

theorem mem_keys_iff_indexOf : k ∈ keys key t ↔ indexOf key t k ≠ none := by
  rw [mem_keys, Ne, indexOf_eq_none, not_forall]
  simp only [ne_eq, not_not]

theorem keys_update_subset :
    keys key (Function.update t i a) ⊆ (key a).elim ∅ (fun k => {k}) ∪ keys key t := by
  intro k hk
  obtain ⟨j, hj⟩ := mem_keys.mp hk
  rw [Finset.mem_union]
  by_cases hji : j = i
  · left
    rw [hji, Function.update_self] at hj
    rw [hj]
    exact Finset.mem_singleton_self k
  · right
    rw [Function.update_of_ne hji] at hj
    exact mem_keys.mpr ⟨j, hj⟩

/-- Overwriting a slot with the key it has, or with none, adds no key. -/
theorem keys_update_subset_old (h : key a = key (t i) ∨ key a = none) :
    keys key (Function.update t i a) ⊆ keys key t := by
  intro k hk
  obtain ⟨j, hj⟩ := mem_keys.mp hk
  by_cases hji : j = i
  · rw [hji, Function.update_self] at hj
    rcases h with hsame | hnone
    · exact mem_keys.mpr ⟨i, hsame.symm.trans hj⟩
    · rw [hnone] at hj
      cases hj
  · rw [Function.update_of_ne hji] at hj
    exact mem_keys.mpr ⟨j, hj⟩

theorem keys_const {e : α} (he : key e = none) : keys key (fun _ : Fin n => e) = ∅ := by
  apply Finset.eq_empty_of_forall_notMem
  intro k hk
  obtain ⟨i, hi⟩ := mem_keys.mp hk
  rw [he] at hi
  cases hi

/-- Without a free slot there are as many keys as slots. -/
theorem card_keys_of_full (hd : Distinct key t) (hfull : firstFree key t = none) :
    n ≤ (keys key t).card := by
  have hsome : ∀ i, ∃ k, key (t i) = some k := fun i =>
    Option.ne_none_iff_exists'.mp (firstFree_eq_none.mp hfull i)
  choose keyAt hkeyAt using hsome
  have hcard : (Finset.univ : Finset (Fin n)).card ≤ (keys key t).card := by
    refine Finset.card_le_card_of_injOn keyAt (fun i _ => mem_keys.mpr ⟨i, hkeyAt i⟩) ?_
    intro i _ j _ hij
    exact hd (hkeyAt i) (hij ▸ hkeyAt j)
  rwa [Finset.card_univ, Fintype.card_fin] at hcard

/-! ## Counting -/

def occupied (key : α → Option κ) (t : Fin n → α) : Nat :=
  (Finset.univ.filter fun i => (key (t i)).isSome).card

omit [DecidableEq κ] in
theorem occupied_congr {u : Fin n → α} (h : ∀ i, key (u i) = key (t i)) :
    occupied key u = occupied key t := by
  unfold occupied
  simp only [h]

omit [DecidableEq κ] in
theorem occupied_update :
    occupied key (Function.update t i a) + (if (key (t i)).isSome then 1 else 0) =
      occupied key t + if (key a).isSome then 1 else 0 := by
  have hcount : ∀ u : Fin n → α,
      occupied key u = ∑ j, if (key (u j)).isSome then 1 else 0 := fun u => Finset.card_filter _ _
  have hold := Finset.add_sum_erase Finset.univ
    (fun j => if (key (t j)).isSome then 1 else 0) (Finset.mem_univ i)
  have hnew := Finset.add_sum_erase Finset.univ
    (fun j => if (key (Function.update t i a j)).isSome then 1 else 0) (Finset.mem_univ i)
  have hrest : ∑ j ∈ Finset.univ.erase i, (if (key (Function.update t i a j)).isSome then 1 else 0) =
      ∑ j ∈ Finset.univ.erase i, if (key (t j)).isSome then 1 else 0 := by
    apply Finset.sum_congr rfl
    intro j hj
    rw [Function.update_of_ne (Finset.ne_of_mem_erase hj)]
  rw [hrest, Function.update_self] at hnew
  rw [hcount, hcount, ← hold, ← hnew]
  omega

omit [DecidableEq κ] in
theorem two_le_occupied {j : Fin n} (hne : i ≠ j) (hi : (key (t i)).isSome)
    (hj : (key (t j)).isSome) : 2 ≤ occupied key t := by
  have hpair : ({i, j} : Finset (Fin n)).card = 2 := Finset.card_pair hne
  rw [← hpair]
  apply Finset.card_le_card
  intro x hx
  rw [Finset.mem_insert, Finset.mem_singleton] at hx
  rw [Finset.mem_filter]
  rcases hx with rfl | rfl
  · exact ⟨Finset.mem_univ _, hi⟩
  · exact ⟨Finset.mem_univ _, hj⟩

end SlopOS.Support.SlotTable
