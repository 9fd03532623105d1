import Mathlib.Data.Fin.Tuple.Basic
import Mathlib.Logic.Function.Basic
/-!
# Keyed slot tables

A fixed array of slots that is searched from the front for a key, and whose
free slots are taken from the front.  `key` gives the key of an occupied slot
and `none` for a free one.  All facts are about `indexOf`, the slot a search
stops at; a table with parallel arrays reads every one of them at that index.
-/

namespace SlopOS.Support.SlotTable

variable {n : Nat} {α β κ : Type}
variable {key : α → Option κ} {t : Fin n → α} {i j : Fin n} {a : α} {k k' : κ}

@[irreducible] def indexOf [DecidableEq κ] (key : α → Option κ) (t : Fin n → α) (k : κ) : Option (Fin n) :=
  Fin.find? fun i => decide (key (t i) = some k)

@[irreducible] def firstFree (key : α → Option κ) (t : Fin n → α) : Option (Fin n) :=
  Fin.find? fun i => (key (t i)).isNone

def Distinct (key : α → Option κ) (t : Fin n → α) : Prop :=
  ∀ ⦃i j : Fin n⦄ ⦃k : κ⦄, key (t i) = some k → key (t j) = some k → i = j

/-! ## What a search returns -/

variable [DecidableEq κ]

theorem key_of_indexOf (h : indexOf key t k = some i) : key (t i) = some k := by
  unfold indexOf at h
  have hi := (Fin.find?_eq_some_iff.mp h).1
  simpa using hi

theorem indexOf_eq_none : indexOf key t k = none ↔ ∀ i, key (t i) ≠ some k := by
  simp [indexOf]

theorem indexOf_isSome : (indexOf key t k).isSome ↔ ∃ i, key (t i) = some k := by
  simp [indexOf]

theorem Distinct.indexOf_eq_some (hd : Distinct key t) :
    indexOf key t k = some i ↔ key (t i) = some k := by
  constructor
  · exact key_of_indexOf
  · intro hi
    obtain ⟨j, hj⟩ := Option.isSome_iff_exists.mp (indexOf_isSome.mpr ⟨i, hi⟩)
    rw [hj, hd (key_of_indexOf hj) hi]

theorem indexOf_inj (h : indexOf key t k = some i) (h' : indexOf key t k' = some i) :
    k = k' := by
  have heq := (key_of_indexOf h).symm.trans (key_of_indexOf h')
  exact Option.some.inj heq

omit [DecidableEq κ] in
theorem key_of_firstFree (h : firstFree key t = some i) : key (t i) = none := by
  unfold firstFree at h
  have hi := (Fin.find?_eq_some_iff.mp h).1
  simpa using hi

omit [DecidableEq κ] in
theorem firstFree_eq_none : firstFree key t = none ↔ ∀ i, key (t i) ≠ none := by
  simp [firstFree, Option.ne_none_iff_isSome]

/-! ## Overwriting an occupied slot under its own key -/

theorem indexOf_update_same (hk : key a = key (t i)) :
    indexOf key (Function.update t i a) = indexOf key t := by
  funext k
  unfold indexOf
  congr 1
  funext j
  by_cases hj : j = i
  · subst hj
    simp [hk]
  · simp [Function.update_of_ne hj]

omit [DecidableEq κ] in
theorem Distinct.update_same (hd : Distinct key t) (hk : key a = key (t i)) :
    Distinct key (Function.update t i a) := by
  have hkey : ∀ j, key (Function.update t i a j) = key (t j) := by
    intro j
    by_cases hj : j = i
    · subst hj
      simp [hk]
    · simp [Function.update_of_ne hj]
  intro j₁ j₂ k h₁ h₂
  rw [hkey] at h₁ h₂
  exact hd h₁ h₂

/-! ## Taking a free slot for a new key -/

theorem indexOf_update_fresh (hi : key (t i) = none) (ha : key a = some k)
    (hfresh : indexOf key t k = none) :
    indexOf key (Function.update t i a) k' =
      if k' = k then some i else indexOf key t k' := by
  by_cases hk : k' = k
  · subst hk
    rw [if_pos rfl, indexOf]
    refine Fin.find?_eq_some_iff.mpr ⟨by simp [ha], ?_⟩
    intro j hj
    have hne := indexOf_eq_none.mp hfresh j
    simp [Function.update_of_ne (Fin.ne_of_lt hj), hne]
  · rw [if_neg hk]
    unfold indexOf
    congr 1
    funext j
    by_cases hj : j = i
    · subst hj
      simp [hi, ha, Ne.symm hk]
    · simp [Function.update_of_ne hj]

theorem Distinct.update_fresh (hd : Distinct key t) (ha : key a = some k)
    (hfresh : indexOf key t k = none) : Distinct key (Function.update t i a) := by
  have hnone := indexOf_eq_none.mp hfresh
  intro j₁ j₂ k' h₁ h₂
  by_cases hj₁ : j₁ = i <;> by_cases hj₂ : j₂ = i
  · rw [hj₁, hj₂]
  · rw [hj₁, Function.update_self, ha] at h₁
    rw [Function.update_of_ne hj₂, ← h₁] at h₂
    exact absurd h₂ (hnone j₂)
  · rw [hj₂, Function.update_self, ha] at h₂
    rw [Function.update_of_ne hj₁, ← h₂] at h₁
    exact absurd h₁ (hnone j₁)
  · rw [Function.update_of_ne hj₁] at h₁
    rw [Function.update_of_ne hj₂] at h₂
    exact hd h₁ h₂

/-! ## Tables with no entry or one -/

theorem indexOf_const {e : α} (he : key e = none) (k : κ) :
    indexOf key (fun _ : Fin n => e) k = none :=
  indexOf_eq_none.mpr fun _ => by simp [he]

omit [DecidableEq κ] in
theorem distinct_const {e : α} (he : key e = none) : Distinct key (fun _ : Fin n => e) := by
  intro i j k hi
  rw [he] at hi
  cases hi

theorem indexOf_single {e : α} (i : Fin n) (he : key e = none) (ha : key a = some k) :
    indexOf key (Function.update (fun _ => e) i a) k' = if k' = k then some i else none := by
  rw [indexOf_update_fresh he ha (indexOf_const he k), indexOf_const he]

theorem distinct_single {e : α} (i : Fin n) (he : key e = none) (ha : key a = some k) :
    Distinct key (Function.update (fun _ => e) i a) :=
  (distinct_const he).update_fresh ha (indexOf_const he k)

/-! ## Taking over a slot for a new key -/

theorem indexOf_update_replace (hd : Distinct key t) (ha : key a = some k)
    (hfresh : indexOf key t k = none) :
    indexOf key (Function.update t i a) k' =
      if k' = k then some i else if indexOf key t k' = some i then none
      else indexOf key t k' := by
  by_cases hk : k' = k
  · subst hk
    rw [if_pos rfl, indexOf]
    refine Fin.find?_eq_some_iff.mpr ⟨by simp [ha], ?_⟩
    intro j hj
    have hne := indexOf_eq_none.mp hfresh j
    simp [Function.update_of_ne (Fin.ne_of_lt hj), hne]
  rw [if_neg hk]
  by_cases hi : indexOf key t k' = some i
  · rw [if_pos hi, indexOf_eq_none]
    intro j hj
    by_cases hji : j = i
    · subst hji
      rw [Function.update_self, ha] at hj
      exact hk (Option.some.inj hj).symm
    · rw [Function.update_of_ne hji] at hj
      exact hji (hd hj (key_of_indexOf hi))
  · rw [if_neg hi]
    have hne : key (t i) ≠ some k' := fun h => hi (hd.indexOf_eq_some.mpr h)
    unfold indexOf
    congr 1
    funext j
    by_cases hj : j = i
    · subst hj
      simp [ha, hne, Ne.symm hk]
    · simp [Function.update_of_ne hj]

/-! ## Freeing a slot -/

theorem indexOf_update_free (hd : Distinct key t) (hi : key (t i) = some k)
    (ha : key a = none) :
    indexOf key (Function.update t i a) k' =
      if k' = k then none else indexOf key t k' := by
  by_cases hk : k' = k
  · subst hk
    rw [if_pos rfl, indexOf_eq_none]
    intro j hj
    by_cases hji : j = i
    · subst hji
      simp [ha] at hj
    · rw [Function.update_of_ne hji] at hj
      exact hji (hd hj hi)
  · rw [if_neg hk]
    unfold indexOf
    congr 1
    funext j
    by_cases hj : j = i
    · subst hj
      simp [hi, ha, Ne.symm hk]
    · simp [Function.update_of_ne hj]

omit [DecidableEq κ] in
theorem Distinct.update_free (hd : Distinct key t) (ha : key a = none) :
    Distinct key (Function.update t i a) := by
  intro j₁ j₂ k h₁ h₂
  by_cases hj₁ : j₁ = i
  · simp [hj₁, ha] at h₁
  by_cases hj₂ : j₂ = i
  · simp [hj₂, ha] at h₂
  rw [Function.update_of_ne hj₁] at h₁
  rw [Function.update_of_ne hj₂] at h₂
  exact hd h₁ h₂

/-! ## Reading at a key -/

def readAt (key : α → Option κ) (t : Fin n → α) (vals : Fin n → β) (k : κ) : Option β :=
  (indexOf key t k).map vals

variable {vals vals' : Fin n → β}

omit [DecidableEq κ] in
theorem update_off (vals : Fin n → β) (b : β) :
    ∀ j, j ≠ i → Function.update vals i b j = vals j :=
  fun _ hj => Function.update_of_ne hj b vals

theorem readAt_congr (h : ∀ j, indexOf key t k = some j → vals' j = vals j) :
    readAt key t vals' k = readAt key t vals k := Option.map_congr h

theorem readAt_vals (h : indexOf key t k = some i) (hoff : ∀ j, j ≠ i → vals' j = vals j) :
    readAt key t vals' k' = if k' = k then some (vals' i) else readAt key t vals k' := by
  by_cases hk : k' = k
  · rw [if_pos hk, hk, readAt, h, Option.map_some]
  · rw [if_neg hk]
    apply readAt_congr
    intro j hj
    apply hoff
    rintro rfl
    exact hk (indexOf_inj hj h)

theorem readAt_same (hkey : key a = key (t i)) (h : indexOf key t k = some i)
    (hoff : ∀ j, j ≠ i → vals' j = vals j) :
    readAt key (Function.update t i a) vals' k' =
      if k' = k then some (vals' i) else readAt key t vals k' := by
  rw [← readAt_vals h hoff]
  unfold readAt
  rw [indexOf_update_same hkey]

theorem readAt_fresh (hi : key (t i) = none) (ha : key a = some k)
    (hfresh : indexOf key t k = none) (hoff : ∀ j, j ≠ i → vals' j = vals j) :
    readAt key (Function.update t i a) vals' k' =
      if k' = k then some (vals' i) else readAt key t vals k' := by
  unfold readAt
  rw [indexOf_update_fresh hi ha hfresh]
  by_cases hk : k' = k
  · rw [if_pos hk, if_pos hk, Option.map_some]
  · rw [if_neg hk, if_neg hk]
    apply readAt_congr
    intro j hj
    apply hoff
    rintro rfl
    rw [key_of_indexOf hj] at hi
    cases hi

theorem readAt_free (hd : Distinct key t) (h : indexOf key t k = some i) (ha : key a = none)
    (hoff : ∀ j, j ≠ i → vals' j = vals j) :
    readAt key (Function.update t i a) vals' k' =
      if k' = k then none else readAt key t vals k' := by
  unfold readAt
  rw [indexOf_update_free hd (key_of_indexOf h) ha]
  by_cases hk : k' = k
  · rw [if_pos hk, if_pos hk, Option.map_none]
  · rw [if_neg hk, if_neg hk]
    apply readAt_congr
    intro j hj
    apply hoff
    rintro rfl
    exact hk (indexOf_inj hj h)

end SlopOS.Support.SlotTable
