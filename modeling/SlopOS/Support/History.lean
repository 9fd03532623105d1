import Mathlib.Data.List.Basic
/-!
# Histories

A list of entries, oldest first, in which each entry is judged by those before it.
-/

namespace SlopOS.Support.History

variable {α : Type} {Q Q' : List α → α → Prop} {l : List α} {a : α}

/-- `Q front a` for each entry `a` of the list and the entries `front` before it. -/
def Each (Q : List α → α → Prop) (l : List α) : Prop :=
  ∀ front a back, l = front ++ a :: back → Q front a

theorem each_nil : Each Q [] := by
  intro front a back h
  exact absurd h.symm (List.append_ne_nil_of_right_ne_nil front (List.cons_ne_nil a back))

theorem each_append_singleton : Each Q (l ++ [a]) ↔ Each Q l ∧ Q l a := by
  constructor
  · intro h
    refine ⟨fun front b back hl => ?_, h l a [] rfl⟩
    apply h front b (back ++ [a])
    rw [hl, List.append_assoc, List.cons_append]
  · rintro ⟨hall, hlast⟩ front b back h
    rcases List.eq_nil_or_concat back with rfl | ⟨back', c, rfl⟩
    · obtain ⟨rfl, hb⟩ := List.append_inj' h rfl
      rw [← (List.cons.inj hb).1]
      exact hlast
    · apply hall front b back'
      rw [List.concat_eq_append, ← List.cons_append, ← List.append_assoc] at h
      exact (List.append_inj' h rfl).1

theorem each_cons : Each Q (a :: l) ↔ Q [] a ∧ Each (fun front => Q (a :: front)) l := by
  constructor
  · intro h
    refine ⟨h [] a l rfl, fun front b back hl => ?_⟩
    apply h (a :: front) b back
    rw [hl, List.cons_append]
  · rintro ⟨hfirst, hall⟩ front b back h
    cases front with
    | nil =>
        obtain ⟨rfl, -⟩ := List.cons.inj h
        exact hfirst
    | cons c front =>
        obtain ⟨rfl, hl⟩ := List.cons.inj h
        exact hall front b back hl

end SlopOS.Support.History
