import Mathlib.Data.List.TakeWhile
/-!
# Spans

The longest piece of a list whose elements have a property, and what is behind it.
-/

namespace SlopOS.Support.Spans

variable {α : Type} {P : α → Prop} [DecidablePred P] {w t s : List α} {c : α}

theorem takeWhile_span (hw : ∀ c ∈ w, P c) (ht : ∀ c ∈ t.head?, ¬P c) :
    (w ++ t).takeWhile (fun c => P c) = w := by
  have hall : ∀ c ∈ w, decide (P c) = true := fun c hc => decide_eq_true (hw c hc)
  have hend : t.takeWhile (fun c => P c) = [] := by
    cases t with
    | nil => rfl
    | cons d t => exact List.takeWhile_cons_of_neg (by simpa using ht d rfl)
  rw [List.takeWhile_append_of_pos hall, hend, List.append_nil]

theorem dropWhile_span (hw : ∀ c ∈ w, P c) (ht : ∀ c ∈ t.head?, ¬P c) :
    (w ++ t).dropWhile (fun c => P c) = t := by
  have hall : ∀ c ∈ w, decide (P c) = true := fun c hc => decide_eq_true (hw c hc)
  rw [List.dropWhile_append_of_pos hall]
  cases t with
  | nil => rfl
  | cons d t => exact List.dropWhile_cons_of_neg (by simpa using ht d rfl)

theorem of_mem_takeWhile (hc : c ∈ s.takeWhile fun c => P c) : P c :=
  of_decide_eq_true (List.mem_takeWhile_imp (p := fun c => decide (P c)) hc)

theorem not_of_head_dropWhile (hc : c ∈ (s.dropWhile fun c => P c).head?) : ¬P c := by
  have hnot := List.head?_dropWhile_not (fun c => decide (P c)) s
  rw [Option.mem_def.mp hc] at hnot
  exact of_decide_eq_false hnot

end SlopOS.Support.Spans
