import Mathlib.Data.Nat.Init
import SlopOS.Support.Spans
/-!
# Texts made of components

A text is read as the list of the nonempty pieces between its separators, so
that separators at either end, or several in a row, do not count.  `components`
is what a parser that takes one piece at a time sees in all.
-/

namespace SlopOS.Support.PathText

variable {α : Type} [DecidableEq α] {sep : α} {s t w : List α}

def components (sep : α) (s : List α) : List (List α) :=
  (s.splitOn sep).filter fun piece => piece ≠ []

@[simp] theorem components_nil : components sep [] = [] := rfl

theorem components_append_sep (s t : List α) :
    components sep (s ++ sep :: t) = components sep s ++ components sep t := by
  unfold components
  rw [List.splitOn_append_cons_self, List.filter_append]

@[simp] theorem components_cons_sep (s : List α) :
    components sep (sep :: s) = components sep s := by
  have h := @components_append_sep _ _ sep [] s
  rwa [components_nil, List.nil_append, List.nil_append] at h

theorem components_word (hne : w ≠ []) (hw : sep ∉ w) : components sep w = [w] := by
  unfold components
  rw [List.splitOn_eq_singleton hw]
  simp [hne]

/-- A word in front of a text that is empty or begins with a separator. -/
theorem components_word_append (hne : w ≠ []) (hw : sep ∉ w) (ht : ∀ c ∈ t.head?, c = sep) :
    components sep (w ++ t) = w :: components sep t := by
  cases t with
  | nil => rw [List.append_nil, components_word hne hw, components_nil]
  | cons c t =>
      obtain rfl := ht c rfl
      rw [components_append_sep, components_word hne hw, components_cons_sep]
      rfl

theorem components_dropWhile (s : List α) :
    components sep (s.dropWhile fun c => c = sep) = components sep s := by
  induction s with
  | nil => rfl
  | cons c s ih =>
      by_cases hc : c = sep
      · subst hc
        rw [List.dropWhile_cons_of_pos (by simp), ih, components_cons_sep]
      · rw [List.dropWhile_cons_of_neg (by simp [hc])]

theorem sep_not_mem_takeWhile (s : List α) : sep ∉ s.takeWhile fun c => c ≠ sep := by
  intro h
  exact Spans.of_mem_takeWhile (P := fun c => c ≠ sep) h rfl

theorem head?_dropWhile (s : List α) :
    ∀ c ∈ (s.dropWhile fun c => c ≠ sep).head?, c = sep := by
  intro c hc
  exact not_not.mp (Spans.not_of_head_dropWhile (P := fun c => c ≠ sep) hc)

theorem components_takeWhile (hne : s ≠ []) (hhead : s.head? ≠ some sep) :
    components sep s =
      (s.takeWhile fun c => c ≠ sep) :: components sep (s.dropWhile fun c => c ≠ sep) := by
  have hfirst : (s.takeWhile fun c => c ≠ sep) ≠ [] := by
    cases s with
    | nil => exact absurd rfl hne
    | cons c s =>
        have hc : c ≠ sep := fun h => hhead (congrArg some h)
        rw [List.takeWhile_cons_of_pos (by simpa using hc)]
        exact List.cons_ne_nil _ _
  calc components sep s
      = components sep ((s.takeWhile fun c => c ≠ sep) ++ s.dropWhile fun c => c ≠ sep) := by
        rw [List.takeWhile_append_dropWhile]
    _ = _ := components_word_append hfirst (sep_not_mem_takeWhile s) (head?_dropWhile s)

theorem length_components_le (s : List α) : (components sep s).length ≤ s.length := by
  induction hn : s.length using Nat.strong_induction_on generalizing s with
  | _ n ih =>
      subst hn
      cases s with
      | nil => exact Nat.le_refl 0
      | cons c s =>
          by_cases hc : c = sep
          · rw [hc, components_cons_sep, List.length_cons]
            have hs := ih s.length (by simp) s rfl
            omega
          · have hhead : (c :: s).head? ≠ some sep := fun h => hc (Option.some.inj h)
            have hrest : ((c :: s).dropWhile fun c => c ≠ sep).length ≤ s.length := by
              rw [List.dropWhile_cons_of_pos (by simpa using hc)]
              exact (List.dropWhile_sublist _).length_le
            have hlt : ((c :: s).dropWhile fun c => c ≠ sep).length < (c :: s).length := by
              rw [List.length_cons]
              omega
            have htail := ih _ hlt _ rfl
            rw [components_takeWhile (List.cons_ne_nil c s) hhead, List.length_cons,
              List.length_cons]
            omega

theorem sep_not_mem_of_mem_components (h : w ∈ components sep s) : sep ∉ w := by
  have hgen : ∀ (l : List α) (v : List α), v ∈ l.splitOn sep → sep ∉ v := by
    intro l
    induction l with
    | nil => simp
    | cons c l ih =>
        intro v hv
        rw [List.splitOn_cons_eq_if_modifyHead] at hv
        by_cases hc : c = sep
        · rw [if_pos (by simpa using hc), List.mem_cons] at hv
          rcases hv with rfl | hv
          · exact List.not_mem_nil
          · exact ih v hv
        · rw [if_neg (by simpa using hc)] at hv
          cases hl : l.splitOn sep with
          | nil => exact absurd hl (List.splitOn_ne_nil sep l)
          | cons first rest =>
              rw [hl, List.modifyHead_cons, List.mem_cons] at hv
              rcases hv with rfl | hv
              · rw [List.mem_cons, not_or]
                exact ⟨Ne.symm hc, ih first (hl ▸ List.mem_cons_self)⟩
              · exact ih v (hl ▸ List.mem_cons_of_mem _ hv)
  exact hgen s w (List.mem_filter.mp h).1

theorem ne_nil_of_mem_components (h : w ∈ components sep s) : w ≠ [] := by
  have hw := (List.mem_filter.mp h).2
  simpa using hw

/-! ## The words in front of the last piece -/

def endedWords (sep : α) (s : List α) : List (List α) :=
  (s.splitOn sep).dropLast.filter fun piece => piece ≠ []

def lastPiece (sep : α) (s : List α) : List α := (s.splitOn sep).getLastD []

theorem endedWords_append_sep (s t : List α) :
    endedWords sep (s ++ sep :: t) = components sep s ++ endedWords sep t := by
  unfold endedWords components
  rw [List.splitOn_append_cons_self, List.dropLast_append_of_ne_nil (List.splitOn_ne_nil sep t),
    List.filter_append]

theorem lastPiece_append_sep (s t : List α) :
    lastPiece sep (s ++ sep :: t) = lastPiece sep t := by
  unfold lastPiece
  rw [List.splitOn_append_cons_self, List.getLastD_eq_getLast?, List.getLastD_eq_getLast?,
    List.getLast?_append, List.getLast?_eq_some_getLast (List.splitOn_ne_nil sep t),
    Option.some_or]

theorem endedWords_dropWhile (s : List α) :
    endedWords sep (s.dropWhile fun c => c = sep) = endedWords sep s := by
  induction s with
  | nil => rfl
  | cons c s ih =>
      by_cases hc : c = sep
      · subst hc
        have h := @endedWords_append_sep _ _ c [] s
        rw [components_nil, List.nil_append, List.nil_append] at h
        rw [List.dropWhile_cons_of_pos (by simp), ih, h]
      · rw [List.dropWhile_cons_of_neg (by simp [hc])]

theorem lastPiece_dropWhile (s : List α) :
    lastPiece sep (s.dropWhile fun c => c = sep) = lastPiece sep s := by
  induction s with
  | nil => rfl
  | cons c s ih =>
      by_cases hc : c = sep
      · subst hc
        have h := @lastPiece_append_sep _ _ c [] s
        rw [List.nil_append] at h
        rw [List.dropWhile_cons_of_pos (by simp), ih, h]
      · rw [List.dropWhile_cons_of_neg (by simp [hc])]

theorem endedWords_of_not_mem (hw : sep ∉ w) : endedWords sep w = [] := by
  unfold endedWords
  rw [List.splitOn_eq_singleton hw]
  rfl

theorem lastPiece_of_not_mem (hw : sep ∉ w) : lastPiece sep w = w := by
  unfold lastPiece
  rw [List.splitOn_eq_singleton hw]
  rfl

/-- All words: those in front, and the last piece if it is one. -/
theorem components_eq_ended (s : List α) :
    components sep s =
      endedWords sep s ++ if lastPiece sep s = [] then [] else [lastPiece sep s] := by
  have hne := List.splitOn_ne_nil sep s
  have hlast : lastPiece sep s = (s.splitOn sep).getLast hne := by
    unfold lastPiece
    rw [List.getLastD_eq_getLast?, List.getLast?_eq_some_getLast hne]
    rfl
  have hfilter : [lastPiece sep s].filter (fun piece => piece ≠ []) =
      if lastPiece sep s = [] then [] else [lastPiece sep s] := by
    by_cases h : lastPiece sep s = [] <;> simp [h]
  calc components sep s
      = ((s.splitOn sep).dropLast ++ [lastPiece sep s]).filter fun piece => piece ≠ [] := by
        rw [hlast, List.dropLast_concat_getLast hne]
        rfl
    _ = _ := by
        rw [List.filter_append, hfilter]
        rfl

theorem ended_flatMap {ws : List (List α)} (hws : ∀ w ∈ ws, w ≠ [] ∧ sep ∉ w) :
    endedWords sep (ws.flatMap fun w => w ++ [sep]) = ws ∧
      lastPiece sep (ws.flatMap fun w => w ++ [sep]) = [] := by
  induction ws with
  | nil => exact ⟨endedWords_of_not_mem List.not_mem_nil, lastPiece_of_not_mem List.not_mem_nil⟩
  | cons w ws ih =>
      obtain ⟨hne, hw⟩ := hws w List.mem_cons_self
      obtain ⟨hended, hlast⟩ := ih fun v hv => hws v (List.mem_cons_of_mem _ hv)
      rw [List.flatMap_cons, List.append_assoc, List.singleton_append]
      rw [endedWords_append_sep, lastPiece_append_sep, components_word hne hw, hended]
      exact ⟨rfl, hlast⟩

end SlopOS.Support.PathText
