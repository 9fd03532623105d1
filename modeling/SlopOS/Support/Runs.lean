import Mathlib.Logic.Basic
/-!
# Runs of a deterministic labelled transition system

`step s e` is the state after event `e`, or `none` where the event cannot
happen.  A property of whole runs is proved from what one step preserves
(`invariant`); `AllSteps` restricts the steps of a run to those that meet a
condition on the state before them, and `observe` collects what the steps of a
run show to the outside.
-/

namespace SlopOS.Support.Runs

variable {σ ε ο : Type}

def run (step : σ → ε → Option σ) : σ → List ε → Option σ
  | s, [] => some s
  | s, e :: es => (step s e).bind fun s' => run step s' es

/-- Every step of the run meets `ok` in the state it starts from. -/
def AllSteps (step : σ → ε → Option σ) (ok : σ → ε → Prop) : σ → List ε → Prop
  | _, [] => True
  | s, e :: es => ok s e ∧ ∀ s', step s e = some s' → AllSteps step ok s' es

/-- The observations of a run, in order. -/
def observe (step : σ → ε → Option σ) (obs : σ → ε → List ο) : σ → List ε → List ο
  | _, [] => []
  | s, e :: es => obs s e ++ (step s e).elim [] fun s' => observe step obs s' es

/-- Some step of the run is one that `P` describes. -/
def Sometimes (step : σ → ε → Option σ) (P : σ → ε → Prop) : σ → List ε → Prop
  | _, [] => False
  | s, e :: es => P s e ∨ ∃ s', step s e = some s' ∧ Sometimes step P s' es

variable {step : σ → ε → Option σ} {ok ok' : σ → ε → Prop} {obs : σ → ε → List ο}

@[simp] theorem run_nil (s : σ) : run step s [] = some s := rfl

theorem run_cons_eq_some {s t : σ} {e : ε} {es : List ε} :
    run step s (e :: es) = some t ↔ ∃ s', step s e = some s' ∧ run step s' es = some t := by
  simp [run, Option.bind_eq_some_iff]

theorem observe_cons {s s' : σ} {e : ε} (es : List ε) (h : step s e = some s') :
    observe step obs s (e :: es) = obs s e ++ observe step obs s' es := by
  rw [observe, h]
  rfl

theorem mem_observe {s : σ} {es : List ε} {x : ο} (h : x ∈ observe step obs s es) :
    ∃ s', ∃ e ∈ es, x ∈ obs s' e := by
  induction es generalizing s with
  | nil => cases h
  | cons e es ih =>
      rcases List.mem_append.mp h with hx | hx
      · exact ⟨s, e, List.mem_cons_self, hx⟩
      cases hstep : step s e with
      | none =>
          rw [hstep] at hx
          cases hx
      | some s' =>
          rw [hstep] at hx
          obtain ⟨t, e', he', hx'⟩ := ih hx
          exact ⟨t, e', List.mem_cons_of_mem e he', hx'⟩

theorem run_append (s : σ) (es fs : List ε) :
    run step s (es ++ fs) = (run step s es).bind fun s' => run step s' fs := by
  induction es generalizing s with
  | nil => rfl
  | cons e es ih =>
      simp only [List.cons_append, run]
      cases step s e with
      | none => rfl
      | some s' => simp [ih]

theorem AllSteps.mono (h : ∀ s e, ok s e → ok' s e) {s : σ} {es : List ε}
    (hs : AllSteps step ok s es) : AllSteps step ok' s es := by
  induction es generalizing s with
  | nil => trivial
  | cons e es ih =>
      exact ⟨h s e hs.1, fun s' hstep => ih (hs.2 s' hstep)⟩

theorem AllSteps.of_forall (h : ∀ s e, ok s e) (s : σ) (es : List ε) :
    AllSteps step ok s es := by
  induction es generalizing s with
  | nil => trivial
  | cons e es ih => exact ⟨h s e, fun s' _ => ih s'⟩

/-- A condition that the events of the run meet in every state. -/
theorem AllSteps.of_events {es : List ε} (h : ∀ e ∈ es, ∀ s, ok s e) (s : σ) :
    AllSteps step ok s es := by
  induction es generalizing s with
  | nil => trivial
  | cons e es ih =>
      exact ⟨h e List.mem_cons_self s, fun s' _ => ih (fun e' he' => h e' (List.mem_cons_of_mem e he')) s'⟩

theorem AllSteps.trivial (s : σ) (es : List ε) : AllSteps step (fun _ _ => True) s es :=
  AllSteps.of_forall (fun _ _ => True.intro) s es

/-- A run can be checked step by step. -/
instance AllSteps.decidable [∀ s e, Decidable (ok s e)] :
    ∀ (s : σ) (es : List ε), Decidable (AllSteps step ok s es)
  | _, [] => isTrue True.intro
  | s, e :: es =>
    match h : step s e with
    | none => decidable_of_iff (ok s e) (by simp [AllSteps, h])
    | some s' =>
      have : Decidable (AllSteps step ok s' es) := AllSteps.decidable s' es
      decidable_of_iff (ok s e ∧ AllSteps step ok s' es) (by simp [AllSteps, h])

/-- The steps of a longer run that ends in a prefix of it. -/
theorem AllSteps.of_append {s : σ} {es fs : List ε}
    (h : AllSteps step ok s (es ++ fs)) : AllSteps step ok s es := by
  induction es generalizing s with
  | nil => trivial
  | cons e es ih => exact ⟨h.1, fun s' hstep => ih (h.2 s' hstep)⟩

/-- What every admissible step preserves, every admissible run preserves. -/
theorem invariant {I : σ → Prop}
    (hstep : ∀ s e s', ok s e → I s → step s e = some s' → I s')
    {s t : σ} {es : List ε} (hok : AllSteps step ok s es) (hrun : run step s es = some t)
    (hs : I s) : I t := by
  induction es generalizing s with
  | nil =>
      obtain rfl := Option.some.inj hrun
      exact hs
  | cons e es ih =>
      obtain ⟨s', hstep', hrun'⟩ := run_cons_eq_some.mp hrun
      exact ih (hok.2 s' hstep') hrun' (hstep s e s' hok.1 hs hstep')

/-- What every step does in a state with the invariant, every step of a run does. -/
theorem AllSteps.of_invariant {I : σ → Prop} {P : σ → ε → Prop}
    (hstep : ∀ s e s', ok s e → I s → step s e = some s' → I s')
    (hdoes : ∀ s e, ok s e → I s → P s e)
    {s : σ} {es : List ε} (hok : AllSteps step ok s es) (hs : I s) : AllSteps step P s es := by
  induction es generalizing s with
  | nil => trivial
  | cons e es ih =>
      exact ⟨hdoes s e hok.1 hs, fun s' h => ih (hok.2 s' h) (hstep s e s' hok.1 hs h)⟩

/-- Where a condition keeps the invariant that makes it equivalent to a property, the steps of a
run have the one exactly when they meet the other. -/
theorem AllSteps.iff_of_invariant {I : σ → Prop} {P : σ → ε → Prop}
    (hstep : ∀ s e s', ok s e → I s → step s e = some s' → I s')
    (hiff : ∀ s e, I s → (P s e ↔ ok s e)) {s : σ} {es : List ε} (hs : I s) :
    AllSteps step P s es ↔ AllSteps step ok s es := by
  induction es generalizing s with
  | nil => exact Iff.rfl
  | cons e es ih =>
      constructor
      · intro h
        have hok := (hiff s e hs).mp h.1
        exact ⟨hok, fun s' h' => (ih (hstep s e s' hok hs h')).mp (h.2 s' h')⟩
      · intro h
        exact ⟨(hiff s e hs).mpr h.1, fun s' h' => (ih (hstep s e s' h.1 hs h')).mpr (h.2 s' h')⟩

/-- What every step preserves or marks, a run preserves or marks somewhere. -/
theorem invariant_or_sometimes {I : σ → Prop} {P : σ → ε → Prop}
    (hstep : ∀ s e s', ok s e → I s → step s e = some s' → I s' ∨ P s e)
    {s t : σ} {es : List ε} (hok : AllSteps step ok s es) (hrun : run step s es = some t)
    (hs : I s) : I t ∨ Sometimes step P s es := by
  induction es generalizing s with
  | nil =>
      obtain rfl := Option.some.inj hrun
      exact Or.inl hs
  | cons e es ih =>
      obtain ⟨s', hstep', hrun'⟩ := run_cons_eq_some.mp hrun
      rcases hstep s e s' hok.1 hs hstep' with hs' | hmark
      · rcases ih (hok.2 s' hstep') hrun' hs' with ht | hlater
        · exact Or.inl ht
        · exact Or.inr (Or.inr ⟨s', hstep', hlater⟩)
      · exact Or.inr (Or.inl hmark)

theorem exists_of_sometimes {α : Type} {P : α → σ → ε → Prop} {s : σ} {es : List ε}
    (h : Sometimes step (fun s e => ∃ a, P a s e) s es) : ∃ a, Sometimes step (P a) s es := by
  induction es generalizing s with
  | nil => exact h.elim
  | cons e es ih =>
      rcases h with ⟨a, ha⟩ | ⟨s', hstep, hrest⟩
      · exact ⟨a, Or.inl ha⟩
      · obtain ⟨a, ha⟩ := ih hrest
        exact ⟨a, Or.inr ⟨s', hstep, ha⟩⟩

theorem run_append_eq_some {s t : σ} {es fs : List ε} :
    run step s (es ++ fs) = some t ↔ ∃ u, run step s es = some u ∧ run step u fs = some t := by
  rw [run_append, Option.bind_eq_some_iff]

theorem AllSteps.of_append_right {s u : σ} {es fs : List ε}
    (h : AllSteps step ok s (es ++ fs)) (hrun : run step s es = some u) :
    AllSteps step ok u fs := by
  induction es generalizing s with
  | nil =>
      obtain rfl := Option.some.inj hrun
      exact h
  | cons e es ih =>
      obtain ⟨s', hstep, hrun'⟩ := run_cons_eq_some.mp hrun
      exact ih (h.2 s' hstep) hrun'

theorem AllSteps.and {s : σ} {es : List ε} (h : AllSteps step ok s es)
    (h' : AllSteps step ok' s es) : AllSteps step (fun s e => ok s e ∧ ok' s e) s es := by
  induction es generalizing s with
  | nil => trivial
  | cons e es ih => exact ⟨⟨h.1, h'.1⟩, fun s' hstep => ih (h.2 s' hstep) (h'.2 s' hstep)⟩

/-- What holds of all observations holds at every step. -/
theorem AllSteps.of_observe {P : ο → Prop} {s : σ} {es : List ε}
    (h : ∀ x ∈ observe step obs s es, P x) :
    AllSteps step (fun s e => ∀ x ∈ obs s e, P x) s es := by
  induction es generalizing s with
  | nil => trivial
  | cons e es ih =>
      refine ⟨fun x hx => h x (List.mem_append_left _ hx), fun s' hstep => ih fun x hx => ?_⟩
      apply h x
      rw [observe, hstep]
      exact List.mem_append_right _ hx

/-- An invariant that ties the state to the observations made so far. -/
theorem observe_invariant {J : σ → List ο → Prop}
    (hstep : ∀ s l e s', ok s e → J s l → step s e = some s' → J s' (l ++ obs s e))
    {s t : σ} {es : List ε} {l : List ο} (hok : AllSteps step ok s es)
    (hrun : run step s es = some t) (hs : J s l) : J t (l ++ observe step obs s es) := by
  induction es generalizing s l with
  | nil =>
      obtain rfl := Option.some.inj hrun
      simpa [observe] using hs
  | cons e es ih =>
      obtain ⟨s', hstep', hrun'⟩ := run_cons_eq_some.mp hrun
      have hs' := hstep s l e s' hok.1 hs hstep'
      have hrest := ih (hok.2 s' hstep') hrun' hs'
      simpa [observe, hstep', List.append_assoc] using hrest

/-- A run of a larger system, seen in a part of it: where every step is a step of the part with the
same observations, or leaves the part alone, the run is a run of the part. -/
theorem projected {τ η : Type} {step' : τ → η → Option τ} {obs' : τ → η → List ο} (part : σ → τ)
    (h : ∀ s e s', step s e = some s' → part s' = part s ∧ obs s e = [] ∨
      ∃ e', step' (part s) e' = some (part s') ∧ obs s e = obs' (part s) e')
    {s t : σ} {es : List ε} (hrun : run step s es = some t) :
    ∃ es', run step' (part s) es' = some (part t) ∧
      observe step' obs' (part s) es' = observe step obs s es := by
  induction es generalizing s with
  | nil =>
      obtain rfl := Option.some.inj hrun
      exact ⟨[], rfl, rfl⟩
  | cons e es ih =>
      obtain ⟨s', hstep, hrun'⟩ := run_cons_eq_some.mp hrun
      obtain ⟨es', hpart, hobs⟩ := ih hrun'
      rw [observe_cons es hstep]
      rcases h s e s' hstep with ⟨hsame, hnone⟩ | ⟨e', hstep', hshown⟩
      · rw [hsame] at hpart hobs
        exact ⟨es', hpart, by rw [hnone, hobs, List.nil_append]⟩
      · refine ⟨e' :: es', run_cons_eq_some.mpr ⟨_, hstep', hpart⟩, ?_⟩
        rw [observe_cons es' hstep', hobs, hshown]

end SlopOS.Support.Runs
