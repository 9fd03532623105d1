import Mathlib.Data.Nat.Init
/-!
# Computations that leave a trace

`Traced ε α` is a value together with the events that led to it.  A monitor says
which events are allowed: it has a state that every event changes.  `Triple` is
the rule that goes with it: what the monitor knows before the computation, and
what it knows of the result afterwards.
-/

namespace SlopOS.Support

structure Traced (ε α : Type) where
  log : List ε
  out : α

/-- How an event changes what is known, and when it is allowed. -/
structure Monitor (σ ε : Type) where
  next : σ → ε → σ
  allows : σ → ε → Prop

variable {σ ε α β : Type}

namespace Traced

instance : Monad (Traced ε) where
  pure a := ⟨[], a⟩
  bind m f := ⟨m.log ++ (f m.out).log, (f m.out).out⟩

def event (e : ε) (a : α) : Traced ε α := ⟨[e], a⟩

@[simp] theorem out_pure (a : α) : (pure a : Traced ε α).out = a := rfl

@[simp] theorem log_pure (a : α) : (pure a : Traced ε α).log = [] := rfl

@[simp] theorem out_bind (m : Traced ε α) (f : α → Traced ε β) :
    (m >>= f).out = (f m.out).out := rfl

@[simp] theorem log_bind (m : Traced ε α) (f : α → Traced ε β) :
    (m >>= f).log = m.log ++ (f m.out).log := rfl

@[simp] theorem out_event (e : ε) (a : α) : (event e a).out = a := rfl

@[simp] theorem log_event (e : ε) (a : α) : (event e a).log = [e] := rfl

def All (p : ε → Prop) (m : Traced ε α) : Prop := ∀ e ∈ m.log, p e

variable {p : ε → Prop} {m : Traced ε α} {f : α → Traced ε β}

theorem all_pure (a : α) : (pure a : Traced ε α).All p := by
  intro e he
  cases he

theorem all_event {e : ε} {a : α} (h : p e) : (event e a).All p := by
  intro e' he
  rw [List.mem_singleton.mp he]
  exact h

theorem All.bind (hm : m.All p) (hf : (f m.out).All p) : (m >>= f).All p := by
  intro e he
  rcases List.mem_append.mp he with he | he
  · exact hm e he
  · exact hf e he

end Traced

namespace Monitor

variable {M : Monitor σ ε} {s : σ} {log log' : List ε} {e : ε}

/-- What is known after these events. -/
def after (M : Monitor σ ε) (s : σ) (log : List ε) : σ := log.foldl M.next s

def Accepts (M : Monitor σ ε) : σ → List ε → Prop
  | _, [] => True
  | s, e :: log => M.allows s e ∧ Accepts M (M.next s e) log

theorem after_append (M : Monitor σ ε) (s : σ) (log log' : List ε) :
    M.after s (log ++ log') = M.after (M.after s log) log' := List.foldl_append

theorem accepts_append :
    M.Accepts s (log ++ log') ↔ M.Accepts s log ∧ M.Accepts (M.after s log) log' := by
  induction log generalizing s with
  | nil => exact ⟨fun h => ⟨trivial, h⟩, fun h => h.2⟩
  | cons e log ih =>
      rw [List.cons_append]
      constructor
      · rintro ⟨hallows, hrest⟩
        obtain ⟨hlog, hlog'⟩ := ih.mp hrest
        exact ⟨⟨hallows, hlog⟩, hlog'⟩
      · rintro ⟨⟨hallows, hlog⟩, hlog'⟩
        exact ⟨hallows, ih.mpr ⟨hlog, hlog'⟩⟩

theorem Accepts.allowed (h : M.Accepts s (log ++ e :: log')) : M.allows (M.after s log) e :=
  (accepts_append.mp h).2.1

theorem Accepts.of_mem (h : M.Accepts s log) (he : e ∈ log) : ∃ t, M.allows t e := by
  obtain ⟨front, rest, rfl⟩ := List.append_of_mem he
  exact ⟨_, h.allowed⟩

/-! ## Triples -/

/-- From a state with `P` the trace is accepted, and `Q` holds of the result and the state. -/
def Triple (M : Monitor σ ε) (P : σ → Prop) (m : Traced ε α) (Q : α → σ → Prop) : Prop :=
  ∀ s, P s → M.Accepts s m.log ∧ Q m.out (M.after s m.log)

variable {P P' : σ → Prop} {Q R : α → σ → Prop} {S : β → σ → Prop} {m : Traced ε α}
variable {f : α → Traced ε β} {a : α}

theorem Triple.ret (h : ∀ s, P s → Q a s) : M.Triple P (pure a) Q :=
  fun s hs => ⟨trivial, h s hs⟩

theorem Triple.bind (hm : M.Triple P m R) (hf : ∀ a, M.Triple (R a) (f a) S) :
    M.Triple P (m >>= f) S := by
  intro s hs
  obtain ⟨haccepts, hr⟩ := hm s hs
  obtain ⟨haccepts', hq⟩ := hf m.out _ hr
  rw [Traced.log_bind, accepts_append, after_append]
  exact ⟨⟨haccepts, haccepts'⟩, hq⟩

theorem Triple.event_bind (h : ∀ s, P s → M.allows s e ∧ P' (M.next s e))
    (hf : M.Triple P' (f a) S) : M.Triple P (Traced.event e a >>= f) S := by
  intro s hs
  obtain ⟨hallows, hs'⟩ := h s hs
  obtain ⟨haccepts, hq⟩ := hf _ hs'
  exact ⟨⟨hallows, haccepts⟩, hq⟩

theorem Triple.of_fact {φ : Prop} (h : φ → M.Triple P m Q) : M.Triple (fun s => φ ∧ P s) m Q :=
  fun s hs => h hs.1 s hs.2

theorem Triple.weaken (h : M.Triple P m Q) (hp : ∀ s, P' s → P s) (hq : ∀ a s, Q a s → R a s) :
    M.Triple P' m R := by
  intro s hs
  obtain ⟨haccepts, hafter⟩ := h s (hp s hs)
  exact ⟨haccepts, hq _ _ hafter⟩

theorem Triple.out (h : M.Triple P m Q) : M.Triple P m fun a s => a = m.out ∧ Q a s := by
  intro s hs
  obtain ⟨haccepts, hafter⟩ := h s hs
  exact ⟨haccepts, rfl, hafter⟩

end Monitor

end SlopOS.Support
