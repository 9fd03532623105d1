import Mathlib.Data.List.Induction
import Mathlib.Logic.Function.Basic
import SlopOS.Support.Runs
/-!
# Stores of paths

What a file system is for, without nodes and links: under a path there is a directory, a file with
its contents, or nothing.  An operation changes what is under one path; of a run of operations a
path shows the last one that was about it.
-/

namespace SlopOS.Support.PathStore

variable {κ β : Type}

inductive Entry (β : Type)
  | dir
  | file (contents : β)
deriving DecidableEq

def Entry.isDir : Entry β → Bool
  | .dir => true
  | .file _ => false

def Entry.contents : Entry β → Option β
  | .dir => none
  | .file c => some c

abbrev Store (κ β : Type) := List κ → Option (Entry β)

/-- A new entry in a directory, or new contents for a file. -/
inductive Op (κ β : Type)
  | bind (dir : List κ) (name : κ) (entry : Entry β)
  | write (path : List κ) (contents : β)

/-- The path that the operation is about. -/
def Op.path : Op κ β → List κ
  | .bind dir name _ => dir ++ [name]
  | .write path _ => path

/-- What is under the path afterwards. -/
def Op.entry : Op κ β → Entry β
  | .bind _ _ entry => entry
  | .write _ contents => .file contents

/-- Names are bound in directories, where they are free; only files are written. -/
def Op.Allowed (s : Store κ β) : Op κ β → Prop
  | .bind dir name _ => s dir = some .dir ∧ s (dir ++ [name]) = none
  | .write path _ => ∃ old, s path = some (.file old)

/-- The root is a directory, and what is under a path is in a directory. -/
structure Closed (s : Store κ β) : Prop where
  root : s [] = some .dir
  parent : ∀ p k, s (p ++ [k]) ≠ none → s p = some .dir

/-- Nothing is taken away, and directories stay directories. -/
def Grown (s s' : Store κ β) : Prop :=
  ∀ p e, s p = some e → ∃ e', s' p = some e' ∧ e'.isDir = e.isDir

variable {s s' s'' : Store κ β} {p q : List κ} {o : Op κ β} {ops : List (Op κ β)} {k : κ}
variable {e : Entry β}

@[simp] theorem Entry.isDir_eq_true : e.isDir = true ↔ e = .dir := by
  cases e <;> simp [Entry.isDir]

theorem Closed.bound_of_prefix (h : Closed s) (hq : s (p ++ q) ≠ none) : s p ≠ none := by
  induction q using List.reverseRecOn with
  | nil => rwa [List.append_nil] at hq
  | append_singleton q k ih =>
      apply ih
      rw [← List.append_assoc] at hq
      rw [h.parent _ _ hq]
      exact Option.some_ne_none _

theorem Grown.refl (s : Store κ β) : Grown s s := fun _ e h => ⟨e, h, rfl⟩

theorem Grown.trans (h : Grown s s') (h' : Grown s' s'') : Grown s s'' := by
  intro p e hp
  obtain ⟨e₁, h₁, heq₁⟩ := h p e hp
  obtain ⟨e₂, h₂, heq₂⟩ := h' p e₁ h₁
  exact ⟨e₂, h₂, heq₂.trans heq₁⟩

theorem Grown.dir (h : Grown s s') (hp : s p = some .dir) : s' p = some .dir := by
  obtain ⟨e', he', heq⟩ := h p .dir hp
  rw [he', Entry.isDir_eq_true.mp heq]

section

variable [DecidableEq κ]

def put (s : Store κ β) (p : List κ) (e : Entry β) : Store κ β := Function.update s p (some e)

@[simp] theorem put_self : put s p e p = some e := Function.update_self _ _ _

theorem put_of_ne (h : q ≠ p) : put s p e q = s q := Function.update_of_ne h _ _

/-- One operation, where it is allowed. -/
def apply (s : Store κ β) : Op κ β → Option (Store κ β)
  | .bind dir name entry =>
    match s dir, s (dir ++ [name]) with
    | some .dir, none => some (put s (dir ++ [name]) entry)
    | _, _ => none
  | .write path contents =>
    match s path with
    | some (.file _) => some (put s path (.file contents))
    | _ => none

theorem apply_eq_some : apply s o = some s' ↔ o.Allowed s ∧ s' = put s o.path o.entry := by
  cases o with
  | bind dir name entry =>
      simp only [apply, Op.Allowed]
      split
      · rename_i hdir hfree
        rw [hdir, hfree]
        simp [Op.path, Op.entry, eq_comm]
      · rename_i hnot
        constructor
        · intro h
          cases h
        · rintro ⟨⟨hdir, hfree⟩, -⟩
          exact absurd hfree (hnot hdir)
  | write path contents =>
      simp only [apply, Op.Allowed]
      split
      · rename_i old hold
        rw [hold]
        simp [Op.path, Op.entry, eq_comm]
      · rename_i hnot
        constructor
        · intro h
          cases h
        · rintro ⟨⟨old, hold⟩, -⟩
          exact absurd hold (hnot old)

/-- The last of the operations that is about `p`. -/
def lastOn (ops : List (Op κ β)) (p : List κ) : Option (Op κ β) :=
  ops.reverse.find? fun o => decide (o.path = p)

theorem lastOn_append (ops ops' : List (Op κ β)) (p : List κ) :
    lastOn (ops ++ ops') p = (lastOn ops' p).or (lastOn ops p) := by
  unfold lastOn
  rw [List.reverse_append, List.find?_append]

theorem lastOn_singleton : lastOn [o] p = if o.path = p then some o else none := by
  unfold lastOn
  by_cases h : o.path = p <;> simp [h]

/-- A path shows the last operation that was about it. -/
theorem run_lookup (h : Runs.run apply s ops = some s') (p : List κ) :
    s' p = ((lastOn ops p).map Op.entry).or (s p) := by
  induction ops generalizing s with
  | nil =>
      cases h
      rfl
  | cons o ops ih =>
      obtain ⟨s₁, hstep, hrest⟩ := Runs.run_cons_eq_some.mp h
      obtain ⟨-, rfl⟩ := apply_eq_some.mp hstep
      rw [ih hrest, ← List.singleton_append, lastOn_append, lastOn_singleton]
      by_cases hpath : o.path = p
      · rw [if_pos hpath, ← hpath, put_self]
        cases lastOn ops o.path <;> rfl
      · rw [if_neg hpath, put_of_ne (Ne.symm hpath), Option.or_none]

/-! ## Following words -/

/-- One word: `here` stays, `up` goes to the directory above, and a name has to be bound. -/
def stepWord (here up : κ) (s : Store κ β) (p : List κ) (w : κ) : Option (List κ) :=
  if w = here then some p
  else if w = up then some p.dropLast
  else if (s (p ++ [w])).isSome then some (p ++ [w]) else none

def follow (here up : κ) (s : Store κ β) (p : List κ) (ws : List κ) : Option (List κ) :=
  ws.foldlM (stepWord here up s) p

variable {here up : κ} {ws : List κ}

theorem Grown.stepWord (h : Grown s s') {w : κ} (hstep : stepWord here up s p w = some q) :
    PathStore.stepWord here up s' p w = some q := by
  unfold PathStore.stepWord at hstep ⊢
  by_cases hhere : w = here
  · rwa [if_pos hhere] at hstep ⊢
  by_cases hup : w = up
  · rwa [if_neg hhere, if_pos hup] at hstep ⊢
  rw [if_neg hhere, if_neg hup] at hstep ⊢
  obtain ⟨hsome, heq⟩ := Option.ite_none_right_eq_some.mp hstep
  obtain ⟨e, he⟩ := Option.isSome_iff_exists.mp hsome
  obtain ⟨e', he', -⟩ := h _ _ he
  rw [he', if_pos (Option.isSome_some), heq]

theorem Grown.follow (h : Grown s s') (hsteps : follow here up s p ws = some q) :
    PathStore.follow here up s' p ws = some q := by
  induction ws generalizing p with
  | nil => exact hsteps
  | cons w ws ih =>
      unfold PathStore.follow at hsteps ⊢
      rw [List.foldlM_cons] at hsteps ⊢
      obtain ⟨m, hm, hrest⟩ := Option.bind_eq_some_iff.mp hsteps
      rw [h.stepWord hm]
      exact ih hrest

end

end SlopOS.Support.PathStore
