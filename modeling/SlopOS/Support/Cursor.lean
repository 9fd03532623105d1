import Mathlib.Data.List.Basic
/-!
# A cursor on an array

Reading takes at most so many elements from the cursor on, writing replaces
elements from the cursor on and lengthens the array where it ends; both move the
cursor behind what they went over.
-/

namespace SlopOS.Support

structure Cursor (α : Type) where
  elems : List α
  pos : Nat
  pos_le : pos ≤ elems.length

namespace Cursor

variable {α : Type}

def rest (c : Cursor α) : List α := c.elems.drop c.pos

def read (c : Cursor α) (n : Nat) : List α := c.rest.take n

theorem length_rest (c : Cursor α) : c.rest.length = c.elems.length - c.pos := List.length_drop

theorem length_read (c : Cursor α) (n : Nat) :
    (c.read n).length = min n (c.elems.length - c.pos) := by
  unfold read
  rw [List.length_take, length_rest]

def afterRead (c : Cursor α) (n : Nat) : Cursor α where
  elems := c.elems
  pos := c.pos + (c.read n).length
  pos_le := by
    have h := c.pos_le
    rw [length_read]
    omega

def write (c : Cursor α) (xs : List α) : Cursor α where
  elems := c.elems.take c.pos ++ xs ++ c.elems.drop (c.pos + xs.length)
  pos := c.pos + xs.length
  pos_le := by
    have h := c.pos_le
    simp only [List.length_append, List.length_take, List.length_drop]
    omega

@[simp] theorem elems_afterRead (c : Cursor α) (n : Nat) : (c.afterRead n).elems = c.elems := rfl

@[ext] theorem ext {c d : Cursor α} (helems : c.elems = d.elems) (hpos : c.pos = d.pos) : c = d := by
  cases c
  cases d
  cases helems
  cases hpos
  rfl

/-- Reading takes from the front of what lies behind the cursor. -/
theorem read_append_rest (c : Cursor α) (n : Nat) : c.read n ++ (c.afterRead n).rest = c.rest := by
  have hrest : (c.afterRead n).rest = c.rest.drop (c.read n).length := by
    unfold rest
    rw [List.drop_drop]
    rfl
  rw [hrest, length_read, ← length_rest]
  unfold read
  by_cases h : n ≤ c.rest.length
  · rw [Nat.min_eq_left h, List.take_append_drop]
  · rw [Nat.min_eq_right (Nat.le_of_not_le h), List.drop_length, List.append_nil,
      List.take_of_length_le (Nat.le_of_not_le h)]

/-- A read of something gives nothing exactly at the end. -/
theorem read_eq_nil_iff (c : Cursor α) {n : Nat} (hn : 0 < n) : c.read n = [] ↔ c.rest = [] := by
  unfold read
  cases c.rest with
  | nil => simp
  | cons x xs =>
      cases n with
      | zero => exact absurd hn (Nat.lt_irrefl 0)
      | succ n => simp

theorem write_at_end (c : Cursor α) (xs : List α) (h : c.pos = c.elems.length) :
    (c.write xs).elems = c.elems ++ xs := by
  have hdrop : c.elems.drop (c.elems.length + xs.length) = [] :=
    List.drop_eq_nil_of_le (Nat.le_add_right _ _)
  unfold write
  dsimp only
  rw [h, List.take_length, hdrop, List.append_nil]

theorem length_write (c : Cursor α) (xs : List α) :
    (c.write xs).elems.length = max c.elems.length (c.pos + xs.length) := by
  have h := c.pos_le
  unfold write
  simp only [List.length_append, List.length_take, List.length_drop]
  omega

theorem getElem?_write (c : Cursor α) (xs : List α) (i : Nat) :
    (c.write xs).elems[i]? =
      if c.pos ≤ i ∧ i < c.pos + xs.length then xs[i - c.pos]? else c.elems[i]? := by
  have hle := c.pos_le
  have htake : (c.elems.take c.pos).length = c.pos := by
    rw [List.length_take]
    omega
  unfold write
  dsimp only
  rw [List.append_assoc, List.getElem?_append, htake]
  by_cases hfront : i < c.pos
  · rw [if_pos hfront, if_neg (by omega), List.getElem?_take_of_lt hfront]
  rw [if_neg hfront, List.getElem?_append]
  by_cases hmid : i - c.pos < xs.length
  · rw [if_pos hmid, if_pos (by omega)]
  · rw [if_neg hmid, if_neg (by omega), List.getElem?_drop]
    congr 1
    omega

/-- The cursor is at the end of the array after a write there. -/
theorem write_pos_end (c : Cursor α) (xs : List α) (h : c.pos = c.elems.length) :
    (c.write xs).pos = (c.write xs).elems.length := by
  rw [length_write, ← h]
  show c.pos + xs.length = _
  omega

/-! ## Runs of reads and writes -/

inductive Op (α : Type)
  | read (n : Nat)
  | write (xs : List α)

/-- What an operation gives back, and the cursor after it. -/
def step (c : Cursor α) : Op α → List α × Cursor α
  | .read n => (c.read n, c.afterRead n)
  | .write xs => ([], c.write xs)

def run (c : Cursor α) : List (Op α) → List (List α) × Cursor α
  | [] => ([], c)
  | op :: ops =>
    let (given, c) := c.step op
    let (gives, c) := c.run ops
    (given :: gives, c)

theorem run_append (c : Cursor α) (ops ops' : List (Op α)) :
    c.run (ops ++ ops') =
      ((c.run ops).1 ++ ((c.run ops).2.run ops').1, ((c.run ops).2.run ops').2) := by
  induction ops generalizing c with
  | nil => rfl
  | cons op ops ih =>
      have hrun : ∀ ops, c.run (op :: ops) =
          ((c.step op).1 :: ((c.step op).2.run ops).1, ((c.step op).2.run ops).2) := fun _ => rfl
      rw [List.cons_append, hrun, hrun, ih]
      rfl

/-- What reads have given, with what is left, is what lay behind the cursor. -/
theorem flatten_run_reads (c : Cursor α) (ns : List Nat) :
    (c.run (ns.map .read)).1.flatten ++ (c.run (ns.map .read)).2.rest = c.rest := by
  induction ns generalizing c with
  | nil => rfl
  | cons n ns ih =>
      have hrun : c.run ((n :: ns).map .read) =
          (c.read n :: ((c.afterRead n).run (ns.map .read)).1,
            ((c.afterRead n).run (ns.map .read)).2) := rfl
      rw [hrun, List.flatten_cons, List.append_assoc, ih, read_append_rest]

def Op.bytes : Op α → List α
  | .read _ => []
  | .write xs => xs

/-- From the end on nothing is read, and writes append in their order. -/
theorem run_at_end (c : Cursor α) (h : c.pos = c.elems.length) (ops : List (Op α)) :
    (c.run ops).2.elems = c.elems ++ ops.flatMap Op.bytes ∧
      (c.run ops).2.pos = (c.run ops).2.elems.length := by
  induction ops generalizing c with
  | nil =>
      rw [List.flatMap_nil, List.append_nil]
      exact ⟨rfl, h⟩
  | cons op ops ih =>
      have hrun : (c.run (op :: ops)).2 = ((c.step op).2.run ops).2 := rfl
      rw [hrun, List.flatMap_cons, ← List.append_assoc]
      cases op with
      | read n =>
          have hend : (c.afterRead n).pos = (c.afterRead n).elems.length := by
            have hnone : (c.read n).length = 0 := by
              rw [length_read]
              omega
            show c.pos + (c.read n).length = c.elems.length
            omega
          have hnext := ih (c.afterRead n) hend
          rw [Op.bytes, List.append_nil]
          exact hnext
      | write xs =>
          have hnext := ih (c.write xs) (write_pos_end c xs h)
          rw [write_at_end c xs h] at hnext
          exact hnext

end Cursor

end SlopOS.Support
