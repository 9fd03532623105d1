import SlopOS.Support.Cursor
/-!
# An array with a position that may lie behind its end

Reading stops at the end.  Writing behind the end first fills the gap with a
given element, so it is writing with a cursor on the filled array.
-/

namespace SlopOS.Support

structure Stream (α : Type) where
  elems : List α
  pos : Nat

namespace Stream

variable {α : Type}

def filled (s : Stream α) (gap : α) : Cursor α where
  elems := s.elems ++ List.replicate (s.pos - s.elems.length) gap
  pos := s.pos
  pos_le := by
    rw [List.length_append, List.length_replicate]
    omega

def write (s : Stream α) (gap : α) (xs : List α) : Stream α where
  elems := ((s.filled gap).write xs).elems
  pos := s.pos + xs.length

def read (s : Stream α) (n : Nat) : List α := (s.elems.drop s.pos).take n

def afterRead (s : Stream α) (n : Nat) : Stream α where
  elems := s.elems
  pos := s.pos + (s.read n).length

@[ext] theorem ext {s t : Stream α} (helems : s.elems = t.elems) (hpos : s.pos = t.pos) :
    s = t := by
  cases s
  cases t
  cases helems
  cases hpos
  rfl

theorem length_filled (s : Stream α) (gap : α) :
    (s.filled gap).elems.length = max s.elems.length s.pos := by
  show (s.elems ++ List.replicate (s.pos - s.elems.length) gap).length = _
  rw [List.length_append, List.length_replicate]
  omega

theorem length_write (s : Stream α) (gap : α) (xs : List α) :
    (s.write gap xs).elems.length = max s.elems.length (s.pos + xs.length) := by
  show ((s.filled gap).write xs).elems.length = _
  rw [Cursor.length_write, length_filled]
  show max (max s.elems.length s.pos) (s.pos + xs.length) = _
  omega

/-- What a write leaves at each place of the array after it. -/
theorem getElem?_write (s : Stream α) (gap : α) (xs : List α) {i : Nat}
    (hi : i < max s.elems.length (s.pos + xs.length)) :
    (s.write gap xs).elems[i]? =
      if s.pos ≤ i ∧ i < s.pos + xs.length then xs[i - s.pos]?
      else if i < s.elems.length then s.elems[i]? else some gap := by
  show ((s.filled gap).write xs).elems[i]? = _
  rw [Cursor.getElem?_write]
  show (if s.pos ≤ i ∧ i < s.pos + xs.length then xs[i - s.pos]?
    else (s.elems ++ List.replicate (s.pos - s.elems.length) gap)[i]?) = _
  by_cases hnew : s.pos ≤ i ∧ i < s.pos + xs.length
  · rw [if_pos hnew, if_pos hnew]
  rw [if_neg hnew, if_neg hnew, List.getElem?_append]
  by_cases hold : i < s.elems.length
  · rw [if_pos hold, if_pos hold]
  · rw [if_neg hold, if_neg hold, List.getElem?_replicate, if_pos (by omega)]

theorem eq_write (s : Stream α) (gap : α) (xs : List α) {ys : List α}
    (hlen : ys.length = max s.elems.length (s.pos + xs.length))
    (h : ∀ i < ys.length, ys[i]? = if s.pos ≤ i ∧ i < s.pos + xs.length then xs[i - s.pos]?
      else if i < s.elems.length then s.elems[i]? else some gap) :
    ys = (s.write gap xs).elems := by
  have hlen' := length_write s gap xs
  apply List.ext_getElem?
  intro i
  by_cases hi : i < ys.length
  · rw [h i hi, getElem?_write s gap xs (by omega)]
  · rw [List.getElem?_eq_none (by omega), List.getElem?_eq_none (by omega)]

theorem length_read (s : Stream α) (n : Nat) :
    (s.read n).length = min n (s.elems.length - s.pos) := by
  rw [read, List.length_take, List.length_drop]

/-- Asking for as many as there are reads the same. -/
theorem read_length (s : Stream α) (n : Nat) : s.read (s.read n).length = s.read n := by
  rw [length_read, read, read, List.take_eq_take_iff, List.length_drop]
  omega

end Stream

end SlopOS.Support
