import Mathlib.Logic.Function.Basic
import Mathlib.Tactic.NormNum
/-!
# Flat byte memory over 32-bit addresses

A memory is a total map from 32-bit addresses to bytes.  Address arithmetic
wraps, as it does for a pointer that is incremented past the last address;
`InRange` speaks about exact arithmetic and is what bounds are stated with.
`store` is the closed form of a byte-at-a-time loop (`storeLoop_eq_store`), so
that a bulk copy costs nothing to evaluate.
-/

namespace SlopOS.Support.ByteMem

abbrev Byte := BitVec 8
abbrev Word := BitVec 32
abbrev Mem := Word → Byte

/-- `a` lies in `[base, base + size)`, without wrapping. -/
def InRange (base : Word) (size : Nat) (a : Word) : Prop :=
  base.toNat ≤ a.toNat ∧ a.toNat < base.toNat + size

instance (base : Word) (size : Nat) (a : Word) : Decidable (InRange base size a) :=
  inferInstanceAs (Decidable (_ ∧ _))

/-- A run of `len` bytes starting at `base`; byte `j` sits at `base + j`,
wrapping like the pointer that walks it. -/
structure Span where
  base : Word
  len : Nat
deriving Repr, DecidableEq

/-- Every byte of the span satisfies `P`. -/
def Span.All (sp : Span) (P : Word → Prop) : Prop :=
  ∀ j < sp.len, P (sp.base + BitVec.ofNat 32 j)

/-- Write bytes `f 0 .. f (n - 1)` at `base` and up. -/
def store (m : Mem) (base : Word) (n : Nat) (f : Nat → Byte) : Mem := fun a =>
  if (a - base).toNat < n then f (a - base).toNat else m a

/-- The loop `for (j = 0; j < n; ++j) base[j] = f(j)`. -/
def storeLoop (m : Mem) (base : Word) (f : Nat → Byte) : Nat → Mem
  | 0 => m
  | n + 1 => Function.update (storeLoop m base f n) (base + BitVec.ofNat 32 n) (f n)

/-- The `n` bytes from `base` on. -/
def load (m : Mem) (base : Word) (n : Nat) : List Byte :=
  (List.range n).map fun j => m (base + BitVec.ofNat 32 j)

/-! ## Sums that do not wrap -/

/-- A sum that is not below its first term is exact. -/
theorem toNat_add_of_not_lt {a b : Word} (h : ¬a + b < a) : (a + b).toNat = a.toNat + b.toNat := by
  have hle : a.toNat ≤ (a + b).toNat := Nat.not_lt.mp h
  have ha := a.isLt
  have hb := b.isLt
  rw [BitVec.toNat_add] at hle ⊢
  omega

theorem toNat_larger (a b : Word) : (if a < b then b else a).toNat = max a.toNat b.toNat := by
  split
  · rename_i hlt
    exact (Nat.max_eq_right (Nat.le_of_lt hlt)).symm
  · rename_i hge
    exact (Nat.max_eq_left (Nat.not_lt.mp hge)).symm

/-! ## The closed form and the loop -/

theorem storeLoop_eq_store (m : Mem) (base : Word) (f : Nat → Byte) (n : Nat)
    (hn : n ≤ 2 ^ 32) : storeLoop m base f n = store m base n f := by
  induction n with
  | zero =>
      funext a
      simp [storeLoop, store]
  | succ n ih =>
      funext a
      rw [storeLoop, ih (by omega)]
      by_cases ha : a = base + BitVec.ofNat 32 n
      · subst ha
        have hoff : (base + BitVec.ofNat 32 n - base).toNat = n := by bv_omega
        rw [Function.update_self, store, hoff, if_pos (Nat.lt_succ_self n)]
      · have hoff : (a - base).toNat ≠ n := by
          intro h
          apply ha
          bv_omega
        rw [Function.update_of_ne ha]
        unfold store
        by_cases hlt : (a - base).toNat < n
        · rw [if_pos hlt, if_pos (by omega)]
        · rw [if_neg hlt, if_neg (by omega)]

theorem store_congr {m : Mem} {base : Word} {n : Nat} {f g : Nat → Byte}
    (h : ∀ j < n, f j = g j) : store m base n f = store m base n g := by
  funext a
  unfold store
  by_cases hlt : (a - base).toNat < n
  · rw [if_pos hlt, if_pos hlt, h _ hlt]
  · rw [if_neg hlt, if_neg hlt]

/-! ## Reading back and the frame -/

theorem sub_lt_iff_inRange {base a : Word} {n : Nat} (hn : base.toNat + n ≤ 2 ^ 32) :
    (a - base).toNat < n ↔ InRange base n a := by
  unfold InRange
  constructor <;> intro h <;> bv_omega

theorem store_of_not_inRange {m : Mem} {base a : Word} {n : Nat} {f : Nat → Byte}
    (hn : base.toNat + n ≤ 2 ^ 32) (ha : ¬InRange base n a) :
    store m base n f a = m a := by
  rw [store, if_neg (mt (sub_lt_iff_inRange hn).mp ha)]

theorem store_apply_add {m : Mem} {base : Word} {n j : Nat} {f : Nat → Byte}
    (hn : n ≤ 2 ^ 32) (hj : j < n) :
    store m base n f (base + BitVec.ofNat 32 j) = f j := by
  have hoff : (base + BitVec.ofNat 32 j - base).toNat = j := by bv_omega
  rw [store, hoff, if_pos hj]

/-- The bytes of a buffer after a store at an offset in it. -/
theorem store_offset_apply {m : Mem} {p offset : Word} {n i : Nat} {f : Nat → Byte}
    (hi : p.toNat + i < 2 ^ 32) (hn : p.toNat + offset.toNat + n ≤ 2 ^ 32) :
    store m (p + offset) n f (p + BitVec.ofNat 32 i) =
      if offset.toNat ≤ i ∧ i < offset.toNat + n then f (i - offset.toNat)
      else m (p + BitVec.ofNat 32 i) := by
  unfold store
  by_cases hin : offset.toNat ≤ i ∧ i < offset.toNat + n
  · have hoff : (p + BitVec.ofNat 32 i - (p + offset)).toNat = i - offset.toNat := by bv_omega
    rw [hoff, if_pos (by omega), if_pos hin]
  · have hout : ¬(p + BitVec.ofNat 32 i - (p + offset)).toNat < n := by bv_omega
    rw [if_neg hout, if_neg hin]

/-- A store into a buffer leaves what is outside it. -/
theorem store_offset_outside {m : Mem} {p offset x : Word} {n size : Nat} {f : Nat → Byte}
    (hn : offset.toNat + n ≤ size) (htop : p.toNat + size ≤ 2 ^ 32) (hx : ¬InRange p size x) :
    store m (p + offset) n f x = m x := by
  unfold store
  unfold InRange at hx
  by_cases hzero : n = 0
  · rw [hzero, if_neg (Nat.not_lt_zero _)]
  · have hout : ¬(x - (p + offset)).toNat < n := by bv_omega
    rw [if_neg hout]

@[simp] theorem store_zero (m : Mem) (base : Word) (f : Nat → Byte) :
    store m base 0 f = m := by
  funext a
  simp [store]

@[simp] theorem length_load (m : Mem) (base : Word) (n : Nat) :
    (load m base n).length = n := by
  simp [load]

theorem load_store (m : Mem) (base : Word) (n : Nat) (f : Nat → Byte)
    (hn : n ≤ 2 ^ 32) :
    load (store m base n f) base n = (List.range n).map f := by
  unfold load
  apply List.map_congr_left
  intro j hj
  exact store_apply_add hn (List.mem_range.mp hj)

theorem load_store_getD (m : Mem) (base : Word) (bs : List Byte) (hn : bs.length ≤ 2 ^ 32) :
    load (store m base bs.length fun j => bs.getD j 0) base bs.length = bs := by
  rw [load_store m base _ _ hn]
  apply List.ext_getElem
  · rw [List.length_map, List.length_range]
  · intro j hj hj'
    rw [List.getElem_map, List.getElem_range, List.getD_eq_getElem?_getD,
      List.getElem?_eq_getElem hj', Option.getD_some]

theorem store_store_next (m : Mem) (base : Word) (k n : Nat) (f g : Nat → Byte)
    (hn : k + n ≤ 2 ^ 32) :
    store (store m base k f) (base + BitVec.ofNat 32 k) n g =
      store m base (k + n) fun j => if j < k then f j else g (j - k) := by
  funext a
  unfold store
  by_cases hfront : (a - base).toNat < k
  · have hlow : ¬(a - (base + BitVec.ofNat 32 k)).toNat < n := by bv_omega
    rw [if_neg hlow, if_pos hfront, if_pos (by omega)]
    exact (if_pos hfront).symm
  by_cases hback : (a - base).toNat < k + n
  · have hoff : (a - (base + BitVec.ofNat 32 k)).toNat = (a - base).toNat - k := by bv_omega
    rw [hoff, if_pos (by omega), if_pos hback]
    exact (if_neg hfront).symm
  · have hhigh : ¬(a - (base + BitVec.ofNat 32 k)).toNat < n := by bv_omega
    rw [if_neg hhigh, if_neg hfront, if_neg hback]

theorem store_one (m : Mem) (base : Word) (f : Nat → Byte) :
    store m base 1 f = Function.update m base (f 0) := by
  funext a
  unfold store
  by_cases ha : a = base
  · rw [ha, Function.update_self, BitVec.sub_self, if_pos (by decide)]
    rfl
  · have hoff : ¬(a - base).toNat < 1 := by
      intro h
      apply ha
      bv_omega
    rw [if_neg hoff, Function.update_of_ne ha]

theorem load_congr {m m' : Mem} {base : Word} {n : Nat}
    (h : ∀ j < n, m (base + BitVec.ofNat 32 j) = m' (base + BitVec.ofNat 32 j)) :
    load m base n = load m' base n := by
  unfold load
  apply List.map_congr_left
  intro j hj
  exact h j (List.mem_range.mp hj)

theorem inRange_add {base : Word} {n j : Nat} (hn : base.toNat + n ≤ 2 ^ 32) (hj : j < n) :
    InRange base n (base + BitVec.ofNat 32 j) := by
  unfold InRange
  bv_omega

/-! ## Little-endian words -/

def byteOf (w : Word) (i : Nat) : Byte := w.extractLsb' (8 * i) 8

/-- The word that four bytes spell, least significant first. -/
def wordOf (b₀ b₁ b₂ b₃ : Byte) : Word := b₃ ++ b₂ ++ b₁ ++ b₀

theorem wordOf_byteOf (w : Word) :
    wordOf (byteOf w 0) (byteOf w 1) (byteOf w 2) (byteOf w 3) = w := by
  apply BitVec.eq_of_getElem_eq
  intro i hi
  rw [wordOf, BitVec.getElem_append]
  simp only [byteOf, BitVec.getElem_append, BitVec.getElem_extractLsb']
  -- one case for each byte, from the lowest up
  split
  · simp [BitVec.getLsbD_eq_getElem hi]
  split
  · have h : 8 + (i - 8) = i := by omega
    simp [h, BitVec.getLsbD_eq_getElem hi]
  split
  · have h : 16 + (i - 8 - 8) = i := by omega
    simp [h, BitVec.getLsbD_eq_getElem hi]
  · have h : 24 + (i - 8 - 8 - 8) = i := by omega
    simp [h, BitVec.getLsbD_eq_getElem hi]

def loadWord (m : Mem) (a : Word) : Word :=
  wordOf (m a) (m (a + 1#32)) (m (a + 2#32)) (m (a + 3#32))

def storeWord (m : Mem) (a w : Word) : Mem := store m a 4 (byteOf w)

def storeWords (m : Mem) (base : Word) (ws : List Word) : Mem :=
  store m base (4 * ws.length) fun j => byteOf (ws.getD (j / 4) 0) (j % 4)

def loadWords (m : Mem) (base : Word) (n : Nat) : List Word :=
  (List.range n).map fun i => loadWord m (base + BitVec.ofNat 32 (4 * i))

@[simp] theorem loadWord_storeWord (m : Mem) (a w : Word) :
    loadWord (storeWord m a w) a = w := by
  have hbyte : ∀ j < 4, storeWord m a w (a + BitVec.ofNat 32 j) = byteOf w j :=
    fun j hj => store_apply_add (by omega) hj
  have h₀ : storeWord m a w a = byteOf w 0 := by simpa using hbyte 0 (by omega)
  rw [loadWord, h₀, hbyte 1 (by omega), hbyte 2 (by omega), hbyte 3 (by omega),
    wordOf_byteOf]

theorem loadWords_storeWords (m : Mem) (base : Word) (ws : List Word)
    (hlen : 4 * ws.length ≤ 2 ^ 32) :
    loadWords (storeWords m base ws) base ws.length = ws := by
  apply List.ext_getElem
  · simp [loadWords]
  · intro i hi hi'
    have hbyte : ∀ j < 4, storeWords m base ws
        (base + BitVec.ofNat 32 (4 * i) + BitVec.ofNat 32 j) = byteOf ws[i] j := by
      intro j hj
      have haddr : base + BitVec.ofNat 32 (4 * i) + BitVec.ofNat 32 j =
          base + BitVec.ofNat 32 (4 * i + j) := by
        rw [BitVec.add_assoc, BitVec.ofNat_add]
      rw [haddr, storeWords, store_apply_add hlen (by omega)]
      have hdiv : (4 * i + j) / 4 = i := by omega
      have hmod : (4 * i + j) % 4 = j := by omega
      rw [hdiv, hmod, List.getD_eq_getElem?_getD, List.getElem?_eq_getElem hi',
        Option.getD_some]
    have h₀ := hbyte 0 (by omega)
    rw [BitVec.add_zero] at h₀
    simp only [loadWords, List.getElem_map, List.getElem_range, loadWord]
    rw [h₀, hbyte 1 (by omega), hbyte 2 (by omega), hbyte 3 (by omega), wordOf_byteOf]

theorem loadWord_congr {m m' : Mem} {a : Word}
    (h : ∀ j < 4, m (a + BitVec.ofNat 32 j) = m' (a + BitVec.ofNat 32 j)) :
    loadWord m a = loadWord m' a := by
  have h₀ : m a = m' a := by simpa using h 0 (by omega)
  rw [loadWord, loadWord, h₀, h 1 (by omega), h 2 (by omega), h 3 (by omega)]

theorem loadWords_congr {m m' : Mem} {base : Word} {n : Nat}
    (h : ∀ j < 4 * n, m (base + BitVec.ofNat 32 j) = m' (base + BitVec.ofNat 32 j)) :
    loadWords m base n = loadWords m' base n := by
  unfold loadWords
  apply List.map_congr_left
  intro i hi
  have hi' := List.mem_range.mp hi
  apply loadWord_congr
  intro j hj
  rw [BitVec.add_assoc, ← BitVec.ofNat_add]
  exact h (4 * i + j) (by omega)

/-! ## Footprints -/

def Covered (spans : List Span) (a : Word) : Prop :=
  ∃ sp ∈ spans, (a - sp.base).toNat < sp.len

instance (spans : List Span) (a : Word) : Decidable (Covered spans a) :=
  inferInstanceAs (Decidable (∃ sp ∈ spans, _))

theorem Span.All.at {sp : Span} {P : Word → Prop} {a : Word} (h : sp.All P)
    (ha : (a - sp.base).toNat < sp.len) : P a := by
  have hat := h _ ha
  rw [BitVec.ofNat_toNat, BitVec.setWidth_eq] at hat
  have hsum : sp.base + (a - sp.base) = a := by bv_omega
  rwa [hsum] at hat

/-- A store changes only the bytes of a span that is covered. -/
theorem store_uncovered {m : Mem} {spans : List Span} {base a : Word} {n : Nat} {f : Nat → Byte}
    (hsp : ⟨base, n⟩ ∈ spans) (ha : ¬Covered spans a) : store m base n f a = m a := by
  have hout : ¬(a - base).toNat < n := fun hin => ha ⟨⟨base, n⟩, hsp, hin⟩
  rw [store, if_neg hout]

end SlopOS.Support.ByteMem
