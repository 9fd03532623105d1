import SlopOS.Support.ByteMem
/-!
# Loops that copy bytes

A source says what byte `i` is in a given memory, so a loop may read what it has stored before.  As
long as it does not, copying upwards and copying downwards are one store of the bytes from before.
-/

namespace SlopOS.Support.ByteMem

/-- Byte `i` of what is copied, in the memory as it is then. -/
abbrev Source := Mem → Nat → Byte

def sourceAt (p : Word) : Source := fun m i => m (p + BitVec.ofNat 32 i)

/-- The loop `for (i = 0; i < n; ++i) dst[i] = src[i]`. -/
def copyUp (m : Mem) (dst : Word) (src : Source) : Nat → Mem
  | 0 => m
  | n + 1 =>
    let m := copyUp m dst src n
    Function.update m (dst + BitVec.ofNat 32 n) (src m n)

/-- The loop `for (i = n; i > 0; --i) dst[i - 1] = src[i - 1]`. -/
def copyDown (m : Mem) (dst : Word) (src : Source) : Nat → Mem
  | 0 => m
  | n + 1 => copyDown (Function.update m (dst + BitVec.ofNat 32 n) (src m n)) dst src n

variable {m m' : Mem} {dst p a : Word} {src : Source} {f : Nat → Byte} {n i : Nat}

/-- The byte is the same in memories that differ at most in the bytes `dst + j` for the `j` in
`stored`. -/
def Source.Unstored (src : Source) (m : Mem) (dst : Word) (stored : Nat → Prop) (i : Nat) : Prop :=
  ∀ m' : Mem, (∀ a, (∀ j, stored j → a ≠ dst + BitVec.ofNat 32 j) → m' a = m a) → src m' i = src m i

theorem unstored_sourceAt {stored : Nat → Prop}
    (h : ∀ j, stored j → p + BitVec.ofNat 32 i ≠ dst + BitVec.ofNat 32 j) :
    (sourceAt p).Unstored m dst stored i := fun _ hsame => hsame _ h

theorem storeLoop_of_ne (h : ∀ j < n, a ≠ dst + BitVec.ofNat 32 j) :
    storeLoop m dst f n a = m a := by
  induction n with
  | zero => rfl
  | succ n ih =>
      rw [storeLoop, Function.update_of_ne (h n (Nat.lt_succ_self n))]
      exact ih fun j hj => h j (Nat.lt_succ_of_lt hj)

theorem store_update (hn : n < 2 ^ 32) :
    store (Function.update m (dst + BitVec.ofNat 32 n) (f n)) dst n f = store m dst (n + 1) f := by
  funext a
  unfold store
  by_cases ha : a = dst + BitVec.ofNat 32 n
  · have hoff : (a - dst).toNat = n := by bv_omega
    rw [hoff, if_neg (Nat.lt_irrefl n), if_pos (Nat.lt_succ_self n), ha, Function.update_self]
  · have hoff : (a - dst).toNat ≠ n := by
      intro h
      apply ha
      bv_omega
    rw [Function.update_of_ne ha]
    by_cases hlt : (a - dst).toNat < n
    · rw [if_pos hlt, if_pos (by omega)]
    · rw [if_neg hlt, if_neg (by omega)]

theorem store_self (m : Mem) (dst : Word) (n : Nat) : store m dst n (sourceAt dst m) = m := by
  funext a
  unfold store sourceAt
  by_cases hlt : (a - dst).toNat < n
  · have haddr : dst + BitVec.ofNat 32 (a - dst).toNat = a := by bv_omega
    rw [if_pos hlt, haddr]
  · rw [if_neg hlt]

/-- Upwards, byte `i` must not be among the first `i` bytes stored. -/
theorem copyUp_eq_store (hn : n ≤ 2 ^ 32) (h : ∀ i < n, src.Unstored m dst (· < i) i) :
    copyUp m dst src n = store m dst n (src m) := by
  have hloop : ∀ k ≤ n, copyUp m dst src k = storeLoop m dst (src m) k := by
    intro k
    induction k with
    | zero => exact fun _ => rfl
    | succ k ih =>
        intro hk
        have hbefore := ih (by omega)
        have hread : src (copyUp m dst src k) k = src m k := by
          apply h k (by omega)
          intro a ha
          rw [hbefore]
          exact storeLoop_of_ne ha
        rw [copyUp, storeLoop, ← hbefore]
        exact congrArg _ hread
  rw [hloop n (Nat.le_refl n)]
  exact storeLoop_eq_store m dst (src m) n hn

/-- Downwards, byte `i` must not be among those above it. -/
theorem copyDown_eq_store (hn : n ≤ 2 ^ 32)
    (h : ∀ i < n, src.Unstored m dst (fun j => i < j ∧ j < n) i) :
    copyDown m dst src n = store m dst n (src m) := by
  induction n generalizing m with
  | zero => exact (store_zero m dst _).symm
  | succ n ih =>
      have hupdate : ∀ {i : Nat} {a : Word}, i < n →
          (∀ j, i < j ∧ j < n + 1 → a ≠ dst + BitVec.ofNat 32 j) →
          Function.update m (dst + BitVec.ofNat 32 n) (src m n) a = m a := by
        intro i a hi ha
        exact Function.update_of_ne (ha n ⟨hi, Nat.lt_succ_self n⟩) _ _
      have hfirst : ∀ i < n,
          src (Function.update m (dst + BitVec.ofNat 32 n) (src m n)) i = src m i :=
        fun i hi => h i (Nat.lt_succ_of_lt hi) _ fun a ha => hupdate hi ha
      rw [copyDown, ih (by omega)]
      · rw [store_congr hfirst]
        exact store_update (by omega)
      · intro i hi m' hsame
        rw [hfirst i hi]
        apply h i (Nat.lt_succ_of_lt hi)
        intro a ha
        rw [hsame a fun j hj => ha j ⟨hj.1, Nat.lt_succ_of_lt hj.2⟩]
        exact hupdate hi ha

end SlopOS.Support.ByteMem
