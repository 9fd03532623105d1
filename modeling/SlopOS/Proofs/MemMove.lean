import SlopOS.User.CompatString
/-!
# Overlapping ranges in `memmove`

A range below the source is filled upwards and a range above it downwards.  So no byte of the
source is stored to before it has been read.
-/

namespace SlopOS.Proofs.MemMove

open SlopOS.Kernel SlopOS.User SlopOS.Support

variable {m : ByteMem.Mem} {dst src n : U32}

theorem memcpy_eq (hle : dst.toNat ≤ src.toNat) (hsrc : src.toNat + n.toNat ≤ 2 ^ 32) :
    memcpy m dst src n = (dst, ByteMem.store m dst n.toNat (ByteMem.sourceAt src m)) := by
  unfold memcpy
  rw [ByteMem.copyUp_eq_store (Nat.le_of_lt n.isLt)]
  intro i hi
  apply ByteMem.unstored_sourceAt
  intro j hj
  bv_omega

/-- In whichever direction it copies, the call is one store of the bytes from before. -/
theorem memmove_eq (hdst : dst.toNat + n.toNat ≤ 2 ^ 32) (hsrc : src.toNat + n.toNat ≤ 2 ^ 32) :
    memmove m dst src n = (dst, ByteMem.store m dst n.toNat (ByteMem.sourceAt src m)) := by
  unfold memmove
  by_cases heq : dst = src
  · rw [if_pos heq, ← heq, ByteMem.store_self]
  by_cases hlt : dst < src
  · have hle : dst.toNat ≤ src.toNat := Nat.le_of_lt (BitVec.lt_def.mp hlt)
    rw [if_neg heq, if_pos hlt]
    exact memcpy_eq hle hsrc
  · have hgt : src.toNat < dst.toNat := by bv_omega
    rw [if_neg heq, if_neg hlt, ByteMem.copyDown_eq_store (Nat.le_of_lt n.isLt)]
    intro i hi
    apply ByteMem.unstored_sourceAt
    rintro j ⟨hij, hj⟩
    bv_omega

/-- The target holds what the source held before, and no other byte has changed. -/
theorem memmove_moves (m : ByteMem.Mem) (dst src n : U32)
    (hdst : dst.toNat + n.toNat ≤ 2 ^ 32) (hsrc : src.toNat + n.toNat ≤ 2 ^ 32) :
    (memmove m dst src n).1 = dst ∧
      ByteMem.load (memmove m dst src n).2 dst n.toNat = ByteMem.load m src n.toNat ∧
      ∀ a, ¬ByteMem.InRange dst n.toNat a → (memmove m dst src n).2 a = m a := by
  rw [memmove_eq hdst hsrc]
  refine ⟨rfl, ?_, fun a ha => ByteMem.store_of_not_inRange hdst ha⟩
  exact ByteMem.load_store m dst n.toNat (ByteMem.sourceAt src m) (Nat.le_of_lt n.isLt)

/-- Eight bytes, moved up by three. -/
theorem memmove_demo :
    (memmove (fun a => a.setWidth 8) 103 100 8).1 = 103 ∧
      ByteMem.load (memmove (fun a => a.setWidth 8) 103 100 8).2 103 8 =
        [100, 101, 102, 103, 104, 105, 106, 107] ∧
      ∀ a, ¬ByteMem.InRange 103 8 a → (memmove (fun a => a.setWidth 8) 103 100 8).2 a = a.setWidth 8 :=
  memmove_moves (fun a => a.setWidth 8) 103 100 8 (by decide) (by decide)

end SlopOS.Proofs.MemMove
