import Mathlib.Data.List.Pairwise
/-!
# Blocks below a rising mark

A bump allocator takes no block back: a new block starts at or above the mark
that the blocks before it end below, and the mark moves behind it.  `Packed` is
what the blocks handed out so far have in common.
-/

namespace SlopOS.Support

structure Block where
  base : Nat
  size : Nat
deriving Repr, DecidableEq

namespace Block

def stop (b : Block) : Nat := b.base + b.size

/-- All of the block lies in `[lo, hi)`. -/
def Within (b : Block) (lo hi : Nat) : Prop := lo ≤ b.base ∧ b.stop ≤ hi

def Apart (a b : Block) : Prop := a.stop ≤ b.base ∨ b.stop ≤ a.base

instance (b : Block) (lo hi : Nat) : Decidable (b.Within lo hi) :=
  inferInstanceAs (Decidable (_ ∧ _))

instance (a b : Block) : Decidable (a.Apart b) := inferInstanceAs (Decidable (_ ∨ _))

theorem Apart.symm {a b : Block} (h : a.Apart b) : b.Apart a := Or.symm h

theorem Within.mono {b : Block} {lo lo' hi hi' : Nat} (h : b.Within lo hi) (hlo : lo' ≤ lo)
    (hhi : hi ≤ hi') : b.Within lo' hi' := ⟨Nat.le_trans hlo h.1, Nat.le_trans h.2 hhi⟩

theorem Within.apart {a b : Block} {lo mark hi : Nat} (ha : a.Within mark hi)
    (hb : b.Within lo mark) : a.Apart b := Or.inr (Nat.le_trans hb.2 ha.1)

/-- What lies in one of two blocks that are apart lies outside the other. -/
theorem Apart.of_within {a b c : Block} (h : a.Apart b) (hc : c.Within a.base a.stop) :
    c.Apart b := by
  rcases h with h | h
  · exact Or.inl (Nat.le_trans hc.2 h)
  · exact Or.inr (Nat.le_trans h hc.1)

end Block

/-- The blocks lie between `lo` and the mark and no two of them overlap. -/
structure Packed (lo mark : Nat) (blocks : List Block) : Prop where
  within : ∀ b ∈ blocks, b.Within lo mark
  apart : blocks.Pairwise Block.Apart

namespace Packed

variable {lo mark mark' : Nat} {blocks : List Block} {b : Block}

theorem nil : Packed lo mark [] := ⟨fun _ h => absurd h List.not_mem_nil, List.Pairwise.nil⟩

theorem push (h : Packed lo mark blocks) (hlo : lo ≤ mark) (hb : b.Within mark mark') :
    Packed lo mark' (b :: blocks) where
  within c hc := by
    rcases List.mem_cons.mp hc with rfl | hc
    · exact hb.mono hlo (Nat.le_refl _)
    · have hmark : mark ≤ mark' := by
        have hle : b.base ≤ b.stop := Nat.le_add_right _ _
        exact Nat.le_trans hb.1 (Nat.le_trans hle hb.2)
      exact (h.within c hc).mono (Nat.le_refl _) hmark
  apart := List.pairwise_cons.mpr ⟨fun c hc => hb.apart (h.within c hc), h.apart⟩

theorem push_below (h : Packed mark mark' blocks) (hmark : mark ≤ mark') (hb : b.Within lo mark) :
    Packed lo mark' (b :: blocks) where
  within c hc := by
    rcases List.mem_cons.mp hc with rfl | hc
    · exact hb.mono (Nat.le_refl _) hmark
    · have hlo : lo ≤ mark := Nat.le_trans hb.1 (Nat.le_trans (Nat.le_add_right _ _) hb.2)
      exact (h.within c hc).mono hlo (Nat.le_refl _)
  apart := List.pairwise_cons.mpr ⟨fun c hc => ((h.within c hc).apart hb).symm, h.apart⟩

theorem apart_of_ne (h : Packed lo mark blocks) {c : Block} (hb : b ∈ blocks) (hc : c ∈ blocks)
    (hne : b ≠ c) : b.Apart c :=
  have : Std.Symm Block.Apart := ⟨fun _ _ => Block.Apart.symm⟩
  h.apart.forall hb hc hne

end Packed

end SlopOS.Support
