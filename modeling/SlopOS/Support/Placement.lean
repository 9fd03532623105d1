import SlopOS.Support.Blocks
import SlopOS.Support.ByteMem
/-!
# Who may see and who may write which block

`shown` are blocks that are looked at and never written, several of them
perhaps the same; `owned` are blocks that one owner each may write.  A placement
is sound if no owner can write what somebody else sees, and what is handed out
next, above the mark, is in none of the blocks.
-/

namespace SlopOS.Support

open ByteMem

def Block.empty : Block := ⟨0, 0⟩

theorem Block.empty_apart (b : Block) : Block.empty.Apart b := Or.inl (Nat.zero_le _)

def blockAt (p : Word) (n : Nat) : Block := if n = 0 then .empty else ⟨p.toNat, n⟩

theorem blockAt_within {p : Word} {n lo hi : Nat} (hn : n ≠ 0) (hlo : lo ≤ p.toNat)
    (hhi : p.toNat + n ≤ hi) : (blockAt p n).Within lo hi := by
  unfold blockAt
  rw [if_neg hn]
  exact ⟨hlo, hhi⟩

structure Placement (α β : Type) where
  mark : Nat
  shown : α → Block
  owned : β → Block

namespace Placement

variable {α β : Type} {l l' : Placement α β} {m m' : Mem}

structure Sound (l : Placement α β) : Prop where
  shown_le : ∀ a, (l.shown a).stop ≤ l.mark
  owned_le : ∀ b, (l.owned b).stop ≤ l.mark
  apart : ∀ b a, (l.owned b).Apart (l.shown a)
  alone : ∀ b c, b ≠ c → (l.owned b).Apart (l.owned c)

def Seen (l : Placement α β) (b : Block) : Prop := b = .empty ∨ ∃ a, b = l.shown a

theorem Seen.stop_le {b : Block} (h : l.Seen b) (hl : l.Sound) : b.stop ≤ l.mark := by
  rcases h with rfl | ⟨a, rfl⟩
  · exact Nat.zero_le _
  · exact hl.shown_le a

theorem Seen.apart {b : Block} (h : l.Seen b) (hl : l.Sound) (c : β) : (l.owned c).Apart b := by
  rcases h with rfl | ⟨a, rfl⟩
  · exact (Block.empty_apart _).symm
  · exact hl.apart c a

/-- Blocks are shown to others, dropped, or shown for the first time. -/
theorem Sound.reveal (h : l.Sound) (hmark : l.mark ≤ l'.mark)
    (hshown : ∀ a, l.Seen (l'.shown a) ∨ (l'.shown a).Within l.mark l'.mark)
    (howned : ∀ b, l'.owned b = .empty ∨ l'.owned b = l.owned b) : l'.Sound := by
  have hapart : ∀ b x, (l.Seen x ∨ x.Within l.mark l'.mark) → (l'.owned b).Apart x := by
    intro b x hx
    rcases howned b with hb | hb
    · rw [hb]
      exact Block.empty_apart _
    rw [hb]
    rcases hx with hx | hx
    · exact hx.apart h b
    · exact Or.inl (Nat.le_trans (h.owned_le b) hx.1)
  constructor
  case shown_le =>
    intro a
    rcases hshown a with ha | ha
    · exact Nat.le_trans (ha.stop_le h) hmark
    · exact ha.2
  case owned_le =>
    intro b
    rcases howned b with hb | hb
    · rw [hb]
      exact Nat.zero_le _
    · rw [hb]
      exact Nat.le_trans (h.owned_le b) hmark
  case apart => exact fun b a => hapart b _ (hshown a)
  case alone =>
    intro b c hbc
    rcases howned c with hc | hc
    · rw [hc]
      exact (Block.empty_apart _).symm
    rcases howned b with hb | hb
    · rw [hb]
      exact Block.empty_apart _
    · rw [hb, hc]
      exact h.alone b c hbc

/-- One owner gets a block that nobody has had before. -/
theorem Sound.own {b₀ : β} (h : l.Sound) (hmark : l.mark ≤ l'.mark)
    (hshown : ∀ a, l.Seen (l'.shown a))
    (howned : ∀ b, b ≠ b₀ → l'.owned b = .empty ∨ l'.owned b = l.owned b)
    (hnew : (l'.owned b₀).Within l.mark l'.mark) : l'.Sound := by
  have hother : ∀ b, b ≠ b₀ → (l'.owned b).stop ≤ l.mark := by
    intro b hb
    rcases howned b hb with heq | heq
    · rw [heq]
      exact Nat.zero_le _
    · rw [heq]
      exact h.owned_le b
  constructor
  case shown_le => exact fun a => Nat.le_trans ((hshown a).stop_le h) hmark
  case owned_le =>
    intro b
    by_cases hb : b = b₀
    · rw [hb]
      exact hnew.2
    · exact Nat.le_trans (hother b hb) hmark
  case apart =>
    intro b a
    by_cases hb : b = b₀
    · rw [hb]
      exact Or.inr (Nat.le_trans ((hshown a).stop_le h) hnew.1)
    rcases howned b hb with heq | heq
    · rw [heq]
      exact Block.empty_apart _
    · rw [heq]
      exact (hshown a).apart h b
  case alone =>
    intro b c hbc
    by_cases hb : b = b₀
    · rw [hb]
      exact Or.inr (Nat.le_trans (hother c fun hc => hbc (hb.trans hc.symm)) hnew.1)
    by_cases hc : c = b₀
    · rw [hc]
      exact Or.inl (Nat.le_trans (hother b hb) hnew.1)
    rcases howned b hb with heq | heq
    · rw [heq]
      exact Block.empty_apart _
    rcases howned c hc with heq' | heq'
    · rw [heq']
      exact (Block.empty_apart _).symm
    · rw [heq, heq']
      exact h.alone b c hbc

/-! ## Contents -/

/-- Below the mark, stores go to the blocks of the owners `S` only. -/
def SameBut (l : Placement α β) (S : β → Prop) (m m' : Mem) : Prop :=
  ∀ a : Word, a.toNat < l.mark →
    (∀ b, S b → ¬((l.owned b).base ≤ a.toNat ∧ a.toNat < (l.owned b).stop)) → m' a = m a

def Holds (m : Mem) (p : Word) (n : Nat) (f : Nat → Byte) : Prop :=
  ∀ i < n, m (p + BitVec.ofNat 32 i) = f i

theorem Holds.zero (m : Mem) (p : Word) (f : Nat → Byte) : Holds m p 0 f :=
  fun _ hi => absurd hi (Nat.not_lt_zero _)

variable {p : Word} {n : Nat} {f : Nat → Byte} {S : β → Prop}

/-- What lies apart from the blocks that are written stays. -/
theorem Holds.keep (h : Holds m p n f) (hsame : l.SameBut S m m') (hle : (blockAt p n).stop ≤ l.mark)
    (hmark : l.mark ≤ 2 ^ 32) (hapart : ∀ b, S b → (l.owned b).Apart (blockAt p n)) :
    Holds m' p n f := by
  intro i hi
  rw [← h i hi]
  have hblock : blockAt p n = ⟨p.toNat, n⟩ := if_neg (by omega)
  rw [hblock] at hle hapart
  have hstop : p.toNat + n ≤ l.mark := hle
  have hadd : (p + BitVec.ofNat 32 i).toNat = p.toNat + i := by bv_omega
  apply hsame
  · omega
  · intro b hb hin
    rw [hadd] at hin
    have hsplit := hapart b hb
    unfold Block.Apart at hsplit
    have hstop' : (Block.mk p.toNat n).stop = p.toNat + n := rfl
    rw [hstop'] at hsplit
    dsimp only at hsplit
    omega

end Placement

end SlopOS.Support
