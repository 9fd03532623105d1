import SlopOS.Support.Blocks
import SlopOS.Support.ByteMem
import Mathlib.Data.List.Forall2
/-!
# Byte strings on a stack

A stack that grows downwards holds the string that was pushed last in the lowest place.  `Stacked`
lists the strings from there up to the top, and what is stored below all of them leaves them alone.
-/

namespace SlopOS.Support.ByteMem

/-- From `lo` up to `top` the strings lie at their addresses, each above the one before it. -/
def Stacked (m : Mem) (top : Nat) : Nat → List Word → List (List Byte) → Prop
  | lo, [], [] => lo ≤ top
  | lo, a :: as, s :: ss =>
    lo ≤ a.toNat ∧ load m a s.length = s ∧ Stacked m top (a.toNat + s.length) as ss
  | _, _, _ => False

def stringBlocks (as : List Word) (ss : List (List Byte)) : List Block :=
  List.zipWith (fun a s => ⟨a.toNat, s.length⟩) as ss

variable {m m' : Mem} {top lo lo' : Nat} {a b : Word} {as : List Word} {s : List Byte}
variable {ss : List (List Byte)}

/-! ## Addresses -/

theorem toNat_add_ofNat {n j : Nat} (hn : a.toNat + n ≤ 2 ^ 32) (hj : j < n) :
    (a + BitVec.ofNat 32 j).toNat = a.toNat + j := by
  rw [BitVec.toNat_add, BitVec.toNat_ofNat]
  omega

/-- A word that no byte of another store reaches. -/
theorem loadWord_storeWord_of_apart {w : Word} (h : 4 ≤ (b - a).toNat) (h' : 4 ≤ (a - b).toNat) :
    loadWord (storeWord m a w) b = loadWord m b := by
  apply loadWord_congr
  intro j hj
  unfold storeWord store
  rw [if_neg]
  bv_omega

theorem loadWords_two (m : Mem) (a : Word) :
    loadWords m a 2 = [loadWord m a, loadWord m (a + 4)] := by
  simp [loadWords, List.range_succ]

/-! ## The strings on the stack -/

theorem Stacked.le_top (h : Stacked m top lo as ss) : lo ≤ top := by
  induction as generalizing lo ss with
  | nil =>
      cases ss with
      | nil => exact h
      | cons s ss => exact h.elim
  | cons a as ih =>
      cases ss with
      | nil => exact h.elim
      | cons s ss =>
          obtain ⟨hlo, -, hrest⟩ := h
          have hle := ih hrest
          omega

theorem Stacked.mono (h : Stacked m top lo as ss) (hlo : lo' ≤ lo) : Stacked m top lo' as ss := by
  cases as with
  | nil =>
      cases ss with
      | nil => exact Nat.le_trans hlo h
      | cons s ss => exact h.elim
  | cons a as =>
      cases ss with
      | nil => exact h.elim
      | cons s ss => exact ⟨Nat.le_trans hlo h.1, h.2⟩

/-- What changes below the strings does not change them. -/
theorem Stacked.frame (h : Stacked m top lo as ss) (htop : top ≤ 2 ^ 32)
    (hkeep : ∀ a : Word, lo ≤ a.toNat → m' a = m a) : Stacked m' top lo as ss := by
  induction as generalizing lo ss with
  | nil =>
      cases ss with
      | nil => exact h
      | cons s ss => exact h.elim
  | cons a as ih =>
      cases ss with
      | nil => exact h.elim
      | cons s ss =>
          obtain ⟨hlo, hload, hrest⟩ := h
          have hend := hrest.le_top
          refine ⟨hlo, ?_, ih hrest fun b hb => hkeep b (by omega)⟩
          rw [← hload, length_load]
          apply load_congr
          intro j hj
          apply hkeep
          rw [toNat_add_ofNat (by omega) hj]
          omega

theorem Stacked.push (h : Stacked m top lo as ss) (htop : top ≤ 2 ^ 32)
    (ha : a.toNat + s.length ≤ lo) :
    Stacked (store m a s.length fun j => s.getD j 0) top a.toNat (a :: as) (s :: ss) := by
  have hle := h.le_top
  refine ⟨le_rfl, load_store_getD m a s (by omega), ?_⟩
  apply (h.mono ha).frame htop
  intro b hb
  apply store_of_not_inRange (by omega)
  unfold InRange
  omega

theorem Stacked.loads (h : Stacked m top lo as ss) :
    List.Forall₂ (fun a s => load m a s.length = s) as ss := by
  induction as generalizing lo ss with
  | nil =>
      cases ss with
      | nil => exact .nil
      | cons s ss => exact h.elim
  | cons a as ih =>
      cases ss with
      | nil => exact h.elim
      | cons s ss => exact .cons h.2.1 (ih h.2.2)

theorem Stacked.packed (h : Stacked m top lo as ss) : Packed lo top (stringBlocks as ss) := by
  induction as generalizing lo ss with
  | nil => exact ⟨fun b hb => absurd hb List.not_mem_nil, .nil⟩
  | cons a as ih =>
      cases ss with
      | nil => exact h.elim
      | cons s ss =>
          obtain ⟨hlo, -, hrest⟩ := h
          exact (ih hrest).push_below hrest.le_top ⟨hlo, le_rfl⟩

/-- Strings in blocks at or above `lo` survive what changes below it. -/
theorem loads_frame (h : List.Forall₂ (fun a s => load m a s.length = s) as ss)
    (hblocks : ∀ b ∈ stringBlocks as ss, b.Within lo top) (htop : top ≤ 2 ^ 32)
    (hkeep : ∀ a : Word, lo ≤ a.toNat → m' a = m a) :
    List.Forall₂ (fun a s => load m' a s.length = s) as ss := by
  induction h with
  | nil => exact .nil
  | @cons a s as ss hload _ ih =>
      obtain ⟨hlo, hhi⟩ : lo ≤ a.toNat ∧ a.toNat + s.length ≤ top :=
        hblocks ⟨a.toNat, s.length⟩ List.mem_cons_self
      apply List.Forall₂.cons _ (ih fun b hb => hblocks b (List.mem_cons_of_mem _ hb))
      rw [← hload, length_load]
      apply load_congr
      intro j hj
      apply hkeep
      rw [toNat_add_ofNat (by omega) hj]
      omega

end SlopOS.Support.ByteMem
