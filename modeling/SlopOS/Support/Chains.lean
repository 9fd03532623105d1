import Mathlib.Logic.Basic
/-!
# Chains of links

Nodes are numbers, and `next` leads from a node to the one behind it.  Where
every link leads to a smaller number a chain ends, and as much fuel as its
first number needs is enough to follow it.
-/

namespace SlopOS.Support.Chains

variable {next next' : Nat → Option Nat} {count fuel fuel' i j : Nat} {start : Option Nat}

def chain (next : Nat → Option Nat) : Nat → Option Nat → List Nat
  | 0, _ => []
  | _ + 1, none => []
  | fuel + 1, some i => i :: chain next fuel (next i)

/-- Links of the first `count` nodes lead to older ones. -/
def Descending (next : Nat → Option Nat) (count : Nat) : Prop :=
  ∀ i < count, ∀ j, next i = some j → j < i

@[simp] theorem chain_none : chain next fuel none = [] := by
  cases fuel <;> rfl

theorem chain_some (i : Nat) : chain next (fuel + 1) (some i) = i :: chain next fuel (next i) := rfl

theorem mem_chain_le (hnext : Descending next count) (hstart : ∀ k ∈ start, k < count)
    (h : i ∈ chain next fuel start) : ∃ k ∈ start, i ≤ k := by
  induction fuel generalizing start with
  | zero => exact absurd h List.not_mem_nil
  | succ fuel ih =>
      cases start with
      | none => exact absurd h List.not_mem_nil
      | some k =>
          have hk := hstart k rfl
          rw [chain_some, List.mem_cons] at h
          rcases h with rfl | h
          · exact ⟨i, rfl, Nat.le_refl i⟩
          · have hrest : ∀ l ∈ next k, l < count := fun l hl => by
              have := hnext k hk l hl
              omega
            obtain ⟨l, hl, hle⟩ := ih hrest h
            have hlt := hnext k hk l hl
            exact ⟨k, rfl, by omega⟩

theorem mem_chain_lt (hnext : Descending next count) (hstart : ∀ k ∈ start, k < count)
    (h : i ∈ chain next fuel start) : i < count := by
  obtain ⟨k, hk, hle⟩ := mem_chain_le hnext hstart h
  have := hstart k hk
  omega

/-- The numbers along a chain go down, so no node comes twice. -/
theorem chain_pairwise (hnext : Descending next count) (hstart : ∀ k ∈ start, k < count) :
    (chain next fuel start).Pairwise fun i j => j < i := by
  induction fuel generalizing start with
  | zero => exact List.Pairwise.nil
  | succ fuel ih =>
      cases start with
      | none =>
          rw [chain_none]
          exact List.Pairwise.nil
      | some k =>
          have hk := hstart k rfl
          have hrest : ∀ l ∈ next k, l < count := fun l hl => by
            have := hnext k hk l hl
            omega
          rw [chain_some, List.pairwise_cons]
          refine ⟨fun j hj => ?_, ih hrest⟩
          obtain ⟨l, hl, hle⟩ := mem_chain_le hnext hrest hj
          have hlt := hnext k hk l hl
          omega

/-- More fuel than the first number changes nothing. -/
theorem chain_fuel (hnext : Descending next count) (hstart : ∀ k ∈ start, k < count)
    (hfuel : ∀ k ∈ start, k < fuel) (hfuel' : ∀ k ∈ start, k < fuel') :
    chain next fuel start = chain next fuel' start := by
  induction fuel generalizing start fuel' with
  | zero =>
      cases start with
      | none => rw [chain_none, chain_none]
      | some k => exact absurd (hfuel k rfl) (Nat.not_lt_zero k)
  | succ fuel ih =>
      cases start with
      | none => rw [chain_none, chain_none]
      | some k =>
          have hk := hstart k rfl
          have hf := hfuel k rfl
          cases fuel' with
          | zero => exact absurd (hfuel' k rfl) (Nat.not_lt_zero k)
          | succ fuel' =>
              have hf' := hfuel' k rfl
              rw [chain_some, chain_some]
              congr 1
              refine ih (fun l hl => ?_) (fun l hl => ?_) (fun l hl => ?_) <;>
              · have := hnext k hk l hl
                omega

/-- A chain sees only the links of its own nodes. -/
theorem chain_congr (hnext : Descending next count) (hstart : ∀ k ∈ start, k < count)
    (h : ∀ i < count, next' i = next i) : chain next' fuel start = chain next fuel start := by
  induction fuel generalizing start with
  | zero => rfl
  | succ fuel ih =>
      cases start with
      | none => rfl
      | some k =>
          have hk := hstart k rfl
          rw [chain_some, chain_some, h k hk]
          congr 1
          refine ih fun l hl => ?_
          have := hnext k hk l hl
          omega

end SlopOS.Support.Chains
