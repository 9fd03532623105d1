import Mathlib.Data.BitVec
import Mathlib.Data.List.Basic
/-!
# Programs that talk to a device through I/O ports

A device answers reads and takes writes at its ports, and changes its state on both.  A driver is
a function of the bus and of the device's state; `logged` puts a record of all accesses beside the
state, and `poll` is the bounded wait for a status.
-/

namespace SlopOS.Support.PortBus

abbrev Port := BitVec 16

structure Bus (σ : Type) where
  inb : σ → Port → BitVec 8 × σ
  inw : σ → Port → BitVec 16 × σ
  outb : σ → Port → BitVec 8 → σ
  outw : σ → Port → BitVec 16 → σ

inductive Access
  | inb (p : Port) (v : BitVec 8)
  | inw (p : Port) (v : BitVec 16)
  | outb (p : Port) (v : BitVec 8)
  | outw (p : Port) (v : BitVec 16)
deriving DecidableEq

variable {σ : Type} (bus : Bus σ)

/-- The same device, with the accesses that have been made. -/
def Bus.logged : Bus (σ × List Access) where
  inb s p := ((bus.inb s.1 p).1, (bus.inb s.1 p).2, s.2 ++ [.inb p (bus.inb s.1 p).1])
  inw s p := ((bus.inw s.1 p).1, (bus.inw s.1 p).2, s.2 ++ [.inw p (bus.inw s.1 p).1])
  outb s p v := (bus.outb s.1 p v, s.2 ++ [.outb p v])
  outw s p v := (bus.outw s.1 p v, s.2 ++ [.outw p v])

/-- Read the port until its value decides, at most `n` times; then the answer is `false`. -/
def poll (verdict : BitVec 8 → Option Bool) (p : Port) : Nat → σ → Bool × σ
  | 0, s => (false, s)
  | n + 1, s =>
    match verdict (bus.inb s p).1 with
    | some r => (r, (bus.inb s p).2)
    | none => poll verdict p n (bus.inb s p).2

/-- `n` words read from a port, and the state after them. -/
def readWords (p : Port) : Nat → σ → List (BitVec 16) × σ
  | 0, s => ([], s)
  | n + 1, s =>
    ((bus.inw s p).1 :: (readWords p n (bus.inw s p).2).1, (readWords p n (bus.inw s p).2).2)

def writeWords (p : Port) (ws : List (BitVec 16)) (s : σ) : σ := ws.foldl (bus.outw · p ·) s

variable {bus} {verdict : BitVec 8 → Option Bool} {p : Port} {s : σ} {n : Nat} {r : Bool}

/-- The port is undecided for a while and then gives its verdict. -/
theorem poll_eq (states : Nat → σ) (k : Nat) (hk : k < n)
    (hwait : ∀ i < k, verdict (bus.inb (states i) p).1 = none ∧
      (bus.inb (states i) p).2 = states (i + 1))
    (hend : verdict (bus.inb (states k) p).1 = some r) :
    poll bus verdict p n (states 0) = (r, (bus.inb (states k) p).2) := by
  induction k generalizing n states with
  | zero =>
      obtain ⟨n, rfl⟩ := Nat.exists_eq_succ_of_ne_zero (Nat.ne_of_gt hk)
      rw [poll, hend]
  | succ k ih =>
      obtain ⟨n, rfl⟩ := Nat.exists_eq_succ_of_ne_zero (Nat.ne_of_gt (Nat.zero_lt_of_lt hk))
      obtain ⟨hnone, hnext⟩ := hwait 0 (Nat.succ_pos k)
      rw [poll, hnone]
      dsimp only
      rw [hnext]
      exact ih (fun i => states (i + 1)) (Nat.lt_of_succ_lt_succ hk)
        (fun i hi => hwait (i + 1) (Nat.succ_lt_succ hi)) hend

/-- A wait on a port that reads the same and changes nothing. -/
theorem poll_const {v : BitVec 8} (h : bus.inb s p = (v, s)) : (poll bus verdict p n s).2 = s := by
  induction n with
  | zero => rfl
  | succ n ih =>
      rw [poll, h]
      dsimp only
      split
      · rfl
      · exact ih

theorem length_readWords (s : σ) (n : Nat) : (readWords bus p n s).1.length = n := by
  induction n generalizing s with
  | zero => rfl
  | succ n ih => rw [readWords, List.length_cons, ih]

/-! ## A device inside another -/

/-- On the states `f s` and at the ports `P` the bus `outer` does what `bus` does. -/
structure Bus.Carries {τ : Type} (bus : Bus σ) (outer : Bus τ) (f : σ → τ) (P : Port → Prop) :
    Prop where
  inb : ∀ s p, P p → outer.inb (f s) p = ((bus.inb s p).1, f (bus.inb s p).2)
  outb : ∀ s p v, P p → outer.outb (f s) p v = f (bus.outb s p v)

theorem Bus.Carries.poll {τ : Type} {outer : Bus τ} {f : σ → τ} {P : Port → Prop}
    (h : bus.Carries outer f P) (hp : P p) :
    PortBus.poll outer verdict p n (f s) =
      ((PortBus.poll bus verdict p n s).1, f (PortBus.poll bus verdict p n s).2) := by
  induction n generalizing s with
  | zero => rfl
  | succ n ih =>
      rw [PortBus.poll, PortBus.poll, h.inb s p hp]
      cases verdict (bus.inb s p).1 with
      | none => exact ih
      | some r => rfl

/-! ## What went over a data port -/

/-- The words, and the bytes that are written to the port. -/
def Access.Moves (p : Port) : Access → Bool
  | .inb _ _ => false
  | .inw _ _ => true
  | .outb q _ => q == p
  | .outw _ _ => true

/-- What goes over the data port `p`, in order; a word counts at any port. -/
def transfers (p : Port) (s : σ × List Access) : List Access := s.2.filter (Access.Moves p)

variable {l : σ × List Access} {q : Port}

/-- The field that a shift and a mask take out of a word. -/
theorem field_of_shift {n w : Nat} (hw : w ≤ n) (x : BitVec n) (k : Nat) :
    ((x >>> k) &&& BitVec.ofNat n (2 ^ w - 1)).setWidth w = x.extractLsb' k w := by
  refine BitVec.eq_of_toNat_eq ?_
  have hmask : (2 ^ w - 1) % 2 ^ n = 2 ^ w - 1 :=
    Nat.mod_eq_of_lt (Nat.lt_of_lt_of_le (Nat.sub_lt (Nat.two_pow_pos w) Nat.one_pos)
      (Nat.pow_le_pow_right (by decide) hw))
  rw [BitVec.toNat_setWidth, BitVec.toNat_and, BitVec.toNat_ofNat, hmask,
    Nat.and_two_pow_sub_one_eq_mod, BitVec.extractLsb'_toNat, Nat.mod_mod, BitVec.toNat_ushiftRight]

end SlopOS.Support.PortBus
