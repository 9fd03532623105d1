import SlopOS.Support.PortBus
import SlopOS.Support.ByteMem
import Mathlib.Data.List.GetD
import Mathlib.Data.BitVec
/-!
# A drive that takes packet commands

A drive on one of the two positions of a channel: task-file registers at `io`, the alternate status
at `ctrl`.  It is busy for a while after every change of phase.  READ(12) of one block is the packet
it carries out; of the other commands it knows the two identifications.
-/

namespace SlopOS.Support.PacketDrive

open SlopOS.Support.PortBus SlopOS.Support.ByteMem

abbrev Half := BitVec 16

/-- Byte `j` of a run of 16-bit words that are stored low byte first. -/
def halfByte (ws : List Half) (j : Nat) : Byte := (ws.getD (j / 2) 0).extractLsb' (8 * (j % 2)) 8

/-- The words of the first `2 * n` bytes. -/
def halves (f : Nat → Byte) (n : Nat) : List Half :=
  (List.range n).map fun i => f (2 * i + 1) ++ f (2 * i)

@[simp] theorem length_halves (f : Nat → Byte) (n : Nat) : (halves f n).length = n := by
  rw [halves, List.length_map, List.length_range]

theorem extract_low (a b : Byte) : (a ++ b : Half).extractLsb' 0 8 = b := by
  refine BitVec.eq_of_getLsbD_eq fun i hi => ?_
  rw [BitVec.getLsbD_extractLsb', Nat.zero_add]
  simp [BitVec.getLsbD_append (x := a) (y := b), hi]

theorem extract_high (a b : Byte) : (a ++ b : Half).extractLsb' 8 8 = a := by
  refine BitVec.eq_of_getLsbD_eq fun i hi => ?_
  rw [BitVec.getLsbD_extractLsb']
  simp [BitVec.getLsbD_append (x := a) (y := b), hi]

theorem halfByte_halves {f : Nat → Byte} {n j : Nat} (hj : j < 2 * n) :
    halfByte (halves f n) j = f j := by
  have hi : j / 2 < n := by omega
  rw [halfByte, halves, List.getD_eq_getElem _ _ (by simpa using hi), List.getElem_map,
    List.getElem_range]
  rcases Nat.mod_two_eq_zero_or_one j with hmod | hmod
  · rw [show 2 * (j / 2) = j by omega, hmod]
    exact extract_low _ _
  · rw [show 2 * (j / 2) + 1 = j by omega, hmod]
    exact extract_high _ _

/-- Storing a word a byte at a time and then the words after it. -/
theorem store_half (m : Mem) (a : Word) (w : Half) (ws : List Half)
    (hws : 2 * (ws.length + 1) ≤ 2 ^ 32) :
    store (Function.update (Function.update m a (w.extractLsb' 0 8)) (a + 1)
      (w.extractLsb' 8 8)) (a + 2) (2 * ws.length) (halfByte ws) =
      store m a (2 * (w :: ws).length) (halfByte (w :: ws)) := by
  funext x
  rw [store, store, List.length_cons]
  by_cases h0 : x = a
  · subst h0
    have hoff : ¬(x - (x + 2)).toNat < 2 * ws.length := by bv_omega
    rw [if_neg hoff, Function.update_of_ne (by bv_omega), Function.update_self, if_pos (by simp)]
    simp [halfByte]
  by_cases h1 : x = a + 1
  · subst h1
    have hoff : ¬(a + 1 - (a + 2)).toNat < 2 * ws.length := by bv_omega
    rw [if_neg hoff, Function.update_self, if_pos (by bv_omega), show (a + 1 - a).toNat = 1 by bv_omega]
    rfl
  have hsub : (x - (a + 2)).toNat = (x - a).toNat - 2 ∧ 2 ≤ (x - a).toNat := by bv_omega
  rw [Function.update_of_ne h1, Function.update_of_ne h0, hsub.1]
  by_cases hin : (x - a).toNat - 2 < 2 * ws.length
  · rw [if_pos hin, if_pos (by omega), halfByte, halfByte,
      show (x - a).toNat / 2 = ((x - a).toNat - 2) / 2 + 1 by omega, List.getD_cons_succ,
      show (x - a).toNat % 2 = ((x - a).toNat - 2) % 2 by omega]
  · rw [if_neg hin, if_neg (by omega)]

/-! ## The drive -/

inductive Phase
  | idle
  | packet (got : List Half)
  | data (rest : List Half)
  | aborted
deriving DecidableEq

structure Drive where
  io : Port
  ctrl : Port
  slave : Bool
  /-- What a port reads where nothing answers. -/
  floating : Byte
  identity : Nat → Byte
  sector : Word → Option (Nat → Byte)
  /-- How many status reads a phase change keeps the drive busy for. -/
  delay : Nat → Nat
  ctrl_outside : 8 ≤ (ctrl - io).toNat

structure State where
  selected : Bool
  lba1 : Byte
  lba2 : Byte
  phase : Phase
  busy : Nat
  turns : Nat

def blockSize : Nat := 2048

def Phase.status : Phase → Byte
  | .idle => 0x40
  | .packet _ => 0x48
  | .data _ => 0x48
  | .aborted => 0x41

def State.status (s : State) : Byte :=
  if s.selected then if s.busy = 0 then s.phase.status else 0x80 else 0

def State.readStatus (s : State) : Byte × State := (s.status, { s with busy := s.busy - 1 })

namespace Drive

variable (d : Drive)

def enter (s : State) (phase : Phase) : State :=
  { s with phase := phase, busy := d.delay s.turns, turns := s.turns + 1 }

def command (s : State) (v : Byte) : State :=
  match s.phase with
  | .packet _ => s
  | .data _ => s
  | _ =>
    if v = 0xA0 then d.enter s (.packet [])
    else if v = 0xA1 then d.enter s (.data (halves d.identity 256))
    else if v = 0xEC then d.enter { s with lba1 := 0x14, lba2 := 0xEB } .aborted
    else d.enter s .aborted

def execute (s : State) (ws : List Half) : State :=
  let f := halfByte ws
  if f 0 = 0xA8 ∧ f 6 ++ f 7 ++ f 8 ++ f 9 = (1 : Word) ∧ s.lba2 ++ s.lba1 = (2048 : Half) then
    match d.sector (f 2 ++ f 3 ++ f 4 ++ f 5) with
    | some block => d.enter s (.data (halves block (blockSize / 2)))
    | none => d.enter s .aborted
  else d.enter s .aborted

def inb (s : State) (p : Port) : Byte × State :=
  if p = d.ctrl ∨ p = d.io + 7 then s.readStatus
  else if p = d.io + 4 then (if s.selected then s.lba1 else 0, s)
  else if p = d.io + 5 then (if s.selected then s.lba2 else 0, s)
  else (if (p - d.io).toNat < 8 then 0 else d.floating, s)

def outb (s : State) (p : Port) (v : Byte) : State :=
  if p = d.io + 6 then { s with selected := v.getLsbD 4 == d.slave }
  else if s.selected = true ∧ s.busy ≠ 0 then s
  else if p = d.io + 4 then { s with lba1 := v }
  else if p = d.io + 5 then { s with lba2 := v }
  else if p = d.io + 7 ∧ s.selected = true then d.command s v
  else s

def inw (s : State) (p : Port) : Half × State :=
  if p = d.io ∧ s.selected = true ∧ s.busy = 0 then
    match s.phase with
    | .data (w :: rest) =>
      (w, if rest = [] then d.enter s .idle else { s with phase := .data rest })
    | _ => (0, s)
  else (0, s)

def outw (s : State) (p : Port) (w : Half) : State :=
  if p = d.io ∧ s.selected = true ∧ s.busy = 0 then
    match s.phase with
    | .packet got =>
      if got.length = 5 then d.execute s (got ++ [w]) else { s with phase := .packet (got ++ [w]) }
    | _ => s
  else s

def bus : Bus State := ⟨d.inb, d.inw, d.outb, d.outw⟩

end Drive

/-! ## What it answers -/

variable {d : Drive} {s : State} {n k : Nat} {p : Port} {v : Byte}

theorem register_ne_ctrl {k : Port} (hk : k.toNat < 8) : d.io + k ≠ d.ctrl := by
  have h := d.ctrl_outside
  bv_omega

theorem register_ne {j k : Port} (hjk : j ≠ k) : d.io + j ≠ d.io + k := by
  simpa using hjk

@[simp] theorem inb_status : d.bus.inb s (d.io + 7) = s.readStatus := if_pos (.inr rfl)

@[simp] theorem inb_ctrl : d.bus.inb s d.ctrl = s.readStatus := if_pos (.inl rfl)

theorem inb_lba1 (h : s.selected = true) : d.bus.inb s (d.io + 4) = (s.lba1, s) := by
  change d.inb s (d.io + 4) = _
  rw [Drive.inb, if_neg (not_or.mpr ⟨register_ne_ctrl (by decide), register_ne (by decide)⟩),
    if_pos rfl, if_pos h]

theorem inb_lba2 (h : s.selected = true) : d.bus.inb s (d.io + 5) = (s.lba2, s) := by
  change d.inb s (d.io + 5) = _
  rw [Drive.inb, if_neg (not_or.mpr ⟨register_ne_ctrl (by decide), register_ne (by decide)⟩),
    if_neg (register_ne (by decide)), if_pos rfl, if_pos h]

def Drive.Away (d : Drive) (p : Port) : Prop := p ≠ d.ctrl ∧ 8 ≤ (p - d.io).toNat

theorem Drive.Away.ne_register (h : d.Away p) {k : Port} (hk : k.toNat < 8) : p ≠ d.io + k := by
  have hp := h.2
  bv_omega

theorem inb_away (h : d.Away p) : d.bus.inb s p = (d.floating, s) := by
  change d.inb s p = _
  rw [Drive.inb, if_neg (not_or.mpr ⟨h.1, h.ne_register (by decide)⟩),
    if_neg (h.ne_register (by decide)), if_neg (h.ne_register (by decide)),
    if_neg (Nat.not_lt.mpr h.2)]

theorem outb_away (h : d.Away p) : d.bus.outb s p v = s := by
  change d.outb s p v = _
  rw [Drive.outb, if_neg (h.ne_register (by decide)), if_neg (h.ne_register (by decide)),
    if_neg (h.ne_register (by decide)), if_neg (not_and_of_not_left _ (h.ne_register (by decide))),
    ite_self]

@[simp] theorem outb_select : d.bus.outb s (d.io + 6) v =
    { s with selected := v.getLsbD 4 == d.slave } := if_pos rfl

/-- A drive that is busy, and a drive that is not the one selected, ignore a command. -/
theorem outb_unselected (hsel : s.selected = false) : d.bus.outb s (d.io + 7) v = s := by
  change d.outb s (d.io + 7) v = _
  rw [Drive.outb, if_neg (register_ne (by decide)), if_neg (by simp [hsel]),
    if_neg (register_ne (by decide)), if_neg (register_ne (by decide)), if_neg (by simp [hsel])]

section Listening

variable (h : s.selected = false ∨ s.busy = 0)
include h

theorem listening : ¬(s.selected = true ∧ s.busy ≠ 0) := by
  rcases h with h | h <;> simp [h]

theorem outb_lba1 : d.bus.outb s (d.io + 4) v = { s with lba1 := v } := by
  change d.outb s (d.io + 4) v = _
  rw [Drive.outb, if_neg (register_ne (by decide)), if_neg (listening h), if_pos rfl]

theorem outb_lba2 : d.bus.outb s (d.io + 5) v = { s with lba2 := v } := by
  change d.outb s (d.io + 5) v = _
  rw [Drive.outb, if_neg (register_ne (by decide)), if_neg (listening h),
    if_neg (register_ne (by decide)), if_pos rfl]

end Listening

theorem outb_command (hsel : s.selected = true) (hbusy : s.busy = 0) :
    d.bus.outb s (d.io + 7) v = d.command s v := by
  change d.outb s (d.io + 7) v = _
  rw [Drive.outb, if_neg (register_ne (by decide)), if_neg (listening (.inr hbusy)),
    if_neg (register_ne (by decide)), if_neg (register_ne (by decide)), if_pos ⟨rfl, hsel⟩]

/-- The registers below the two that are kept take no notice of what is written to them. -/
theorem outb_other {k : Port} (hk : k.toNat < 4) : d.bus.outb s (d.io + k) v = s := by
  change d.outb s _ v = _
  rw [Drive.outb, if_neg (register_ne (by bv_omega)), if_neg (register_ne (by bv_omega)),
    if_neg (register_ne (by bv_omega)),
    if_neg (not_and_of_not_left _ (register_ne (by bv_omega))), ite_self]

/-! ## Waiting, a packet, a block -/

/-- A selected drive that is not busy for too long gets to its answer. -/
theorem poll_settles {verdict : Byte → Option Bool} {r : Bool} (hsel : s.selected = true)
    (hbusy : s.busy < n) (hwait : verdict 0x80 = none) (hend : verdict s.phase.status = some r) :
    poll d.bus verdict (d.io + 7) n s = (r, { s with busy := 0 }) := by
  have h := @poll_eq _ d.bus verdict (d.io + 7) n r
    (fun i => { s with busy := s.busy - i }) s.busy hbusy
    (fun i hi => by
      refine ⟨?_, ?_⟩
      · rw [inb_status]
        change verdict (State.status _) = none
        rw [State.status, if_pos hsel, if_neg (Nat.sub_ne_zero_of_lt hi)]
        exact hwait
      · rw [inb_status]
        exact congrArg (fun b => { s with busy := b }) (Nat.sub_sub _ _ _))
    (by
      rw [inb_status]
      change verdict (State.status _) = some r
      rw [State.status, if_pos hsel, if_pos (Nat.sub_self _)]
      exact hend)
  rw [inb_status] at h
  simpa [State.readStatus] using h

/-- The words of the data phase, and the drive after them. -/
theorem readWords_data {ws : List Half} (hws : ws ≠ []) (hsel : s.selected = true)
    (hbusy : s.busy = 0) (hphase : s.phase = .data ws) :
    readWords d.bus d.io ws.length s = (ws, d.enter s .idle) := by
  induction ws generalizing s with
  | nil => exact absurd rfl hws
  | cons w rest ih =>
      have hinw : d.bus.inw s d.io =
          (w, if rest = [] then d.enter s .idle else { s with phase := .data rest }) := by
        change d.inw s d.io = _
        rw [Drive.inw, if_pos ⟨rfl, hsel, hbusy⟩, hphase]
      rw [List.length_cons, readWords, hinw]
      by_cases hrest : rest = []
      · subst hrest
        rfl
      · dsimp only
        rw [if_neg hrest, @ih { s with phase := .data rest } hrest hsel hbusy rfl]
        rfl

theorem writeWords_packet {got ws : List Half} (hlen : got.length + ws.length = 6) (hws : ws ≠ [])
    (hsel : s.selected = true) (hbusy : s.busy = 0) (hphase : s.phase = .packet got) :
    writeWords d.bus d.io ws s = d.execute { s with phase := .packet (got ++ ws.dropLast) }
      (got ++ ws) := by
  induction ws generalizing s got with
  | nil => exact absurd rfl hws
  | cons w rest ih =>
      have houtw : d.bus.outw s d.io w =
          if got.length = 5 then d.execute s (got ++ [w])
          else { s with phase := .packet (got ++ [w]) } := by
        change d.outw s d.io w = _
        rw [Drive.outw, if_pos ⟨rfl, hsel, hbusy⟩, hphase]
      rw [List.length_cons] at hlen
      rw [writeWords, List.foldl_cons, houtw]
      by_cases hrest : rest = []
      · subst hrest
        rw [if_pos (by simpa using hlen)]
        simp [hphase.symm]
      · have hpos := List.length_pos_iff.mpr hrest
        rw [if_neg (by omega)]
        have h := @ih { s with phase := .packet (got ++ [w]) } (got ++ [w])
          (by rw [List.length_append, List.length_singleton]; omega) hrest hsel hbusy rfl
        rw [writeWords] at h
        rw [h, List.append_assoc, List.append_assoc]
        rw [List.dropLast_cons_of_ne_nil hrest]
        rfl

end SlopOS.Support.PacketDrive
