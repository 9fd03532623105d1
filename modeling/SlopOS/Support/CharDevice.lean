import SlopOS.Support.PortBus
/-!
# A device that takes and hands over single bytes

A data port and a status port.  One bit of the status tells whether a byte is waiting, another
whether the device can take one; after a byte it is busy for a number of status reads.
-/

namespace SlopOS.Support.CharDevice

open SlopOS.Support.PortBus

abbrev Byte := BitVec 8

structure Device where
  data : Port
  status : Port
  waitingBit : Byte
  idleBit : Byte
  delay : Nat → Nat
  apart : data ≠ status
  bits_apart : waitingBit &&& idleBit = 0
  waiting_pos : waitingBit ≠ 0

structure State where
  waiting : List Byte
  sent : List Byte
  busy : Nat

namespace Device

variable (d : Device)

def statusOf (s : State) : Byte :=
  (if s.waiting = [] then 0 else d.waitingBit) ||| if s.busy = 0 then d.idleBit else 0

def readStatus (s : State) : Byte × State := (d.statusOf s, { s with busy := s.busy - 1 })

/-- A byte for a busy device is lost. -/
def bus : Bus State where
  inb s p :=
    if p = d.status then d.readStatus s
    else if p = d.data then (s.waiting.headD 0, { s with waiting := s.waiting.tail })
    else (0, s)
  inw s _ := (0, s)
  outb s p v :=
    if p = d.data ∧ s.busy = 0 then
      { s with sent := s.sent ++ [v], busy := d.delay s.sent.length }
    else s
  outw s _ _ := s

end Device

variable {d : Device} {s : State} {c v : Byte}

@[simp] theorem inb_status : d.bus.inb s d.status = d.readStatus s := if_pos rfl

@[simp] theorem inb_data :
    d.bus.inb s d.data = (s.waiting.headD 0, { s with waiting := s.waiting.tail }) :=
  (if_neg d.apart).trans (if_pos rfl)

theorem outb_data (h : s.busy = 0) : d.bus.outb s d.data v =
    { s with sent := s.sent ++ [v], busy := d.delay s.sent.length } := if_pos ⟨rfl, h⟩

theorem status_waiting : d.statusOf s &&& d.waitingBit = 0 ↔ s.waiting = [] := by
  have hbusy : (if s.busy = 0 then d.idleBit else 0) &&& d.waitingBit = 0 := by
    split
    · exact (BitVec.and_comm _ _).trans d.bits_apart
    · exact BitVec.zero_and
  rw [Device.statusOf, BitVec.and_or_distrib_right, hbusy,
    show ∀ x : Byte, x ||| 0 = x from fun _ => BitVec.or_zero]
  by_cases h : s.waiting = []
  · rw [if_pos h]
    exact iff_of_true BitVec.zero_and h
  · rw [if_neg h, BitVec.and_self]
    exact iff_of_false d.waiting_pos h

theorem status_idle (hbit : d.idleBit ≠ 0) : d.statusOf s &&& d.idleBit = 0 ↔ s.busy ≠ 0 := by
  have hwaiting : (if s.waiting = [] then 0 else d.waitingBit) &&& d.idleBit = 0 := by
    split
    · exact BitVec.zero_and
    · exact d.bits_apart
  rw [Device.statusOf, BitVec.and_or_distrib_right, hwaiting,
    show ∀ x : Byte, 0 ||| x = x from fun _ => BitVec.zero_or]
  by_cases h : s.busy = 0
  · rw [if_pos h, BitVec.and_self]
    exact iff_of_false hbit (not_not.mpr h)
  · rw [if_neg h]
    exact iff_of_true BitVec.zero_and h

/-- A device that is busy for fewer than `n` status reads is waited for. -/
theorem poll_idle {verdict : Byte → Option Bool} {n : Nat} (hbit : d.idleBit ≠ 0)
    (hverdict : ∀ v, verdict v = if v &&& d.idleBit = 0 then none else some true)
    (hbusy : s.busy < n) :
    poll d.bus verdict d.status n s = (true, { s with busy := 0 }) := by
  have h := @poll_eq _ d.bus verdict d.status n true (fun i => { s with busy := s.busy - i }) s.busy
    hbusy
    (fun i hi => by
      refine ⟨?_, ?_⟩
      · rw [inb_status, hverdict]
        exact if_pos ((status_idle hbit).mpr (Nat.sub_ne_zero_of_lt hi))
      · rw [inb_status]
        exact congrArg (fun b => { s with busy := b }) (Nat.sub_sub _ _ _))
    (by
      rw [inb_status, hverdict]
      exact if_neg fun hzero => (status_idle hbit).mp hzero (Nat.sub_self _))
  rw [inb_status] at h
  simpa [Device.readStatus] using h

end SlopOS.Support.CharDevice
