import SlopOS.Support.PortBus
/-!
# Two cascaded interrupt controllers

Eight lines each, with a command and a data port.  A controller is programmed by four words, and
then takes masks and acknowledgements; a line is delivered when it is not masked and no line of at
least its priority is in service.
-/

namespace SlopOS.Support.InterruptController

open SlopOS.Support.PortBus

abbrev Byte := BitVec 8

/-- Which word of the programming sequence the data port takes next. -/
inductive Expects
  | mask
  | base | cascade | mode
deriving DecidableEq

structure Pic where
  expects : Expects
  base : Byte
  mask : Byte
  inService : Byte
deriving DecidableEq

def Pic.command (c : Pic) (v : Byte) : Pic :=
  if v.getLsbD 4 then { c with expects := .base, mask := 0, inService := 0 }
  -- the highest priority in service is the lowest bit
  else if v = 0x20 then { c with inService := c.inService &&& (c.inService - 1) }
  else c

def Pic.data (c : Pic) (v : Byte) : Pic :=
  match c.expects with
  | .mask => { c with mask := v }
  | .base => { c with base := v &&& 0xF8, expects := .cascade }
  | .cascade => { c with expects := .mode }
  | .mode => { c with expects := .mask }

structure Pair where
  first : Pic
  second : Pic
deriving DecidableEq

structure Ports where
  command1 : Port
  data1 : Port
  command2 : Port
  data2 : Port
  apart : [command1, data1, command2, data2].Nodup

def Ports.bus (ps : Ports) : Bus Pair where
  inb s p := (if p = ps.data1 then s.first.mask else if p = ps.data2 then s.second.mask else 0, s)
  inw s _ := (0, s)
  outb s p v :=
    if p = ps.command1 then { s with first := s.first.command v }
    else if p = ps.data1 then { s with first := s.first.data v }
    else if p = ps.command2 then { s with second := s.second.command v }
    else if p = ps.data2 then { s with second := s.second.data v }
    else s
  outw s _ _ := s

/-- Line `n` of one controller reaches the processor. -/
def Pic.Delivers (c : Pic) (n : Nat) : Prop :=
  c.expects = .mask ∧ c.mask.getLsbD n = false ∧ ∀ k ≤ n, c.inService.getLsbD k = false

instance (c : Pic) (n : Nat) : Decidable (c.Delivers n) := inferInstanceAs (Decidable (_ ∧ _))

/-- Line `n` of the pair; the lines of the second controller come in at line 2 of the first. -/
def Pair.Delivers (s : Pair) (n : Nat) : Prop :=
  n < 8 ∧ s.first.Delivers n ∨ 8 ≤ n ∧ s.first.Delivers 2 ∧ s.second.Delivers (n - 8)

instance (s : Pair) (n : Nat) : Decidable (s.Delivers n) := inferInstanceAs (Decidable (_ ∨ _))

def Pair.vector (s : Pair) (n : Nat) : Byte :=
  if n < 8 then s.first.base + BitVec.ofNat 8 n else s.second.base + BitVec.ofNat 8 (n - 8)

def Pic.serve (c : Pic) (n : Nat) : Pic := { c with inService := c.inService ||| BitVec.twoPow 8 n }

def Pair.serve (s : Pair) (n : Nat) : Pair :=
  if n < 8 then { s with first := s.first.serve n }
  else { first := s.first.serve 2, second := s.second.serve (n - 8) }

end SlopOS.Support.InterruptController
