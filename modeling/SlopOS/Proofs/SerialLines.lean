import SlopOS.Kernel.Serial
import SlopOS.Support.CharDevice
/-!
# The serial line

What `serial_print` writes, whatever device is there, and what arrives when the device keeps up.
-/

namespace SlopOS.Proofs.SerialLines

open SlopOS.Kernel SlopOS.Support.PortBus SlopOS.Support.CharDevice

def crlf (text : CStr) : CStr :=
  text.flatMap fun c => if c = chr '\n' then [chr '\r', chr '\n'] else [c]

def uncrlf : CStr → CStr
  | c :: d :: text =>
    if c = chr '\r' ∧ d = chr '\n' then d :: uncrlf text else c :: uncrlf (d :: text)
  | text => text

theorem crlf_cons (c : U8) (text : CStr) :
    crlf (c :: text) = (if c = chr '\n' then [chr '\r', chr '\n'] else [c]) ++ crlf text :=
  List.flatMap_cons

theorem crlf_append (a b : CStr) : crlf (a ++ b) = crlf a ++ crlf b := List.flatMap_append

theorem head_crlf_ne (text : CStr) : ∀ c ∈ (crlf text).head?, c ≠ chr '\n' := by
  cases text with
  | nil => exact fun c hc => absurd hc (by simp [crlf])
  | cons d text =>
      intro c hc
      rw [crlf_cons] at hc
      by_cases hd : d = chr '\n'
      · rw [if_pos hd] at hc
        obtain rfl : chr '\r' = c := by simpa using hc
        decide
      · rw [if_neg hd] at hc
        obtain rfl : d = c := by simpa using hc
        exact hd

theorem uncrlf_cons {c : U8} {text : CStr} (h : c ≠ chr '\r' ∨ ∀ d ∈ text.head?, d ≠ chr '\n') :
    uncrlf (c :: text) = c :: uncrlf text := by
  cases text with
  | nil => rfl
  | cons d text =>
      rw [uncrlf, if_neg]
      rintro ⟨hc, hd⟩
      rcases h with h | h
      · exact h hc
      · exact h d rfl hd

theorem uncrlf_crlf (text : CStr) : uncrlf (crlf text) = text := by
  induction text with
  | nil => rfl
  | cons c text ih =>
      rw [crlf_cons]
      by_cases hc : c = chr '\n'
      · rw [if_pos hc, hc]
        change uncrlf (chr '\r' :: chr '\n' :: crlf text) = _
        rw [uncrlf, if_pos ⟨rfl, rfl⟩, ih]
      · rw [if_neg hc]
        exact (uncrlf_cons (.inr (head_crlf_ne text))).trans (congrArg (c :: ·) ih)

/-! ## Any device -/

variable {σ : Type} {bus : Bus σ}

def isWrite : Access → Bool
  | .outb _ _ => true
  | .outw _ _ => true
  | _ => false

/-- The accesses that change something. -/
def writes (l : σ × List Access) : List Access := l.2.filter isWrite

theorem writes_poll {verdict : U8 → Option Bool} {p : Port} {n : Nat} {l : σ × List Access} :
    writes (poll bus.logged verdict p n l).2 = writes l := by
  induction n generalizing l with
  | zero => rfl
  | succ n ih =>
      have hinb : writes (bus.logged.inb l p).2 = writes l := by
        simp [writes, Bus.logged, isWrite]
      rw [poll]
      split
      · exact hinb
      · exact ih.trans hinb

theorem writes_transmit (bus : Bus σ) (c : U8) (l : σ × List Access) :
    ∃ sent : CStr, writes (serialTransmit bus.logged c l) = writes l ++ sent.map (.outb com1Port) ∧
      sent.Sublist [c] := by
  rw [serialTransmit]
  split
  · refine ⟨[c], ?_, List.Sublist.refl _⟩
    exact (List.filter_append _ _).trans (congrArg (· ++ _) writes_poll)
  · exact ⟨[], writes_poll.trans (List.append_nil _).symm, List.nil_sublist _⟩

theorem writes_putchar (bus : Bus σ) (c : U8) (l : σ × List Access) :
    ∃ sent : CStr, writes (serialPutchar bus.logged true c l) = writes l ++ sent.map (.outb com1Port) ∧
      sent.Sublist (crlf [c]) := by
  rw [serialPutchar, if_neg Bool.noConfusion, crlf_cons, crlf, List.flatMap_nil, List.append_nil]
  by_cases hc : c = chr '\n'
  · rw [if_pos hc, if_pos hc, hc]
    obtain ⟨first, hfirst, hsub⟩ := writes_transmit bus (chr '\r') l
    obtain ⟨second, hsecond, hsub'⟩ := writes_transmit bus (chr '\n')
      (serialTransmit bus.logged (chr '\r') l)
    refine ⟨first ++ second, ?_, hsub.append hsub'⟩
    rw [hsecond, hfirst, List.append_assoc, List.map_append]
  · rw [if_neg hc, if_neg hc]
    exact writes_transmit bus c l

/-- Whatever the device answers, and however long it makes the driver wait, the driver writes to the
data port only, and only the text, in order and with nothing twice. -/
theorem writes_print (bus : Bus σ) (text : CStr) (l : σ × List Access) :
    ∃ sent : CStr, writes (serialPrint bus.logged true text l) = writes l ++ sent.map (.outb com1Port) ∧
      sent.Sublist (crlf text) := by
  induction text generalizing l with
  | nil => exact ⟨[], (List.append_nil _).symm, List.nil_sublist _⟩
  | cons c text ih =>
      obtain ⟨first, hfirst, hsub⟩ := writes_putchar bus c l
      obtain ⟨rest, hrest, hsub'⟩ := ih (serialPutchar bus.logged true c l)
      refine ⟨first ++ rest, ?_, ?_⟩
      · rw [serialPrint, hrest, hfirst, List.append_assoc, List.map_append]
      · rw [show c :: text = [c] ++ text from rfl, crlf_append]
        exact hsub.append hsub'

/-! ## A device that keeps up -/

/-- A UART at the first serial port, never busy for as long as the driver waits. -/
structure Uart where
  device : Device
  data : device.data = com1Port
  status : device.status = com1Port + 5
  idle : device.idleBit = 0x20
  waiting : device.waitingBit = 0x01
  punctual : ∀ k, device.delay k < serialTxSpinMax

variable (u : Uart) {s : State}

theorem Uart.transmit (hbusy : s.busy < serialTxSpinMax) (c : U8) :
    serialTransmit u.device.bus c s =
      { s with sent := s.sent ++ [c], busy := u.device.delay s.sent.length } := by
  have hpoll : poll u.device.bus serialTransmitEmpty (com1Port + 5) serialTxSpinMax s =
      (true, { s with busy := 0 }) := by
    rw [← u.status]
    refine poll_idle (by rw [u.idle]; decide) (fun v => ?_) hbusy
    rw [u.idle]
    rfl
  rw [serialTransmit, hpoll]
  dsimp only
  rw [if_pos rfl, ← u.data]
  exact outb_data rfl

structure Sent (u : Uart) (s s' : State) (text : CStr) : Prop where
  sent : s'.sent = s.sent ++ crlf text
  waiting : s'.waiting = s.waiting
  busy : s'.busy < serialTxSpinMax

theorem Uart.putchar (hbusy : s.busy < serialTxSpinMax) (c : U8) :
    Sent u s (serialPutchar u.device.bus true c s) [c] := by
  rw [serialPutchar, if_neg Bool.noConfusion]
  by_cases hc : c = chr '\n'
  · rw [if_pos hc, u.transmit hbusy, u.transmit (u.punctual _), hc]
    exact ⟨List.append_assoc _ _ _, rfl, u.punctual _⟩
  · rw [if_neg hc, u.transmit hbusy]
    refine ⟨?_, rfl, u.punctual _⟩
    rw [crlf_cons, if_neg hc]
    rfl

theorem Uart.print (text : CStr) (hbusy : s.busy < serialTxSpinMax) :
    Sent u s (serialPrint u.device.bus true text s) text := by
  induction text generalizing s with
  | nil => exact ⟨(List.append_nil _).symm, rfl, hbusy⟩
  | cons c text ih =>
      have hchar := u.putchar hbusy c
      have hrest := ih hchar.busy
      refine ⟨?_, hrest.waiting.trans hchar.waiting, hrest.busy⟩
      rw [serialPrint, hrest.sent, hchar.sent, show c :: text = [c] ++ text from rfl,
        crlf_append, List.append_assoc]

/-! ## Its registers -/

/-- The UART with the registers that `serial_init` writes.  While `latch` is set, the data port
leads to the divisor. -/
structure Line where
  chars : State
  latch : Bool
  divisor : U8

def Uart.ports : Bus Line where
  inb s p :=
    if s.latch = true ∧ p = com1Port then (s.divisor, s)
    else ((u.device.bus.inb s.chars p).1, { s with chars := (u.device.bus.inb s.chars p).2 })
  inw s _ := (0, s)
  outb s p v :=
    if p = com1Port + 3 then { s with latch := v.getLsbD 7 }
    -- bit 1 of the FIFO control empties the receiver
    else if p = com1Port + 2 ∧ v.getLsbD 1 = true then
      { s with chars := { s.chars with waiting := [] } }
    else if s.latch = true ∧ p = com1Port then { s with divisor := v }
    else { s with chars := u.device.bus.outb s.chars p v }
  outw s _ _ := s

def AtLine (p : Port) : Prop := p = com1Port ∨ p = com1Port + 5

theorem Uart.carries (divisor : U8) :
    u.device.bus.Carries u.ports (fun s => ⟨s, false, divisor⟩) AtLine where
  inb s p _ := by
    rw [Uart.ports]
    dsimp only
    rw [if_neg fun h => Bool.noConfusion h.1]
  outb s p v hp := by
    have hne : p ≠ com1Port + 3 ∧ p ≠ com1Port + 2 := by
      rcases hp with rfl | rfl <;> decide
    rw [Uart.ports]
    dsimp only
    rw [if_neg hne.1, if_neg fun h => hne.2 h.1, if_neg fun h => Bool.noConfusion h.1]

theorem Uart.print_carried (divisor : U8) (text : CStr) :
    serialPrint u.ports true text ⟨s, false, divisor⟩ =
      ⟨serialPrint u.device.bus true text s, false, divisor⟩ := by
  have hcarries := u.carries divisor
  have htransmit (c : U8) (s : State) : serialTransmit u.ports c ⟨s, false, divisor⟩ =
      ⟨serialTransmit u.device.bus c s, false, divisor⟩ := by
    rw [serialTransmit, serialTransmit, hcarries.poll (.inr rfl)]
    dsimp only
    split
    · exact hcarries.outb _ _ _ (.inl rfl)
    · rfl
  have hputchar (c : U8) (s : State) : serialPutchar u.ports true c ⟨s, false, divisor⟩ =
      ⟨serialPutchar u.device.bus true c s, false, divisor⟩ := by
    unfold serialPutchar
    rw [if_neg Bool.noConfusion]
    split
    · rw [htransmit, htransmit]
      rfl
    · exact htransmit c s
  induction text generalizing s with
  | nil => rfl
  | cons c text ih =>
      rw [serialPrint, hputchar, ih]
      rfl

/-- `serial_init` sets the divisor and leaves the data port to the data. -/
theorem Uart.init (l : Line) : serialInit u.ports l =
    (true, ⟨{ l.chars with waiting := [] }, false, 3⟩) := by
  have hother (p : Port) (v : U8) (l : Line) (hp : p = com1Port + 1 ∨ p = com1Port + 4) :
      u.ports.outb l p v = l := by
    have hne : p ≠ com1Port + 3 ∧ p ≠ com1Port + 2 ∧ p ≠ com1Port := by
      rcases hp with rfl | rfl <;> decide
    rw [Uart.ports]
    dsimp only
    rw [if_neg hne.1, if_neg fun h => hne.2.1 h.1, if_neg fun h => hne.2.2 h.2]
    have hdata : u.device.bus.outb l.chars p v = l.chars :=
      if_neg fun h => hne.2.2 (h.1.trans u.data)
    rw [hdata]
  rw [serialInit]
  dsimp only
  rw [hother _ _ _ (.inr rfl), hother _ _ _ (.inl rfl), hother _ _ _ (.inl rfl)]
  rfl

/-- Over a line that keeps up, every text that is printed after `serial_init` arrives: the other
end has it back from what was sent. -/
theorem print_arrives (u : Uart) (text : CStr) (l : Line)
    (hbusy : l.chars.busy < serialTxSpinMax) :
    let start := serialInit u.ports l
    let sent := serialPrint u.ports start.1 text start.2
    Sent u start.2.chars sent.chars text ∧
      uncrlf (sent.chars.sent.drop l.chars.sent.length) = text := by
  intro start sent
  have hstart : start = (true, ⟨{ l.chars with waiting := [] }, false, 3⟩) := u.init l
  have hprint : Sent u start.2.chars sent.chars text := by
    dsimp only [sent]
    rw [hstart]
    dsimp only
    rw [u.print_carried]
    exact u.print text hbusy
  refine ⟨hprint, ?_⟩
  rw [hprint.sent, hstart]
  dsimp only
  rw [List.drop_left, uncrlf_crlf]

def demoUart : Uart where
  device :=
    { data := com1Port, status := com1Port + 5, waitingBit := 0x01, idleBit := 0x20
      delay := fun _ => 10, apart := by decide, bits_apart := by decide, waiting_pos := by decide }
  data := rfl
  status := rfl
  idle := rfl
  waiting := rfl
  punctual _ := (by decide : 10 < serialTxSpinMax)

/-- The divisor is open and a byte is waiting when `serial_init` begins. -/
def demoLine : Line := ⟨⟨[chr 'x'], [], 3⟩, true, 12⟩

theorem print_arrives_demo :
    (serialPrint demoUart.ports (serialInit demoUart.ports demoLine).1 (cstr "a\nb")
        (serialInit demoUart.ports demoLine).2).chars.sent =
      [chr 'a', chr '\r', chr '\n', chr 'b'] := by
  obtain ⟨hsent, -⟩ := print_arrives demoUart (cstr "a\nb") demoLine (by decide)
  have hstart : (serialInit demoUart.ports demoLine).2.chars.sent = [] :=
    congrArg (fun r => r.2.chars.sent) (demoUart.init demoLine)
  rw [hsent.sent, hstart]
  decide

end SlopOS.Proofs.SerialLines
