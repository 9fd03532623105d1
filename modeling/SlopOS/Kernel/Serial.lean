import SlopOS.Kernel.Types
import SlopOS.Support.PortBus
/-!
# `serial.c`

`ready` is `serial_ready`; the functions take the device behind the ports.
-/

namespace SlopOS.Kernel

open SlopOS.Support SlopOS.Support.PortBus

def com1Port : U16 := 0x3F8
def serialTxSpinMax : Nat := 100000

variable {σ : Type} (bus : Bus σ)

/-- `serial_init`, and `serial_ready` after it. -/
def serialInit (s : σ) : Bool × σ :=
  let s := bus.outb s (com1Port + 1) 0x00
  let s := bus.outb s (com1Port + 3) 0x80
  let s := bus.outb s (com1Port + 0) 0x03
  let s := bus.outb s (com1Port + 1) 0x00
  let s := bus.outb s (com1Port + 3) 0x03
  let s := bus.outb s (com1Port + 2) 0xC7
  (true, bus.outb s (com1Port + 4) 0x0B)

/-- `serial_transmit_empty`, as what a status says about the wait for it. -/
def serialTransmitEmpty (status : U8) : Option Bool :=
  if status &&& 0x20 = 0 then none else some true

def serialDataReady (s : σ) : Bool × σ :=
  let status := bus.inb s (com1Port + 5)
  (decide (status.1 &&& 0x01 ≠ 0), status.2)

/-- The end of `serial_putchar`: the wait, and the character unless it ran out. -/
def serialTransmit (c : U8) (s : σ) : σ :=
  let empty := poll bus serialTransmitEmpty (com1Port + 5) serialTxSpinMax s
  if empty.1 then bus.outb empty.2 com1Port c else empty.2

def serialPutchar (ready : Bool) (c : U8) (s : σ) : σ :=
  if ready = false then s
  else
    let s := if c = chr '\n' then serialTransmit bus (chr '\r') s else s
    serialTransmit bus c s

def serialPrint (ready : Bool) : CStr → σ → σ
  | [], s => s
  | c :: text, s => serialPrint ready text (serialPutchar bus ready c s)

def serialTryReadChar (ready : Bool) (s : σ) : Option U8 × σ :=
  if ready = false then (none, s)
  else
    let r := serialDataReady bus s
    if r.1 = false then (none, r.2)
    else
      let c := bus.inb r.2 com1Port
      (some c.1, c.2)

end SlopOS.Kernel
