import SlopOS.Kernel.Task
import SlopOS.Support.PortBus
/-!
# `interrupts.c`

The interrupt table, the two interrupt controllers and the keyboard.  A function that reads or
writes ports takes the device behind them.
-/

namespace SlopOS.Kernel

open SlopOS.Support SlopOS.Support.PortBus

def idtEntries : Nat := 256
def pic1Command : U16 := 0x20
def pic1Data : U16 := 0x21
def pic2Command : U16 := 0xA0
def pic2Data : U16 := 0xA1
def picEoi : U8 := 0x20
def irqBase : Nat := 0x20
def keyboardQueueSize : U32 := 64

structure IdtEntry where
  offsetLow : U16
  selector : U16
  zero : U8
  typeAttr : U8
  offsetHigh : U16
deriving Repr, DecidableEq

/-- The routines of `irq_stubs.asm` and `syscall_stubs.asm` that the table points to. -/
inductive Stub
  | irq0 | irq1 | irqDefault | syscall | ex6 | ex13 | ex14
deriving Repr, DecidableEq

/-- The vector that a stub pushes for `interrupt_dispatch`; `syscall_stub` goes elsewhere. -/
def Stub.pushes : Stub → Option U32
  | .irq0 => some 0x20
  | .irq1 => some 0x21
  | .irqDefault => some 0xFF
  | .syscall => none
  | .ex6 => some 0x06
  | .ex13 => some 0x0D
  | .ex14 => some 0x0E

/-- Whether a stub pushes a 0 where the processor puts an error code. -/
def Stub.pushesZero : Stub → Bool
  | .ex13 | .ex14 => false
  | _ => true

/-- The static variables of `interrupts.c`. -/
structure Interrupts where
  idt : U8 → IdtEntry
  tickCount : U32
  keyboardQueue : Nat → U8
  keyboardHead : U32
  keyboardTail : U32
  shiftDown : Bool
  codeSelector : U16

section Ports

variable {σ : Type} (bus : Bus σ)

def ioWait (s : σ) : σ := bus.outb s 0x80 0

def picSendEoi (irq : U8) (s : σ) : σ :=
  let s := if 8 ≤ irq then bus.outb s pic2Command picEoi else s
  bus.outb s pic1Command picEoi

/-- One `outb` of `pic_remap` and the pause after it. -/
def outbWait (s : σ) (port : U16) (v : U8) : σ := ioWait bus (bus.outb s port v)

def picRemap (s : σ) : σ :=
  let mask1 := bus.inb s pic1Data
  let mask2 := bus.inb mask1.2 pic2Data
  let s := outbWait bus mask2.2 pic1Command 0x11
  let s := outbWait bus s pic2Command 0x11
  let s := outbWait bus s pic1Data (BitVec.ofNat 8 irqBase)
  let s := outbWait bus s pic2Data (BitVec.ofNat 8 (irqBase + 8))
  let s := outbWait bus s pic1Data 4
  let s := outbWait bus s pic2Data 2
  let s := outbWait bus s pic1Data 0x01
  let s := outbWait bus s pic2Data 0x01
  let s := bus.outb s pic1Data mask1.1
  bus.outb s pic2Data mask2.1

def picSetMask (irq : U8) (masked : Bool) (s : σ) : σ :=
  let port := if irq < 8 then pic1Data else pic2Data
  let irq := if irq < 8 then irq else irq - 8
  let value := bus.inb s port
  let bit : U8 := 1 <<< irq.toNat
  bus.outb value.2 port (if masked then value.1 ||| bit else value.1 &&& ~~~bit)

end Ports

/-! ## The interrupt table -/

def idtGate (codeSelector : U16) (typeAttr : U8) (handler : U32) : IdtEntry where
  offsetLow := (handler &&& 0xFFFF).setWidth 16
  selector := codeSelector
  zero := 0
  typeAttr := typeAttr
  offsetHigh := ((handler >>> 16) &&& 0xFFFF).setWidth 16

def Interrupts.idtSetGate (i : Interrupts) (vector : U8) (handler : U32) : Interrupts :=
  { i with idt := Function.update i.idt vector (idtGate i.codeSelector 0x8E handler) }

def Interrupts.idtSetGateUser (i : Interrupts) (vector : U8) (handler : U32) : Interrupts :=
  { i with idt := Function.update i.idt vector (idtGate i.codeSelector 0xEE handler) }

/-- `idt_init` up to `idt_load`; `cs` is what the register holds. -/
def Interrupts.idtInit (i : Interrupts) (cs : U16) (stubs : Stub → U32) : Interrupts :=
  let i := { i with codeSelector := cs }
  let i := (List.range idtEntries).foldl
    (fun i n => i.idtSetGate (BitVec.ofNat 8 n) (stubs .irqDefault)) i
  let i := i.idtSetGate (BitVec.ofNat 8 (irqBase + 0)) (stubs .irq0)
  let i := i.idtSetGate (BitVec.ofNat 8 (irqBase + 1)) (stubs .irq1)
  let i := i.idtSetGate 6 (stubs .ex6)
  let i := i.idtSetGate 13 (stubs .ex13)
  let i := i.idtSetGate 14 (stubs .ex14)
  i.idtSetGateUser 0x80 (stubs .syscall)

/-- The lines that `interrupts_init` unmasks and masks, in its order. -/
def lineMasks : List (U8 × Bool) :=
  [(0, false), (1, true), (2, true), (3, true), (4, true), (5, true), (6, true), (7, true),
    (8, true), (9, true), (10, true), (11, true), (12, true), (13, true), (14, true), (15, true)]

/-- `interrupts_init`; the interrupt flag is left out. -/
def interruptsInit {σ : Type} (bus : Bus σ) (cs : U16) (stubs : Stub → U32) (i : Interrupts)
    (s : σ) : Interrupts × σ :=
  (i.idtInit cs stubs, lineMasks.foldl (fun s l => picSetMask bus l.1 l.2 s) (picRemap bus s))

/-! ## The keyboard -/

def Interrupts.keyboardQueuePush (i : Interrupts) (c : U8) : Interrupts :=
  let next := (i.keyboardHead + 1) % keyboardQueueSize
  if next = i.keyboardTail then i
  else
    { i with
      keyboardQueue := Function.update i.keyboardQueue i.keyboardHead.toNat c
      keyboardHead := next }

def normalKeys : List U8 :=
  [0, 27] ++ cstr "1234567890-=" ++ [8, 9] ++ cstr "qwertyuiop[]\n" ++ [0] ++
    cstr "asdfghjkl;'`" ++ [0] ++ cstr "\\zxcvbnm,./" ++ [0] ++ cstr "*" ++ [0] ++ cstr " "

def shiftedKeys : List U8 :=
  [0, 27] ++ cstr "!@#$%^&*()_+" ++ [8, 9] ++ cstr "QWERTYUIOP\x7b\x7d\n" ++ [0] ++
    cstr "ASDFGHJKL:\"~" ++ [0] ++ cstr "|ZXCVBNM<>?" ++ [0] ++ cstr "*" ++ [0] ++ cstr " "

/-- `decode_scancode`: the character or 0, and `shift_down`. -/
def decodeScancode (scancode : U8) (shiftDown : Bool) : U8 × Bool :=
  if scancode = 0x2A ∨ scancode = 0x36 then (0, true)
  else if scancode = 0xAA ∨ scancode = 0xB6 then (0, false)
  else if scancode &&& 0x80 ≠ 0 ∨ 128 ≤ scancode then (0, shiftDown)
  else ((if shiftDown then shiftedKeys else normalKeys).getD scancode.toNat 0, shiftDown)

section Keyboard

variable {σ : Type} (bus : Bus σ)

/-- `keyboard_try_read_char`: the character it puts in `*out`, and `shift_down`. -/
def keyboardTryReadChar (shiftDown : Bool) (s : σ) : (Option U8 × Bool) × σ :=
  let status := bus.inb s 0x64
  if status.1 &&& 0x01 = 0 then ((none, shiftDown), status.2)
  else
    let code := bus.inb status.2 0x60
    let r := decodeScancode code.1 shiftDown
    if r.1 = 0 ∨ r.1 = chr '\t' then ((none, r.2), code.2) else ((some r.1, r.2), code.2)

/-- `interrupt_dispatch`; `none` when the kernel panics. -/
def interruptDispatch (vector : U32) (i : Interrupts) (c : Core) (s : σ) :
    Option (Interrupts × Core × σ) :=
  if vector < 32 then none
  else if vector < BitVec.ofNat 32 irqBase ∨ BitVec.ofNat 32 irqBase + 16 ≤ vector then
    some (i, c, s)
  else
    let irq : U8 := (vector - BitVec.ofNat 32 irqBase).setWidth 8
    if irq = 0 then
      some ({ i with tickCount := i.tickCount + 1 }, schedulerOnTimerTick c, picSendEoi bus irq s)
    else if irq = 1 then
      let code := bus.inb s 0x60
      let r := decodeScancode code.1 i.shiftDown
      let i := { i with shiftDown := r.2 }
      some (if r.1 ≠ 0 ∧ r.1 ≠ chr '\t' then i.keyboardQueuePush r.1 else i, c,
        picSendEoi bus irq code.2)
    else some (i, c, picSendEoi bus irq s)

end Keyboard

end SlopOS.Kernel
