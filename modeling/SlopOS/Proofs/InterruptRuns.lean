import SlopOS.Kernel.Interrupts
import SlopOS.Support.InterruptController
import SlopOS.Support.Runs
/-!
# Interrupts after `interrupts_init`

Whatever state the controllers were in, afterwards the timer is the only line that gets through, and
the system call the only gate that a program may use.
-/

namespace SlopOS.Proofs.InterruptRuns

open SlopOS.Kernel SlopOS.Support SlopOS.Support.PortBus SlopOS.Support.InterruptController

def picPorts : Ports := ⟨pic1Command, pic1Data, pic2Command, pic2Data, by decide⟩

/-! ## The controllers -/

/-- The state that `interrupts_init` leaves the controllers in. -/
def timerOnly : Pair := ⟨⟨.mask, 0x20, 0xFE, 0⟩, ⟨.mask, 0x28, 0xFF, 0⟩⟩

theorem picRemap_eq (s : Pair) : picRemap picPorts.bus s =
    ⟨⟨.mask, 0x20, s.first.mask, 0⟩, ⟨.mask, 0x28, s.second.mask, 0⟩⟩ := rfl

def withLine (m : U8) (l : Nat × Bool) : U8 :=
  if l.2 then m ||| (1 : U8) <<< l.1 else m &&& ~~~((1 : U8) <<< l.1)

theorem first_masks : ∀ m : U8, [(0, false), (1, true), (2, true), (3, true), (4, true), (5, true),
    (6, true), (7, true)].foldl withLine m = 0xFE := by
  decide

theorem second_masks : ∀ m : U8, [(0, true), (1, true), (2, true), (3, true), (4, true), (5, true),
    (6, true), (7, true)].foldl withLine m = 0xFF := by
  decide

theorem masks_eq (b1 b2 m1 m2 i1 i2 : U8) :
    lineMasks.foldl (fun s l => picSetMask picPorts.bus l.1 l.2 s)
        ⟨⟨.mask, b1, m1, i1⟩, ⟨.mask, b2, m2, i2⟩⟩ =
      ⟨⟨.mask, b1, 0xFE, i1⟩, ⟨.mask, b2, 0xFF, i2⟩⟩ := by
  rw [← first_masks m1, ← second_masks m2]
  rfl

theorem interruptsInit_pic (cs : U16) (stubs : Stub → U32) (i : Interrupts) (s : Pair) :
    interruptsInit picPorts.bus cs stubs i s = (i.idtInit cs stubs, timerOnly) := by
  rw [interruptsInit, picRemap_eq, masks_eq]
  rfl

theorem timerOnly_delivers : ∀ n : Fin 16, timerOnly.Delivers n.val ↔ n = 0 := by
  decide

/-! ## The table -/

def gateOffset (e : IdtEntry) : U32 := e.offsetHigh ++ e.offsetLow

def gatePresent (e : IdtEntry) : Bool := e.typeAttr.getLsbD 7

def gateLevel (e : IdtEntry) : BitVec 2 := e.typeAttr.extractLsb' 5 2

def gateType (e : IdtEntry) : BitVec 4 := e.typeAttr.extractLsb' 0 4

theorem gateOffset_idtGate (cs : U16) (attr : U8) (handler : U32) :
    gateOffset (idtGate cs attr handler) = handler := by
  have hhigh : (((handler >>> 16) &&& 0xFFFF).setWidth 16 : U16) = handler.extractLsb' 16 16 :=
    field_of_shift (w := 16) (by decide) handler 16
  have hlow : ((handler &&& 0xFFFF).setWidth 16 : U16) = handler.extractLsb' 0 16 :=
    field_of_shift (w := 16) (by decide) handler 0
  rw [gateOffset, idtGate, hhigh, hlow]
  exact @BitVec.extractLsb'_append_extractLsb' 16 16 handler

def stubOf (vector : U8) : Stub :=
  if vector = 0x80 then .syscall
  else if vector = 14 then .ex14
  else if vector = 13 then .ex13
  else if vector = 6 then .ex6
  else if vector = 0x21 then .irq1
  else if vector = 0x20 then .irq0
  else .irqDefault

theorem foldl_idtSetGate (ns : List Nat) (handler : U32) (i : Interrupts) :
    (ns.foldl (fun i n => i.idtSetGate (BitVec.ofNat 8 n) handler) i) =
      { i with idt := fun v => if v ∈ ns.map (BitVec.ofNat 8) then
                                 idtGate i.codeSelector 0x8E handler
                               else i.idt v } := by
  induction ns generalizing i with
  | nil => simp
  | cons n ns ih =>
      rw [List.foldl_cons, ih]
      refine congrArg (fun f => { i with idt := f }) (funext fun v => ?_)
      simp only [List.map_cons, List.mem_cons, Interrupts.idtSetGate]
      by_cases hrest : v ∈ ns.map (BitVec.ofNat 8)
      · rw [if_pos hrest, if_pos (.inr hrest)]
      · rw [if_neg hrest]
        by_cases hv : v = BitVec.ofNat 8 n
        · rw [if_pos (.inl hv), hv, Function.update_self]
        · rw [if_neg (not_or.mpr ⟨hv, hrest⟩), Function.update_of_ne hv]

/-- Every vector has a gate, and its handler is the stub meant for it. -/
theorem idt_idtInit (cs : U16) (stubs : Stub → U32) (i : Interrupts) (vector : U8) :
    (i.idtInit cs stubs).idt vector =
      idtGate cs (if vector = 0x80 then 0xEE else 0x8E) (stubs (stubOf vector)) := by
  have hmem : vector ∈ (List.range idtEntries).map (BitVec.ofNat 8) :=
    List.mem_map.mpr ⟨vector.toNat, List.mem_range.mpr vector.isLt, by
      rw [BitVec.ofNat_toNat, BitVec.setWidth_eq]⟩
  rw [Interrupts.idtInit, foldl_idtSetGate]
  simp only [Interrupts.idtSetGateUser, Interrupts.idtSetGate, Function.update_apply, if_pos hmem,
    stubOf]
  by_cases h : vector = 0x80
  · simp only [if_pos h]
  · simp only [if_neg h, apply_ite stubs, apply_ite (idtGate cs 0x8E)]
    rfl

/-! ## Runs -/

/-- What the boot code fixes: the address of each stub, and `cs`. -/
structure Image where
  cs : U16
  stubs : Stub → U32
  apart : Function.Injective stubs

structure Board where
  ints : Interrupts
  core : Core
  pics : Pair

inductive Signal
  /-- a line of the controllers is raised while interrupts are enabled -/
  | line (n : Fin 16)
  /-- a program in Ring 3 executes `int v` -/
  | trap (v : U8)
  /-- the processor raises an exception -/
  | fault (v : Fin 32)

/-- The exceptions for which the processor pushes an error code. -/
def withErrorCode (v : Nat) : Bool := v ∈ [8, 10, 11, 12, 13, 14, 17, 21, 29, 30]

def Image.enters (im : Image) (e : IdtEntry) : Option Stub :=
  if gatePresent e = true ∧ gateType e = 0xE then
    [Stub.irq0, .irq1, .irqDefault, .syscall, .ex6, .ex13, .ex14].find?
      fun stub => gateOffset e = im.stubs stub
  else none

/-- A vector on its way to `interrupt_dispatch` and back; a system call is not followed further.
With an error code too many or too few on the stack `irq_common` returns to nowhere. -/
def Board.take (im : Image) (s : Board) (vector : U8) (errorCode : Bool) : Option Board :=
  match im.enters (s.ints.idt vector) with
  | none => none
  | some stub =>
    match stub.pushes with
    | none => some s
    | some v =>
      (interruptDispatch picPorts.bus v s.ints s.core s.pics).bind fun (ints, core, pics) =>
        if stub.pushesZero = errorCode then none else some ⟨ints, core, pics⟩

/-- A signal; `none` when the kernel panics or is lost.  A gate that a program may not use gives a
general protection fault, vector 13. -/
def signalStep (im : Image) (s : Board) : Signal → Option Board
  | .line n =>
    if s.pics.Delivers n then
      { s with pics := s.pics.serve n }.take im (s.pics.vector n) false
    else some s
  | .trap v => if gateLevel (s.ints.idt v) = 3 then s.take im v false else s.take im 13 true
  | .fault v => s.take im (BitVec.ofNat 8 v.val) (withErrorCode v.val)

def boardInit (im : Image) (ints : Interrupts) (core : Core) (pics : Pair) : Board :=
  let r := interruptsInit picPorts.bus im.cs im.stubs ints pics
  ⟨r.1, core, r.2⟩

/-- A program may only use the gate of the system calls; of the exceptions without an error code
only that of an invalid opcode has a stub of its own. -/
def Signal.allowed : Signal → Bool
  | .line _ => true
  | .trap v => v == 0x80
  | .fault v => v != 6 && !withErrorCode v

def Signal.isTimer : Signal → Bool
  | .line n => n == 0
  | .trap _ => false
  | .fault _ => false

/-- How often the timer's line was raised. -/
def timerSignals (es : List Signal) : Nat := es.countP Signal.isTimer

variable {im : Image} {s s' : Board}

def Tabled (im : Image) (i : Interrupts) : Prop :=
  ∀ v, i.idt v = idtGate im.cs (if v = 0x80 then 0xEE else 0x8E) (im.stubs (stubOf v))

theorem gateLevel_idtGate (cs : U16) (attr : U8) (handler : U32) :
    gateLevel (idtGate cs attr handler) = attr.extractLsb' 5 2 := rfl

theorem Tabled.level_iff {i : Interrupts} (h : Tabled im i) (v : U8) :
    gateLevel (i.idt v) = 3 ↔ v = 0x80 := by
  rw [h v, gateLevel_idtGate]
  split
  · rename_i hv
    exact iff_of_true (by decide) hv
  · rename_i hv
    exact iff_of_false (by decide) hv

theorem Tabled.enters {i : Interrupts} (h : Tabled im i) (v : U8) :
    im.enters (i.idt v) = some (stubOf v) := by
  have hgate (attr : U8) (hp : attr.getLsbD 7 = true) (ht : attr.extractLsb' 0 4 = (0xE : BitVec 4)) :
      im.enters (idtGate im.cs attr (im.stubs (stubOf v))) = some (stubOf v) := by
    rw [Image.enters, if_pos ⟨hp, ht⟩]
    simp only [gateOffset_idtGate, im.apart.eq_iff]
    cases stubOf v <;> rfl
  rw [h v]
  split
  · exact hgate 0xEE (by decide) (by decide)
  · exact hgate 0x8E (by decide) (by decide)

theorem Board.take_eq (h : Tabled im s.ints) (v : U8) (errorCode : Bool) :
    s.take im v errorCode = match (stubOf v).pushes with
      | none => some s
      | some vector =>
        (interruptDispatch picPorts.bus vector s.ints s.core s.pics).bind fun r =>
          if (stubOf v).pushesZero = errorCode then none else some ⟨r.1, r.2.1, r.2.2⟩ := by
  rw [Board.take, h.enters]

theorem dispatch_timer (i : Interrupts) (c : Core) (pics : Pair) :
    interruptDispatch picPorts.bus 0x20 i c pics =
      some ({ i with tickCount := i.tickCount + 1 }, schedulerOnTimerTick c,
        picSendEoi picPorts.bus 0 pics) := by
  rw [interruptDispatch, if_neg (by decide), if_neg (by decide)]
  exact if_pos (by decide)

theorem dispatch_exception {v : U32} (hv : v < 32) (i : Interrupts) (c : Core) (pics : Pair) :
    interruptDispatch picPorts.bus v i c pics = none := if_pos hv

theorem dispatch_default (i : Interrupts) (c : Core) (pics : Pair) :
    interruptDispatch picPorts.bus 0xFF i c pics = some (i, c, pics) := by
  rw [interruptDispatch, if_neg (by decide), if_pos (by decide)]

theorem eoi_timer : picSendEoi picPorts.bus 0 (timerOnly.serve 0) = timerOnly := by
  decide

/-- A tick: the counter, the scheduler, and the controller ready for the next. -/
def Board.tick (s : Board) : Board :=
  { s with
    ints := { s.ints with tickCount := s.ints.tickCount + 1 }
    core := schedulerOnTimerTick s.core }

theorem signalStep_line (htab : Tabled im s.ints) (hpics : s.pics = timerOnly) (n : Fin 16) :
    signalStep im s (.line n) = some (if n = 0 then s.tick else s) := by
  rw [signalStep, hpics]
  by_cases hn : n = 0
  · subst hn
    rw [if_pos (by decide), Board.take_eq (by exact htab), if_pos rfl,
      show timerOnly.vector (0 : Fin 16).val = 0x20 from by decide,
      show (stubOf 0x20).pushes = some 0x20 from by decide]
    dsimp only
    rw [dispatch_timer, Option.bind_some, Fin.val_zero, eoi_timer, ← hpics]
    rfl
  · rw [if_neg fun hdel => hn ((timerOnly_delivers n).mp hdel), if_neg hn]

theorem signalStep_trap (htab : Tabled im s.ints) (v : U8) :
    signalStep im s (.trap v) = if v = 0x80 then some s else none := by
  rw [signalStep]
  by_cases hv : v = 0x80
  · rw [if_pos ((htab.level_iff v).mpr hv), if_pos hv, hv, Board.take_eq htab]
    rfl
  · rw [if_neg fun hlevel => hv ((htab.level_iff v).mp hlevel), if_neg hv, Board.take_eq htab,
      show (stubOf 13).pushes = some 0x0D from by decide]
    dsimp only
    rw [dispatch_exception (by decide), Option.bind_none]

theorem stubOf_fault : ∀ v : Fin 32, v ≠ 6 → v ≠ 13 → v ≠ 14 →
    stubOf (BitVec.ofNat 8 v.val) = .irqDefault := by
  decide

/-- An exception is survived if the default stub takes it and finds no error code. -/
theorem signalStep_fault (htab : Tabled im s.ints) (v : Fin 32) :
    signalStep im s (.fault v) = if (Signal.fault v).allowed then some s else none := by
  rw [signalStep, Board.take_eq htab]
  by_cases hown : v = 6 ∨ v = 13 ∨ v = 14
  · rcases hown with rfl | rfl | rfl
    all_goals
      dsimp only [stubOf, Stub.pushes]
      rfl
  · rw [not_or, not_or] at hown
    obtain ⟨h6, h13, h14⟩ := hown
    have hallowed : (Signal.fault v).allowed = !withErrorCode v := by
      rw [Signal.allowed, bne_iff_ne.mpr h6, Bool.true_and]
    rw [stubOf_fault v h6 h13 h14, hallowed]
    dsimp only [Stub.pushes, Stub.pushesZero]
    rw [dispatch_default, Option.bind_some]
    cases withErrorCode v <;> rfl

theorem Tabled.tick (h : Tabled im s.ints) : Tabled im s.tick.ints := h

/-- The state after signals that the kernel survives. -/
def Board.after (s : Board) (n : Nat) : Board :=
  { s with
    ints := { s.ints with tickCount := s.ints.tickCount + BitVec.ofNat 32 n }
    core := schedulerOnTimerTick^[n] s.core }

theorem Board.after_tick (s : Board) (n : Nat) : s.tick.after n = s.after (n + 1) := by
  have hcount : s.ints.tickCount + 1 + BitVec.ofNat 32 n =
      s.ints.tickCount + BitVec.ofNat 32 (n + 1) := by
    rw [Nat.add_comm n, BitVec.ofNat_add, ← BitVec.add_assoc]
    rfl
  rw [Board.after, Board.after, Function.iterate_succ_apply]
  exact congrArg (fun t => Board.mk { s.ints with tickCount := t } _ _) hcount

theorem Board.after_zero (s : Board) : s.after 0 = s := by
  have hcount : s.ints.tickCount + BitVec.ofNat 32 0 = s.ints.tickCount := BitVec.add_zero _
  rw [Board.after, hcount]
  rfl

theorem signals_from (es : List Signal) (htab : Tabled im s.ints) (hpics : s.pics = timerOnly) :
    Runs.run (signalStep im) s es =
      if es.all Signal.allowed then some (s.after (timerSignals es)) else none := by
  induction es generalizing s with
  | nil =>
      rw [Runs.run_nil]
      exact congrArg some s.after_zero.symm
  | cons e es ih =>
      cases e with
      | line n =>
          rw [Runs.run, signalStep_line htab hpics]
          by_cases hn : n = 0
          · subst hn
            refine (ih (s := s.tick) htab.tick hpics).trans ?_
            have hcount : timerSignals (.line 0 :: es) = timerSignals es + 1 :=
              List.countP_cons_of_pos rfl
            rw [Board.after_tick, hcount]
            rfl
          · rw [if_neg hn]
            refine (ih htab hpics).trans ?_
            have hcount : timerSignals (.line n :: es) = timerSignals es :=
              List.countP_cons_of_neg (by simpa [Signal.isTimer] using hn)
            rw [hcount]
            rfl
      | trap v =>
          rw [Runs.run, signalStep_trap htab]
          by_cases hv : v = 0x80
          · subst hv
            exact ih htab hpics
          · rw [if_neg hv, if_neg]
            · rfl
            · rw [List.all_cons, Bool.and_eq_true]
              exact fun h => hv (eq_of_beq h.1)
      | fault v =>
          rw [Runs.run, signalStep_fault htab, List.all_cons]
          cases (Signal.fault v).allowed with
          | true => exact ih htab hpics
          | false => rfl

/-- Whatever was programmed before, after `interrupts_init` the kernel survives exactly the signals
in which no program traps through another gate than `int 0x80`, and no exception is that of an
invalid opcode or has an error code; then every raised timer line was one tick, nothing else did
anything, and the keyboard queue and the table are untouched. -/
theorem signals_run (im : Image) (ints : Interrupts) (core : Core) (pics : Pair)
    (es : List Signal) :
    Runs.run (signalStep im) (boardInit im ints core pics) es =
      if es.all Signal.allowed then
        some ((boardInit im ints core pics).after (timerSignals es))
      else none := by
  refine signals_from es (fun v => idt_idtInit _ _ _ v) ?_
  rw [boardInit, interruptsInit_pic]

end SlopOS.Proofs.InterruptRuns
