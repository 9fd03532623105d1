import SlopOS.Kernel.Interrupts
import SlopOS.Proofs.ShellLines
import SlopOS.Proofs.SerialLines
/-!
# From keys to lines

The scan codes of a keyboard and the bytes of a serial line, on their way through the drivers to the
lines of the two shells.
-/

namespace SlopOS.Proofs.Keystrokes

open SlopOS.Kernel SlopOS.Support SlopOS.Support.CharDevice
open SlopOS.Proofs.ReachableStates SlopOS.Proofs.ShellRuns SlopOS.Proofs.ShellLines
open SlopOS.Proofs.SerialLines

/-! ## Scan codes -/

/-- The characters of a sequence of scan codes. -/
def charsOf : Bool → List U8 → CStr
  | _, [] => []
  | shift, code :: codes =>
    let r := decodeScancode code shift
    (if r.1 = 0 ∨ r.1 = chr '\t' then [] else [r.1]) ++ charsOf r.2 codes

def shiftAfter (shift : Bool) (codes : List U8) : Bool :=
  codes.foldl (fun shift code => (decodeScancode code shift).2) shift

theorem charsOf_append (shift : Bool) (a b : List U8) :
    charsOf shift (a ++ b) = charsOf shift a ++ charsOf (shiftAfter shift a) b := by
  induction a generalizing shift with
  | nil => rfl
  | cons code a ih =>
      rw [List.cons_append, charsOf, charsOf, ih, List.append_assoc]
      rfl

/-- How a character is typed: its key and whether with shift. -/
def keyOf (c : U8) : Option (U8 × Bool) :=
  if c = 0 ∨ c = chr '\t' then none
  else if normalKeys.contains c then some (BitVec.ofNat 8 (normalKeys.idxOf c), false)
  else if shiftedKeys.contains c then some (BitVec.ofNat 8 (shiftedKeys.idxOf c), true)
  else none

/-- A key goes down and up again, inside the left or the right shift key where it needs one. -/
def stroke (right : Bool) (key : U8 × Bool) : List U8 :=
  let shift : U8 := if right then 0x36 else 0x2A
  if key.2 then [shift, key.1, key.1 ||| 0x80, shift ||| 0x80] else [key.1, key.1 ||| 0x80]

/-- The scan codes of a text; the shift key is chosen anew for each character. -/
def keystrokes (right : Nat → Bool) : CStr → List U8
  | [] => []
  | c :: text =>
    ((keyOf c).elim [] (stroke (right text.length))) ++ keystrokes right text

/-- The key of a character gives it back, and what has no key is not printable. -/
def strokeOk (right : Bool) (c : U8) : Bool :=
  match keyOf c with
  | some key => decide (charsOf false (stroke right key) = [c]) && !shiftAfter false (stroke right key)
  | none => decide (¬(32 ≤ c.toNat ∧ c.toNat ≤ 126 ∨ c = chr '\n' ∨ c = 8))

theorem strokeOk_byte (right : Bool) (c : U8) : strokeOk right c = true := by
  have h : ∀ n < 256, strokeOk right (BitVec.ofNat 8 n) = true := by
    cases right with
    | false => decide +kernel
    | true => decide +kernel
  have hc := h c.toNat c.isLt
  rwa [BitVec.ofNat_toNat, BitVec.setWidth_eq] at hc

/-- A key that gives a character, and neither key nor release is a shift. -/
theorem stroke_chars (c : U8) (key : U8 × Bool) (hkey : keyOf c = some key) (right : Bool) :
    charsOf false (stroke right key) = [c] ∧ shiftAfter false (stroke right key) = false := by
  have h := strokeOk_byte right c
  unfold strokeOk at h
  rw [hkey] at h
  simpa using h

/-- Every text of characters that there are keys for comes out as it was typed. -/
theorem charsOf_keystrokes (right : Nat → Bool) (text : CStr) (h : ∀ c ∈ text, (keyOf c).isSome) :
    charsOf false (keystrokes right text) = text ∧
      shiftAfter false (keystrokes right text) = false := by
  induction text with
  | nil => exact ⟨rfl, rfl⟩
  | cons c text ih =>
      obtain ⟨key, hkey⟩ := Option.isSome_iff_exists.mp (h c List.mem_cons_self)
      obtain ⟨hchars, hshift⟩ := stroke_chars c key hkey (right text.length)
      obtain ⟨hrest, hrestShift⟩ := ih fun d hd => h d (List.mem_cons_of_mem _ hd)
      rw [keystrokes, hkey, Option.elim_some, charsOf_append, hchars, hshift, hrest]
      refine ⟨rfl, ?_⟩
      rw [shiftAfter, List.foldl_append]
      change shiftAfter (shiftAfter false _) _ = false
      rw [hshift, hrestShift]

/-- The printable characters, the newline and the backspace all have keys. -/
theorem keyOf_printable (c : U8) (h : IsPlain c ∨ c = chr '\n' ∨ c = 8) : (keyOf c).isSome := by
  have hok := strokeOk_byte false c
  unfold strokeOk at hok
  cases hkey : keyOf c with
  | some key => rfl
  | none =>
      rw [hkey] at hok
      exact absurd h (of_decide_eq_true hok)

/-! ## The desk -/

theorem keyboard_waiting : (0x01 : U8) ≠ 0 := by decide

/-- The keyboard controller as `keyboard_try_read_char` sees it. -/
def keyboardPort : Device where
  data := 0x60
  status := 0x64
  waitingBit := 0x01
  idleBit := 0
  delay := fun _ => 0
  apart := by decide
  bits_apart := by decide
  waiting_pos := keyboard_waiting

/-- The process has asked for characters of the keyboard. -/
def ReadsKeyboard (k : KState) : Prop :=
  let frame := k.core.ring3.regs
  frame.eax = sysRead ∧ toInt frame.ebx = 0 ∧ frame.ecx ≠ 0 ∧
    validateBuffer k.core frame.ecx frame.edx = true

instance : DecidablePred ReadsKeyboard := fun _ => inferInstanceAs (Decidable (_ ∧ _ ∧ _ ∧ _))

/-- The characters that the call takes; the model of it has them before they are typed. -/
def wanted (s : Sys) : CStr :=
  if s.ctl ≠ .shell ∧ ReadsKeyboard s.kernel then
    (List.range (readLineLen s.kernel.files.keyboard s.kernel.core.ring3.regs.edx.toNat 0)).map
      s.kernel.files.keyboard
  else []

/-- The loop with its two input devices; `handed` is what the loop of `ksys_read` has got for the
call that the process is in. -/
structure Desk where
  loop : ShellLoop
  shiftDown : Bool
  keyboard : State
  line : State
  handed : CStr

inductive DeskEvent
  /-- the keyboard sends a scan code -/
  | code (c : U8)
  /-- a byte arrives on the serial line -/
  | byte (c : U8)
  /-- the loop polls the input that it is at -/
  | poll
  /-- a turn of the loop of `ksys_read` on descriptor 0 -/
  | read
  | other (e : LoopEvent)

/-- `shell_try_get_input` for a terminal: the character, and the desk without it. -/
def Desk.tryGetInput (u : Uart) (s : Desk) : Terminal → Option U8 × Desk
  | .vga =>
    let r := keyboardTryReadChar keyboardPort.bus s.shiftDown s.keyboard
    (r.1.1, { s with shiftDown := r.1.2, keyboard := r.2 })
  | .serial =>
    let r := serialTryReadChar u.device.bus true s.line
    (r.1, { s with line := r.2 })

def deskStep (u : Uart) (b : Boot) (s : Desk) : DeskEvent → Option Desk
  | .code c => some { s with keyboard := { s.keyboard with waiting := s.keyboard.waiting ++ [c] } }
  | .byte c => some { s with line := { s.line with waiting := s.line.waiting ++ [c] } }
  | .poll =>
    match s.loop.point.polls with
    | none => none
    | some t =>
      let r := s.tryGetInput u t
      (loopStep b s.loop (.poll r.1)).map fun loop => { r.2 with loop := loop }
  | .read =>
    match (wanted s.loop.sys)[s.handed.length]? with
    | none => none
    | some c =>
      let r := keyboardTryReadChar keyboardPort.bus s.shiftDown s.keyboard
      -- the call can only have had what is typed
      if r.1.1 = none ∨ r.1.1 = some c then
        some { s with shiftDown := r.1.2, keyboard := r.2, handed := s.handed ++ r.1.1.toList }
      else none
  | .other (.poll _) => none
  | .other .syscall =>
    if s.handed = wanted s.loop.sys then
      (loopStep b s.loop .syscall).map fun loop => { s with loop := loop, handed := [] }
    else none
  | .other .tick => (loopStep b s.loop .tick).map fun loop => { s with loop := loop }
  | .other e =>
    if s.handed = [] then (loopStep b s.loop e).map fun loop => { s with loop := loop } else none

/-- The keys that an event brings to a shell. -/
def deskPresses (u : Uart) (s : Desk) : DeskEvent → List Press
  | .poll =>
    match s.loop.point.polls with
    | none => []
    | some t => presses s.loop (.poll (s.tryGetInput u t).1)
  | _ => []

/-- The characters that an event takes from the keyboard; the first component is whether for the
shell. -/
def taken (u : Uart) (s : Desk) : DeskEvent → List (Bool × U8)
  | .poll =>
    match s.loop.point.polls with
    | some .vga => (s.tryGetInput u .vga).1.toList.map (true, ·)
    | _ => []
  | .read => (s.tryGetInput u .vga).1.toList.map (false, ·)
  | _ => []

/-- The characters that a call of a process has got when it returns. -/
def fetched (s : Desk) : DeskEvent → CStr
  | .other .syscall => s.handed
  | _ => []

/-- The bytes that an event takes from the serial line. -/
def received (u : Uart) (s : Desk) : DeskEvent → List U8
  | .poll =>
    match s.loop.point.polls with
    | some .serial => (s.tryGetInput u .serial).1.toList
    | _ => []
  | _ => []

def DeskEvent.codes : DeskEvent → List U8
  | .code c => [c]
  | _ => []

def DeskEvent.bytes : DeskEvent → List U8
  | .byte c => [c]
  | _ => []

/-! ## What a step takes from the devices -/

theorem tryReadChar_eq (shift : Bool) (k : State) :
    keyboardTryReadChar keyboardPort.bus shift k =
      match k.waiting with
      | [] => ((none, shift), { k with busy := k.busy - 1 })
      | code :: codes =>
        let r := decodeScancode code shift
        (if r.1 = 0 ∨ r.1 = chr '\t' then (none, r.2) else (some r.1, r.2),
          { k with waiting := codes, busy := k.busy - 1 }) := by
  have hstatus : keyboardPort.bus.inb k 0x64 = keyboardPort.readStatus k := inb_status
  have hdata (k : State) : keyboardPort.bus.inb k 0x60 =
      (k.waiting.headD 0, { k with waiting := k.waiting.tail }) := inb_data
  have hwaiting : (keyboardPort.readStatus k).1 &&& 0x01 = 0 ↔ k.waiting = [] :=
    status_waiting (d := keyboardPort)
  rw [keyboardTryReadChar, hstatus]
  obtain ⟨waiting, sent, busy⟩ := k
  cases waiting with
  | nil => exact if_pos (hwaiting.mpr rfl)
  | cons code codes =>
      dsimp only
      rw [if_neg fun h => absurd (hwaiting.mp h) (List.cons_ne_nil _ _), hdata]
      by_cases hnone : (decodeScancode code shift).1 = 0 ∨ (decodeScancode code shift).1 = chr '\t'
      · exact (if_pos hnone).trans (congrArg (·, _) (if_pos hnone).symm)
      · exact (if_neg hnone).trans (congrArg (·, _) (if_neg hnone).symm)

theorem tryReadChar_chars (shift : Bool) (k : State) (rest : List U8) :
    let r := keyboardTryReadChar keyboardPort.bus shift k
    charsOf shift (k.waiting ++ rest) =
      r.1.1.toList ++ charsOf r.1.2 (r.2.waiting ++ rest) := by
  rw [tryReadChar_eq]
  obtain ⟨waiting, sent, busy⟩ := k
  cases waiting with
  | nil => rfl
  | cons code codes =>
      dsimp only
      rw [List.cons_append, charsOf]
      by_cases hnone : (decodeScancode code shift).1 = 0 ∨ (decodeScancode code shift).1 = chr '\t'
      · rw [if_pos hnone, if_pos hnone]
        rfl
      · rw [if_neg hnone, if_neg hnone]
        rfl

theorem serialTryReadChar_bytes (u : Uart) (k : State) :
    let r := serialTryReadChar u.device.bus true k
    k.waiting = r.1.toList ++ r.2.waiting := by
  have hstatus : u.device.bus.inb k (com1Port + 5) = u.device.readStatus k := by
    rw [← u.status]
    exact inb_status
  have hdata (k : State) : u.device.bus.inb k com1Port =
      (k.waiting.headD 0, { k with waiting := k.waiting.tail }) := by
    rw [← u.data]
    exact inb_data
  have hwaiting : (u.device.readStatus k).1 &&& 0x01 = 0 ↔ k.waiting = [] := by
    rw [← u.waiting]
    exact status_waiting
  rw [serialTryReadChar, if_neg Bool.noConfusion, serialDataReady]
  dsimp only
  rw [hstatus]
  by_cases hk : k.waiting = []
  · rw [if_pos (decide_eq_false (not_not.mpr (hwaiting.mpr hk)))]
    rfl
  · rw [if_neg (by simpa using fun h => hk (hwaiting.mp h)), hdata]
    obtain ⟨c, cs, hcons⟩ := List.exists_cons_of_ne_nil hk
    simp [Device.readStatus, hcons]

variable {u : Uart} {b : Boot} {s s' : Desk} {e : DeskEvent}

/-- The system takes a step of its own; a call ends with all the characters that it takes. -/
theorem deskStep_other {e : LoopEvent} (h : deskStep u b s (.other e) = some s') :
    ∃ loop handed, loopStep b s.loop e = some loop ∧
      s' = { s with loop := loop, handed := handed } ∧
      s.handed = fetched s (.other e) ++ handed := by
  have hkeep (e : LoopEvent) (hfetched : fetched s (.other e) = [])
      (h : ((loopStep b s.loop e).map fun loop => { s with loop := loop }) = some s') :
      ∃ loop handed, loopStep b s.loop e = some loop ∧
        s' = { s with loop := loop, handed := handed } ∧
        s.handed = fetched s (.other e) ++ handed := by
    obtain ⟨loop, hloop, rfl⟩ := Option.map_eq_some_iff.mp h
    exact ⟨loop, s.handed, hloop, rfl, by rw [hfetched]; rfl⟩
  cases e with
  | poll c => cases h
  | tick => exact hkeep .tick rfl h
  | syscall =>
      rw [deskStep] at h
      split at h
      · obtain ⟨loop, hloop, rfl⟩ := Option.map_eq_some_iff.mp h
        exact ⟨loop, [], hloop, rfl, (List.append_nil _).symm⟩
      · cases h
  | rest =>
      dsimp only [deskStep] at h
      split at h
      · exact hkeep .rest rfl h
      · cases h
  | user regs bytes =>
      dsimp only [deskStep] at h
      split at h
      · exact hkeep (.user regs bytes) rfl h
      · cases h

theorem deskStep_read (h : deskStep u b s .read = some s') :
    s' = { (s.tryGetInput u .vga).2 with
      handed := s.handed ++ (s.tryGetInput u .vga).1.toList } := by
  rw [deskStep] at h
  split at h
  · cases h
  · dsimp only at h
    split at h
    · exact (Option.some.inj h).symm
    · cases h

theorem syscallStub_read (mach : Machine) {k : KState} (hread : ReadsKeyboard k) :
    let frame := k.core.ring3.regs
    let n := readLineLen k.files.keyboard frame.edx.toNat 0
    ∃ k', syscallStub mach k = some (false, k') ∧
      k'.core.mem = ByteMem.store k.core.mem frame.ecx n k.files.keyboard ∧
      k'.core.ring3.regs = { frame with eax := toU32 n } := by
  intro frame n
  obtain ⟨hnum, hfd, hnull, hvalid⟩ := hread
  let done : KState :=
    { k.setMem (ByteMem.store k.core.mem frame.ecx n k.files.keyboard) with
      files := { k.files with keyboard := fun i => k.files.keyboard (n + i) } }
  have hentry : (syscallEntry mach k frame.eax frame.ebx frame.ecx frame.edx frame.esi
      frame.edi).done = some ((n : Int), done) := by
    rw [syscallEntry, if_pos hnum, ksysRead, if_neg fun h => hnull h.2,
      if_neg (not_not.mpr hvalid), if_pos hfd]
    rfl
  have hkept : ¬(n : Int) = errBlocked := by
    unfold errBlocked
    omega
  have hother (num : U32) (hne : sysRead ≠ num) (p : Prop) : ¬(frame.eax = num ∧ p) :=
    fun h => hne (hnum.symm.trans h.1)
  have hstub : syscallStub mach k = some (false, done.setCore { done.core with
      ring3 := { done.core.ring3 with
        regs := { done.core.ring3.regs with eax := toU32 n } } }) := by
    unfold syscallStub
    dsimp only
    rw [if_neg (hother sysExit (by decide) _), if_neg (hother sysRetKernel (by decide) _),
      if_neg (hother sysYield (by decide) _), hentry]
    dsimp only
    rw [if_neg hkept]
  exact ⟨_, hstub, rfl, rfl⟩

/-- The call of a process that reads the keyboard stores what it has got and returns its length. -/
def Delivers (u : Uart) (b : Boot) (s : Desk) : DeskEvent → Prop
  | .other .syscall => s.loop.sys.ctl ≠ .shell → ReadsKeyboard s.loop.sys.kernel →
    ∀ s', deskStep u b s (.other .syscall) = some s' →
      let frame := s.loop.sys.kernel.core.ring3.regs
      s'.loop.sys.kernel.core.mem = ByteMem.store s.loop.sys.kernel.core.mem frame.ecx
          s.handed.length (s.handed.getD · 0) ∧
        s'.loop.sys.kernel.core.ring3.regs = { frame with eax := toU32 s.handed.length }
  | _ => True

theorem delivers (u : Uart) (b : Boot) (s : Desk) (e : DeskEvent) : Delivers u b s e := by
  unfold Delivers
  split
  case h_2 => trivial
  intro hctl hread s' h frame
  rw [deskStep] at h
  split at h
  case isFalse => cases h
  rename_i hhanded
  obtain ⟨loop, hloop, rfl⟩ := Option.map_eq_some_iff.mp h
  unfold wanted at hhanded
  rw [if_pos ⟨hctl, hread⟩] at hhanded
  have hlen : s.handed.length = readLineLen s.loop.sys.kernel.files.keyboard frame.edx.toNat 0 := by
    rw [hhanded, List.length_map, List.length_range]
  obtain ⟨k', hstub, hmem, hregs⟩ := syscallStub_read b.mach hread
  rw [loopStep, step] at hloop
  cases hsys : s.loop.sys.ctl with
  | shell => exact absurd hsys hctl
  | user pid caller =>
      rw [hsys] at hloop
      dsimp only at hloop
      rw [userStep, hstub] at hloop
      obtain rfl := Option.some.inj hloop
      refine ⟨hmem.trans ?_, hregs.trans ?_⟩
      · rw [hlen]
        refine ByteMem.store_congr fun i hi => ?_
        rw [hhanded, List.getD_eq_getElem?_getD, List.getElem?_map, List.getElem?_range hi]
        rfl
      · rw [hlen]

structure Moved (u : Uart) (s : Desk) (e : DeskEvent) (s' : Desk) : Prop where
  chars : ∀ rest, charsOf s.shiftDown (s.keyboard.waiting ++ (e.codes ++ rest)) =
    (taken u s e).map Prod.snd ++ charsOf s'.shiftDown (s'.keyboard.waiting ++ rest)
  bytes : s.line.waiting ++ e.bytes = received u s e ++ s'.line.waiting
  handed : s.handed ++ ((taken u s e).filter fun x => !x.1).map Prod.snd =
    fetched s e ++ s'.handed

theorem deskStep_moved (h : deskStep u b s e = some s') : Moved u s e s' := by
  cases e with
  | code c =>
      obtain rfl := Option.some.inj h
      exact ⟨fun rest => congrArg (charsOf _) (List.append_assoc _ _ _).symm, List.append_nil _,
        List.append_nil _⟩
  | byte c =>
      obtain rfl := Option.some.inj h
      exact ⟨fun rest => rfl, rfl, List.append_nil _⟩
  | poll =>
      rw [deskStep] at h
      split at h
      · cases h
      rename_i t ht
      obtain ⟨loop, -, rfl⟩ := Option.map_eq_some_iff.mp h
      cases t with
      | vga =>
          refine ⟨fun rest => ?_, ?_, ?_⟩
          · have hchars := tryReadChar_chars s.shiftDown s.keyboard rest
            simp only [DeskEvent.codes, List.nil_append, taken, ht, List.map_map,
              Function.comp_def, List.map_id', Desk.tryGetInput]
            exact hchars
          · simp [DeskEvent.bytes, received, ht, Desk.tryGetInput]
          · rw [taken, ht]
            dsimp only
            cases (s.tryGetInput u .vga).1 <;> exact List.append_nil _
      | serial =>
          refine ⟨fun rest => ?_, ?_, ?_⟩
          · simp [DeskEvent.codes, taken, ht, Desk.tryGetInput]
          · simp only [DeskEvent.bytes, List.append_nil, received, ht]
            exact serialTryReadChar_bytes u s.line
          · rw [taken, ht]
            exact List.append_nil _
  | read =>
      rw [deskStep_read h]
      refine ⟨fun rest => ?_, ?_, ?_⟩
      · have hchars := tryReadChar_chars s.shiftDown s.keyboard rest
        simp only [DeskEvent.codes, List.nil_append, taken, List.map_map,
          Function.comp_def, List.map_id', Desk.tryGetInput]
        exact hchars
      · simp [DeskEvent.bytes, received, Desk.tryGetInput]
      · rw [taken]
        cases (s.tryGetInput u .vga).1 <;> rfl
  | other e =>
      obtain ⟨loop, handed, -, rfl, hhanded⟩ := deskStep_other h
      refine ⟨fun rest => rfl, List.append_nil _, ?_⟩
      rw [← hhanded]
      exact List.append_nil _

/-! ## Runs -/

variable {es : List DeskEvent} {s₀ : ShellLoop} {d : Desk}

/-- Nothing is lost on the way from the devices, and nothing comes twice or out of turn. -/
theorem moved_run {s d : Desk} (hrun : Runs.run (deskStep u b) s es = some d) :
    charsOf s.shiftDown (s.keyboard.waiting ++ es.flatMap DeskEvent.codes) =
        (Runs.observe (deskStep u b) (taken u) s es).map Prod.snd ++
          charsOf d.shiftDown d.keyboard.waiting ∧
      s.line.waiting ++ es.flatMap DeskEvent.bytes =
        Runs.observe (deskStep u b) (received u) s es ++ d.line.waiting ∧
      s.handed ++ ((Runs.observe (deskStep u b) (taken u) s es).filter fun x => !x.1).map Prod.snd =
        Runs.observe (deskStep u b) fetched s es ++ d.handed := by
  induction es generalizing s with
  | nil =>
      obtain rfl := Option.some.inj hrun
      exact ⟨congrArg (charsOf _) (List.append_nil _), List.append_nil _, List.append_nil _⟩
  | cons e es ih =>
      obtain ⟨s', hstep, hrest⟩ := Runs.run_cons_eq_some.mp hrun
      obtain ⟨hchars, hbytes, hhanded⟩ := ih hrest
      have hmoved := deskStep_moved hstep
      rw [Runs.observe_cons es hstep, Runs.observe_cons es hstep, Runs.observe_cons es hstep,
        List.flatMap_cons, List.flatMap_cons]
      refine ⟨?_, ?_, ?_⟩
      · rw [hmoved.chars, hchars, List.map_append, List.append_assoc]
      · rw [← List.append_assoc, hmoved.bytes, List.append_assoc, hbytes, List.append_assoc]
      · rw [List.filter_append, List.map_append, ← List.append_assoc, hmoved.handed,
          List.append_assoc, hhanded, List.append_assoc]

theorem keysOf_deskPresses (s : Desk) (e : DeskEvent) :
    keysOf .vga (deskPresses u s e) = ((taken u s e).filter Prod.fst).map Prod.snd ∧
      keysOf .serial (deskPresses u s e) = received u s e := by
  cases e with
  | code c => exact ⟨rfl, rfl⟩
  | byte c => exact ⟨rfl, rfl⟩
  | read =>
      refine ⟨?_, rfl⟩
      change ([] : CStr) = _
      rw [taken]
      cases (s.tryGetInput u .vga).1 <;> rfl
  | other e => exact ⟨rfl, rfl⟩
  | poll =>
      rw [deskPresses, taken, received]
      cases hpolls : s.loop.point.polls with
      | none => exact ⟨rfl, rfl⟩
      | some t =>
          have hpress (c : Option U8) : presses s.loop (.poll c) =
              c.toList.map fun c => ⟨t, c, (s.loop.shells t).input⟩ := by
            cases c with
            | none => rfl
            | some c => rw [presses, hpolls]; rfl
          dsimp only
          rw [hpress]
          cases t with
          | vga => cases (s.tryGetInput u .vga).1 <;> exact ⟨rfl, rfl⟩
          | serial => cases (s.tryGetInput u .serial).1 <;> exact ⟨rfl, rfl⟩

theorem keysOf_run {s d : Desk} (hrun : Runs.run (deskStep u b) s es = some d) :
    keysOf .vga (Runs.observe (deskStep u b) (deskPresses u) s es) =
        ((Runs.observe (deskStep u b) (taken u) s es).filter Prod.fst).map Prod.snd ∧
      keysOf .serial (Runs.observe (deskStep u b) (deskPresses u) s es) =
        Runs.observe (deskStep u b) (received u) s es := by
  induction es generalizing s with
  | nil => exact ⟨rfl, rfl⟩
  | cons e es ih =>
      obtain ⟨s', hstep, hrest⟩ := Runs.run_cons_eq_some.mp hrun
      obtain ⟨hvga, hserial⟩ := ih hrest
      obtain ⟨hvga', hserial'⟩ := keysOf_deskPresses (u := u) s e
      have happend (t : Terminal) (a b : List Press) : keysOf t (a ++ b) = keysOf t a ++ keysOf t b := by
        rw [keysOf, List.filter_append, List.map_append]
        rfl
      simp only [Runs.observe_cons es hstep, happend, List.filter_append, List.map_append, hvga,
        hserial, hvga', hserial', and_self]

theorem deskStep_loop (h : deskStep u b s e = some s') :
    s'.loop = s.loop ∧ deskPresses u s e = [] ∨
      ∃ e', loopStep b s.loop e' = some s'.loop ∧ deskPresses u s e = presses s.loop e' := by
  cases e with
  | code c =>
      obtain rfl := Option.some.inj h
      exact .inl ⟨rfl, rfl⟩
  | byte c =>
      obtain rfl := Option.some.inj h
      exact .inl ⟨rfl, rfl⟩
  | poll =>
      rw [deskStep] at h
      split at h
      · cases h
      rename_i t ht
      obtain ⟨loop, hloop, rfl⟩ := Option.map_eq_some_iff.mp h
      refine .inr ⟨_, hloop, ?_⟩
      rw [deskPresses, ht]
  | read =>
      rw [deskStep_read h]
      exact .inl ⟨rfl, rfl⟩
  | other e =>
      have hpoll : ∀ c, e ≠ .poll c := by
        rintro c rfl
        cases h
      obtain ⟨loop, handed, hloop, rfl, -⟩ := deskStep_other h
      refine .inr ⟨e, hloop, ?_⟩
      cases e with
      | poll c => exact absurd rfl (hpoll c)
      | rest | tick | user _ _ | syscall => rfl

/-- The desk after boot, nothing typed. -/
def Desk.start (s₀ : ShellLoop) : Desk := ⟨s₀, false, ⟨[], [], 0⟩, ⟨[], [], 0⟩, []⟩

theorem desk_typing (hinit : shellLoop b = some s₀)
    (hrun : Runs.run (deskStep u b) (.start s₀) es = some d) :
    Typing d.loop (Runs.observe (deskStep u b) (deskPresses u) (.start s₀) es) := by
  obtain ⟨es', hloop, hobs⟩ : ∃ es', Runs.run (loopStep b) s₀ es' = some d.loop ∧
      Runs.observe (loopStep b) presses s₀ es' =
        Runs.observe (deskStep u b) (deskPresses u) (.start s₀) es :=
    Runs.projected Desk.loop (fun s e s' => deskStep_loop) hrun
  rw [← hobs]
  exact typing_run hinit hloop

/-- Every character typed reaches one reader, in the order of typing, and every byte of the serial
line its shell; each shell edits its line by just these, and the calls of the processes return with
just those that were taken for them. -/
theorem desk_run (hinit : shellLoop b = some s₀)
    (hrun : Runs.run (deskStep u b) (.start s₀) es = some d) :
    charsOf false (es.flatMap DeskEvent.codes) =
        (Runs.observe (deskStep u b) (taken u) (.start s₀) es).map Prod.snd ++
          charsOf d.shiftDown d.keyboard.waiting ∧
      es.flatMap DeskEvent.bytes =
        Runs.observe (deskStep u b) (received u) (.start s₀) es ++ d.line.waiting ∧
      keysOf .vga (Runs.observe (deskStep u b) (deskPresses u) (.start s₀) es) =
        ((Runs.observe (deskStep u b) (taken u) (.start s₀) es).filter Prod.fst).map Prod.snd ∧
      keysOf .serial (Runs.observe (deskStep u b) (deskPresses u) (.start s₀) es) =
        Runs.observe (deskStep u b) (received u) (.start s₀) es ∧
      ((Runs.observe (deskStep u b) (taken u) (.start s₀) es).filter fun x => !x.1).map Prod.snd =
        Runs.observe (deskStep u b) fetched (.start s₀) es ++ d.handed ∧
      Runs.AllSteps (deskStep u b) (Delivers u b) (.start s₀) es ∧
      Typing d.loop (Runs.observe (deskStep u b) (deskPresses u) (.start s₀) es) := by
  obtain ⟨hchars, hbytes, hhanded⟩ := moved_run hrun
  obtain ⟨hvga, hserial⟩ := keysOf_run hrun
  exact ⟨hchars, hbytes, hvga, hserial, hhanded, .of_forall (delivers u b) _ _,
    desk_typing hinit hrun⟩

/-! ## A line that is typed -/

/-- Without programs that read, all that the keyboard gives is for the shell. -/
theorem taken_shell {s : Desk} (hread : DeskEvent.read ∉ es) :
    ∀ x ∈ Runs.observe (deskStep u b) (taken u) s es, x.1 = true := by
  intro x hx
  obtain ⟨s', e, he, hmem⟩ := Runs.mem_observe hx
  cases e with
  | code c => cases hmem
  | byte c => cases hmem
  | other e => cases hmem
  | read => exact absurd he hread
  | poll =>
      rw [taken] at hmem
      split at hmem
      · obtain ⟨c, -, rfl⟩ := List.mem_map.mp hmem
        rfl
      · cases hmem

theorem exists_press {t : Terminal} {log : List Press} {keys : CStr} {c : U8}
    (h : keysOf t log = keys ++ [c]) :
    ∃ front p back, log = front ++ p :: back ∧ p.terminal = t ∧ p.key = c ∧
      keysOf t front = keys := by
  obtain ⟨ps, qs, hsplit, hps, hqs⟩ := List.map_eq_append_iff.mp h
  obtain ⟨p, rest, rfl, hkey, -⟩ := List.map_eq_cons_iff.mp hqs
  obtain ⟨l₁, l₂, hlog, hl₁, hl₂⟩ := List.filter_eq_append_iff.mp hsplit
  obtain ⟨before, after, rfl, hbefore, hp, -⟩ := List.filter_eq_cons_iff.mp hl₂
  refine ⟨l₁ ++ before, p, after, by rw [hlog, List.append_assoc], by simpa using hp, hkey, ?_⟩
  rw [keysOf, List.filter_append, hl₁, List.filter_eq_nil_iff.mpr hbefore, List.append_nil, hps]

theorem editLine_plain {text : CStr} (hplain : ∀ c ∈ text, IsPlain c)
    (hshort : text.length ≤ shellInputMax) : editLine text = text := by
  induction text using List.reverseRecOn with
  | nil => rfl
  | append_singleton text c ih =>
      rw [List.length_append] at hshort
      have hrest := ih (fun d hd => hplain d (List.mem_append_left _ hd))
        (Nat.le_trans (Nat.le_add_right _ _) hshort)
      rw [editLine_append, hrest, typeKey_plain (hplain c (by simp)) (by simpa using hshort)]

/-- A printable line and Enter on the keyboard, whatever happens in between on the serial line, in
the programs and by the clock: once all codes are read and unless a program has read some, the shell
has got Enter with exactly this line. -/
theorem line_entered (hinit : shellLoop b = some s₀)
    (hrun : Runs.run (deskStep u b) (.start s₀) es = some d) (right : Nat → Bool) {text : CStr}
    (hplain : ∀ c ∈ text, IsPlain c) (hshort : text.length ≤ shellInputMax)
    (hcodes : es.flatMap DeskEvent.codes = keystrokes right (text ++ [chr '\n']))
    (hread : DeskEvent.read ∉ es) (hempty : d.keyboard.waiting = []) :
    ⟨.vga, chr '\n', text⟩ ∈ Runs.observe (deskStep u b) (deskPresses u) (.start s₀) es := by
  obtain ⟨hchars, -⟩ := moved_run hrun
  obtain ⟨hvga, -⟩ := keysOf_run hrun
  have hkeys : keysOf .vga (Runs.observe (deskStep u b) (deskPresses u) (.start s₀) es) =
      text ++ [chr '\n'] := by
    have hall : ∀ c ∈ text ++ [chr '\n'], (keyOf c).isSome := by
      intro c hc
      refine keyOf_printable c ?_
      rcases List.mem_append.mp hc with hc | hc
      · exact .inl (hplain c hc)
      · exact .inr (.inl (List.mem_singleton.mp hc))
    change charsOf false (es.flatMap DeskEvent.codes) = _ at hchars
    rw [hcodes, (charsOf_keystrokes right _ hall).1, hempty, charsOf, List.append_nil] at hchars
    rw [hvga, hchars, List.filter_eq_self.mpr (taken_shell hread)]
  obtain ⟨front, p, back, hlog, hterminal, hkey, hfront⟩ := exists_press hkeys
  have hline := (desk_typing hinit hrun).lines front p back hlog
  rw [hterminal, hfront, editLine_plain hplain hshort] at hline
  have hpress : p = ⟨.vga, chr '\n', text⟩ := by
    rw [← hterminal, ← hkey, ← hline]
  rw [hlog, hpress]
  exact List.mem_append_right _ List.mem_cons_self

def demoTyping : List DeskEvent :=
  (keystrokes (fun _ => false) (cstr "cd /" ++ [chr '\n'])).flatMap fun code =>
    [.code code, .poll, .poll, .other .rest]

theorem demoTyping_runs : ∃ s₀ d, shellLoop demoBoot = some s₀ ∧
    Runs.run (deskStep demoUart demoBoot) (.start s₀) demoTyping = some d ∧
    d.keyboard.waiting = [] := by
  have hview : ((shellLoop demoBoot).bind fun s₀ =>
      (Runs.run (deskStep demoUart demoBoot) (.start s₀) demoTyping).map fun d =>
        d.keyboard.waiting) = some [] := by
    decide +kernel
  obtain ⟨s₀, hinit, hview⟩ := Option.bind_eq_some_iff.mp hview
  obtain ⟨d, hrun, hempty⟩ := Option.map_eq_some_iff.mp hview
  exact ⟨s₀, d, hinit, hrun, hempty⟩

def readingBoot : Boot := { demoBoot with keyboard := fun _ => chr '\n' }

def demoReading : List DeskEvent :=
  ((keystrokes (fun _ => false) (demoPath ++ [chr '\n'])).dropLast.flatMap fun code =>
    [.code code, .poll, .poll, .other .rest]).dropLast.dropLast ++
  [.other (.user { eax := sysRead, ecx := 0x00300200, edx := 8, cs := 0x1B } fun _ => 0),
    .code 0x1C, .read, .other .syscall]

theorem desk_run_demo : ∃ s₀ d, shellLoop readingBoot = some s₀ ∧
    Runs.run (deskStep demoUart readingBoot) (.start s₀) demoReading = some d ∧
    Runs.observe (deskStep demoUart readingBoot) fetched (.start s₀) demoReading = [chr '\n'] ∧
    ((Runs.observe (deskStep demoUart readingBoot) (taken demoUart) (.start s₀)
      demoReading).filter fun x => !x.1).map Prod.snd = [chr '\n'] ∧
    Runs.AllSteps (deskStep demoUart readingBoot) (Delivers demoUart readingBoot) (.start s₀)
      demoReading ∧
    Typing d.loop (Runs.observe (deskStep demoUart readingBoot) (deskPresses demoUart) (.start s₀)
      demoReading) := by
  have hview : ((shellLoop readingBoot).bind fun s₀ =>
      (Runs.run (deskStep demoUart readingBoot) (.start s₀) demoReading).map fun d =>
        (Runs.observe (deskStep demoUart readingBoot) fetched (.start s₀) demoReading, d.handed)) =
      some ([chr '\n'], []) := by decide +kernel
  obtain ⟨s₀, hinit, hview⟩ := Option.bind_eq_some_iff.mp hview
  obtain ⟨d, hrun, hpair⟩ := Option.map_eq_some_iff.mp hview
  obtain ⟨hfetched, hhanded⟩ := Prod.mk.inj hpair
  obtain ⟨-, -, -, -, htaken, hdelivers, htyping⟩ := desk_run hinit hrun
  rw [hfetched, hhanded] at htaken
  exact ⟨s₀, d, hinit, hrun, hfetched, htaken, hdelivers, htyping⟩

theorem line_entered_demo : ∃ s₀ d, shellLoop demoBoot = some s₀ ∧
    Runs.run (deskStep demoUart demoBoot) (.start s₀) demoTyping = some d ∧
    ⟨.vga, chr '\n', cstr "cd /"⟩ ∈
      Runs.observe (deskStep demoUart demoBoot) (deskPresses demoUart) (.start s₀) demoTyping := by
  obtain ⟨s₀, d, hinit, hrun, hempty⟩ := demoTyping_runs
  refine ⟨s₀, d, hinit, hrun, ?_⟩
  refine line_entered hinit hrun (fun _ => false) ?_ (by decide) (by decide +kernel) ?_
    hempty
  · decide +kernel
  · intro h
    obtain ⟨code, -, hmem⟩ := List.mem_flatMap.mp h
    simp at hmem

end SlopOS.Proofs.Keystrokes
