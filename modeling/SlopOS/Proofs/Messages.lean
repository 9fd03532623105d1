import SlopOS.Proofs.UserPointers
/-!
# Sending and delivering

`view` is the memory a process will find when it is resumed: its saved image,
and its stack where it lies.  Delivering a message stores it into the receiver's
view (`Delivered`); a send that does not deliver either fills the mailbox or
changes nothing at all (`ipcSend_spec`).
-/

namespace SlopOS.Proofs.Messages

open SlopOS.Support SlopOS.Kernel
open SlopOS.Proofs.Tables SlopOS.Proofs.Mail SlopOS.Proofs.Scheduling
open SlopOS.Proofs.TableInvariant SlopOS.Proofs.Loader SlopOS.Proofs.UserPointers

def view (c : Core) (image : ProcImage) (s : Fin elfProcSlots) : ByteMem.Mem := fun a =>
  if ByteMem.InRange image.imageBase image.imageSize.toNat a then
    c.elf.userImages s (a - image.imageBase).toNat
  else c.mem a

/-- `n` bytes have been stored at `ptr` in the view of the process in slot `s`. -/
structure Wrote (c : Core) (image : ProcImage) (s : Fin elfProcSlots) (ptr : U32) (n : Nat)
    (src : Nat → U8) (c' : Core) : Prop where
  task : c'.task = c.task
  proc : c'.proc = c.proc
  ipc : c'.ipc = c.ipc
  ring3 : c'.ring3 = c.ring3
  owners : c'.elf.slotOwnerPid = c.elf.slotOwnerPid
  others : ∀ s', s' ≠ s → c'.elf.userImages s' = c.elf.userImages s'
  mem : SameOutside (InStack image) c.mem c'.mem
  view : ∀ a, Own image a → view c' image s a = ByteMem.store (view c image s) ptr n src a

variable {mach : Machine} {c c' : Core} {dst : Int} {image : ProcImage} {s : Fin elfProcSlots}
variable {ptr : U32} {msg : IpcMessage}

theorem writeFits_iff (base size ptr len : U32) (hwrap : base.toNat + size.toNat < 2 ^ 32) :
    writeFits base size ptr len = true ↔
      base.toNat ≤ ptr.toNat ∧ ptr.toNat + len.toNat ≤ base.toNat + size.toNat := by
  unfold writeFits
  simp only [Bool.and_eq_true, decide_eq_true_eq]
  constructor
  · intro h
    constructor <;> bv_omega
  · intro h
    refine ⟨⟨?_, ?_⟩, ?_⟩ <;> bv_omega

theorem wrote_image (hok : ImageOk mach image s) {n : Nat} {src : Nat → U8}
    (hlow : image.imageBase.toNat ≤ ptr.toNat)
    (hup : ptr.toNat + n ≤ image.imageBase.toNat + image.imageSize.toNat) :
    Wrote c image s ptr n src (setSaved c s
      (patchSaved (c.elf.userImages s) (ptr - image.imageBase).toNat n src)) := by
  obtain ⟨-, himg, -, -⟩ := range_bounds hok
  refine ⟨rfl, rfl, rfl, rfl, rfl, fun s' hs => Function.update_of_ne hs _ _,
    SameOutside.refl _ _, fun a ha => ?_⟩
  have hlt : (a - ptr).toNat < n ↔ ByteMem.InRange ptr n a := ByteMem.sub_lt_iff_inRange (by omega)
  unfold view ByteMem.store setSaved
  by_cases hin : ByteMem.InRange image.imageBase image.imageSize.toNat a
  · simp only [if_pos hin, Function.update_self, patchSaved]
    unfold ByteMem.InRange at hin hlt
    by_cases hp : (a - ptr).toNat < n
    · have hr := hlt.mp hp
      rw [if_pos hp, if_pos (by constructor <;> bv_omega)]
      congr 1
      bv_omega
    · have hr := mt hlt.mpr hp
      rw [if_neg hp, if_neg (by bv_omega)]
  · have hp : ¬(a - ptr).toNat < n := by
      intro hp
      have hr := hlt.mp hp
      apply hin
      unfold ByteMem.InRange at *
      omega
    simp only [if_neg hin, if_neg hp]

theorem wrote_stack (hok : ImageOk mach image s) {n : Nat} {src : Nat → U8}
    (hlow : image.userStackBase.toNat ≤ ptr.toNat)
    (hup : ptr.toNat + n ≤ image.userStackBase.toNat + image.userStackSize.toNat) :
    Wrote c image s ptr n src { c with mem := ByteMem.store c.mem ptr n src } := by
  obtain ⟨-, -, -, hstk⟩ := range_bounds hok
  refine ⟨rfl, rfl, rfl, rfl, rfl, fun _ _ => rfl, sameOutside_store hlow hup (by omega),
    fun a ha => ?_⟩
  have hlt : (a - ptr).toNat < n ↔ ByteMem.InRange ptr n a := ByteMem.sub_lt_iff_inRange (by omega)
  unfold view ByteMem.store
  by_cases hin : ByteMem.InRange image.imageBase image.imageSize.toNat a
  · have hp : ¬(a - ptr).toNat < n := by
      intro hp
      have hr := hlt.mp hp
      have hwin := inWindow_of_inImage hok hin
      apply not_inWindow_of_inStack hok _ hwin
      unfold InStack ByteMem.InRange at *
      omega
    simp only [if_pos hin, if_neg hp]
  · simp only [if_neg hin]

theorem elfWriteToTaskMemory_spec (ptr : U32) (src : Nat → U8) (hpid : 0 ≤ dst)
    (himg : procGetImage c.proc dst = some image) (hl : image.loaded = true)
    (hs : slotOf c.elf dst = some s) (hok : ImageOk mach image s) {len : U32}
    (hlen : len ≠ 0) :
    (Within image ptr len.toNat ∧ ∃ c', elfWriteToTaskMemory c dst ptr src len = (true, c') ∧
      Wrote c image s ptr len.toNat src c') ∨
    (¬Within image ptr len.toNat ∧ elfWriteToTaskMemory c dst ptr src len = (false, c)) := by
  obtain ⟨-, himgUp, -, hstkUp⟩ := range_bounds hok
  have hfitI := writeFits_iff image.imageBase image.imageSize ptr len (by omega)
  have hfitS := writeFits_iff image.userStackBase image.userStackSize ptr len (by omega)
  unfold elfWriteToTaskMemory
  rw [himg]
  dsimp only
  rw [if_neg (by simp only [hl, hlen, not_true_eq_false, or_false]; omega),
    elfSlotForPid_of_slotOf hs]
  dsimp only
  by_cases hi : writeFits image.imageBase image.imageSize ptr len = true
  · left
    have hr := hfitI.mp hi
    rw [if_pos hi]
    exact ⟨Or.inl hr, _, rfl, wrote_image hok hr.1 hr.2⟩
  rw [if_neg hi]
  by_cases hst : writeFits image.userStackBase image.userStackSize ptr len = true
  · left
    have hr := hfitS.mp hst
    rw [if_pos hst]
    exact ⟨Or.inr hr, _, rfl, wrote_stack hok hr.1 hr.2⟩
  · right
    rw [if_neg hst]
    refine ⟨?_, rfl⟩
    rintro (hr | hr)
    · exact hi (hfitI.mpr hr)
    · exact hst (hfitS.mpr hr)

/-! ## Waking the receiver -/

/-- `dst` has stopped waiting and may run again, with `image` but `eax = 0`. -/
structure Woken (c : Core) (dst : Int) (image : ProcImage) (c' : Core) : Prop where
  unblocked : Unblocked c.ipc dst c'.ipc
  elf : c'.elf = c.elf
  ring3 : c'.ring3 = c.ring3
  mem : c'.mem = c.mem
  nextPid : c'.proc.nextPid = c.proc.nextPid
  image : ∀ q, procGetImage c'.proc q =
    if q = dst then some { image with context := { image.context with eax := 0 } }
    else procGetImage c.proc q
  phase : ∀ q, procPhase c'.proc q = if q = dst then .runnable else procPhase c.proc q
  synced : Synced c'
  find : c'.task.findSlotByPid = c.task.findSlotByPid
  current : c'.task.currentIndex = c.task.currentIndex

theorem synced_bind (h : Synced c) (image : ProcImage) :
    Synced { c with proc := procBindImage c.proc dst image } := by
  refine ⟨?_, h.tasks, fun p => ?_⟩
  · rw [procs_procBindImage]
    exact h.procs
  · rw [procPhase_procBindImage]
    exact h.sync p

theorem wakeReceiver_spec {slot : Fin ipcMailboxMax} (h : Synced c) (hm : MailDistinct c.ipc)
    (hlive : procPhase c.proc dst ≠ .dead) (hfind : c.ipc.findWaiter dst = some slot) :
    Woken c dst image (wakeReceiver c dst slot image) := by
  let image' : ProcImage := { image with context := { image.context with eax := 0 } }
  let bound : Core := { c with proc := procBindImage c.proc dst image' }
  have hphase : ∀ q, procPhase bound.proc q = procPhase c.proc q :=
    fun q => procPhase_procBindImage image'
  have hliveBound : procPhase bound.proc dst ≠ .dead := by rwa [hphase]
  obtain ⟨d, hset, hcur, hre⟩ := setBoth_repaint .ready .ready (c := bound)
    (synced_bind h image') hliveBound (by simp) (by simp) rfl
  have hwake : wakeReceiver c dst slot image =
      { bound with
        task := d
        proc := procSetState bound.proc dst .ready
        ipc := c.ipc.setWaiter slot emptyWaiter } := by
    unfold wakeReceiver
    dsimp only
    rw [hset]
  rw [hwake]
  refine ⟨unblocked_of_find hm.waiters hfind, rfl, rfl, rfl, ?_, fun q => ?_, fun q => ?_,
    ⟨hre.synced.procs, hre.synced.tasks, hre.synced.sync⟩, hre.find, hcur⟩
  · exact hre.nextPid.trans (nextPid_procBindImage image')
  · refine (hre.image q).trans ((procGetImage_procBindImage image').trans ?_)
    simp only [hlive, ne_eq, not_false_eq_true, and_true]
    rfl
  · refine (hre.phase q).trans ?_
    by_cases hq : q = dst
    · simp [hq, procStatePhase]
    · rw [Function.update_of_ne hq, if_neg hq, hphase]

/-! ## Delivery -/

/-- `msg` has been handed to `dst`, which waited at `ptr`: written into its memory in
state `c₁`, whereupon it was woken. -/
structure Delivered (mach : Machine) (c : Core) (dst : Int) (msg : IpcMessage) (ptr : U32)
    (image : ProcImage) (s : Fin elfProcSlots) (c₁ c' : Core) : Prop where
  waited : waiting c.ipc dst = some ptr
  found : procGetImage c.proc dst = some image
  loaded : image.loaded = true
  valid : image.contextValid = true
  slot : slotOf c.elf dst = some s
  fits : ImageOk mach image s
  within : Within image ptr ipcMessageSize
  wrote : Wrote c image s ptr ipcMessageSize msg.byte c₁
  woken : Woken c₁ dst image c'

/-- Why a send to `dst` does not deliver: nobody waits, or at a bad place. -/
def NotReceiving (c : Core) (dst : Int) : Prop :=
  ∀ ptr image, waiting c.ipc dst = some ptr → procGetImage c.proc dst = some image →
    ¬Within image ptr ipcMessageSize

theorem ipcUnblockDeliver_spec (msg : IpcMessage) (hb : Base mach c)
    (hlive : procPhase c.proc dst ≠ .dead) :
    (NotReceiving c dst ∧ ipcUnblockDeliver c dst msg = (false, c)) ∨
      ∃ ptr image s c₁ c', ipcUnblockDeliver c dst msg = (true, c') ∧
        Delivered mach c dst msg ptr image s c₁ c' := by
  have hpos := (hb.pids dst hlive).1
  unfold ipcUnblockDeliver
  rw [if_neg (by omega)]
  cases hfind : c.ipc.findWaiter dst with
  | none =>
      left
      refine ⟨fun ptr image hw => ?_, rfl⟩
      rw [waiting_eq_none_iff.mpr hfind] at hw
      cases hw
  | some slot =>
      have hwait := waiting_of_find hfind
      obtain ⟨image, himg, hl, hcv⟩ := hb.waiterImage dst (by rw [hwait]; simp) hlive
      obtain ⟨s, hs, hok⟩ := hb.loaded dst image himg hl
      have hunused : procStateOf c.proc dst ≠ .unused := by
        rwa [ne_eq, ← procPhase_eq_dead_iff_unused]
      have hlen : BitVec.ofNat 32 ipcMessageSize ≠ 0 := by decide
      dsimp only
      rw [if_neg hunused]
      rcases elfWriteToTaskMemory_spec (c.ipc.waiters slot).userMsgPtr msg.byte hpos himg hl hs
        hok hlen with ⟨hw, c₁, heq, hwrote⟩ | ⟨hw, heq⟩
      · right
        have himg₁ : procGetImage c₁.proc dst = some image := by rw [hwrote.proc, himg]
        have hsync₁ : Synced c₁ := by
          refine ⟨?_, ?_, fun p => ?_⟩
          · rw [hwrote.proc]
            exact hb.synced.procs
          · rw [hwrote.task]
            exact hb.synced.tasks
          · rw [hwrote.proc, hwrote.task]
            exact hb.synced.sync p
        have hwoken : Woken c₁ dst image (wakeReceiver c₁ dst slot image) := by
          apply wakeReceiver_spec hsync₁
          · rw [hwrote.ipc]
            exact hb.mail
          · rw [hwrote.proc]
            exact hlive
          · rw [hwrote.ipc]
            exact hfind
        rw [heq]
        dsimp only
        rw [himg₁]
        dsimp only
        rw [if_neg (by simp [hl, hcv])]
        exact ⟨_, image, s, c₁, _, rfl, hwait, himg, hl, hcv, hs, hok, hw, hwrote, hwoken⟩
      · left
        rw [heq]
        refine ⟨fun ptr im hw' him => ?_, rfl⟩
        rw [hwait] at hw'
        rw [himg] at him
        obtain rfl := Option.some.inj hw'
        obtain rfl := Option.some.inj him
        exact hw

/-! ## Sending -/

inductive SendResult (mach : Machine) (c : Core) (src dst : Int) (msg : IpcMessage) :
    Bool × Core → Prop
  | failed (reason : procPhase c.proc dst = .dead ∨ NotReceiving c dst) :
      SendResult mach c src dst msg (false, c)
  | queued {ipc : IpcTables} (live : procPhase c.proc dst ≠ .dead)
      (notReceiving : NotReceiving c dst) (empty : inbox c.ipc dst = none)
      (set : InboxSet c.ipc dst (some { msg with srcPid := src, dstPid := dst }) ipc) :
      SendResult mach c src dst msg (true, { c with ipc := ipc })
  | delivered {ptr : U32} {image : ProcImage} {s : Fin elfProcSlots} {c₁ c' : Core}
      (live : procPhase c.proc dst ≠ .dead)
      (sent : ipcUnblockDeliver c dst { msg with srcPid := src, dstPid := dst } = (true, c'))
      (delivered : Delivered mach c dst { msg with srcPid := src, dstPid := dst } ptr image s
        c₁ c') :
      SendResult mach c src dst msg (true, c')

theorem ipcSend_spec (hb : Base mach c) (src dst : Int) (msg : IpcMessage) :
    SendResult mach c src dst msg (ipcSend c src dst msg) := by
  unfold ipcSend
  by_cases hdead : procPhase c.proc dst = .dead
  · rw [if_pos (Or.inr (procPhase_eq_dead_iff_unused.mp hdead))]
    exact .failed (Or.inl hdead)
  have hpos := (hb.pids dst hdead).1
  rw [if_neg (by
    rw [not_or, ← procPhase_eq_dead_iff_unused]
    exact ⟨by omega, hdead⟩)]
  dsimp only
  rcases ipcUnblockDeliver_spec { msg with srcPid := src, dstPid := dst } hb hdead with
    ⟨hnot, heq⟩ | ⟨ptr, image, s, c₁, c', heq, hdel⟩
  · rw [heq]
    dsimp only
    cases hfind : c.ipc.findSlot dst with
    | some slot =>
        dsimp only
        split
        · exact .failed (Or.inr hnot)
        · rename_i hempty
          have hnone : inbox c.ipc dst = none := by
            rw [inbox_of_find hfind, mailboxMessage, if_neg hempty]
          exact .queued hdead hnot hnone (inboxSet_of_find { c.ipc.mailboxes slot with
            message := { msg with srcPid := src, dstPid := dst }, hasMessage := true }
            hb.mail.mailboxes hfind rfl)
    | none =>
        have hnone : inbox c.ipc dst = none := by
          unfold inbox
          rw [hfind]
          rfl
        dsimp only
        split
        · exact .failed (Or.inr hnot)
        · rename_i slot ipc halloc
          obtain ⟨hslot, hno, hset⟩ := allocSlot_spec hb.mail.mailboxes hfind halloc
          rw [if_neg (by simp [hno])]
          have hput := inboxSet_of_find { ipc.mailboxes slot with
            message := { msg with srcPid := src, dstPid := dst }, hasMessage := true }
            hset.distinct hslot rfl
          refine .queued hdead hnot hnone ⟨hput.waiters.trans hset.waiters, hput.distinct,
            fun q => ?_⟩
          rw [hput.inbox q, hset.inbox q]
          by_cases hq : q = dst
          · simp [hq, mailboxMessage]
          · simp [hq]
  · rw [heq]
    exact .delivered hdead heq hdel

/-! ## The invariant -/

theorem waiting_congr {t t' : IpcTables} (h : t'.waiters = t.waiters) (q : Int) :
    waiting t' q = waiting t q := by
  unfold waiting IpcTables.findWaiter
  rw [h]

theorem base_inboxSet {content : Option IpcMessage} {ipc : IpcTables} (hb : Base mach c)
    (hset : InboxSet c.ipc dst content ipc) : Base mach { c with ipc := ipc } := by
  refine hb.ofSame rfl rfl rfl ⟨hset.distinct, ?_⟩ fun p hp => ?_
  · rw [hset.waiters]
    exact hb.mail.waiters
  · rwa [waiting_congr hset.waiters] at hp

theorem inbox_congr {t t' : IpcTables} (h : t'.mailboxes = t.mailboxes) (q : Int) :
    inbox t' q = inbox t q := by
  unfold inbox IpcTables.findSlot
  rw [h]

theorem base_delivered {c₁ : Core} (hb : Base mach c)
    (hdel : Delivered mach c dst msg ptr image s c₁ c') : Base mach c' := by
  have hwrote := hdel.wrote
  have hwoken := hdel.woken
  have hslot : ∀ p, slotOf c'.elf p = slotOf c.elf p := by
    intro p
    rw [hwoken.elf]
    unfold slotOf
    rw [hwrote.owners]
  have hlive := live_of_procGetImage hdel.found
  refine ⟨hwoken.synced, ⟨?_, hwoken.unblocked.distinct⟩, ?_, ?_, fun p hp => ?_, fun p => ?_, ?_,
    fun p hp => ?_, fun p im him hl => ?_, fun p hp => ?_, fun p hp hl => ?_⟩
  · rw [hwoken.unblocked.mailboxes, hwrote.ipc]
    exact hb.mail.mailboxes
  · rw [hwoken.elf, hwrote.owners]
    exact hb.owners
  · rw [hwoken.nextPid, hwrote.proc]
    exact hb.next
  · rw [hwoken.nextPid, hwrote.proc]
    rw [hwoken.phase, hwrote.proc] at hp
    by_cases hq : p = dst
    · rw [hq]
      exact hb.pids dst hlive
    · rw [if_neg hq] at hp
      exact hb.pids p hp
  · rw [hwoken.phase, hwrote.proc]
    split
    · decide
    · exact hb.zombie p
  · rw [hwoken.phase, hwrote.proc]
    split
    · rfl
    · exact hb.kernel
  · rw [hslot] at hp
    rw [hwoken.nextPid, hwrote.proc]
    exact hb.owner p hp
  · rw [hwoken.image, hwrote.proc] at him
    rw [hslot]
    split at him
    · rename_i hq
      obtain rfl := Option.some.inj him
      rw [hq]
      exact ⟨s, hdel.slot, hdel.fits.lower, hdel.fits.upper, hdel.fits.stackBase,
        hdel.fits.stackSize⟩
    · exact hb.loaded p im him hl
  · rw [hwoken.unblocked.waiting, hwrote.ipc] at hp
    rw [hwoken.nextPid, hwrote.proc]
    split at hp
    · exact absurd rfl hp
    · exact hb.waiterPid p hp
  · rw [hwoken.unblocked.waiting, hwrote.ipc] at hp
    rw [hwoken.phase, hwrote.proc] at hl
    rw [hwoken.image, hwrote.proc]
    by_cases hq : p = dst
    · rw [if_pos hq] at hp
      exact absurd rfl hp
    · rw [if_neg hq] at hp hl ⊢
      exact hb.waiterImage p hp hl

theorem currentOk_delivered {c₁ : Core} (hcur : CurrentOk c)
    (hdel : Delivered mach c dst msg ptr image s c₁ c') : CurrentOk c' := by
  obtain ⟨i, p, hi, hfind, hrun⟩ := hcur
  refine ⟨i, p, ?_, ?_, ?_⟩
  · rw [hdel.woken.current, hdel.wrote.task, hi]
  · rw [hdel.woken.find, hdel.wrote.task, hfind]
  · rw [hdel.woken.phase, hdel.wrote.proc]
    split
    · rfl
    · exact hrun

theorem base_send {src : Int} {r : Bool × Core} (hb : Base mach c) (hcur : CurrentOk c)
    (h : SendResult mach c src dst msg r) : Base mach r.2 ∧ CurrentOk r.2 := by
  cases h with
  | failed _ => exact ⟨hb, hcur⟩
  | queued _ _ _ hset => exact ⟨base_inboxSet hb hset, currentOk_ofSame hcur rfl fun _ => rfl⟩
  | delivered _ _ hdel => exact ⟨base_delivered hb hdel, currentOk_delivered hcur hdel⟩

end SlopOS.Proofs.Messages
