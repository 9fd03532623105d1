import SlopOS.Kernel.Ipc
import SlopOS.Proofs.Tables
/-!
# What the mailbox, waiter and image-slot tables say about a pid

`waiting` is the buffer a pid waits at, `inbox` the message in its mailbox and
`slotOf` its image slot.  As in `Tables`, each operation gets one lemma for each
reading.
-/

namespace SlopOS.Proofs.Mail

open SlopOS.Support SlopOS.Kernel SlopOS.Proofs.Tables

def waiting (t : IpcTables) (pid : Int) : Option U32 :=
  (t.findWaiter pid).map fun slot => (t.waiters slot).userMsgPtr

def mailboxMessage (box : IpcMailbox) : Option IpcMessage :=
  if box.hasMessage then some box.message else none

def inbox (t : IpcTables) (pid : Int) : Option IpcMessage :=
  (t.findSlot pid).bind fun slot => mailboxMessage (t.mailboxes slot)

structure MailDistinct (t : IpcTables) : Prop where
  mailboxes : SlotTable.Distinct IpcMailbox.key t.mailboxes
  waiters : SlotTable.Distinct IpcWaiter.key t.waiters

variable {t : IpcTables} {pid q : Int} {slot : Fin ipcMailboxMax}

theorem boxKey_of_find (h : t.findSlot pid = some slot) :
    (t.mailboxes slot).key = some pid :=
  SlotTable.key_of_indexOf h

theorem waiterKey_of_find (h : t.findWaiter pid = some slot) :
    (t.waiters slot).key = some pid :=
  SlotTable.key_of_indexOf h

theorem waiting_of_find (h : t.findWaiter pid = some slot) :
    waiting t pid = some (t.waiters slot).userMsgPtr := by
  simp [waiting, h]

theorem waiting_eq_none_iff : waiting t pid = none ↔ t.findWaiter pid = none := by
  simp [waiting]

theorem inbox_of_find (h : t.findSlot pid = some slot) :
    inbox t pid = mailboxMessage (t.mailboxes slot) := by
  simp [inbox, h]

/-! ## Waiters -/

theorem waiting_setWaiter {w : IpcWaiter}
    (hfind : (t.setWaiter slot w).findWaiter q = t.findWaiter q) :
    waiting (t.setWaiter slot w) q =
      if t.findWaiter q = some slot then some w.userMsgPtr else waiting t q := by
  unfold waiting
  rw [hfind]
  cases hq : t.findWaiter q with
  | none => simp
  | some slot' =>
      by_cases hs : slot' = slot
      · subst hs
        simp [IpcTables.setWaiter]
      · simp [IpcTables.setWaiter, hs]

/-- After a block the pid waits at `ptr`; every other reading stays. -/
structure BlockedAt (t : IpcTables) (pid : Int) (ptr : U32) (t' : IpcTables) : Prop where
  mailboxes : t'.mailboxes = t.mailboxes
  distinct : SlotTable.Distinct IpcWaiter.key t'.waiters
  waiting : ∀ q, waiting t' q = if q = pid then some ptr else Mail.waiting t q

theorem findWaiter_eq_some_iff (h : t.findWaiter pid = some slot) :
    t.findWaiter q = some slot ↔ q = pid := by
  constructor
  · intro hq
    exact SlotTable.indexOf_inj hq h
  · rintro rfl
    exact h

theorem blockedAt_of_find (ptr : U32) (hd : SlotTable.Distinct IpcWaiter.key t.waiters)
    (h : t.findWaiter pid = some slot) :
    BlockedAt t pid ptr (t.setWaiter slot { t.waiters slot with userMsgPtr := ptr }) := by
  have hkey : ({ t.waiters slot with userMsgPtr := ptr } : IpcWaiter).key =
      (t.waiters slot).key := rfl
  have hfind : (t.setWaiter slot { t.waiters slot with userMsgPtr := ptr }).findWaiter =
      t.findWaiter := SlotTable.indexOf_update_same hkey
  refine ⟨rfl, hd.update_same hkey, fun q => ?_⟩
  rw [waiting_setWaiter (congrFun hfind q)]
  simp only [findWaiter_eq_some_iff h]

theorem blockedAt_of_alloc {ptr : U32} {t' : IpcTables}
    (hd : SlotTable.Distinct IpcWaiter.key t.waiters)
    (hnone : t.findWaiter pid = none) (h : t.allocWaiter pid = some (slot, t')) :
    BlockedAt t pid ptr (t'.setWaiter slot { t'.waiters slot with userMsgPtr := ptr }) := by
  unfold IpcTables.allocWaiter at h
  obtain ⟨slot', hfree, hpair⟩ := Option.map_eq_some_iff.mp h
  cases hpair
  have hkey := SlotTable.key_of_firstFree hfree
  have hfind : ∀ q, (t.setWaiter slot ⟨true, pid, 0⟩).findWaiter q =
      if q = pid then some slot else t.findWaiter q :=
    fun q => SlotTable.indexOf_update_fresh hkey rfl hnone
  have hdist : SlotTable.Distinct IpcWaiter.key (t.setWaiter slot ⟨true, pid, 0⟩).waiters :=
    hd.update_fresh rfl hnone
  have hslot : (t.setWaiter slot ⟨true, pid, 0⟩).findWaiter pid = some slot := by
    rw [hfind, if_pos rfl]
  have hspec := blockedAt_of_find ptr hdist hslot
  refine ⟨hspec.mailboxes, hspec.distinct, fun q => ?_⟩
  rw [hspec.waiting q]
  by_cases hq : q = pid
  · simp [hq]
  · rw [if_neg hq, if_neg hq, waiting, waiting, hfind q, if_neg hq]
    cases hs : t.findWaiter q with
    | none => rfl
    | some slot'' =>
        have hne : slot'' ≠ slot := by
          rintro rfl
          rw [waiterKey_of_find hs] at hkey
          cases hkey
        simp [IpcTables.setWaiter, Function.update_of_ne hne]

structure Unblocked (t : IpcTables) (pid : Int) (t' : IpcTables) : Prop where
  mailboxes : t'.mailboxes = t.mailboxes
  distinct : SlotTable.Distinct IpcWaiter.key t'.waiters
  waiting : ∀ q, waiting t' q = if q = pid then none else Mail.waiting t q

theorem unblocked_of_find (hd : SlotTable.Distinct IpcWaiter.key t.waiters)
    (h : t.findWaiter pid = some slot) : Unblocked t pid (t.setWaiter slot emptyWaiter) := by
  have hkey := waiterKey_of_find h
  have hfind : ∀ q, (t.setWaiter slot emptyWaiter).findWaiter q =
      if q = pid then none else t.findWaiter q :=
    fun q => SlotTable.indexOf_update_free hd hkey rfl
  refine ⟨rfl, hd.update_free rfl, fun q => ?_⟩
  by_cases hq : q = pid
  · rw [if_pos hq, waiting_eq_none_iff, hfind, if_pos hq]
  · have hsame : (t.setWaiter slot emptyWaiter).findWaiter q = t.findWaiter q := by
      rw [hfind, if_neg hq]
    rw [if_neg hq, waiting_setWaiter hsame]
    simp only [findWaiter_eq_some_iff h, hq, if_false]

theorem ipcBlockRecv_spec {c c' : Core} {ptr : U32} {ok : Bool}
    (hd : SlotTable.Distinct IpcWaiter.key c.ipc.waiters)
    (h : ipcBlockRecv c pid ptr = (ok, c')) :
    (ok = false ∧ c' = c) ∨
      (ok = true ∧ ∃ ipc, c' = { c with ipc := ipc } ∧ BlockedAt c.ipc pid ptr ipc) := by
  unfold ipcBlockRecv at h
  split at h
  · left
    cases h
    exact ⟨rfl, rfl⟩
  cases hfind : c.ipc.findWaiter pid with
  | some slot =>
      simp only [hfind] at h
      cases h
      exact Or.inr ⟨rfl, _, rfl, blockedAt_of_find ptr hd hfind⟩
  | none =>
      simp only [hfind] at h
      split at h
      · left
        cases h
        exact ⟨rfl, rfl⟩
      · rename_i slot ipc halloc
        cases h
        exact Or.inr ⟨rfl, _, rfl, blockedAt_of_alloc hd hfind halloc⟩

/-! ## Mailboxes -/

theorem findSlot_eq_some_iff (h : t.findSlot pid = some slot) :
    t.findSlot q = some slot ↔ q = pid := by
  constructor
  · intro hq
    exact SlotTable.indexOf_inj hq h
  · rintro rfl
    exact h

theorem inbox_setMailbox {box : IpcMailbox}
    (hfind : (t.setMailbox slot box).findSlot q = t.findSlot q) :
    inbox (t.setMailbox slot box) q =
      if t.findSlot q = some slot then mailboxMessage box else inbox t q := by
  unfold inbox
  rw [hfind]
  cases hq : t.findSlot q with
  | none => simp
  | some slot' =>
      by_cases hs : slot' = slot
      · subst hs
        simp [IpcTables.setMailbox]
      · simp [IpcTables.setMailbox, hs]

/-- The mailbox of `pid` now holds `content`; every other reading stays. -/
structure InboxSet (t : IpcTables) (pid : Int) (content : Option IpcMessage)
    (t' : IpcTables) : Prop where
  waiters : t'.waiters = t.waiters
  distinct : SlotTable.Distinct IpcMailbox.key t'.mailboxes
  inbox : ∀ q, inbox t' q = if q = pid then content else Mail.inbox t q

theorem inboxSet_of_find (box : IpcMailbox)
    (hd : SlotTable.Distinct IpcMailbox.key t.mailboxes) (h : t.findSlot pid = some slot)
    (hkey : box.key = (t.mailboxes slot).key) :
    InboxSet t pid (mailboxMessage box) (t.setMailbox slot box) := by
  have hfind : (t.setMailbox slot box).findSlot = t.findSlot :=
    SlotTable.indexOf_update_same hkey
  refine ⟨rfl, hd.update_same hkey, fun q => ?_⟩
  rw [inbox_setMailbox (congrFun hfind q)]
  simp only [findSlot_eq_some_iff h]

theorem allocSlot_spec {t' : IpcTables} (hd : SlotTable.Distinct IpcMailbox.key t.mailboxes)
    (hnone : t.findSlot pid = none) (h : t.allocSlot pid = some (slot, t')) :
    t'.findSlot pid = some slot ∧ (t'.mailboxes slot).hasMessage = false ∧
      InboxSet t pid none t' := by
  unfold IpcTables.allocSlot at h
  obtain ⟨slot', hfree, hpair⟩ := Option.map_eq_some_iff.mp h
  cases hpair
  have hkey := SlotTable.key_of_firstFree hfree
  let box : IpcMailbox := { t.mailboxes slot with used := true, pid := pid, hasMessage := false }
  have hfind : ∀ q, (t.setMailbox slot box).findSlot q =
      if q = pid then some slot else t.findSlot q :=
    fun q => SlotTable.indexOf_update_fresh hkey rfl hnone
  refine ⟨by rw [hfind, if_pos rfl], by simp [IpcTables.setMailbox], rfl,
    hd.update_fresh rfl hnone, fun q => ?_⟩
  change inbox (t.setMailbox slot box) q = _
  unfold inbox
  rw [hfind q]
  by_cases hq : q = pid
  · simp [hq, IpcTables.setMailbox, mailboxMessage, box]
  · rw [if_neg hq, if_neg hq]
    cases hs : t.findSlot q with
    | none => rfl
    | some slot'' =>
        have hne : slot'' ≠ slot := by
          rintro rfl
          rw [boxKey_of_find hs] at hkey
          cases hkey
        simp [IpcTables.setMailbox, Function.update_of_ne hne]

theorem ipcRecv_eq_none_iff {c : Core} (hpid : 0 ≤ pid) :
    ipcRecv c pid = none ↔ inbox c.ipc pid = none := by
  unfold ipcRecv inbox mailboxMessage
  rw [if_neg (by omega)]
  cases c.ipc.findSlot pid with
  | none => simp
  | some slot =>
      simp only [Option.bind_some]
      split <;> simp

theorem ipcRecv_spec {c c' : Core} {msg : IpcMessage}
    (hd : SlotTable.Distinct IpcMailbox.key c.ipc.mailboxes)
    (h : ipcRecv c pid = some (msg, c')) :
    inbox c.ipc pid = some msg ∧
      ∃ ipc, c' = { c with ipc := ipc } ∧ InboxSet c.ipc pid none ipc := by
  unfold ipcRecv at h
  split at h
  · cases h
  split at h
  · cases h
  rename_i slot hfind
  split at h
  · rename_i hmsg
    cases h
    refine ⟨?_, _, rfl, ?_⟩
    · rw [inbox_of_find hfind, mailboxMessage, if_pos hmsg]
    · have hset := inboxSet_of_find { c.ipc.mailboxes slot with
        hasMessage := false, message := emptyMessage } hd hfind rfl
      simpa [mailboxMessage] using hset
  · cases h

/-! ## Image slots -/

def ownerKey (owner : Int) : Option Int := if owner < 0 then none else some owner

def slotOf (e : ElfSlots) (pid : Int) : Option (Fin elfProcSlots) :=
  SlotTable.indexOf ownerKey e.slotOwnerPid pid

theorem owner_of_slotOf {e : ElfSlots} {s : Fin elfProcSlots} (h : slotOf e pid = some s) :
    e.slotOwnerPid s = pid ∧ 0 ≤ pid := by
  have hkey := SlotTable.key_of_indexOf h
  unfold ownerKey at hkey
  split at hkey
  · cases hkey
  · rename_i hpos
    obtain rfl := Option.some.inj hkey
    exact ⟨rfl, by omega⟩

theorem slotOf_inj {e : ElfSlots} {s : Fin elfProcSlots} (h : slotOf e pid = some s)
    (hq : slotOf e q = some s) : pid = q :=
  SlotTable.indexOf_inj h hq

theorem ownerFind_eq_slotOf {e : ElfSlots} (hpid : 0 ≤ pid) :
    (Fin.find? fun i => decide (e.slotOwnerPid i = pid)) = slotOf e pid := by
  unfold slotOf SlotTable.indexOf ownerKey
  congr 1
  funext i
  by_cases h : e.slotOwnerPid i = pid
  · simp [h, hpid]
  · by_cases hneg : e.slotOwnerPid i < 0 <;> simp [h, hneg]

theorem elfSlotForPid_of_slotOf {c : Core} {s : Fin elfProcSlots} (h : slotOf c.elf pid = some s) :
    elfSlotForPid c pid = (some s, c) := by
  unfold elfSlotForPid
  rw [ownerFind_eq_slotOf (owner_of_slotOf h).2, h]

theorem elfSlotForPid_core (c : Core) (pid : Int) :
    ∃ elf, (elfSlotForPid c pid).2 = { c with elf := elf } := by
  unfold elfSlotForPid
  split
  · exact ⟨c.elf, rfl⟩
  · split
    · exact ⟨_, rfl⟩
    · exact ⟨c.elf, rfl⟩

theorem elfWriteToTaskMemory_core (c : Core) (pid : Int) (dst len : U32) (src : Nat → U8) :
    ∃ elf mem, (elfWriteToTaskMemory c pid dst src len).2 = { c with elf := elf, mem := mem } := by
  obtain ⟨elf, hslot⟩ := elfSlotForPid_core c pid
  unfold elfWriteToTaskMemory
  split
  · exact ⟨c.elf, c.mem, rfl⟩
  split
  · exact ⟨c.elf, c.mem, rfl⟩
  split
  · rename_i d hd
    rw [hd] at hslot
    exact ⟨elf, c.mem, hslot⟩
  · rename_i s d hd
    rw [hd] at hslot
    obtain rfl : d = { c with elf := elf } := hslot
    split
    · exact ⟨_, c.mem, rfl⟩
    · split
      · exact ⟨elf, _, rfl⟩
      · exact ⟨elf, c.mem, rfl⟩

/-- Slot `s`, free or of a dead owner, has gone to a pid that had none. -/
structure SlotTaken (c : Core) (pid : Int) (s : Fin elfProcSlots) (elf : ElfSlots) : Prop where
  images : elf.userImages = c.elf.userImages
  distinct : SlotTable.Distinct ownerKey elf.slotOwnerPid
  slot : slotOf elf pid = some s
  other : ∀ q, q ≠ pid → procPhase c.proc q ≠ .dead → slotOf elf q = slotOf c.elf q
  owner : ∀ q, slotOf elf q ≠ none → q = pid ∨ slotOf c.elf q ≠ none

theorem elfSlotForPid_new {c : Core} (hpid : 0 ≤ pid)
    (hd : SlotTable.Distinct ownerKey c.elf.slotOwnerPid) (hnone : slotOf c.elf pid = none) :
    elfSlotForPid c pid = (none, c) ∨
      ∃ s elf, elfSlotForPid c pid = (some s, { c with elf := elf }) ∧
        SlotTaken c pid s elf := by
  unfold elfSlotForPid
  rw [ownerFind_eq_slotOf hpid, hnone]
  dsimp only
  split
  case h_2 => exact Or.inl rfl
  rename_i s hs
  refine Or.inr ⟨s, _, rfl, ?_⟩
  have hfree := (Fin.find?_eq_some_iff.mp hs).1
  have hkey : ownerKey pid = some pid := if_neg (by omega)
  have hlive : ∀ q, procPhase c.proc q ≠ .dead → slotOf c.elf q ≠ some s := by
    intro q hq hqs
    obtain ⟨howner, hq0⟩ := owner_of_slotOf hqs
    rw [howner] at hfree
    have hdead : procStateOf c.proc q = .unused := by
      simpa [show ¬q < 0 by omega] using hfree
    exact hq (procPhase_eq_dead_iff_unused.mpr hdead)
  have hslot : ∀ q, slotOf ⟨Function.update c.elf.slotOwnerPid s pid, c.elf.userImages⟩ q =
      if q = pid then some s else if slotOf c.elf q = some s then none else slotOf c.elf q :=
    fun q => SlotTable.indexOf_update_replace hd hkey hnone
  refine ⟨rfl, hd.update_fresh hkey hnone, (hslot pid).trans (if_pos rfl), fun q hq hql => ?_,
    fun q hq => ?_⟩
  · exact (hslot q).trans ((if_neg hq).trans (if_neg (hlive q hql)))
  · by_cases hqp : q = pid
    · exact Or.inl hqp
    · right
      intro hqnone
      apply hq
      refine (hslot q).trans ((if_neg hqp).trans ?_)
      rw [hqnone]
      rfl

end SlopOS.Proofs.Mail
