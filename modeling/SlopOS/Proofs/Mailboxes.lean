import SlopOS.Proofs.Mail
import SlopOS.Proofs.ServiceTable
import SlopOS.Support.SlotKeys
/-!
# Who owns a mailbox

A mailbox is taken on the first send to a pid and never given back.  The pids
that are live or own a mailbox are counted together: a send to a live process
finds a mailbox as long as there are at most 32 of them.
-/

namespace SlopOS.Proofs.Mailboxes

open SlopOS.Support SlopOS.Kernel SlopOS.Proofs.Tables SlopOS.Proofs.Mail
open SlopOS.Proofs.ServiceTable (ProcsOk Fewer fewer_procExit fewer_procReapPid fewer_procWait
  procsOk_procInit)

/-- The calls of `proc.c` and `ipc.c` that touch processes and mailboxes. -/
inductive PostEvent
  | spawn (name : Option CStr) (ppid : Int)
  | send (src dst : Int) (msg : IpcMessage)
  | recv (pid : Int)
  | block (pid : Int) (ptr : U32)
  | exit (pid code : Int)
  | reap (pid : Int)
  | wait (ppid : Int)

/-- One call; a call that fails leaves what it leaves. -/
def postStep (c : Core) : PostEvent → Option Core
  | .spawn name ppid =>
    -- `next_pid` is an `int`; its overflow has no meaning
    if 2 ^ 31 - 1 ≤ c.proc.nextPid then none
    else some { c with proc := ((procSpawnKernel c.proc name ppid).map Prod.snd).getD c.proc }
  | .send src dst msg => some (ipcSend c src dst msg).2
  | .recv pid => some (((ipcRecv c pid).map Prod.snd).getD c)
  | .block pid ptr => some (ipcBlockRecv c pid ptr).2
  | .exit pid code => some { c with proc := procExit c.proc pid code }
  | .reap pid => some { c with proc := ((procReapPid c.proc pid).map Prod.snd).getD c.proc }
  | .wait ppid => some { c with proc := ((procWait c.proc ppid).map fun w => w.2.2).getD c.proc }

/-- A send to a live process without an undelivered message succeeds. -/
def SendsReach (c : Core) : Prop :=
  ∀ src dst msg, procStateOf c.proc dst ≠ .unused → inbox c.ipc dst = none →
    (ipcSend c src dst msg).1 = true

def livePids (c : Core) : Finset Int := SlotTable.keys ProcessInfo.key c.proc.procs

def owners (c : Core) : Finset Int := SlotTable.keys IpcMailbox.key c.ipc.mailboxes

/-- A process is spawned only while the pids that are live or own a mailbox leave room for
another one. -/
def RoomToSpawn (c : Core) : PostEvent → Prop
  | .spawn _ _ => (livePids c ∪ owners c).card < ipcMailboxMax
  | _ => True

instance (c : Core) (e : PostEvent) : Decidable (RoomToSpawn c e) :=
  match e with
  | .spawn _ _ => inferInstanceAs (Decidable ((livePids c ∪ owners c).card < ipcMailboxMax))
  | .send _ _ _ => isTrue trivial
  | .recv _ => isTrue trivial
  | .block _ _ => isTrue trivial
  | .exit _ _ => isTrue trivial
  | .reap _ => isTrue trivial
  | .wait _ => isTrue trivial

structure PostOk (c : Core) : Prop where
  procs : ProcsOk c.proc
  boxes : SlotTable.Distinct IpcMailbox.key c.ipc.mailboxes
  nonneg : ∀ pid ∈ livePids c, 0 ≤ pid
  next : 0 ≤ c.proc.nextPid
  room : (livePids c ∪ owners c).card ≤ ipcMailboxMax

variable {c c' : Core} {src dst pid : Int} {msg : IpcMessage} {e : PostEvent}

theorem mem_livePids : pid ∈ livePids c ↔ procPhase c.proc pid ≠ .dead := by
  unfold livePids
  rw [SlotTable.mem_keys_iff_indexOf]
  exact not_congr procPhase_eq_dead_iff.symm

theorem mem_owners : pid ∈ owners c ↔ c.ipc.findSlot pid ≠ none :=
  SlotTable.mem_keys_iff_indexOf

/-! ## Steps that add no pid -/

theorem postOk_of_subset (h : PostOk c) (hprocs : Fewer c.proc c'.proc)
    (hboxes : SlotTable.Distinct IpcMailbox.key c'.ipc.mailboxes)
    (howners : owners c' ⊆ livePids c ∪ owners c) : PostOk c' := by
  have hlive : livePids c' ⊆ livePids c := by
    intro p hp
    rw [mem_livePids] at hp ⊢
    exact hprocs.live p hp
  refine ⟨hprocs.ok h.procs, hboxes, fun p hp => h.nonneg p (hlive hp), ?_, ?_⟩
  · rw [hprocs.next]
    exact h.next
  · calc (livePids c' ∪ owners c').card
        ≤ (livePids c ∪ owners c).card := by
          apply Finset.card_le_card
          exact Finset.union_subset (hlive.trans Finset.subset_union_left) howners
      _ ≤ ipcMailboxMax := h.room

/-- What a call does that leaves the mailboxes alone and starts no process. -/
structure Quiet (c c' : Core) : Prop where
  boxes : c'.ipc.mailboxes = c.ipc.mailboxes
  procs : Fewer c.proc c'.proc

theorem postOk_quiet (h : PostOk c) (hq : Quiet c c') : PostOk c' := by
  refine postOk_of_subset h hq.procs ?_ ?_
  · rw [hq.boxes]
    exact h.boxes
  · unfold owners
    rw [hq.boxes]
    exact Finset.subset_union_right

theorem quiet_same (h : ProcsOk c.proc) (hboxes : c'.ipc.mailboxes = c.ipc.mailboxes)
    (hprocs : c'.proc = c.proc) : Quiet c c' := by
  refine ⟨hboxes, ?_⟩
  rw [hprocs]
  exact Fewer.refl h

theorem quiet_block (h : ProcsOk c.proc) (pid : Int) (ptr : U32) :
    Quiet c (ipcBlockRecv c pid ptr).2 := by
  unfold ipcBlockRecv
  split
  · exact quiet_same h rfl rfl
  dsimp only
  split
  · exact quiet_same h rfl rfl
  rename_i slot ipc hfound
  refine quiet_same h ?_ rfl
  split at hfound
  · cases hfound
    rfl
  · unfold IpcTables.allocWaiter at hfound
    obtain ⟨free, -, hpair⟩ := Option.map_eq_some_iff.mp hfound
    cases hpair
    rfl

/-! ## Delivery to a receiver that waits -/

theorem fewer_wake (h : ProcsOk c.proc) (slot : Fin ipcMailboxMax) (image : ProcImage) :
    Fewer c.proc (wakeReceiver c dst slot image).proc := by
  have hready : ∀ d : Core, (taskSetState d dst .ready).proc = d.proc := by
    intro d
    unfold taskSetState
    split <;> rfl
  have hne : (ProcState.ready : ProcState) ≠ .unused := by decide
  unfold wakeReceiver
  dsimp only
  rw [hready]
  refine ⟨?_, ?_, fun p hp => ?_⟩
  · apply distinct_procSetState hne
    rw [procs_procBindImage]
    exact h.distinct
  · rw [nextPid_procSetState, nextPid_procBindImage]
  · rw [procPhase_ne_dead_iff, find_procSetState hne, find_procBindImage] at hp
    exact procPhase_ne_dead_iff.mpr hp

theorem mailboxes_wake (slot : Fin ipcMailboxMax) (image : ProcImage) :
    (wakeReceiver c dst slot image).ipc.mailboxes = c.ipc.mailboxes := by
  have hready : ∀ d : Core, (taskSetState d dst .ready).ipc = d.ipc := by
    intro d
    unfold taskSetState
    split <;> rfl
  unfold wakeReceiver
  dsimp only
  rw [hready]
  rfl

theorem write_keeps (pid : Int) (ptr len : U32) (src : Nat → U8) :
    (elfWriteToTaskMemory c pid ptr src len).2.proc = c.proc ∧
      (elfWriteToTaskMemory c pid ptr src len).2.ipc = c.ipc := by
  obtain ⟨elf, mem, h⟩ := elfWriteToTaskMemory_core c pid ptr len src
  rw [h]
  exact ⟨rfl, rfl⟩

theorem quiet_deliver (h : ProcsOk c.proc) (dst : Int) (msg : IpcMessage) :
    Quiet c (ipcUnblockDeliver c dst msg).2 := by
  unfold ipcUnblockDeliver
  split
  · exact quiet_same h rfl rfl
  split
  · exact quiet_same h rfl rfl
  rename_i slot _
  split
  · exact quiet_same h rfl rfl
  have hwrite := write_keeps (c := c) dst (c.ipc.waiters slot).userMsgPtr
    (BitVec.ofNat 32 ipcMessageSize) msg.byte
  split
  · rename_i d hd
    rw [hd] at hwrite
    exact quiet_same h (congrArg IpcTables.mailboxes hwrite.2) hwrite.1
  · rename_i d hd
    rw [hd] at hwrite
    have hsame : Quiet c d := quiet_same h (congrArg IpcTables.mailboxes hwrite.2) hwrite.1
    split
    · exact hsame
    split
    · exact hsame
    · have hd : ProcsOk d.proc := by
        rw [hwrite.1]
        exact h
      refine ⟨(mailboxes_wake slot _).trans hsame.boxes, ?_⟩
      have hwake := @fewer_wake _ dst hd slot ‹ProcImage›
      rw [hwrite.1] at hwake
      exact hwake

theorem proc_of_undelivered {d : Core} (h : ipcUnblockDeliver c dst msg = (false, d)) :
    d.proc = c.proc := by
  unfold ipcUnblockDeliver at h
  split at h
  · cases h
    rfl
  split at h
  · cases h
    rfl
  rename_i slot _
  split at h
  · cases h
    rfl
  have hwrite := (write_keeps (c := c) dst (c.ipc.waiters slot).userMsgPtr
    (BitVec.ofNat 32 ipcMessageSize) msg.byte).1
  split at h
  · rename_i hd
    rw [hd] at hwrite
    cases h
    exact hwrite
  · rename_i hd
    rw [hd] at hwrite
    split at h
    · cases h
      exact hwrite
    split at h
    · cases h
      exact hwrite
    · cases h

/-! ## Sending -/

theorem mailbox_found (h : PostOk c) (hlive : dst ∈ livePids c) (hnone : c.ipc.findSlot dst = none) :
    SlotTable.firstFree IpcMailbox.key c.ipc.mailboxes ≠ none := by
  intro hfull
  have hcard := SlotTable.card_keys_of_full h.boxes hfull
  have hnot : dst ∉ owners c := fun hmem => mem_owners.mp hmem hnone
  have hsub : insert dst (owners c) ⊆ livePids c ∪ owners c :=
    Finset.insert_subset (Finset.mem_union_left _ hlive) Finset.subset_union_right
  have hle : ipcMailboxMax + 1 ≤ ipcMailboxMax := by
    calc ipcMailboxMax + 1
        ≤ (owners c).card + 1 := Nat.add_le_add_right hcard 1
      _ = (insert dst (owners c)).card := (Finset.card_insert_of_notMem hnot).symm
      _ ≤ (livePids c ∪ owners c).card := Finset.card_le_card hsub
      _ ≤ ipcMailboxMax := h.room
  omega

theorem sendsReach_of_postOk (h : PostOk c) : SendsReach c := by
  intro src dst msg hlive hempty
  have hmem : dst ∈ livePids c := by
    rw [mem_livePids, Ne, procPhase_eq_dead_iff_unused]
    exact hlive
  have hpos : ¬dst < 0 := not_lt.mpr (h.nonneg dst hmem)
  have hquiet := quiet_deliver h.procs dst { msg with srcPid := src, dstPid := dst }
  unfold ipcSend
  rw [if_neg (not_or.mpr ⟨hpos, hlive⟩)]
  dsimp only
  split
  · rfl
  rename_i d hd
  rw [hd] at hquiet
  have hfind : ∀ q, d.ipc.findSlot q = c.ipc.findSlot q := by
    intro q
    unfold IpcTables.findSlot
    rw [hquiet.boxes]
  rw [hfind]
  cases hslot : c.ipc.findSlot dst with
  | some slot =>
      have hbox : (d.ipc.mailboxes slot).hasMessage = false := by
        rw [inbox_of_find hslot] at hempty
        unfold mailboxMessage at hempty
        rw [hquiet.boxes]
        split at hempty
        · cases hempty
        · rename_i hmsg
          simpa using hmsg
      dsimp only
      rw [hbox]
      rfl
  | none =>
      obtain ⟨free, hfree⟩ := Option.ne_none_iff_exists'.mp (mailbox_found h hmem hslot)
      have halloc : d.ipc.allocSlot dst = some (free, d.ipc.setMailbox free
          { d.ipc.mailboxes free with used := true, pid := dst, hasMessage := false }) := by
        unfold IpcTables.allocSlot
        rw [hquiet.boxes, hfree]
        rfl
      dsimp only
      rw [halloc]
      have hbox : ((d.ipc.setMailbox free { d.ipc.mailboxes free with
          used := true, pid := dst, hasMessage := false }).mailboxes free).hasMessage = false := by
        simp [IpcTables.setMailbox]
      dsimp only
      rw [hbox]
      rfl

theorem postOk_allocSlot {t' : IpcTables} {slot : Fin ipcMailboxMax} (h : PostOk c)
    (hlive : dst ∈ livePids c) (hnone : c.ipc.findSlot dst = none)
    (halloc : c.ipc.allocSlot dst = some (slot, t')) : PostOk { c with ipc := t' } := by
  have hspec := (allocSlot_spec h.boxes hnone halloc).2.2
  refine postOk_of_subset h (Fewer.refl h.procs) hspec.distinct ?_
  unfold IpcTables.allocSlot at halloc
  obtain ⟨free, -, hpair⟩ := Option.map_eq_some_iff.mp halloc
  cases hpair
  refine SlotTable.keys_update_subset.trans (Finset.union_subset ?_ Finset.subset_union_right)
  exact Finset.singleton_subset_iff.mpr (Finset.mem_union_left _ hlive)

theorem postOk_setMailbox {box : IpcMailbox} {slot : Fin ipcMailboxMax} (h : PostOk c)
    (hkey : box.key = (c.ipc.mailboxes slot).key) :
    PostOk { c with ipc := c.ipc.setMailbox slot box } :=
  postOk_of_subset h (Fewer.refl h.procs) (h.boxes.update_same hkey)
    ((SlotTable.keys_update_subset_old (Or.inl hkey)).trans Finset.subset_union_right)

theorem postOk_send (h : PostOk c) (src dst : Int) (msg : IpcMessage) :
    PostOk (ipcSend c src dst msg).2 := by
  have hquiet := quiet_deliver h.procs dst { msg with srcPid := src, dstPid := dst }
  unfold ipcSend
  split
  · exact h
  rename_i hguard
  dsimp only
  split
  · rename_i d hd
    rw [hd] at hquiet
    exact postOk_quiet h hquiet
  rename_i d hd
  rw [hd] at hquiet
  have hd' : PostOk d := postOk_quiet h hquiet
  have hstored : ∀ (c : Core) (slot : Fin ipcMailboxMax), PostOk c →
      PostOk (if (c.ipc.mailboxes slot).hasMessage then (false, c)
        else (true, { c with ipc := c.ipc.setMailbox slot { c.ipc.mailboxes slot with
          message := { msg with srcPid := src, dstPid := dst }, hasMessage := true } })).2 := by
    intro c slot hc
    split
    · exact hc
    · exact postOk_setMailbox hc rfl
  split
  · exact hd'
  rename_i slot ipc hfound
  split at hfound
  · cases hfound
    exact hstored d slot hd'
  · rename_i hnone
    have hlive : dst ∈ livePids d := by
      rw [mem_livePids, proc_of_undelivered hd, Ne, procPhase_eq_dead_iff_unused]
      exact (not_or.mp hguard).2
    exact hstored _ slot (postOk_allocSlot hd' hlive hnone hfound)

theorem postOk_recv (h : PostOk c) (pid : Int) :
    PostOk (((ipcRecv c pid).map Prod.snd).getD c) := by
  unfold ipcRecv
  split
  · exact h
  split
  · exact h
  split
  · exact postOk_setMailbox h rfl
  · exact h

/-! ## Spawning -/

theorem postOk_spawn (h : PostOk c) (name : Option CStr) (ppid : Int)
    (hroom : (livePids c ∪ owners c).card < ipcMailboxMax) :
    PostOk { c with proc := ((procSpawnKernel c.proc name ppid).map Prod.snd).getD c.proc } := by
  cases hspawn : procSpawnKernel c.proc name ppid with
  | none => exact h
  | some spawned =>
      obtain ⟨pid, proc⟩ := spawned
      have hspec := h.procs.spawned hspawn
      change PostOk { c with proc := proc }
      have hlive : livePids { c with proc := proc } ⊆ insert c.proc.nextPid (livePids c) := by
        intro p hp
        rw [mem_livePids] at hp
        rw [Finset.mem_insert, mem_livePids]
        by_cases hpid : p = c.proc.nextPid
        · exact Or.inl hpid
        · right
          rwa [hspec.phase, if_neg hpid] at hp
      refine ⟨⟨hspec.distinct, fun p hp => ?_⟩, h.boxes, fun p hp => ?_, ?_, ?_⟩
      · change procPhase proc p ≠ .dead at hp
        change p < proc.nextPid
        rw [hspec.next]
        by_cases hpid : p = c.proc.nextPid
        · omega
        · rw [hspec.phase, if_neg hpid] at hp
          have := h.procs.below p hp
          omega
      · rcases Finset.mem_insert.mp (hlive hp) with rfl | hp
        · exact h.next
        · exact h.nonneg p hp
      · change 0 ≤ proc.nextPid
        rw [hspec.next]
        have := h.next
        omega
      · calc (livePids { c with proc := proc } ∪ owners c).card
            ≤ (insert c.proc.nextPid (livePids c ∪ owners c)).card := by
              apply Finset.card_le_card
              rw [← Finset.insert_union]
              exact Finset.union_subset_union_left hlive
          _ ≤ (livePids c ∪ owners c).card + 1 := Finset.card_insert_le _ _
          _ ≤ ipcMailboxMax := hroom

/-! ## Runs -/

theorem postOk_step (h : PostOk c) (hroom : RoomToSpawn c e) (hstep : postStep c e = some c') :
    PostOk c' := by
  have hmail : ∀ proc, Fewer c.proc proc → PostOk { c with proc := proc } :=
    fun _ hprocs => postOk_quiet h ⟨rfl, hprocs⟩
  cases e with
  | spawn name ppid =>
      simp only [postStep] at hstep
      split at hstep
      · cases hstep
      · cases hstep
        exact postOk_spawn h name ppid hroom
  | send src dst msg =>
      cases hstep
      exact postOk_send h src dst msg
  | recv pid =>
      cases hstep
      exact postOk_recv h pid
  | block pid ptr =>
      cases hstep
      exact postOk_quiet h (quiet_block h.procs pid ptr)
  | exit pid code =>
      cases hstep
      exact hmail _ (fewer_procExit h.procs pid code)
  | reap pid =>
      cases hstep
      exact hmail _ (fewer_procReapPid h.procs pid)
  | wait ppid =>
      cases hstep
      exact hmail _ (fewer_procWait h.procs ppid)

/-- The tables after `proc_init` and `ipc_init`; nothing is assumed of the rest. -/
structure JustStarted (c : Core) : Prop where
  proc : c.proc = procInit
  ipc : c.ipc = ipcInit

theorem postOk_justStarted (h : JustStarted c) : PostOk c := by
  have hlive : livePids c ⊆ {0} := by
    unfold livePids
    rw [h.proc]
    refine SlotTable.keys_update_subset.trans ?_
    rw [SlotTable.keys_const rfl, Finset.union_empty]
    exact Finset.Subset.refl _
  have howners : owners c = ∅ := by
    unfold owners
    rw [h.ipc]
    exact SlotTable.keys_const rfl
  refine ⟨?_, ?_, fun p hp => ?_, ?_, ?_⟩
  · rw [h.proc]
    exact procsOk_procInit
  · rw [h.ipc]
    exact SlotTable.distinct_const rfl
  · rw [Finset.mem_singleton.mp (hlive hp)]
  · rw [h.proc]
    decide
  · rw [howners, Finset.union_empty]
    have hle := Finset.card_le_card hlive
    exact hle.trans (by decide)

/-- In runs that spawn a process only while the live pids and those that still own a mailbox
are fewer than 32, every send to a live process without an undelivered message succeeds. -/
theorem sendsReach_run {es : List PostEvent} (hstart : JustStarted c)
    (hroom : Runs.AllSteps postStep RoomToSpawn c es) (hrun : Runs.run postStep c es = some c') :
    SendsReach c' := by
  have hok : PostOk c' := Runs.invariant (I := PostOk)
    (fun _ _ _ hroom h hstep => postOk_step h hroom hstep) hroom hrun (postOk_justStarted hstart)
  exact sendsReach_of_postOk hok

/-- The tables at start-up, with nothing in memory. -/
def postInit : Core :=
  { task := taskingInit, proc := procInit, ipc := ipcInit, elf := ⟨fun _ => -1, fun _ _ => 0⟩
    ring3 := ⟨false, 0, 0, 0, {}⟩, mem := fun _ => 0 }

/-- Process 1 gets a message, dies unheard, and process 2 takes its slot. -/
def demoPost : List PostEvent :=
  [.spawn none 0, .send 0 1 emptyMessage, .exit 1 0, .reap 1, .spawn none 0]

theorem sendsReach_demo : ∃ c, Runs.run postStep postInit demoPost = some c ∧ SendsReach c := by
  have hroom : Runs.AllSteps postStep RoomToSpawn postInit demoPost := by decide +kernel
  obtain ⟨c, hrun⟩ := Option.isSome_iff_exists.mp
    (by decide +kernel : (Runs.run postStep postInit demoPost).isSome = true)
  exact ⟨c, hrun, sendsReach_run ⟨rfl, rfl⟩ hroom hrun⟩

/-- Every process gets a message, one dies and another takes its slot in the process table,
but the 32 mailboxes still belong to the first 32. -/
def fullPost : List PostEvent :=
  List.replicate 31 (.spawn none 0) ++
    ((List.range 32).map fun n => .send 0 n emptyMessage) ++ [.exit 1 0, .reap 1, .spawn none 0]

theorem not_sendsReach_full :
    ¬∀ es c, Runs.run postStep postInit es = some c → SendsReach c := by
  intro hall
  have hfacts : (Runs.run postStep postInit fullPost).map (fun c =>
      decide (procStateOf c.proc 32 ≠ .unused) && decide (inbox c.ipc 32 = none) &&
        !(ipcSend c 0 32 emptyMessage).1) = some true := by decide +kernel
  obtain ⟨c, hrun, hc⟩ := Option.map_eq_some_iff.mp hfacts
  simp only [Bool.and_eq_true, decide_eq_true_eq, Bool.not_eq_true'] at hc
  obtain ⟨⟨hlive, hempty⟩, hfail⟩ := hc
  rw [hall fullPost c hrun 0 32 emptyMessage hlive hempty] at hfail
  cases hfail

end SlopOS.Proofs.Mailboxes
