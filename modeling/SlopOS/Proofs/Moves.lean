import SlopOS.Proofs.Dispatch
import SlopOS.Proofs.Launching
import SlopOS.Proofs.StepOutcomes
/-!
# What one step can do

`Move` lists the kinds of steps the system can take and says what each does to
the processes; everything that later modules prove about runs goes through it.
`step_ok` is the case analysis over the events, and keeps the invariant `SysOk`
on the way.
-/

namespace SlopOS.Proofs.Moves

open SlopOS.Support SlopOS.Kernel
open SlopOS.Proofs.Tables SlopOS.Proofs.Mail SlopOS.Proofs.Scheduling
open SlopOS.Proofs.TableInvariant SlopOS.Proofs.Loader SlopOS.Proofs.UserPointers
open SlopOS.Proofs.SystemCalls SlopOS.Proofs.Messages SlopOS.Proofs.Leaving
open SlopOS.Proofs.Views SlopOS.Proofs.Dispatch SlopOS.Proofs.Launching
open SlopOS.Proofs.StepOutcomes

/-- The message that the process in Ring 3 passes to a send. -/
def outgoing (c : Core) (pid : Int) : IpcMessage :=
  { loadMessage c.mem c.ring3.regs.ebx with srcPid := pid }

def sendNumbers : List U32 := [sysIpcSend, sysIpcReply]

/-- The running process `pid` has stopped in state `c` with its image saved. -/
structure Stop (mach : Machine) (c : Core) (pid : Int) (image : ProcImage)
    (s : Fin elfProcSlots) (phase : Phase) (c' : Core) : Prop where
  owner : OwnerOk mach c pid image s
  slot : slotOf c.elf pid = some s
  stopped : Stopped c pid image s c.ring3.regs phase c'

inductive Move (mach : Machine) (safe : Prop) (c : Core) : Ctl → Event → Core → Ctl → Prop
  | quiet {ctl : Ctl} {e : Event} {c' : Core} (noCall : e ≠ .syscall)
      (view : procView c' = procView c) (keeps : Keeps c c')
      (kept : safe → ∀ q, MemKept c c' q) : Move mach safe c ctl e c' ctl
  | work {pid : Int} {caller : Caller} {e : Event} {c' : Core}
      (silent : e = .syscall → c.ring3.regs.eax ∉ ipcNumbers ∨ c'.ring3.regs.eax ≠ 0)
      (view : procView c' = procView c) (keeps : Keeps c c')
      (kept : ∀ q, q ≠ pid → MemKept c c' q) :
      Move mach safe c (.user pid caller) e c' (.user pid caller)
  | received {pid : Int} {caller : Caller} {msg : IpcMessage} {c' : Core}
      (number : c.ring3.regs.eax = sysIpcRecv) (result : c'.ring3.regs.eax = 0)
      (full : inbox c.ipc pid = some msg)
      (view : procView c' =
        Function.update (procView c) pid { procView c pid with inbox := none })
      (mem : c'.mem = storeMessage c.mem c.ring3.regs.ebx msg) (keeps : Keeps c c')
      (kept : ∀ q, q ≠ pid → MemKept c c' q) :
      Move mach safe c (.user pid caller) .syscall c' (.user pid caller)
  | queued {pid dst : Int} {caller : Caller} {c' : Core}
      (number : c.ring3.regs.eax ∈ sendNumbers) (result : c'.ring3.regs.eax = 0)
      (target : (outgoing c pid).dstPid = dst) (live : procPhase c.proc dst ≠ .dead)
      (notReceiving : NotReceiving c dst) (empty : inbox c.ipc dst = none)
      (view : procView c' =
        Function.update (procView c) dst { procView c dst with inbox := some (outgoing c pid) })
      (keeps : Keeps c c') (kept : ∀ q, MemKept c c' q) :
      Move mach safe c (.user pid caller) .syscall c' (.user pid caller)
  | delivered {pid dst : Int} {caller : Caller} {ptr : U32} {image : ProcImage}
      {s : Fin elfProcSlots} {c₁ d c' : Core}
      (number : c.ring3.regs.eax ∈ sendNumbers) (result : c'.ring3.regs.eax = 0)
      (target : (outgoing c pid).dstPid = dst)
      (send : ipcUnblockDeliver c dst (outgoing c pid) = (true, d))
      (delivered : Delivered mach c dst (outgoing c pid) ptr image s c₁ d)
      (core : c' = { d with ring3 := c'.ring3 }) :
      Move mach safe c (.user pid caller) .syscall c' (.user pid caller)
  | yielded {pid : Int} {caller : Caller} {image : ProcImage} {s : Fin elfProcSlots} {c' : Core}
      (number : c.ring3.regs.eax = sysYield) (stop : Stop mach c pid image s .runnable c') :
      Move mach safe c (.user pid caller) .syscall c' .shell
  | blocked {pid : Int} {caller : Caller} {image : ProcImage} {s : Fin elfProcSlots}
      {ipc : IpcTables} {c' : Core}
      (number : c.ring3.regs.eax = sysIpcRecv) (empty : inbox c.ipc pid = none)
      (within : Within image c.ring3.regs.ebx ipcMessageSize)
      (waits : BlockedAt c.ipc pid c.ring3.regs.ebx ipc)
      (stop : Stop mach { c with ipc := ipc } pid image s .blocked c') :
      Move mach safe c (.user pid caller) .syscall c' .shell
  | exited {pid : Int} {caller : Caller} {r : Ring3} {c' : Core}
      (number : c.ring3.regs.eax = sysExit ∨ c.ring3.regs.eax = sysRetKernel)
      (gone : Gone { c with ring3 := r } c' pid) :
      Move mach safe c (.user pid caller) .syscall c' .shell
  | launched {pid : Int} {e : Event} {image : ProcImage} {c' : Core} (noCall : e ≠ .syscall)
      (launched : Launched mach safe c pid image c') :
      Move mach safe c .shell e c' (.user pid .run)
  | resumed {pid : Int} {caller : Caller} {e : Event} {image : ProcImage}
      {s : Fin elfProcSlots} {c' : Core}
      (how : (e = .autoResume ∧ procPhase c.proc pid = .runnable) ∨
        ∃ cwd output, e = .resume pid cwd output)
      (found : procGetImage c.proc pid = some image) (loaded : image.loaded = true)
      (valid : image.contextValid = true) (slot : slotOf c.elf pid = some s)
      (fits : ImageOk mach image s) (resumed : Resumed c pid image s c') :
      Move mach safe c .shell e c' (.user pid caller)

/-- The step is a delivery of `msg` to `p` by `ipc_unblock_deliver`. -/
def DeliveredBy (c c' : Core) (p : Int) (msg : IpcMessage) : Prop :=
  ∃ d, ipcUnblockDeliver c p msg = (true, d) ∧ c' = { d with ring3 := c'.ring3 }

def isCall : Event → Bool
  | .syscall => true
  | _ => false

def runner : Ctl → Option Int
  | .shell => none
  | .user pid _ => some pid

/-- A descriptor in use was in use before, or was just given to the running
process. -/
def FdsMove (s s' : Sys) : Prop :=
  ∀ i, (s'.kernel.files.fds i).used = true →
    ((s.kernel.files.fds i).used = true ∧
      (s'.kernel.files.fds i).pid = (s.kernel.files.fds i).pid) ∨
    (3 ≤ i.val ∧ s'.ctl = s.ctl ∧ ∃ caller, s.ctl = .user (s'.kernel.files.fds i).pid caller)

/-- The condition under which a step loads nothing outside the user window. -/
def EventSafe (b : Boot) (k : KState) : Event → Prop
  | .launch path _ cwd _ => LaunchSafe b.mach k.files.fs cwd path
  | _ => True

structure StepOk (b : Boot) (s : Sys) (e : Event) (s' : Sys) : Prop where
  ok : SysOk b.mach s'
  move : Move b.mach (EventSafe b s.kernel e) s.kernel.core s.ctl e s'.kernel.core s'.ctl
  fds : FdsMove s s'

theorem isCall_iff {e : Event} : isCall e = true ↔ e = .syscall := by
  cases e <;> simp [isCall]

variable {b : Boot} {mach : Machine} {k k' : KState} {c c' : Core} {pid : Int} {image : ProcImage}
variable {sl : Fin elfProcSlots} {caller : Caller} {e : Event} {s s' : Sys}

theorem fdsMove_same (h : s'.kernel.files.fds = s.kernel.files.fds) : FdsMove s s' := by
  intro i hused
  rw [h] at hused ⊢
  exact Or.inl ⟨hused, rfl⟩

/-! ## The process stays in Ring 3 -/

def SameRing (r r' : Ring3) : Prop := { r' with regs := r.regs } = r

theorem running_of_same (h : Running c pid) (hr : SameRing c.ring3 c'.ring3)
    (himg : ∃ image, procGetImage c'.proc pid = some image ∧ image.loaded = true) :
    Running c' pid := by
  refine ⟨?_, ?_, ?_, h.pos, himg⟩
  · exact (congrArg Ring3.active hr).trans h.active
  · exact (congrArg Ring3.currentPid hr).trans h.current
  · exact (congrArg Ring3.stopReason hr).trans h.stop

theorem stepOk_work {r : Ring3} {m : ByteMem.Mem} (hs : SysOk b.mach s)
    (hctl : s.ctl = .user pid caller) (hown : OwnerOk b.mach s.kernel.core pid image sl)
    (hslot : slotOf s.kernel.core.elf pid = some sl)
    (hm : SameOutside (Own image) s.kernel.core.mem m)
    (hr : SameRing s.kernel.core.ring3 r)
    (hcore : k'.core = { s.kernel.core with mem := m, ring3 := r })
    (hfds : FdsOk pid s.kernel.files.fds k'.files.fds)
    (hsilent : e = .syscall → s.kernel.core.ring3.regs.eax ∉ ipcNumbers ∨ r.regs.eax ≠ 0) :
    StepOk b s e ⟨k', .user pid caller⟩ := by
  have hrun := hs.ctl
  rw [hctl] at hrun
  refine ⟨⟨?_, ?_, ?_, ?_⟩, ?_, fun i hused => ?_⟩
  · change Base b.mach k'.core
    rw [hcore]
    exact hs.base.setMem m r
  · change CurrentOk k'.core
    rw [hcore]
    exact currentOk_ofSame hs.current rfl fun _ => rfl
  · change Running k'.core pid
    rw [hcore]
    exact running_of_same hrun.1 hr hrun.1.image
  · intro i hi
    change k'.core.task.findSlotByPid pid = some i
    rw [hcore]
    exact hrun.2 i hi
  · change Move _ _ _ s.ctl e k'.core (.user pid caller)
    rw [hctl, hcore]
    refine .work hsilent (procView_congr (fun _ => rfl) (fun _ => rfl) rfl)
      (keeps_of_elf rfl rfl) fun q hq => ?_
    exact memKept_of_own hs.base hslot hown.fits hq (fun _ _ => rfl) hm
  · rcases hfds i hused with hold | ⟨hpid, hge⟩
    · exact Or.inl hold
    · refine Or.inr ⟨hge, hctl.symm, caller, ?_⟩
      rw [hctl]
      exact congrArg (Ctl.user · caller) hpid.symm

/-- The state after a call that goes back to Ring 3 with result `ret`. -/
def backToUser (k : KState) (ret : Int) : KState :=
  k.setCore { k.core with ring3 :=
    { k.core.ring3 with regs := { k.core.ring3.regs with eax := toU32 ret } } }

theorem ownAddress_iff {a : U32} : ownAddress image a = true ↔ Own image a := by
  unfold ownAddress Own InImage InStack
  rw [Bool.or_eq_true, decide_eq_true_eq, decide_eq_true_eq]

theorem stepOk_user (regs : UserContext) (bytes : ByteMem.Mem) (hs : SysOk b.mach s)
    (hctl : s.ctl = .user pid caller) : StepOk b s (.user regs bytes)
      ⟨s.kernel.setCore (runUser s.kernel.core pid regs bytes), .user pid caller⟩ := by
  have hrun := hs.ctl
  rw [hctl] at hrun
  obtain ⟨image, sl, hown, hslot⟩ := ownerOk_of_running hs.base hrun.1
  have hcore : runUser s.kernel.core pid regs bytes = { s.kernel.core with
      mem := fun a => if ownAddress image a then bytes a else s.kernel.core.mem a
      ring3 := { s.kernel.core.ring3 with regs := regs } } := by
    unfold runUser
    rw [hown.found]
  refine stepOk_work hs hctl hown hslot (fun a ha => ?_) ?_ hcore (fdsOk_refl pid _) nofun
  · exact if_neg (mt ownAddress_iff.mp ha)
  · rfl

theorem stepOk_tick (hs : SysOk b.mach s) : StepOk b s .tick
    ⟨s.kernel.setCore (schedulerOnTimerTick s.kernel.core), s.ctl⟩ := by
  obtain ⟨hre, hcur⟩ := schedulerOnTimerTick_spec hs.base.synced hs.current
  have hsame : Unchanged b.mach (EventSafe b s.kernel .tick) s.kernel.core _ :=
    unchanged_of_quiet hs.base hcur hre
  refine ⟨⟨hsame.base, hcur, ?_⟩, .quiet nofun hsame.view hsame.keeps hsame.kept,
    fdsMove_same rfl⟩
  have hctl := hs.ctl
  cases hc : s.ctl with
  | shell => trivial
  | user pid caller =>
      rw [hc] at hctl
      obtain ⟨image, himg, hl⟩ := hctl.1.image
      have hring : SameRing s.kernel.core.ring3 (schedulerOnTimerTick s.kernel.core).ring3 := by
        rw [hre.ring3]
        rfl
      refine ⟨running_of_same hctl.1 hring ⟨image, (hre.image pid).trans himg, hl⟩,
        fun i hi => ?_⟩
      exact (congrFun hre.find pid).trans (hctl.2 i hi)

theorem stepOk_call {buffers : List (U32 × Nat)} {o : Outcome} {ret : Int} (hs : SysOk b.mach s)
    (hctl : s.ctl = .user pid caller) (hown : OwnerOk b.mach s.kernel.core pid image sl)
    (hslot : slotOf s.kernel.core.elf pid = some sl) (ho : CallOk image s.kernel buffers o)
    (hdone : o.done = some (ret, k'))
    (hsilent : s.kernel.core.ring3.regs.eax ∉ ipcNumbers ∨ toU32 ret ≠ 0) :
    StepOk b s .syscall ⟨backToUser k' ret, .user pid caller⟩ := by
  obtain ⟨m, hcore, hm⟩ := ho.core _ _ hdone
  have hfds := ho.fds _ _ hdone
  have hpid : s.kernel.pid = pid := hown.current
  rw [hpid] at hfds
  refine stepOk_work (r := { s.kernel.core.ring3 with
    regs := { s.kernel.core.ring3.regs with eax := toU32 ret } }) hs hctl hown hslot hm rfl ?_ hfds
    fun _ => hsilent
  unfold backToUser KState.setCore
  rw [hcore]

/-! ## Messages -/

theorem stepOk_refused {ret : Int} (hs : SysOk b.mach s) (hctl : s.ctl = .user pid caller)
    (hown : OwnerOk b.mach s.kernel.core pid image sl)
    (hslot : slotOf s.kernel.core.elf pid = some sl) (hret : toU32 ret ≠ 0) :
    StepOk b s .syscall ⟨backToUser s.kernel ret, .user pid caller⟩ :=
  stepOk_work (r := { s.kernel.core.ring3 with
    regs := { s.kernel.core.ring3.regs with eax := toU32 ret } }) hs hctl hown hslot
    (SameOutside.refl _ s.kernel.core.mem) rfl rfl (fdsOk_refl pid _) fun _ => Or.inr hret

theorem stepOk_send {ret : Int} (hs : SysOk b.mach s) (hctl : s.ctl = .user pid caller)
    (hown : OwnerOk b.mach s.kernel.core pid image sl)
    (hslot : slotOf s.kernel.core.elf pid = some sl)
    (hnum : s.kernel.core.ring3.regs.eax ∈ sendNumbers)
    (hdone : (ksysIpcSend s.kernel s.kernel.core.ring3.regs.ebx).done = some (ret, k')) :
    ret ≠ errBlocked ∧ StepOk b s .syscall ⟨backToUser k' ret, .user pid caller⟩ := by
  have hrun := hs.ctl
  rw [hctl] at hrun
  have hpid : s.kernel.pid = pid := hown.current
  unfold ksysIpcSend ksysIpcSendWith at hdone
  split at hdone
  · cases hdone
    exact ⟨by decide, stepOk_refused hs hctl hown hslot (by decide)⟩
  rw [hpid] at hdone
  have hsend := ipcSend_spec hs.base pid (outgoing s.kernel.core pid).dstPid
    (loadMessage s.kernel.core.mem s.kernel.core.ring3.regs.ebx)
  change SendResult b.mach s.kernel.core pid (outgoing s.kernel.core pid).dstPid _
    (ipcSend s.kernel.core pid (loadMessage s.kernel.core.mem
      s.kernel.core.ring3.regs.ebx).dstPid _) at hsend
  have hkeep := base_send hs.base hs.current hsend
  dsimp only at hdone
  generalize hres : ipcSend s.kernel.core pid (loadMessage s.kernel.core.mem
    s.kernel.core.ring3.regs.ebx).dstPid _ = result at hdone hsend hkeep
  cases hsend with
  | failed _ =>
      cases hdone
      exact ⟨(by decide : errAgain ≠ errBlocked),
        stepOk_refused hs hctl hown hslot (by decide : toU32 errAgain ≠ 0)⟩
  | queued live notReceiving empty hset =>
      cases hdone
      refine ⟨(by decide : (0 : Int) ≠ errBlocked), ⟨hkeep.1.setMem s.kernel.core.mem _,
        currentOk_ofSame hkeep.2 rfl fun _ => rfl, ?_, hrun.2⟩, ?_, fdsMove_same rfl⟩
      · exact running_of_same hrun.1 rfl hrun.1.image
      · rw [hctl]
        refine .queued hnum rfl rfl live notReceiving empty ?_ (keeps_of_elf rfl rfl)
          fun q => memKept_of_same rfl rfl
        exact procView_inboxSet hset
  | delivered live hsent hdel =>
      cases hdone
      rename_i ptr im sl' c₁ d
      have hring : d.ring3 = s.kernel.core.ring3 := hdel.woken.ring3.trans hdel.wrote.ring3
      have himg : ∃ image, procGetImage d.proc pid = some image ∧ image.loaded = true := by
        rw [hdel.woken.image, hdel.wrote.proc]
        split
        · exact ⟨_, rfl, hdel.loaded⟩
        · exact hrun.1.image
      refine ⟨(by decide : (0 : Int) ≠ errBlocked), ⟨hkeep.1.setMem d.mem _,
        currentOk_ofSame hkeep.2 rfl fun _ => rfl, ?_, fun i hi => ?_⟩, ?_, fdsMove_same rfl⟩
      · refine running_of_same hrun.1 ?_ himg
        change { d.ring3 with regs := s.kernel.core.ring3.regs } = s.kernel.core.ring3
        rw [hring]
      · change d.task.findSlotByPid pid = some i
        rw [hdel.woken.find, hdel.wrote.task]
        exact hrun.2 i hi
      · rw [hctl]
        exact .delivered hnum rfl rfl hsent hdel rfl

theorem callerEnd_saved {rc : Int} {why : ExecStopReason} (h : why ≠ .exited) :
    callerEnd caller c pid rc (some why) = c := by
  cases caller <;> cases why <;> first | rfl | exact absurd rfl h

theorem stopUser_eq {stop : Option ExecStopReason} (h : taskRunUserStop k.core pid = (stop, c')) :
    stopUser k pid caller =
      ⟨k.setCore (callerEnd caller c' pid (toInt k.core.ring3.exitCode) stop), .shell⟩ := by
  unfold stopUser
  rw [h]

theorem stopUser_saved (caller : Caller) {reason : U32} {task : TaskState} {proc : ProcState} {why : ExecStopReason}
    (hcase : (reason = 1 ∧ task = .ready ∧ proc = .ready ∧ why = .yielded) ∨
      (reason = 3 ∧ task = .blocked ∧ proc = .blocked ∧ why = .blocked))
    (hsync : Synced k.core) (hkernel : procPhase k.core.proc 0 = .runnable)
    (hown : OwnerOk mach k.core pid image sl) (hslot : slotOf k.core.elf pid = some sl)
    (frame : UserContext) :
    ∃ c', stopUser (k.setCore (returnToKernel (setStop (syscallSaveYieldContext k.core frame)
        reason))) pid caller = ⟨k.setCore c', .shell⟩ ∧
      Stopped k.core pid image sl frame (procStatePhase proc) c' ∧ CurrentOk c' := by
  have htask : task ≠ .unused ∧ task ≠ .running ∧ taskStatePhase task = procStatePhase proc ∧
      why ≠ .exited := by
    rcases hcase with ⟨-, rfl, rfl, rfl⟩ | ⟨-, rfl, rfl, rfl⟩ <;> decide
  obtain ⟨c', heq, hstop, hcur⟩ := stop_spec reason task proc why hsync hkernel hown hslot frame
    htask.1 htask.2.1 htask.2.2.1
  refine ⟨c', ?_, hstop, hcur⟩
  have hrun : taskRunUserStop (returnToKernel (setStop (syscallSaveYieldContext k.core frame)
      reason)) pid = (some why, c') := by
    rw [← heq]
    rcases hcase with ⟨rfl, rfl, rfl, rfl⟩ | ⟨rfl, rfl, rfl, rfl⟩ <;> rfl
  let stopped : KState :=
    k.setCore (returnToKernel (setStop (syscallSaveYieldContext k.core frame) reason))
  refine (stopUser_eq (k := stopped) hrun).trans ?_
  rw [callerEnd_saved htask.2.2.2]
  rfl

theorem stepOk_recv {ret : Int} (hs : SysOk b.mach s) (hctl : s.ctl = .user pid caller)
    (hown : OwnerOk b.mach s.kernel.core pid image sl)
    (hslot : slotOf s.kernel.core.elf pid = some sl)
    (hnum : s.kernel.core.ring3.regs.eax = sysIpcRecv)
    (hdone : (ksysIpcRecv s.kernel s.kernel.core.ring3.regs.ebx).done = some (ret, k')) :
    (ret ≠ errBlocked → StepOk b s .syscall ⟨backToUser k' ret, .user pid caller⟩) ∧
      (ret = errBlocked → StepOk b s .syscall (stopUser (k'.setCore (returnToKernel
        (setStop (syscallSaveYieldContext k'.core s.kernel.core.ring3.regs) 3))) pid caller)) := by
  have hrun := hs.ctl
  rw [hctl] at hrun
  have hpid : s.kernel.pid = pid := hown.current
  unfold ksysIpcRecv at hdone
  split at hdone
  · cases hdone
    exact ⟨fun _ => stepOk_refused hs hctl hown hslot (by decide), fun h => absurd h (by decide)⟩
  rename_i hgood
  rw [message_refused_iff hown, not_not] at hgood
  rw [hpid] at hdone
  split at hdone
  · rename_i hnone
    have hempty := (ipcRecv_eq_none_iff (Int.le_of_lt hown.pos)).mp hnone
    rcases hblock : ipcBlockRecv s.kernel.core pid s.kernel.core.ring3.regs.ebx with ⟨ok, c'⟩
    rw [hblock] at hdone
    cases hdone
    rcases ipcBlockRecv_spec hs.base.mail.waiters hblock with ⟨rfl, rfl⟩ | ⟨rfl, ipc, rfl, hwait⟩
    · refine ⟨fun _ => ?_, fun h => absurd h (by decide)⟩
      exact stepOk_refused hs hctl hown hslot (by decide : toU32 errAgain ≠ 0)
    refine ⟨fun h => absurd rfl h, fun _ => ?_⟩
    let waits : KState := { s.kernel with core := { s.kernel.core with ipc := ipc } }
    have hown' : OwnerOk b.mach waits.core pid image sl :=
      ⟨hown.active, hown.current, hown.pos, hown.found, hown.loaded, hown.fits⟩
    obtain ⟨c', heq, hstop, hcur⟩ := stopUser_saved (k := waits) caller
      (Or.inr ⟨rfl, rfl, rfl, rfl⟩) ⟨hs.base.synced.procs, hs.base.synced.tasks,
        hs.base.synced.sync⟩ hs.base.kernel hown' hslot s.kernel.core.ring3.regs
    change StepOk b s .syscall (stopUser (waits.setCore _) pid caller)
    rw [heq]
    -- the table invariant wants the context valid before the process waits
    have hstop' : Stopped s.kernel.core pid image sl s.kernel.core.ring3.regs .blocked
        { c' with ipc := s.kernel.core.ipc } :=
      ⟨rfl, hstop.mem, hstop.owners, hstop.others, hstop.saved, hstop.nextPid, hstop.image,
        hstop.phase, ⟨hstop.synced.procs, hstop.synced.tasks, hstop.synced.sync⟩⟩
    have hbase := base_stopped hs.base hown hslot hstop' (by decide)
    have himg : procGetImage c'.proc pid =
        some (stoppedImage image s.kernel.core.ring3.regs) := by
      refine (hstop'.image pid).trans ?_
      rw [if_pos rfl]
    have hbase' := hbase.block hwait himg hown.loaded rfl
    have hipc : ({ c' with ipc := ipc } : Core) = c' :=
      congrArg (fun t => ({ c' with ipc := t } : Core)) hstop.ipc.symm
    refine ⟨⟨hipc ▸ hbase', hcur, trivial⟩, ?_, fdsMove_same rfl⟩
    rw [hctl]
    exact .blocked hnum hempty hgood hwait ⟨hown', hslot, hstop⟩
  · rename_i msg c' hrecv
    obtain ⟨hfull, ipc, rfl, hset⟩ := ipcRecv_spec hs.base.mail.mailboxes hrecv
    cases hdone
    refine ⟨fun _ => ?_, fun h => absurd h (by decide)⟩
    have hbase := base_inboxSet hs.base hset
    refine ⟨⟨hbase.setMem _ _, currentOk_ofSame hs.current rfl fun _ => rfl,
      running_of_same hrun.1 rfl hrun.1.image, hrun.2⟩, ?_, fdsMove_same rfl⟩
    rw [hctl]
    refine .received hnum rfl hfull (procView_inboxSet hset) rfl (keeps_of_elf rfl rfl)
      fun q hq => ?_
    exact memKept_of_own hs.base hslot hown.fits hq (fun _ _ => rfl)
      (storeWords_ok hown rfl hgood)

/-! ## The stub -/

theorem stepOk_yield (hs : SysOk b.mach s) (hctl : s.ctl = .user pid caller)
    (hown : OwnerOk b.mach s.kernel.core pid image sl)
    (hslot : slotOf s.kernel.core.elf pid = some sl)
    (hnum : s.kernel.core.ring3.regs.eax = sysYield) :
    StepOk b s .syscall (stopUser (s.kernel.setCore (returnToKernel (setStop
      (syscallSaveYieldContext s.kernel.core s.kernel.core.ring3.regs) 1))) pid caller) := by
  obtain ⟨c', heq, hstop, hcur⟩ := stopUser_saved caller (Or.inl ⟨rfl, rfl, rfl, rfl⟩)
    hs.base.synced hs.base.kernel hown hslot s.kernel.core.ring3.regs
  rw [heq]
  refine ⟨⟨base_stopped hs.base hown hslot hstop (by decide), hcur, trivial⟩, ?_, fdsMove_same rfl⟩
  rw [hctl]
  exact .yielded hnum ⟨hown, hslot, hstop⟩

theorem stepOk_exit {r : Ring3} (hs : SysOk b.mach s) (hctl : s.ctl = .user pid caller)
    (hnum : s.kernel.core.ring3.regs.eax = sysExit ∨ s.kernel.core.ring3.regs.eax = sysRetKernel)
    (hr : r.stopReason ≠ 1 ∧ r.stopReason ≠ 3) :
    StepOk b s .syscall
      (stopUser (s.kernel.setCore { s.kernel.core with ring3 := r }) pid caller) := by
  have hrun := hs.ctl
  rw [hctl] at hrun
  have hstop : taskRunUserStop { s.kernel.core with ring3 := r } pid =
      (some .exited, leaveTask { s.kernel.core with ring3 := r } pid .zombie .zombie) := by
    unfold taskRunUserStop
    rw [if_neg hr.1, if_neg hr.2]
  obtain ⟨c', heq, hgone, hcur⟩ := exit_spec caller (toInt r.exitCode) r
    hs.base hrun.1.pos hrun.1.live hrun.2
  have hfinal : stopUser (s.kernel.setCore { s.kernel.core with ring3 := r }) pid caller =
      ⟨s.kernel.setCore c', .shell⟩ := by
    refine (stopUser_eq (k := s.kernel.setCore { s.kernel.core with ring3 := r }) hstop).trans ?_
    rw [← heq]
    rfl
  rw [hfinal]
  have hpos := hrun.1.pos
  refine ⟨⟨(hs.base.setMem s.kernel.core.mem r).gone hgone (by omega), hcur, trivial⟩, ?_,
    fdsMove_same rfl⟩
  rw [hctl]
  exact .exited hnum hgone

theorem entry_send {num a1 a2 a3 a4 a5 : U32} (hnum : num ∈ sendNumbers) :
    syscallEntry mach k num a1 a2 a3 a4 a5 = ksysIpcSend k a1 := by
  simp only [sendNumbers, List.mem_cons, List.not_mem_nil, or_false] at hnum
  rcases hnum with h | h <;> rw [h] <;> rfl

theorem stepOk_entry {ret : Int} (hs : SysOk b.mach s) (hctl : s.ctl = .user pid caller)
    (hown : OwnerOk b.mach s.kernel.core pid image sl)
    (hslot : slotOf s.kernel.core.elf pid = some sl) {regs : UserContext}
    (hregs : s.kernel.core.ring3.regs = regs) (hexit : regs.eax ≠ sysExit)
    (hdone : (syscallEntry b.mach s.kernel regs.eax regs.ebx regs.ecx regs.edx regs.esi
      regs.edi).done = some (ret, k')) :
    (ret ≠ errBlocked → StepOk b s .syscall ⟨backToUser k' ret, .user pid caller⟩) ∧
      (ret = errBlocked → StepOk b s .syscall (stopUser (k'.setCore (returnToKernel
        (setStop (syscallSaveYieldContext k'.core regs) 3))) pid caller)) := by
  subst hregs
  by_cases hsend : s.kernel.core.ring3.regs.eax ∈ sendNumbers
  · rw [entry_send hsend] at hdone
    obtain ⟨hne, hstep⟩ := stepOk_send hs hctl hown hslot hsend hdone
    exact ⟨fun _ => hstep, fun h => absurd h hne⟩
  by_cases hrecv : s.kernel.core.ring3.regs.eax = sysIpcRecv
  · rw [hrecv] at hdone
    exact stepOk_recv hs hctl hown hslot hrecv hdone
  have hipc : s.kernel.core.ring3.regs.eax ∉ ipcNumbers := by
    unfold ipcNumbers
    unfold sendNumbers at hsend
    simp only [List.mem_cons, List.not_mem_nil, or_false, not_or] at hsend ⊢
    exact ⟨hsend.1, hrecv, hsend.2⟩
  have hok := syscallEntry_ok hown _ s.kernel.core.ring3.regs.ebx
    s.kernel.core.ring3.regs.ecx s.kernel.core.ring3.regs.edx s.kernel.core.ring3.regs.esi
    s.kernel.core.ring3.regs.edi hipc hexit
  refine ⟨fun _ => stepOk_call hs hctl hown hslot hok hdone (Or.inl hipc), fun h => ?_⟩
  exact absurd h (hok.blocked _ _ hdone)

theorem stepOk_syscall (hs : SysOk b.mach s) (hctl : s.ctl = .user pid caller)
    (hstep : step b s .syscall = some s') : StepOk b s .syscall s' := by
  have hrun := hs.ctl
  rw [hctl] at hrun
  obtain ⟨image, sl, hown, hslot⟩ := ownerOk_of_running hs.base hrun.1
  unfold step at hstep
  rw [hctl] at hstep
  have hactive := hown.active
  cases userStep_cases hstep with
  | back hstub =>
      cases syscallStub_cases hstub with
      | returned hplain hdone hr =>
          obtain ⟨hreturn, -⟩ :=
            stepOk_entry hs hctl hown hslot rfl (hplain.eax_ne hactive) hdone
          exact hreturn hr
  | stopped hstub =>
      cases syscallStub_cases hstub with
      | exited hasks =>
          apply stepOk_exit hs hctl (Or.inl hasks.1)
          change s.kernel.core.ring3.stopReason ≠ 1 ∧ s.kernel.core.ring3.stopReason ≠ 3
          rw [hrun.1.stop]
          decide
      | left hasks =>
          exact stepOk_exit hs hctl (Or.inr hasks.1)
            ⟨(by decide : (2 : U32) ≠ 1), (by decide : (2 : U32) ≠ 3)⟩
      | yielded hasks => exact stepOk_yield hs hctl hown hslot hasks.1
      | blocked hplain hdone =>
          obtain ⟨-, hblock⟩ :=
            stepOk_entry hs hctl hown hslot rfl (hplain.eax_ne hactive) hdone
          exact hblock rfl

/-! ## The shells -/

theorem stepOk_files {fs : Fs} (hs : SysOk b.mach s) (hctl : s.ctl = .shell)
    (he : e ≠ .syscall) : StepOk b s e ⟨s.kernel.setFs fs, .shell⟩ := by
  have hsame : Unchanged b.mach (EventSafe b s.kernel e) s.kernel.core s.kernel.core :=
    Unchanged.refl hs.base hs.current
  refine ⟨⟨hs.base, hs.current, trivial⟩, ?_, fdsMove_same rfl⟩
  rw [hctl]
  exact .quiet he hsame.view hsame.keeps hsame.kept

theorem stepOk_launch {path : CStr} {argv : List CStr} {cwd : NodeId} {output : ConsoleTarget}
    {r : Entered} (hs : SysOk b.mach s) (hctl : s.ctl = .shell)
    (hnext : s.kernel.core.proc.nextPid < 2 ^ 31 - 1)
    (h : execRunPath b.mach s.kernel path argv ⟨output, some cwd, b.mbi, b.magic⟩ = some r) :
    StepOk b s (.launch path argv cwd output) (r.toSys .run) := by
  let ctx : ExecContext := ⟨output, some cwd, b.mbi, b.magic⟩
  have hsafe : EventSafe b s.kernel (.launch path argv cwd output) →
      LaunchSafe b.mach s.kernel.files.fs (ctx.cwd.getD vfsRoot) path := fun hsafe => hsafe
  have hstart := execRunPath_spec hs.base hs.current hnext hsafe h
  cases hstart with
  | failed unchanged fds =>
      refine ⟨⟨unchanged.base, unchanged.current, trivial⟩, ?_, fdsMove_same fds⟩
      rw [hctl]
      exact .quiet nofun unchanged.view unchanged.keeps unchanged.kept
  | started launched fds =>
      refine ⟨⟨launched.base, launched.current, launched.running, nofun⟩, ?_, fdsMove_same fds⟩
      rw [hctl]
      exact .launched nofun launched

theorem stepOk_enter (caller : Caller) (argc : Int) (argv : Nat → Option CStr) (ctx : ExecContext)
    (hs : SysOk b.mach s) (hctl : s.ctl = .shell) (hpos : 0 < pid)
    (himg : procGetImage s.kernel.core.proc pid = some image) (hl : image.loaded = true)
    (hcv : image.contextValid = true)
    (hhow : (e = .autoResume ∧ procPhase s.kernel.core.proc pid = .runnable) ∨
      ∃ cwd output, e = .resume pid cwd output)
    (hslot : ∀ i, caller = .auto i → s.kernel.core.task.findSlotByPid pid = some i) :
    ∃ k', taskRunUserEnter s.kernel pid argc argv ctx = (true, k') ∧
      StepOk b s e ⟨k', .user pid caller⟩ := by
  obtain ⟨sl, hsl, hok⟩ := hs.base.loaded pid image himg hl
  obtain ⟨k', heq, hres, hcur, hfds⟩ :=
    taskRunUserEnter_resume argc argv ctx hs.base hpos himg hl hcv hsl hok
  refine ⟨k', heq, ⟨⟨base_resumed hs.base (live_of_procGetImage himg) hres, hcur,
    ⟨hres.entered.active, hres.entered.current, hres.entered.stop, hpos, image, ?_, hl⟩,
    fun i hi => ?_⟩, ?_, fdsMove_same hfds⟩⟩
  · exact (hres.image pid).trans himg
  · exact (congrFun hres.find pid).trans (hslot i hi)
  · rw [hctl]
    exact .resumed hhow himg hl hcv hsl hok hres

theorem resumable_spec {i : Fin maxTasks} (h : resumable c i = true) :
    (c.task.tasks i).state = .ready ∧ 0 < (c.task.tasks i).pid ∧
      ∃ image, procGetImage c.proc (c.task.tasks i).pid = some image ∧
        image.loaded = true ∧ image.contextValid = true := by
  unfold resumable at h
  split at h
  · cases h
  rename_i hready
  rw [not_or, not_not, Int.not_le] at hready
  split at h
  · cases h
  · rename_i image himg
    rw [Bool.and_eq_true] at h
    exact ⟨hready.1, hready.2, image, himg, h⟩

theorem stepOk_auto {i : Fin maxTasks} {ok : Bool} (hs : SysOk b.mach s) (hctl : s.ctl = .shell)
    (hfind : Fin.find? (resumable s.kernel.core) = some i)
    (himg : procGetImage s.kernel.core.proc (s.kernel.core.task.tasks i).pid = some image)
    (henter : taskRunUserEnter s.kernel (s.kernel.core.task.tasks i).pid 0 (fun _ => none)
      ⟨image.output, image.cwd, b.mbi, b.magic⟩ = (ok, k')) :
    StepOk b s .autoResume ⟨k', enteredCtl ok (s.kernel.core.task.tasks i).pid (.auto i)⟩ := by
  obtain ⟨hready, hpos, image', himg', hl, hcv⟩ :=
    resumable_spec (Fin.find?_eq_some_iff.mp hfind).1
  obtain rfl := Option.some.inj (himg'.symm.trans himg)
  have hocc := find_of_occupied hs.base.synced i (by rw [hready]; decide)
  have hrun : procPhase s.kernel.core.proc (s.kernel.core.task.tasks i).pid = .runnable := by
    rw [← hs.base.synced.sync, taskPhase_of_find hocc, hready]
    rfl
  obtain ⟨k'', heq, hok⟩ := stepOk_enter (.auto i) 0 (fun _ => none)
    ⟨image'.output, image'.cwd, b.mbi, b.magic⟩ hs hctl hpos
    himg hl hcv (Or.inl ⟨rfl, hrun⟩) fun j hj => by cases hj; exact hocc
  rw [heq] at henter
  cases henter
  exact hok

theorem stepOk_resume {cwd : NodeId} {output : ConsoleTarget} {ok : Bool} (hs : SysOk b.mach s)
    (hctl : s.ctl = .shell) (himg : procGetImage s.kernel.core.proc pid = some image)
    (hpos : 0 < pid) (hl : image.loaded = true) (hcv : image.contextValid = true)
    (henter : taskRunUserEnter s.kernel pid 0 (fun _ => none)
      ⟨output, some cwd, b.mbi, b.magic⟩ = (ok, k')) :
    StepOk b s (.resume pid cwd output) ⟨k', enteredCtl ok pid .resume⟩ := by
  obtain ⟨k'', heq, hok⟩ := stepOk_enter .resume 0 (fun _ => none)
    ⟨output, some cwd, b.mbi, b.magic⟩ hs hctl hpos himg hl hcv (Or.inr ⟨cwd, output, rfl⟩) nofun
  rw [heq] at henter
  cases henter
  exact hok

theorem stepOk_shell (hs : SysOk b.mach s) (hctl : s.ctl = .shell)
    (hdone : ShellDone b s.kernel e s') : StepOk b s e s' := by
  cases hdone with
  | launch hnext hrun => exact stepOk_launch hs hctl hnext hrun
  | idle hnone => exact stepOk_files hs hctl nofun
  | auto hfind himage henter => exact stepOk_auto hs hctl hfind himage henter
  | kept pid cwd output => exact stepOk_files hs hctl nofun
  | resume himage hpos hloaded hvalid henter =>
      exact stepOk_resume hs hctl himage hpos hloaded hvalid henter
  | files hfiles => exact stepOk_files hs hctl (by cases hfiles <;> exact nofun)
  | tick =>
      rw [← hctl]
      exact stepOk_tick hs

/-! ## Every step -/

theorem step_ok (hs : SysOk b.mach s) (hstep : step b s e = some s') : StepOk b s e s' := by
  have hfull := hstep
  unfold step at hstep
  cases hctl : s.ctl with
  | user pid caller =>
      rw [hctl] at hstep
      cases userStep_cases hstep with
      | tick =>
          rw [← hctl]
          exact stepOk_tick hs
      | user regs bytes => exact stepOk_user regs bytes hs hctl
      | back hstub => exact stepOk_syscall hs hctl hfull
      | stopped hstub => exact stepOk_syscall hs hctl hfull
  | shell =>
      rw [hctl] at hstep
      exact stepOk_shell hs hctl (shellStep_cases hstep)

/-! ## What every move keeps -/

variable {safe : Prop} {ctl ctl' : Ctl} {q : Int}

theorem move_keeps (hm : Move mach safe c ctl e c' ctl') : Keeps c c' := by
  cases hm with
  | quiet noCall view keeps => exact keeps
  | work silent view keeps => exact keeps
  | received number result full view mem keeps => exact keeps
  | queued number result target live notReceiving empty view keeps => exact keeps
  | delivered number result target send delivered core =>
      rw [core]
      have hkeeps := keeps_delivered delivered
      exact ⟨hkeeps.next, hkeeps.slots⟩
  | yielded number stop => exact keeps_stopped stop.stopped
  | blocked number empty within waits stop =>
      have hkeeps := keeps_stopped stop.stopped
      exact ⟨hkeeps.next, hkeeps.slots⟩
  | exited number gone =>
      exact keeps_of_elf gone.nextPid (by rw [gone.elf])
  | launched noCall launched =>
      refine ⟨?_, launched.slots⟩
      rw [launched.next]
      omega
  | resumed how found loaded valid slot fits resumed => exact keeps_resumed resumed

/-- The memory of a process changes only while it runs, by a delivery to it, or by
an unsafe load. -/
theorem move_memKept (hb : Base mach c) (hsafe : safe) (hm : Move mach safe c ctl e c' ctl')
    (haway : runner ctl ≠ some q)
    (hnone : ∀ msg, ¬DeliveredBy c c' q msg) : MemKept c c' q := by
  have hne : ∀ {pid caller}, ctl = .user pid caller → q ≠ pid := by
    rintro pid caller rfl rfl
    exact haway rfl
  cases hm with
  | quiet noCall view keeps kept => exact kept hsafe q
  | work silent view keeps kept => exact kept q (hne rfl)
  | received number result full view mem keeps kept => exact kept q (hne rfl)
  | queued number result target live notReceiving empty view keeps kept => exact kept q
  | @delivered pid dst caller ptr image s c₁ d c' number result target send delivered core =>
      have hq : q ≠ dst := by
        rintro rfl
        exact hnone _ ⟨d, send, core⟩
      have hkept := memKept_delivered hb delivered hq
      rw [core]
      exact hkept
  | yielded number stop => exact memKept_stopped stop.slot stop.stopped (hne rfl)
  | blocked number empty within waits stop =>
      have hkept := memKept_stopped stop.slot stop.stopped (hne rfl)
      exact hkept
  | exited number gone => exact memKept_of_same (by rw [gone.elf]) gone.mem
  | launched noCall launched => exact launched.kept hsafe q
  | resumed how found loaded valid slot fits resumed => exact memKept_resumed hb fits resumed

/-- The image record of a process changes only while it runs, by a delivery to it,
or when it is launched. -/
theorem move_image (hm : Move mach safe c ctl e c' ctl') (haway : runner ctl ≠ some q)
    (hlive : procPhase c.proc q ≠ .dead) (hb : Base mach c)
    (hnone : ∀ msg, ¬DeliveredBy c c' q msg) : procGetImage c'.proc q = procGetImage c.proc q := by
  have hne : ∀ {pid caller}, ctl = .user pid caller → q ≠ pid := by
    rintro pid caller rfl rfl
    exact haway rfl
  have hother : ∀ {p v}, procView c' = Function.update (procView c) p v → q ≠ p →
      procGetImage c'.proc q = procGetImage c.proc q := by
    intro p v hview hq
    apply image_of_view
    rw [hview, Function.update_of_ne hq]
  cases hm with
  | quiet noCall view => exact image_of_view (congrFun view q)
  | work silent view => exact image_of_view (congrFun view q)
  | received number result full view => exact hother view (hne rfl)
  | @queued pid dst caller c' number result target live notReceiving empty view =>
      by_cases hq : q = dst
      · have hview := congrArg ProcView.image (congrFun view dst)
        rw [Function.update_self] at hview
        rw [hq]
        exact hview
      · exact hother view hq
  | @delivered pid dst caller ptr image s c₁ d c' number result target send delivered core =>
      have hq : q ≠ dst := by
        rintro rfl
        exact hnone _ ⟨d, send, core⟩
      have hview : procView c' = procView d := by
        rw [core]
        rfl
      exact hother (hview.trans (procView_delivered delivered)) hq
  | yielded number stop => exact hother (procView_stopped stop.stopped) (hne rfl)
  | blocked number empty within waits stop =>
      have hview := procView_stopped stop.stopped
      rw [procView_blockedAt waits, Function.update_idem] at hview
      exact hother hview (hne rfl)
  | exited number gone =>
      have hview := procView_gone gone
      exact hother hview (hne rfl)
  | @launched pid e image c' noCall launched =>
      have hq : q ≠ pid := by
        rintro rfl
        exact hlive (launched.fresh hb)
      exact image_of_view (launched.others q hq)
  | resumed how found loaded valid slot fits resumed => exact resumed.image q

end SlopOS.Proofs.Moves
