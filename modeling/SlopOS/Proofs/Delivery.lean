import SlopOS.Proofs.Preservation
/-!
# Every message is received once, in order

A run is observed through its successful sends and completed receives.  A
receive completes when the call returns 0, or, for a process that blocked, when
the message lies in its buffer and its saved return value is 0.  What was sent
to a process is at any time what it has received followed by what is in its
mailbox.
-/

namespace SlopOS.Proofs.Delivery

open SlopOS.Support SlopOS.Kernel
open SlopOS.Proofs.Tables SlopOS.Proofs.Mail SlopOS.Proofs.Scheduling
open SlopOS.Proofs.TableInvariant SlopOS.Proofs.UserPointers SlopOS.Proofs.SystemCalls
open SlopOS.Proofs.Messages SlopOS.Proofs.Leaving SlopOS.Proofs.Views SlopOS.Proofs.Launching
open SlopOS.Proofs.Dispatch SlopOS.Proofs.StepOutcomes SlopOS.Proofs.Moves
open SlopOS.Proofs.ReachableStates SlopOS.Proofs.WaitingRuns SlopOS.Proofs.Preservation

inductive Observation
  | sent (msg : IpcMessage)
  | received (pid : Int) (msg : IpcMessage)

/-- The return value of a call that went back to Ring 3. -/
def callResult (c : Core) (ctl : Ctl) : Option U32 :=
  (runner ctl).map fun _ => c.ring3.regs.eax

/-- The message at `ptr` in the memory of a stopped process whose call returns 0. -/
def bufferOf (c : Core) (p : Int) (ptr : U32) : Option IpcMessage :=
  match procGetImage c.proc p, slotOf c.elf p with
  | some image, some sl =>
    if image.context.eax = 0 then some (loadMessage (view c image sl) ptr) else none
  | _, _ => none

/-- The receive of a process that waited before a step and does not any more. -/
def completed (c c' : Core) (p : Int) : List Observation :=
  match waiting c.ipc p, waiting c'.ipc p with
  | some ptr, none => (bufferOf c' p ptr).toList.map (.received p)
  | _, _ => []

/-- What a call of process `pid` that returned 0 shows. -/
def callShows (c c' : Core) (pid : Int) : List Observation :=
  if c.ring3.regs.eax ∈ sendNumbers then
    .sent (outgoing c pid) :: completed c c' (outgoing c pid).dstPid
  else if c.ring3.regs.eax = sysIpcRecv then
    [.received pid (loadMessage c'.mem c.ring3.regs.ebx)]
  else []

def stepShows (c : Core) (ctl : Ctl) (e : Event) (c' : Core) (ctl' : Ctl) : List Observation :=
  match runner ctl with
  | none => []
  | some pid => if isCall e = true ∧ callResult c' ctl' = some 0 then callShows c c' pid else []

def observed (b : Boot) (s : Sys) (e : Event) : List Observation :=
  match step b s e with
  | none => []
  | some s' => stepShows s.kernel.core s.ctl e s'.kernel.core s'.ctl

/-- The messages of the successful sends to `d`, in the order of the sends. -/
def sentTo (d : Int) (log : List Observation) : List IpcMessage :=
  log.filterMap fun
    | .sent msg => if msg.dstPid = d then some msg else none
    | .received _ _ => none

/-- The messages of the completed receives of `d`, in order. -/
def receivedBy (d : Int) (log : List Observation) : List IpcMessage :=
  log.filterMap fun
    | .sent _ => none
    | .received pid msg => if pid = d then some msg else none

/-- A waiting process has an empty mailbox and a buffer of its own; a mailbox holds
a message for its process. -/
structure PostOk (p : Int) (v : ProcView) : Prop where
  apart : ∀ ptr, v.waiting = some ptr → v.inbox = none
  buffer : ∀ ptr, v.waiting = some ptr →
    ∃ image, v.image = some image ∧ Within image ptr ipcMessageSize
  posted : ∀ msg, v.inbox = some msg →
    msg.dstPid = p ∧ 0 ≤ msg.srcPid ∧ msg.srcPid < 2 ^ 31 ∧ 0 ≤ p ∧ p < 2 ^ 31

def Posting (c : Core) : Prop := ∀ p, PostOk p (procView c p)

variable {b : Boot} {mach : Machine} {safe : Prop} {c c' : Core} {ctl ctl' : Ctl} {e : Event}
variable {p d : Int} {s s' : Sys}

/-! ## Messages in memory -/

theorem loadMessage_congr {m m' : ByteMem.Mem} {ptr : U32}
    (h : ∀ j < ipcMessageSize, m (ptr + BitVec.ofNat 32 j) = m' (ptr + BitVec.ofNat 32 j)) :
    loadMessage m ptr = loadMessage m' ptr :=
  congrArg IpcMessage.ofWords (ByteMem.loadWords_congr h)

/-- The message that the running process sends is one that can lie in a mailbox. -/
theorem outgoing_bounds {pid : Int} (hb : Base mach c) (hrun : procPhase c.proc pid ≠ .dead)
    (hdst : procPhase c.proc (outgoing c pid).dstPid ≠ .dead) :
    0 ≤ (outgoing c pid).srcPid ∧ (outgoing c pid).srcPid < 2 ^ 31 ∧
      0 ≤ (outgoing c pid).dstPid ∧ (outgoing c pid).dstPid < 2 ^ 31 := by
  have hnext := hb.next
  have hsrc := hb.pids pid hrun
  have hd := hb.pids _ hdst
  change 0 ≤ pid ∧ pid < 2 ^ 31 ∧ _
  omega

/-! ## Mailboxes and waiters, step by step -/

theorem posting_update {q : Int} {v : ProcView} (h : Posting c)
    (hview : procView c' = Function.update (procView c) q v) (hv : PostOk q v) : Posting c' := by
  intro p
  rw [hview, Function.update_apply]
  split
  · rename_i hp
    rw [hp]
    exact hv
  · exact h p

theorem PostOk.idle {v v' : ProcView} (h : PostOk p v) (hw : v'.waiting = none)
    (hi : v'.inbox = v.inbox) : PostOk p v' := by
  refine ⟨fun ptr hptr => ?_, fun ptr hptr => ?_, ?_⟩
  · rw [hw] at hptr
    cases hptr
  · rw [hw] at hptr
    cases hptr
  · rw [hi]
    exact h.posted

theorem notReceiving_of_posting (h : Posting c) (hnot : NotReceiving c p) :
    waiting c.ipc p = none := by
  by_contra hne
  obtain ⟨ptr, hptr⟩ := Option.ne_none_iff_exists'.mp hne
  obtain ⟨image, himg, hw⟩ := (h p).buffer ptr hptr
  exact hnot ptr image hptr himg hw

theorem posting_move (hs : Base mach c) (hblock : Blocking c ctl) (h : Posting c)
    (hctl : CtlOk c ctl) (hm : Move mach safe c ctl e c' ctl') : Posting c' := by
  cases hm with
  | quiet noCall view =>
      intro p
      rw [view]
      exact h p
  | work silent view =>
      intro p
      rw [view]
      exact h p
  | @received pid caller msg c' number result full view =>
      exact posting_update h view ⟨fun _ _ => rfl, (h pid).buffer, nofun⟩
  | @queued pid dst caller c' number result target live notReceiving empty view =>
      have hwait : (procView c dst).waiting = none := notReceiving_of_posting h notReceiving
      subst target
      obtain ⟨hs₀, hs₁, hd₀, hd₁⟩ := outgoing_bounds hs hctl.1.live live
      refine posting_update h view ⟨?_, ?_, fun msg hmsg => ?_⟩
      · intro ptr hptr
        rw [hwait] at hptr
        cases hptr
      · intro ptr hptr
        rw [hwait] at hptr
        cases hptr
      · obtain rfl := Option.some.inj hmsg
        exact ⟨rfl, hs₀, hs₁, hd₀, hd₁⟩
  | @delivered pid dst caller ptr image sl c₁ d c' number result target send delivered core =>
      have hsame : procView c' = procView d := by
        rw [core]
        rfl
      exact posting_update h (hsame.trans (procView_delivered delivered)) ((h dst).idle rfl rfl)
  | @yielded pid caller image sl c' number stop =>
      have hwait : (procView c pid).waiting = none := hblock.runner
      exact posting_update h (procView_stopped stop.stopped) ((h pid).idle hwait rfl)
  | @blocked pid caller image sl ipc c' number empty within waits stop =>
      have hview := procView_stopped stop.stopped
      rw [procView_blockedAt waits, Function.update_idem, Function.update_self] at hview
      refine posting_update h hview ⟨fun _ _ => empty, fun ptr hptr => ?_, (h pid).posted⟩
      obtain rfl := Option.some.inj hptr
      exact ⟨_, rfl, within⟩
  | @exited pid caller r c' number gone =>
      have hwait : (procView c pid).waiting = none := hblock.runner
      have hview := procView_gone gone
      exact posting_update h hview ((h pid).idle hwait rfl)
  | @launched pid e image c' noCall launched =>
      obtain ⟨hwait, hinbox⟩ := launched_view hs launched
      intro p
      by_cases hp : p = pid
      · rw [hp]
        exact (h pid).idle hwait hinbox
      · rw [launched.others p hp]
        exact h p
  | @resumed pid caller e image sl c' how found loaded valid slot fits resumed =>
      refine posting_update h (procView_resumed resumed) ?_
      exact ⟨(h pid).apart, (h pid).buffer, (h pid).posted⟩

/-! ## The logs, step by step -/

theorem sentTo_append (d : Int) (l l' : List Observation) :
    sentTo d (l ++ l') = sentTo d l ++ sentTo d l' := List.filterMap_append

theorem receivedBy_append (d : Int) (l l' : List Observation) :
    receivedBy d (l ++ l') = receivedBy d l ++ receivedBy d l' := List.filterMap_append

def Conserved (c : Core) (log : List Observation) : Prop :=
  ∀ d, sentTo d log = receivedBy d log ++ (inbox c.ipc d).toList

theorem conserved_silent {log : List Observation} (h : Conserved c log)
    (hinbox : ∀ d, (procView c' d).inbox = (procView c d).inbox)
    (hshow : stepShows c ctl e c' ctl' = []) :
    Conserved c' (log ++ stepShows c ctl e c' ctl') := by
  intro d
  have hd : inbox c'.ipc d = inbox c.ipc d := hinbox d
  rw [hshow, List.append_nil, hd]
  exact h d

theorem inbox_update {q : Int} {v : ProcView}
    (hview : procView c' = Function.update (procView c) q v)
    (hv : v.inbox = (procView c q).inbox) (d : Int) :
    (procView c' d).inbox = (procView c d).inbox := by
  rw [hview, Function.update_apply]
  split
  · rename_i hd
    rw [hd]
    exact hv
  · rfl

theorem inbox_set {q : Int} {v : ProcView} (hview : procView c' = Function.update (procView c) q v)
    (d : Int) : inbox c'.ipc d = if d = q then v.inbox else inbox c.ipc d := by
  change (procView c' d).inbox = _
  rw [hview, Function.update_apply]
  split <;> rfl

theorem conserved_received {log : List Observation} {pid : Int} {msg : IpcMessage}
    (h : Conserved c log) (hfull : inbox c.ipc pid = some msg)
    (hinbox : ∀ d, inbox c'.ipc d = if d = pid then none else inbox c.ipc d) :
    Conserved c' (log ++ [.received pid msg]) := by
  intro d
  rw [sentTo_append, receivedBy_append, h d, hinbox]
  by_cases hd : d = pid
  · rw [if_pos hd, hd, hfull]
    simp [sentTo, receivedBy]
  · simp [sentTo, receivedBy, hd, Ne.symm hd]

theorem conserved_sent {log : List Observation} {msg : IpcMessage} (h : Conserved c log)
    (hempty : inbox c.ipc msg.dstPid = none)
    (hinbox : ∀ d, inbox c'.ipc d = if d = msg.dstPid then some msg else inbox c.ipc d) :
    Conserved c' (log ++ [.sent msg]) := by
  intro d
  rw [sentTo_append, receivedBy_append, h d, hinbox]
  by_cases hd : d = msg.dstPid
  · rw [if_pos hd, hd, hempty]
    simp [sentTo, receivedBy]
  · simp [sentTo, receivedBy, hd, Ne.symm hd]

theorem conserved_passed {log : List Observation} {msg : IpcMessage} (h : Conserved c log)
    (hempty : inbox c.ipc msg.dstPid = none) (hinbox : ∀ d, inbox c'.ipc d = inbox c.ipc d) :
    Conserved c' (log ++ [.sent msg, .received msg.dstPid msg]) := by
  intro d
  rw [sentTo_append, receivedBy_append, h d, hinbox]
  by_cases hd : d = msg.dstPid
  · rw [hd, hempty]
    simp [sentTo, receivedBy]
  · simp [sentTo, receivedBy, Ne.symm hd]

/-- The buffer of a process that a message was delivered to holds the message. -/
theorem completed_of_delivered {dst : Int} {msg : IpcMessage} {ptr : U32} {image : ProcImage}
    {sl : Fin elfProcSlots} {c₁ d : Core} (hd : Delivered mach c dst msg ptr image sl c₁ d)
    (hmsg : 0 ≤ msg.srcPid ∧ msg.srcPid < 2 ^ 31 ∧ 0 ≤ msg.dstPid ∧ msg.dstPid < 2 ^ 31) :
    completed c d dst = [.received dst msg] := by
  have hview := congrFun (procView_delivered hd) dst
  rw [Function.update_self] at hview
  have hwait : waiting d.ipc dst = none := congrArg ProcView.waiting hview
  have himg : procGetImage d.proc dst =
      some { image with context := { image.context with eax := 0 } } :=
    congrArg ProcView.image hview
  have hslot : slotOf d.elf dst = some sl :=
    ((keeps_delivered hd).slots dst (live_of_procGetImage hd.found)).trans hd.slot
  have hload : loadMessage (view d image sl) ptr = msg := by
    have hstored : loadMessage (view d image sl) ptr =
        loadMessage (storeMessage (view c image sl) ptr msg) ptr := by
      apply loadMessage_congr
      intro j hj
      exact view_delivered hd (hd.within.all_own hd.fits j hj)
    rw [hstored, loadMessage_storeMessage hmsg.1 hmsg.2.1 hmsg.2.2.1 hmsg.2.2.2]
  have hbuffer : bufferOf d dst ptr = some msg := by
    unfold bufferOf
    rw [himg, hslot]
    dsimp only
    rw [if_pos rfl]
    exact congrArg some hload
  unfold completed
  rw [hd.waited, hwait]
  dsimp only
  rw [hbuffer]
  rfl

theorem stepShows_call {pid : Int} {caller : Caller} (hresult : c'.ring3.regs.eax = 0) :
    stepShows c (.user pid caller) .syscall c' (.user pid caller) = callShows c c' pid := by
  unfold stepShows callResult runner
  dsimp only
  rw [if_pos ⟨rfl, by rw [Option.map_some, hresult]⟩]

theorem callShows_other {pid : Int} (h : c.ring3.regs.eax ∉ ipcNumbers) :
    callShows c c' pid = [] := by
  simp only [ipcNumbers, List.mem_cons, List.not_mem_nil, or_false, not_or] at h
  unfold callShows
  have hsend : c.ring3.regs.eax ∉ sendNumbers := by
    simp [sendNumbers, h.1, h.2.2]
  rw [if_neg hsend, if_neg h.2.1]

theorem conserved_move {log : List Observation} (hs : Base mach c) (hblock : Blocking c ctl)
    (hpost : Posting c) (hctl : CtlOk c ctl) (h : Conserved c log)
    (hm : Move mach safe c ctl e c' ctl') : Conserved c' (log ++ stepShows c ctl e c' ctl') := by
  cases hm with
  | @quiet ctl e c' noCall view =>
      refine conserved_silent h (fun d => by rw [view]) ?_
      unfold stepShows
      split
      · rfl
      · rw [if_neg (fun hcall => noCall (isCall_iff.mp hcall.1))]
  | @work pid caller e c' silent view =>
      refine conserved_silent h (fun d => by rw [view]) ?_
      unfold stepShows runner callResult
      dsimp only
      split
      · rename_i hcall
        rcases silent (isCall_iff.mp hcall.1) with hnum | hresult
        · exact callShows_other hnum
        · exact absurd (Option.some.inj hcall.2) hresult
      · rfl
  | @received pid caller msg c' number result full view mem =>
      obtain ⟨hdst, hs₀, hs₁, hd₀, hd₁⟩ := (hpost pid).posted msg full
      rw [← hdst] at hd₀ hd₁
      have hload : loadMessage c'.mem c.ring3.regs.ebx = msg := by
        rw [mem, loadMessage_storeMessage hs₀ hs₁ hd₀ hd₁]
      have hshow : callShows c c' pid = [.received pid msg] := by
        unfold callShows
        rw [if_neg (by rw [number]; decide), if_pos number, hload]
      rw [stepShows_call result, hshow]
      exact conserved_received h full (inbox_set view)
  | @queued pid dst caller c' number result target live notReceiving empty view =>
      have hwait : waiting c.ipc dst = none := notReceiving_of_posting hpost notReceiving
      have hshow : callShows c c' pid = [.sent (outgoing c pid)] := by
        unfold callShows completed
        rw [if_pos number, target, hwait]
      rw [stepShows_call result, hshow]
      exact conserved_sent h (by rw [target]; exact empty) (by rw [target]; exact inbox_set view)
  | @delivered pid dst caller ptr image sl c₁ d' c' number result target send delivered core =>
      have hlive := live_of_procGetImage delivered.found
      have hwaited : (procView c dst).waiting = some ptr := delivered.waited
      have hempty : inbox c.ipc dst = none := (hpost dst).apart ptr hwaited
      have hbounds := outgoing_bounds hs hctl.1.live (by rw [target]; exact hlive)
      have hcompleted : completed c c' dst = [.received dst (outgoing c pid)] := by
        have hdone := completed_of_delivered delivered hbounds
        rw [core]
        exact hdone
      have hshow : callShows c c' pid =
          [.sent (outgoing c pid), .received dst (outgoing c pid)] := by
        unfold callShows
        rw [if_pos number, target, hcompleted]
      rw [stepShows_call result, hshow]
      have hsame := inbox_update (procView_delivered delivered) rfl
      rw [← target] at hempty ⊢
      apply conserved_passed h hempty
      rw [core]
      exact hsame
  | yielded number stop =>
      exact conserved_silent h (inbox_update (procView_stopped stop.stopped) rfl) rfl
  | @blocked pid caller image sl ipc c' number empty within waits stop =>
      have hview := procView_stopped stop.stopped
      rw [procView_blockedAt waits, Function.update_idem, Function.update_self] at hview
      exact conserved_silent h (inbox_update hview rfl) rfl
  | exited number gone =>
      have hview := procView_gone gone
      exact conserved_silent h (inbox_update hview rfl) rfl
  | launched noCall launched =>
      refine conserved_silent h (fun d => ?_) rfl
      change inbox c'.ipc d = inbox c.ipc d
      rw [launched.ipc]
  | resumed how found loaded valid slot fits resumed =>
      exact conserved_silent h (inbox_update (procView_resumed resumed) rfl) rfl

/-! ## A send that fails -/

theorem step_send {pid : Int} {caller : Caller} (hs : SysOk b.mach s)
    (hctl : s.ctl = .user pid caller) (hnum : s.kernel.core.ring3.regs.eax ∈ sendNumbers)
    (hstep : step b s .syscall = some s') :
    ∃ ret k, (ksysIpcSend s.kernel s.kernel.core.ring3.regs.ebx).done = some (ret, k) ∧
      s' = ⟨backToUser k ret, .user pid caller⟩ := by
  have hrun := hs.ctl
  rw [hctl] at hrun
  obtain ⟨image, sl, hown, hslot⟩ := ownerOk_of_running hs.base hrun.1
  have hentry : syscallEntry b.mach s.kernel s.kernel.core.ring3.regs.eax
      s.kernel.core.ring3.regs.ebx s.kernel.core.ring3.regs.ecx s.kernel.core.ring3.regs.edx
      s.kernel.core.ring3.regs.esi s.kernel.core.ring3.regs.edi =
      ksysIpcSend s.kernel s.kernel.core.ring3.regs.ebx := entry_send hnum
  have hother : s.kernel.core.ring3.regs.eax ≠ sysExit ∧
      s.kernel.core.ring3.regs.eax ≠ sysRetKernel ∧ s.kernel.core.ring3.regs.eax ≠ sysYield := by
    simp only [sendNumbers, List.mem_cons, List.not_mem_nil, or_false] at hnum
    rcases hnum with h | h <;> rw [h] <;> decide
  unfold step at hstep
  rw [hctl] at hstep
  cases userStep_cases hstep with
  | back hstub =>
      cases syscallStub_cases hstub with
      | @returned ret k hplain hdone hr =>
          rw [entered, hentry] at hdone
          exact ⟨ret, k, hdone, rfl⟩
  | stopped hstub =>
      cases syscallStub_cases hstub with
      | exited hasks => exact absurd hasks.1 hother.1
      | left hasks => exact absurd hasks.1 hother.2.1
      | yielded hasks => exact absurd hasks.1 hother.2.2
      | blocked hplain hdone =>
          rw [entered, hentry] at hdone
          exact absurd rfl (stepOk_send hs hctl hown hslot hnum hdone).1

/-- A send that does not return 0 changes nothing but the register it returns in. -/
theorem send_failed {pid : Int} {caller : Caller} (hs : SysOk b.mach s)
    (hctl : s.ctl = .user pid caller) (hnum : s.kernel.core.ring3.regs.eax ∈ sendNumbers)
    (hstep : step b s .syscall = some s')
    (hfail : callResult s'.kernel.core s'.ctl ≠ some 0) :
    s'.kernel.core = { s.kernel.core with ring3 := s'.kernel.core.ring3 } := by
  obtain ⟨ret, k, hdone, rfl⟩ := step_send hs hctl hnum hstep
  have hret : toU32 ret ≠ 0 := fun h => hfail (congrArg some h)
  unfold ksysIpcSend ksysIpcSendWith at hdone
  split at hdone
  · cases hdone
    rfl
  have hsend := ipcSend_spec hs.base s.kernel.pid
    (loadMessage s.kernel.core.mem s.kernel.core.ring3.regs.ebx).dstPid
    (loadMessage s.kernel.core.mem s.kernel.core.ring3.regs.ebx)
  dsimp only at hdone
  generalize ipcSend s.kernel.core s.kernel.pid _ _ = result at hdone hsend
  cases hsend with
  | failed _ =>
      cases hdone
      rfl
  | queued =>
      cases hdone
      exact absurd rfl hret
  | delivered =>
      cases hdone
      exact absurd rfl hret

/-! ## Every run -/

theorem posting_kmain {b : Boot} {s : Sys} (h : kmain b = some s) : Posting s.kernel.core := by
  obtain ⟨hboot, -⟩ := kmain_spec h
  intro p
  have hwait : (procView s.kernel.core p).waiting = none := by
    change waiting s.kernel.core.ipc p = none
    rw [hboot.ipc]
    exact waiting_ipcInit p
  have hinbox : (procView s.kernel.core p).inbox = none := by
    change inbox s.kernel.core.ipc p = none
    rw [hboot.ipc]
    exact inbox_ipcInit p
  refine ⟨fun _ _ => hinbox, fun ptr hptr => ?_, fun msg hmsg => ?_⟩
  · rw [hwait] at hptr
    cases hptr
  · rw [hinbox] at hmsg
    cases hmsg

theorem conserved_kmain {b : Boot} {s : Sys} (h : kmain b = some s) :
    Conserved s.kernel.core [] := by
  obtain ⟨hboot, -⟩ := kmain_spec h
  intro d
  rw [hboot.ipc, inbox_ipcInit]
  rfl

/-- At the end of the run `es` from `s₀`: what was sent is what was received and what is
in the mailboxes, a failed send leaves everything, a blocked receiver waits for its
message, and it finds its memory as it left it except for the message. -/
structure Exchange (b : Boot) (s₀ : Sys) (es : List Event) (s : Sys) : Prop where
  conserved : Conserved s.kernel.core (Runs.observe (step b) (observed b) s₀ es)
  failed : ∀ pid caller s', s.ctl = .user pid caller →
    s.kernel.core.ring3.regs.eax ∈ sendNumbers → step b s .syscall = some s' →
      callResult s'.kernel.core s'.ctl ≠ some 0 →
        s'.kernel.core = { s.kernel.core with ring3 := s'.kernel.core.ring3 }
  waits : WaitsOut b s₀ es s
  kept : Runs.AllSteps (step b) (Sound b) s₀ es → StatePreserved b s₀ es s

/-- The invariant of a run, with what the run has shown. -/
structure Tallied (b : Boot) (s : Sys) (log : List Observation) : Prop where
  ok : SysOk b.mach s
  blocking : Blocking s.kernel.core s.ctl
  posting : Posting s.kernel.core
  conserved : Conserved s.kernel.core log

theorem tallied_step {log : List Observation} (h : Tallied b s log) (hres : ResumesReady s e)
    (hstep : step b s e = some s') : Tallied b s' (log ++ observed b s e) := by
  have hmove := (step_ok h.ok hstep).move
  obtain ⟨hok, hblock⟩ := blocking_step ⟨h.ok, h.blocking⟩ hres hstep
  have hshow : observed b s e =
      stepShows s.kernel.core s.ctl e s'.kernel.core s'.ctl := by
    unfold observed
    rw [hstep]
  refine ⟨hok, hblock, posting_move h.ok.base h.blocking h.posting h.ok.ctl hmove, ?_⟩
  rw [hshow]
  exact conserved_move h.ok.base h.blocking h.posting h.ok.ctl h.conserved hmove

/-- Every run without the shell's `resume`. -/
theorem exchange_run {s₀ : Sys} {es : List Event} (hboot : kmain b = some s₀)
    (hauto : ∀ pid cwd output, Event.resume pid cwd output ∉ es)
    (hrun : Runs.run (step b) s₀ es = some s) : Exchange b s₀ es s := by
  have hready : Runs.AllSteps (step b) ResumesReady s₀ es := by
    apply Runs.AllSteps.of_events
    intro e he t pid cwd output hresume
    rw [hresume] at he
    exact absurd he (hauto pid cwd output)
  have hstart : Tallied b s₀ [] :=
    ⟨sysOk_kmain hboot, blocking_kmain hboot, posting_kmain hboot, conserved_kmain hboot⟩
  have hend := Runs.observe_invariant (J := Tallied b)
    (fun _ _ _ _ hres h hstep => tallied_step h hres hstep) hready hrun hstart
  rw [List.nil_append] at hend
  exact {
    conserved := hend.conserved
    failed := fun _ _ _ hctl hnum hstep hfail => send_failed hend.ok hctl hnum hstep hfail
    waits := by
      refine ⟨waiterActive_run hboot hready hrun, ?_⟩
      rintro es₁ es₂ s₁ p caller rfl hrun₁ hblocked hctl
      exact delivered_run hboot hready hrun hrun₁ hblocked hctl
    kept := by
      intro hsound
      refine ⟨slotsApart_run hboot hrun, ?_⟩
      rintro es₁ es₂ e p t₀ t₁ t₂ rfl hrun₀ habs
      exact restored_run hboot hsound hrun₀ habs }

def demoMessage : IpcMessage :=
  { srcPid := 4, dstPid := 3, type := 0, arg1 := 0, arg2 := 0, arg3 := 0, arg4 := 0 }

theorem exchange_demo : ∃ s₀ s, kmain demoBoot = some s₀ ∧
    Runs.run (step demoBoot) s₀ demoTalk = some s ∧ Exchange demoBoot s₀ demoTalk s ∧
    receivedBy 3 (Runs.observe (step demoBoot) (observed demoBoot) s₀ demoTalk) =
      [demoMessage] := by
  have hlog : (kmain demoBoot).map (fun s₀ => ((Runs.run (step demoBoot) s₀ demoTalk).isSome,
      receivedBy 3 (Runs.observe (step demoBoot) (observed demoBoot) s₀ demoTalk))) =
      some (true, [demoMessage]) := by decide +kernel
  obtain ⟨s₀, hboot, hshown⟩ := Option.map_eq_some_iff.mp hlog
  obtain ⟨hsome, hshown⟩ := Prod.mk.inj hshown
  obtain ⟨s, hrun⟩ := Option.isSome_iff_exists.mp hsome
  refine ⟨s₀, s, hboot, hrun, exchange_run hboot (fun pid cwd output hmem => ?_) hrun, hshown⟩
  simp [demoTalk, demoCall, demoLaunch] at hmem

end SlopOS.Proofs.Delivery
