import SlopOS.Proofs.WaitingRuns
/-!
# A stopped process finds its memory again

Between the stop of a process and its next entry into Ring 3 other processes are
launched, run and exit in the same window.  `Asleep` is what all of them leave
alone; the one thing that gets through is a message the process waits for.
-/

namespace SlopOS.Proofs.Preservation

open SlopOS.Support SlopOS.Kernel
open SlopOS.Proofs.Tables SlopOS.Proofs.Mail SlopOS.Proofs.Scheduling
open SlopOS.Proofs.TableInvariant SlopOS.Proofs.Loader SlopOS.Proofs.UserPointers
open SlopOS.Proofs.Messages SlopOS.Proofs.Leaving SlopOS.Proofs.Views
open SlopOS.Proofs.Launching SlopOS.Proofs.Moves SlopOS.Proofs.ReachableStates SlopOS.Proofs.WaitingRuns

/-- Two live processes with images own different slots, and have the stacks of
these slots. -/
def SlotsApart (mach : Machine) (c : Core) : Prop :=
  ∀ p q image image', p ≠ q →
    procGetImage c.proc p = some image → image.loaded = true →
    procGetImage c.proc q = some image' → image'.loaded = true →
      ∃ s s', c.elf.slotOwnerPid s = p ∧ c.elf.slotOwnerPid s' = q ∧ s ≠ s' ∧
        image.userStackBase = mach.stackBase s ∧ image'.userStackBase = mach.stackBase s'

/-- The condition on steps: no blocked process is resumed by hand, and no file is
launched whose load bounds wrap. -/
def Sound (b : Boot) (s : Sys) (e : Event) : Prop :=
  ResumesReady s e ∧ EventSafe b s.kernel e

/-- Process `p` stops in the step from `t₀` to `t₁`, stays out of Ring 3 during `es`
and comes back in the step from `t₂` to `t₃`. -/
structure Absence (b : Boot) (p : Int) (t₀ t₁ : Sys) (es : List Event) (t₂ : Sys) (e : Event)
    (t₃ : Sys) : Prop where
  runs : runner t₀.ctl = some p
  stops : step b t₀ .syscall = some t₁
  stopped : runner t₁.ctl = none
  lives : procStateOf t₁.kernel.core.proc p ≠ .unused
  waits : Runs.run (step b) t₁ es = some t₂
  away : Runs.AllSteps (step b) (fun s _ => runner s.ctl ≠ some p) t₁ es
  stillAway : runner t₂.ctl ≠ some p
  enters : step b t₂ e = some t₃
  back : runner t₃.ctl = some p

/-- What the process finds: its registers with `eax = 0`, and its memory, into which
at most a message was stored that it was waiting for. -/
def Restored (b : Boot) (p : Int) (t₀ t₁ : Sys) (es : List Event) (t₃ : Sys) : Prop :=
  ∃ image, procGetImage t₀.kernel.core.proc p = some image ∧
    (∃ dummy, t₃.kernel.core.ring3.regs =
      { t₀.kernel.core.ring3.regs with eax := 0, espDummy := dummy }) ∧
    ((∀ a, Own image a → t₃.kernel.core.mem a = t₀.kernel.core.mem a) ∨
      (t₀.kernel.core.ring3.regs.eax = sysIpcRecv ∧
        ∃ msg, Runs.Sometimes (step b) (Delivers b p t₀.kernel.core.ring3.regs.ebx msg) t₁ es ∧
          ∀ a, Own image a → t₃.kernel.core.mem a =
            ByteMem.store t₀.kernel.core.mem t₀.kernel.core.ring3.regs.ebx ipcMessageSize
              msg.byte a))

structure Asleep (mach : Machine) (c : Core) (p : Int) (image : ProcImage)
    (sl : Fin elfProcSlots) (m : ByteMem.Mem) : Prop where
  found : procGetImage c.proc p = some image
  loaded : image.loaded = true
  cleared : image.context.eax = 0
  slot : slotOf c.elf p = some sl
  fits : ImageOk mach image sl
  memory : ∀ a, Own image a → view c image sl a = m a

variable {b : Boot} {mach : Machine} {safe : Prop} {c c' : Core} {ctl ctl' : Ctl} {e : Event}
variable {p : Int} {s s' : Sys} {image : ProcImage} {sl : Fin elfProcSlots} {m : ByteMem.Mem}

theorem slotsApart_of_base (h : Base mach c) : SlotsApart mach c := by
  intro p q image image' hpq himg hl himg' hl'
  obtain ⟨s, hs, hok⟩ := h.loaded p image himg hl
  obtain ⟨s', hs', hok'⟩ := h.loaded q image' himg' hl'
  refine ⟨s, s', (owner_of_slotOf hs).1, (owner_of_slotOf hs').1, ?_, hok.stackBase,
    hok'.stackBase⟩
  rintro rfl
  exact hpq (slotOf_inj hs hs')

theorem Asleep.live (h : Asleep mach c p image sl m) : procPhase c.proc p ≠ .dead :=
  live_of_procGetImage h.found

/-! ## One step -/

theorem asleep_move (hb : Base mach c) (hsafe : safe) (hm : Move mach safe c ctl e c' ctl')
    (haway : runner ctl ≠ some p) (h : Asleep mach c p image sl m)
    (hnone : ∀ msg, ¬DeliveredBy c c' p msg) : Asleep mach c' p image sl m := by
  have hkept := move_memKept hb hsafe hm haway hnone
  refine ⟨(move_image hm haway h.live hb hnone).trans h.found, h.loaded, h.cleared,
    ((move_keeps hm).slots p h.live).trans h.slot, h.fits, fun a ha => ?_⟩
  rw [view_of_memKept hkept h.found h.loaded h.slot ha]
  exact h.memory a ha

theorem asleep_delivered {msg : IpcMessage} (hb : Base mach c) (h : Asleep mach c p image sl m)
    (hdel : DeliveredBy c c' p msg) :
    ∃ ptr, waiting c.ipc p = some ptr ∧ waiting c'.ipc p = none ∧
      Asleep mach c' p image sl (ByteMem.store m ptr ipcMessageSize msg.byte) := by
  obtain ⟨d, hsend, hcore⟩ := hdel
  rcases ipcUnblockDeliver_spec msg hb h.live with ⟨-, hfail⟩ | ⟨ptr, im, s, c₁, d', hok, hd⟩
  · rw [hsend] at hfail
    cases hfail
  rw [hsend] at hok
  cases hok
  have him : im = image := Option.some.inj (hd.found.symm.trans h.found)
  have hs : s = sl := Option.some.inj (hd.slot.symm.trans h.slot)
  subst him hs
  have hcleared : { im with context := { im.context with eax := 0 } } = im := by
    rw [← h.cleared]
  have hview := congrFun (procView_delivered hd) p
  rw [Function.update_self, hcleared] at hview
  rw [hcore]
  refine ⟨ptr, hd.waited, congrArg ProcView.waiting hview, congrArg ProcView.image hview,
    h.loaded, h.cleared, ?_, h.fits, fun a ha => ?_⟩
  · exact ((keeps_delivered hd).slots p h.live).trans h.slot
  · have hstore := view_delivered hd ha
    refine Eq.trans hstore ?_
    unfold ByteMem.store
    split
    · rfl
    · exact h.memory a ha

/-- A process that does not wait does not begin to while it is out of Ring 3. -/
theorem notWaiting_move (hw : waiting c.ipc p = none)
    (haway : runner ctl ≠ some p) (hm : Move mach safe c ctl e c' ctl') :
    waiting c'.ipc p = none := by
  have hupdate : ∀ {q v}, procView c' = Function.update (procView c) q v →
      v.waiting = (procView c q).waiting ∨ v.waiting = none → waiting c'.ipc p = none := by
    intro q v hview hv
    change (procView c' p).waiting = none
    rw [hview, Function.update_apply]
    split
    · rename_i hp
      rcases hv with hv | hv
      · rw [hv, ← hp]
        exact hw
      · exact hv
    · exact hw
  cases hm with
  | quiet noCall view => exact (congrArg ProcView.waiting (congrFun view p)).trans hw
  | work silent view => exact (congrArg ProcView.waiting (congrFun view p)).trans hw
  | received number result full view => exact hupdate view (Or.inl rfl)
  | queued number result target live notReceiving empty view => exact hupdate view (Or.inl rfl)
  | @delivered pid dst caller ptr image sl c₁ d c' number result target send delivered core =>
      have hsame : procView c' = procView d := by
        rw [core]
        rfl
      exact hupdate (hsame.trans (procView_delivered delivered)) (Or.inr rfl)
  | yielded number stop => exact hupdate (procView_stopped stop.stopped) (Or.inl rfl)
  | @blocked pid caller image sl ipc c' number empty within waits stop =>
      have hview := procView_stopped stop.stopped
      rw [procView_blockedAt waits, Function.update_idem, Function.update_self] at hview
      have hp : p ≠ pid := by
        rintro rfl
        exact haway rfl
      change (procView c' p).waiting = none
      rw [hview, Function.update_of_ne hp]
      exact hw
  | exited number gone =>
      have hview := procView_gone gone
      exact hupdate hview (Or.inl rfl)
  | @launched pid e image c' noCall launched =>
      rw [launched.ipc]
      exact hw
  | resumed how found loaded valid slot fits resumed =>
      exact hupdate (procView_resumed resumed) (Or.inl rfl)

/-! ## From the stop to the return -/

theorem asleep_of_stop (hs : SysOk b.mach s) (hblock : Blocking s.kernel.core s.ctl)
    (hruns : runner s.ctl = some p) (hstep : step b s .syscall = some s')
    (hstopped : runner s'.ctl = none) (hlive : procPhase s'.kernel.core.proc p ≠ .dead) :
    ∃ image sl, procGetImage s.kernel.core.proc p = some image ∧
      Asleep b.mach s'.kernel.core p (stoppedImage image s.kernel.core.ring3.regs) sl
        s.kernel.core.mem ∧
      (waiting s'.kernel.core.ipc p = none ∨ (s.kernel.core.ring3.regs.eax = sysIpcRecv ∧
        waiting s'.kernel.core.ipc p = some s.kernel.core.ring3.regs.ebx)) := by
  have hm := (step_ok hs hstep).move
  generalize hctl : s.ctl = ctl at hm hruns hblock
  generalize hctl' : s'.ctl = ctl' at hm hstopped
  generalize hcore' : s'.kernel.core = c' at hm hlive ⊢
  have hsleep : ∀ {d : Core} {image sl phase}, d.mem = s.kernel.core.mem →
      slotOf d.elf p = slotOf s.kernel.core.elf p →
      Stop b.mach d p image sl phase c' → d.ring3 = s.kernel.core.ring3 →
      d.proc = s.kernel.core.proc →
      Asleep b.mach c' p (stoppedImage image s.kernel.core.ring3.regs) sl s.kernel.core.mem := by
    intro d image sl phase hmem hslot hstop hring hproc
    have hfits := hstop.owner.fits
    refine ⟨?_, hstop.owner.loaded, rfl, ?_,
      ⟨hfits.lower, hfits.upper, hfits.stackBase, hfits.stackSize⟩, fun a _ => ?_⟩
    · rw [hstop.stopped.image, if_pos rfl, hring]
    · exact ((keeps_stopped hstop.stopped).slots p
        (live_of_procGetImage hstop.owner.found)).trans hstop.slot
    · rw [← hmem]
      exact view_stopped hfits hstop.stopped a
  cases hm with
  | quiet noCall => exact absurd rfl noCall
  | work => cases hstopped
  | received => cases hstopped
  | queued => cases hstopped
  | delivered => cases hstopped
  | @yielded pid caller image sl c' number stop =>
      cases hruns
      refine ⟨image, sl, stop.owner.found, hsleep rfl rfl stop rfl rfl, Or.inl ?_⟩
      have hview := congrFun (procView_stopped stop.stopped) p
      rw [Function.update_self] at hview
      exact (congrArg ProcView.waiting hview).trans hblock.runner
  | @blocked pid caller image sl ipc c' number empty within waits stop =>
      cases hruns
      have hsleeps := hsleep (d := { s.kernel.core with ipc := ipc }) rfl rfl stop rfl rfl
      refine ⟨image, sl, stop.owner.found, hsleeps, Or.inr ⟨number, ?_⟩⟩
      have hview := procView_stopped stop.stopped
      rw [procView_blockedAt waits, Function.update_idem, Function.update_self] at hview
      exact (congrArg ProcView.waiting (congrFun hview p)).trans (by rw [Function.update_self])
  | exited number gone =>
      cases hruns
      rw [gone.phase, if_pos rfl] at hlive
      exact absurd rfl hlive
  | launched => cases hruns
  | resumed => cases hruns

theorem asleep_run {es : List Event} {t : Sys} {w : Option U32} (hs : SysOk b.mach s)
    (hblock : Blocking s.kernel.core s.ctl) (h : Asleep b.mach s.kernel.core p image sl m)
    (hw : waiting s.kernel.core.ipc p = w) (hok : Runs.AllSteps (step b) (Sound b) s es)
    (haway : Runs.AllSteps (step b) (fun s _ => runner s.ctl ≠ some p) s es)
    (hrun : Runs.run (step b) s es = some t) :
    Asleep b.mach t.kernel.core p image sl m ∨
      ∃ ptr msg, w = some ptr ∧ Runs.Sometimes (step b) (Delivers b p ptr msg) s es ∧
        Asleep b.mach t.kernel.core p image sl
          (ByteMem.store m ptr ipcMessageSize msg.byte) := by
  induction es generalizing s m w with
  | nil =>
      obtain rfl := Option.some.inj hrun
      exact Or.inl h
  | cons e es ih =>
      obtain ⟨u, hstep, hrun'⟩ := Runs.run_cons_eq_some.mp hrun
      have hm := (step_ok hs hstep).move
      obtain ⟨hs', hblock'⟩ := blocking_step ⟨hs, hblock⟩ hok.1.1 hstep
      by_cases hdel : ∃ msg, DeliveredBy s.kernel.core u.kernel.core p msg
      · obtain ⟨msg, hmsg⟩ := hdel
        obtain ⟨ptr, hptr, hnone, hsleep⟩ := asleep_delivered hs.base h hmsg
        right
        refine ⟨ptr, msg, hw.symm.trans hptr, Or.inl ⟨hptr, u, hstep, hmsg⟩, ?_⟩
        rcases ih hs' hblock' hsleep hnone (hok.2 u hstep) (haway.2 u hstep) hrun' with
          hend | ⟨_, _, hne, -⟩
        · exact hend
        · cases hne
      · rw [not_exists] at hdel
        have hsleep := asleep_move hs.base hok.1.2 hm haway.1 h hdel
        have hw' : waiting u.kernel.core.ipc p = w := by
          cases w with
          | none => exact notWaiting_move hw haway.1 hm
          | some ptr =>
              rcases waiting_move hs.base hblock hw hm with hstill | ⟨msg, hmsg⟩
              · exact hstill
              · exact absurd hmsg (hdel msg)
        rcases ih hs' hblock' hsleep hw' (hok.2 u hstep) (haway.2 u hstep) hrun' with
          hend | ⟨ptr, msg, hptr, hlater, hend⟩
        · exact Or.inl hend
        · exact Or.inr ⟨ptr, msg, hptr, Or.inr ⟨u, hstep, hlater⟩, hend⟩

theorem asleep_enter (hs : SysOk b.mach s) (h : Asleep b.mach s.kernel.core p image sl m)
    (haway : runner s.ctl ≠ some p) (hstep : step b s e = some s')
    (hback : runner s'.ctl = some p) :
    (∃ dummy, s'.kernel.core.ring3.regs = { image.context with espDummy := dummy }) ∧
      ∀ a, Own image a → s'.kernel.core.mem a = m a := by
  have hm := (step_ok hs hstep).move
  generalize hctl : s.ctl = ctl at hm haway
  generalize hctl' : s'.ctl = ctl' at hm hback
  generalize hcore' : s'.kernel.core = c' at hm ⊢
  cases hm with
  | quiet => exact absurd hback haway
  | work => exact absurd hback haway
  | received => exact absurd hback haway
  | queued => exact absurd hback haway
  | delivered => exact absurd hback haway
  | yielded => cases hback
  | blocked => cases hback
  | exited => cases hback
  | launched noCall launched =>
      cases hback
      exact absurd (launched.fresh hs.base) h.live
  | @resumed pid caller e im s₂ c' how found loaded valid slot fits resumed =>
      cases hback
      have him : im = image := Option.some.inj (found.symm.trans h.found)
      have hsl : s₂ = sl := Option.some.inj (slot.symm.trans h.slot)
      subst him hsl
      refine ⟨resumed.regs, fun a ha => ?_⟩
      rw [resumed.mem, resumedMem_eq_view fits ha]
      exact h.memory a ha

/-! ## Every run -/

/-- At the end of a run from `s₀`: slots are apart, and every process that came back
in the last step found its state again. -/
def StatePreserved (b : Boot) (s₀ : Sys) (es : List Event) (s : Sys) : Prop :=
  SlotsApart b.mach s.kernel.core ∧
    ∀ es₁ es₂ e p t₀ t₁ t₂, es = es₁ ++ .syscall :: (es₂ ++ [e]) →
      Runs.run (step b) s₀ es₁ = some t₀ → Absence b p t₀ t₁ es₂ t₂ e s →
        Restored b p t₀ t₁ es₂ s

theorem restored_run {s₀ t₀ t₁ t₂ : Sys} {es₁ es₂ : List Event} {p : Int}
    (hboot : kmain b = some s₀)
    (hok : Runs.AllSteps (step b) (Sound b) s₀ (es₁ ++ .syscall :: (es₂ ++ [e])))
    (hrun₀ : Runs.run (step b) s₀ es₁ = some t₀) (habs : Absence b p t₀ t₁ es₂ t₂ e s) :
    Restored b p t₀ t₁ es₂ s := by
  have hready := hok.mono fun _ _ h => h.1
  obtain ⟨hs₀, hblock₀⟩ := blocking_run hboot hready.of_append hrun₀
  have hok₀ := hok.of_append_right hrun₀
  obtain ⟨hs₁, hblock₁⟩ := blocking_step ⟨hs₀, hblock₀⟩ hok₀.1.1 habs.stops
  have hok₁ := (hok₀.2 t₁ habs.stops).of_append
  have hlive : procPhase t₁.kernel.core.proc p ≠ .dead := by
    rw [ne_eq, procPhase_eq_dead_iff_unused]
    exact habs.lives
  obtain ⟨image, sl, hfound, hsleep, hwait⟩ :=
    asleep_of_stop hs₀ hblock₀ habs.runs habs.stops habs.stopped hlive
  have hs₂ := sysOk_run hs₁ habs.waits
  -- what is found on the way back, from the memory `m` slept with
  have hfinish : ∀ {m}, Asleep b.mach t₂.kernel.core p
      (stoppedImage image t₀.kernel.core.ring3.regs) sl m →
      (∃ dummy, s.kernel.core.ring3.regs =
        { t₀.kernel.core.ring3.regs with eax := 0, espDummy := dummy }) ∧
        ∀ a, Own image a → s.kernel.core.mem a = m a :=
    fun h => asleep_enter hs₂ h habs.stillAway habs.enters habs.back
  refine ⟨image, hfound, ?_⟩
  rcases asleep_run hs₁ hblock₁ hsleep rfl hok₁ habs.away habs.waits with
    hend | ⟨ptr, msg, hptr, hdel, hend⟩
  · obtain ⟨hregs, hmem⟩ := hfinish hend
    exact ⟨hregs, Or.inl hmem⟩
  · obtain ⟨hregs, hmem⟩ := hfinish hend
    rcases hwait with hnone | ⟨hrecv, hbuf⟩
    · rw [hnone] at hptr
      cases hptr
    · rw [hbuf] at hptr
      obtain rfl := Option.some.inj hptr
      exact ⟨hregs, Or.inr ⟨hrecv, msg, hdel, hmem⟩⟩

theorem slotsApart_run {s₀ : Sys} {es : List Event} (hboot : kmain b = some s₀)
    (hrun : Runs.run (step b) s₀ es = some s) : SlotsApart b.mach s.kernel.core :=
  slotsApart_of_base (sysOk_run (sysOk_kmain hboot) hrun).base

theorem statePreserved_run {s₀ : Sys} {es : List Event} (hboot : kmain b = some s₀)
    (hok : Runs.AllSteps (step b) (Sound b) s₀ es) (hrun : Runs.run (step b) s₀ es = some s) :
    StatePreserved b s₀ es s := by
  refine ⟨slotsApart_run hboot hrun, ?_⟩
  rintro es₁ es₂ e p t₀ t₁ t₂ rfl hrun₀ habs
  exact restored_run hboot hok hrun₀ habs

theorem sound_demoLaunch (s : Sys) : Sound demoBoot s demoLaunch :=
  ⟨nofun, demoLaunch_safe _ _⟩

theorem sound_demoCall {eax ebx : U32} {bytes : ByteMem.Mem} (s : Sys) :
    ∀ e ∈ demoCall eax ebx bytes, Sound demoBoot s e := by
  intro e he
  simp only [demoCall, List.mem_cons, List.not_mem_nil, or_false] at he
  rcases he with rfl | rfl
  · exact ⟨fun _ _ _ h => (by cases h), trivial⟩
  · exact ⟨fun _ _ _ h => (by cases h), trivial⟩

theorem statePreserved_demo : ∃ s₀ s, kmain demoBoot = some s₀ ∧
    Runs.run (step demoBoot) s₀ demoTalk = some s ∧ StatePreserved demoBoot s₀ demoTalk s := by
  obtain ⟨s, hs, -⟩ := demoTalk_ends
  obtain ⟨s₀, hboot, hrun⟩ := Option.bind_eq_some_iff.mp hs
  refine ⟨s₀, s, hboot, hrun, statePreserved_run hboot ?_ hrun⟩
  apply Runs.AllSteps.of_events
  intro e he t
  simp only [demoTalk, List.cons_append, List.mem_cons, List.mem_append, List.not_mem_nil,
    or_false] at he
  rcases he with rfl | ((he | rfl | he) | he) | rfl
  · exact sound_demoLaunch t
  · exact sound_demoCall t e he
  · exact sound_demoLaunch t
  · exact sound_demoCall t e he
  · exact sound_demoCall t e he
  · exact ⟨fun _ _ _ h => (by cases h), trivial⟩

/-- Process 3 waits at `0x300100`, is resumed by hand, and yields. -/
def demoStale : List Event :=
  demoLaunch :: demoCall sysIpcRecv 0x00300100 (fun _ => 0) ++
    [.resume 3 0 .vga, .user { eax := sysYield, cs := 0x1B } fun _ => 0]

def demoSender : List Event :=
  demoLaunch :: demoCall sysIpcSend 0x00300200 (fun a => if a = 0x00300204 then 3 else 0) ++
    demoCall sysExit 0 (fun _ => 0)

/-- The waiter that `resume` left behind lets a message into a process that yielded. -/
theorem not_statePreserved_stale : ¬∀ b s₀ es s, kmain b = some s₀ →
    Runs.run (step b) s₀ es = some s → StatePreserved b s₀ es s := by
  intro hall
  have hend : (demoRun (demoStale ++ .syscall :: (demoSender ++ [.autoResume]))).map
      (fun s => (runner s.ctl, s.kernel.core.mem 0x00300104)) = some (some 3, 3) := by
    decide +kernel
  have hyield : (demoRun demoStale).map (fun s => (runner s.ctl, s.kernel.core.ring3.regs.eax,
      s.kernel.core.mem 0x00300104, (procGetImage s.kernel.core.proc 3).map fun image =>
        (image.imageBase, image.imageSize))) =
      some (some 3, sysYield, 0, some (0x00300000, 0x1000)) := by decide +kernel
  have hstop : (demoRun (demoStale ++ [.syscall])).map (fun s => (runner s.ctl,
      procStateOf s.kernel.core.proc 3, decide (Runs.AllSteps (step demoBoot)
        (fun s _ => runner s.ctl ≠ some 3) s demoSender))) = some (none, .ready, true) := by
    decide +kernel
  have haway : (demoRun (demoStale ++ [.syscall] ++ demoSender)).map (fun s => runner s.ctl) =
      some none := by decide +kernel
  obtain ⟨s, hs, hfinal⟩ := exists_of_demoRun hend
  obtain ⟨s₀, hboot, hrun⟩ := Option.bind_eq_some_iff.mp hs
  obtain ⟨t₀, hrun₀, hrest⟩ := Runs.run_append_eq_some.mp hrun
  obtain ⟨t₁, hstep₁, hrest⟩ := Runs.run_cons_eq_some.mp hrest
  obtain ⟨t₂, hrun₂, hlast⟩ := Runs.run_append_eq_some.mp hrest
  obtain ⟨t₃, hstep₃, hnil⟩ := Runs.run_cons_eq_some.mp hlast
  obtain rfl := Option.some.inj hnil
  have hone : Runs.run (step demoBoot) t₀ [.syscall] = some t₁ :=
    Runs.run_cons_eq_some.mpr ⟨t₁, hstep₁, rfl⟩
  have hrun₁ : demoRun (demoStale ++ [.syscall]) = some t₁ :=
    Option.bind_eq_some_iff.mpr ⟨s₀, hboot, Runs.run_append_eq_some.mpr ⟨t₀, hrun₀, hone⟩⟩
  have hrun₂' : demoRun (demoStale ++ [.syscall] ++ demoSender) = some t₂ := by
    obtain ⟨_, hb, hr⟩ := Option.bind_eq_some_iff.mp hrun₁
    exact Option.bind_eq_some_iff.mpr ⟨_, hb, Runs.run_append_eq_some.mpr ⟨t₁, hr, hrun₂⟩⟩
  have hrun₀' : demoRun demoStale = some t₀ := Option.bind_eq_some_iff.mpr ⟨s₀, hboot, hrun₀⟩
  have h₀ := fact_of_demoRun hrun₀' hyield
  have h₁ := fact_of_demoRun hrun₁ hstop
  have h₂ := fact_of_demoRun hrun₂' haway
  simp only [Prod.mk.injEq] at h₀ h₁ hfinal
  have hall₀ := (hall demoBoot s₀ _ t₃ hboot hrun).2 demoStale demoSender .autoResume 3 t₀ t₁ t₂
    rfl hrun₀ ⟨h₀.1, hstep₁, h₁.1, by rw [h₁.2.1]; decide, hrun₂, of_decide_eq_true h₁.2.2,
      by rw [h₂]; decide, hstep₃, hfinal.1⟩
  obtain ⟨image, himg, -, hmem⟩ := hall₀
  rcases hmem with hsame | ⟨hrecv, -⟩
  · have hbounds := h₀.2.2.2
    rw [himg, Option.map_some, Option.some_inj, Prod.mk.injEq] at hbounds
    have hown : Own image 0x00300104 := by
      left
      unfold InImage ByteMem.InRange
      rw [hbounds.1, hbounds.2]
      decide
    have hbyte := hsame _ hown
    rw [hfinal.2, h₀.2.2.1] at hbyte
    cases hbyte
  · rw [h₀.2.1] at hrecv
    cases hrecv

end SlopOS.Proofs.Preservation
