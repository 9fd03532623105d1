import SlopOS.Proofs.Messages
/-!
# Leaving and entering Ring 3

What happens to the tables when the process in Ring 3 stops, exits, or when a
stopped one is resumed.
-/

namespace SlopOS.Proofs.Leaving

open SlopOS.Support SlopOS.Kernel
open SlopOS.Proofs.Tables SlopOS.Proofs.Mail SlopOS.Proofs.Scheduling
open SlopOS.Proofs.TableInvariant SlopOS.Proofs.Loader SlopOS.Proofs.UserPointers
open SlopOS.Proofs.Messages

variable {mach : Machine} {c c' : Core} {pid : Int} {image : ProcImage} {s : Fin elfProcSlots}

/-! ## Stopping -/

/-- The image record of a process that stopped with registers `frame`. -/
def stoppedImage (image : ProcImage) (frame : UserContext) : ProcImage :=
  { image with context := { frame with eax := 0 }, contextValid := true }

theorem syscallSaveYieldContext_eq (h : OwnerOk mach c pid image s) (frame : UserContext) :
    syscallSaveYieldContext c frame =
      { c with proc := procBindImage c.proc pid (stoppedImage image frame) } := by
  have hpos := h.pos
  unfold syscallSaveYieldContext
  simp only [h.current, h.found]
  rw [if_neg (by simp only [h.loaded, not_true_eq_false, or_false]; omega)]
  rfl

/-- Process `pid` has stopped with registers `frame`: its image is saved in its slot,
its record holds the registers, and it has phase `phase`. -/
structure Stopped (c : Core) (pid : Int) (image : ProcImage) (s : Fin elfProcSlots)
    (frame : UserContext) (phase : Phase) (c' : Core) : Prop where
  ipc : c'.ipc = c.ipc
  mem : c'.mem = c.mem
  owners : c'.elf.slotOwnerPid = c.elf.slotOwnerPid
  others : ∀ s', s' ≠ s → c'.elf.userImages s' = c.elf.userImages s'
  saved : c'.elf.userImages s = savedImage c image s
  nextPid : c'.proc.nextPid = c.proc.nextPid
  image : ∀ q, procGetImage c'.proc q =
    if q = pid then some (stoppedImage image frame) else procGetImage c.proc q
  phase : ∀ q, procPhase c'.proc q = if q = pid then phase else procPhase c.proc q
  synced : Synced c'

theorem stop_spec (reason : U32) (task : TaskState) (proc : ProcState) (why : ExecStopReason)
    (hsynced : Synced c) (hkernel : procPhase c.proc 0 = .runnable)
    (h : OwnerOk mach c pid image s) (hs : slotOf c.elf pid = some s) (frame : UserContext) (ht : task ≠ .unused) (hr : task ≠ .running)
    (hp : taskStatePhase task = procStatePhase proc) :
    ∃ c', taskStopSaved (returnToKernel (setStop (syscallSaveYieldContext c frame) reason)) pid
        task proc why = (some why, c') ∧
      Stopped c pid image s frame (procStatePhase proc) c' ∧ CurrentOk c' := by
  have hpos := h.pos
  have hlive := live_of_procGetImage h.found
  rw [syscallSaveYieldContext_eq h]
  let bound : Core := { c with proc := procBindImage c.proc pid (stoppedImage image frame) }
  let back : Core := returnToKernel (setStop bound reason)
  have himg : procGetImage back.proc pid = some (stoppedImage image frame) := by
    change procGetImage (procBindImage c.proc pid (stoppedImage image frame)) pid = _
    rw [procGetImage_procBindImage, if_pos ⟨rfl, hlive⟩]
  have hok : ImageOk mach (stoppedImage image frame) s :=
    ⟨h.fits.lower, h.fits.upper, h.fits.stackBase, h.fits.stackSize⟩
  have hsnap := elfSnapshotImage_eq (c := back) (Int.le_of_lt hpos)
    (show (stoppedImage image frame).loaded = true from h.loaded) hs hok
  have hphase : ∀ q, procPhase back.proc q = procPhase c.proc q :=
    fun q => procPhase_procBindImage _
  have hbound : Synced bound := synced_bind hsynced _
  let kept : Core := setSaved back s (savedImage back (stoppedImage image frame) s)
  have hsync : Synced kept := ⟨hbound.procs, hbound.tasks, hbound.sync⟩
  have hliveKept : procPhase kept.proc pid ≠ .dead := by
    rw [show procPhase kept.proc pid = procPhase c.proc pid from hphase pid]
    exact hlive
  have hleave := leaveTask_repaint (c := kept) task proc hsync
    ((hphase 0).trans hkernel) hliveKept (by omega) ht hr hp
  refine ⟨_, ?_, ?_, hleave.2⟩
  · change taskStopSaved back pid task proc why = _
    rw [taskStopSaved, himg]
    dsimp only
    rw [hsnap]
  · have hre := hleave.1
    refine ⟨hre.ipc, hre.mem, ?_, fun s' hs' => ?_, ?_, ?_, fun q => ?_, fun q => ?_, hre.synced⟩
    · rw [hre.elf]
      rfl
    · rw [hre.elf]
      exact Function.update_of_ne hs' _ _
    · rw [hre.elf]
      exact Function.update_self s _ _
    · exact hre.nextPid.trans (nextPid_procBindImage _)
    · refine (hre.image q).trans ((procGetImage_procBindImage _).trans ?_)
      simp only [hlive, ne_eq, not_false_eq_true, and_true]
    · refine (hre.phase q).trans ?_
      by_cases hq : q = pid
      · simp [hq]
      · rw [Function.update_of_ne hq, if_neg hq]
        exact hphase q

theorem base_stopped {frame : UserContext} {phase : Phase} (hb : Base mach c)
    (h : OwnerOk mach c pid image s) (hs : slotOf c.elf pid = some s)
    (hstop : Stopped c pid image s frame phase c') (hphase : phase ≠ .dead ∧ phase ≠ .zombie) :
    Base mach c' := by
  have hpos := h.pos
  have hlive := live_of_procGetImage h.found
  have hslot : ∀ p, slotOf c'.elf p = slotOf c.elf p := by
    intro p
    unfold slotOf
    rw [hstop.owners]
  refine ⟨hstop.synced, ?_, ?_, ?_, fun p hp => ?_, fun p => ?_, ?_, fun p hp => ?_,
    fun p im him hl => ?_, fun p hp => ?_, fun p hp hl => ?_⟩
  · rw [hstop.ipc]
    exact hb.mail
  · rw [hstop.owners]
    exact hb.owners
  · rw [hstop.nextPid]
    exact hb.next
  · rw [hstop.nextPid]
    rw [hstop.phase] at hp
    by_cases hq : p = pid
    · rw [hq]
      exact hb.pids pid hlive
    · rw [if_neg hq] at hp
      exact hb.pids p hp
  · rw [hstop.phase]
    split
    · exact hphase.2
    · exact hb.zombie p
  · rw [hstop.phase, if_neg (by omega)]
    exact hb.kernel
  · rw [hslot] at hp
    rw [hstop.nextPid]
    exact hb.owner p hp
  · rw [hstop.image] at him
    rw [hslot]
    split at him
    · rename_i hq
      obtain rfl := Option.some.inj him
      rw [hq]
      exact ⟨s, hs, h.fits.lower, h.fits.upper, h.fits.stackBase, h.fits.stackSize⟩
    · exact hb.loaded p im him hl
  · rw [hstop.ipc] at hp
    rw [hstop.nextPid]
    exact hb.waiterPid p hp
  · rw [hstop.ipc] at hp
    rw [hstop.phase] at hl
    rw [hstop.image]
    by_cases hq : p = pid
    · rw [if_pos hq]
      exact ⟨_, rfl, h.loaded, rfl⟩
    · rw [if_neg hq] at hl ⊢
      exact hb.waiterImage p hp hl

/-- The view of a process that has just stopped is the memory it had. -/
theorem view_stopped {frame : UserContext} {phase : Phase} (hok : ImageOk mach image s)
    (hstop : Stopped c pid image s frame phase c') (a : U32) :
    view c' image s a = c.mem a := by
  obtain ⟨-, himg, -, -⟩ := range_bounds hok
  unfold view
  rw [hstop.saved, hstop.mem]
  split
  · rename_i hin
    unfold ByteMem.InRange at hin
    unfold savedImage
    rw [if_pos (by bv_omega)]
    congr 1
    bv_omega
  · rfl

/-! ## Exiting -/

/-- The end of a process, for each of the functions that may have run it. -/
theorem exit_spec (caller : Caller) (rc : Int) (r : Ring3) (hb : Base mach c)
    (hpos : 0 < pid) (hlive : procPhase c.proc pid ≠ .dead)
    (hslot : ∀ i, caller = .auto i → c.task.findSlotByPid pid = some i) :
    ∃ c', callerEnd caller (leaveTask { c with ring3 := r } pid .zombie .zombie) pid rc
        (some .exited) = c' ∧
      Gone { c with ring3 := r } c' pid ∧ CurrentOk c' := by
  have hb' : Base mach { c with ring3 := r } := hb.setMem c.mem r
  have hleave := leaveTask_repaint (c := { c with ring3 := r }) .zombie .zombie hb'.synced hb'.kernel hlive (by omega) (by simp) (by simp) rfl
  have hre := hleave.1
  have hkernel : procPhase (leaveTask { c with ring3 := r } pid .zombie .zombie).proc 0 =
      .runnable := by
    rw [hre.phase, Function.update_of_ne (by omega)]
    exact hb.kernel
  have hlive' : procPhase (leaveTask { c with ring3 := r } pid .zombie .zombie).proc pid ≠
      .dead := by
    rw [hre.phase, Function.update_self]
    simp [procStatePhase]
  have hreap := exitAndReap_spec rc hre.synced hkernel hlive' (by omega)
  have hend : callerEnd caller (leaveTask { c with ring3 := r } pid .zombie .zombie) pid rc
      (some .exited) = exitAndReap (leaveTask { c with ring3 := r } pid .zombie .zombie) pid rc := by
    cases caller with
    | run => rfl
    | resume => rfl
    | auto i =>
        have hi : (leaveTask { c with ring3 := r } pid .zombie .zombie).task.findSlotByPid pid =
            some i := by
          rw [hre.find]
          exact hslot i rfl
        unfold callerEnd taskResumeNextReadyUserEnd
        dsimp only
        rw [if_pos rfl, (occupied_of_find hi).2]
  exact ⟨_, hend, hreap.1.repaint hre, hreap.2 hleave.2⟩

/-! ## Resuming -/

/-- Process `pid` has been resumed: the window holds its saved image, the registers
are those of its record. -/
structure Resumed (c : Core) (pid : Int) (image : ProcImage) (s : Fin elfProcSlots)
    (c' : Core) : Prop where
  ipc : c'.ipc = c.ipc
  elf : c'.elf = c.elf
  mem : c'.mem = resumedMem c image s
  nextPid : c'.proc.nextPid = c.proc.nextPid
  regs : ∃ dummy, c'.ring3.regs = { image.context with espDummy := dummy }
  image : ∀ q, procGetImage c'.proc q = procGetImage c.proc q
  phase : ∀ q, procPhase c'.proc q = if q = pid then .runnable else procPhase c.proc q
  find : c'.task.findSlotByPid = c.task.findSlotByPid
  synced : Synced c'
  entered : JustEntered c' pid

theorem resumed_of_repaint {d : Core} (hre : Repaint c d (Function.update (procPhase c.proc) pid
    .runnable)) : Resumed c pid image s (resumeUserMode { d with
      mem := resumedMem d image s
      ring3 := { d.ring3 with currentPid := toU32 pid } } image.context) := by
  refine ⟨hre.ipc, hre.elf, ?_, hre.nextPid, ⟨_, rfl⟩, hre.image, fun q => ?_, hre.find,
    ⟨hre.synced.procs, hre.synced.tasks, hre.synced.sync⟩, ⟨rfl, rfl, rfl⟩⟩
  · change resumedMem d image s = _
    unfold resumedMem
    rw [hre.mem, hre.elf]
  · refine (hre.phase q).trans ?_
    by_cases hq : q = pid
    · simp [hq]
    · rw [Function.update_of_ne hq, if_neg hq]

theorem base_resumed (hb : Base mach c) (hlive : procPhase c.proc pid ≠ .dead)
    (hre : Resumed c pid image s c') : Base mach c' := by
  refine ⟨hre.synced, ?_, ?_, ?_, fun p hp => ?_, fun p => ?_, ?_, fun p hp => ?_,
    fun p im him hl => ?_, fun p hp => ?_, fun p hp hl => ?_⟩
  · rw [hre.ipc]
    exact hb.mail
  · rw [hre.elf]
    exact hb.owners
  · rw [hre.nextPid]
    exact hb.next
  · rw [hre.nextPid]
    rw [hre.phase] at hp
    by_cases hq : p = pid
    · rw [hq]
      exact hb.pids pid hlive
    · rw [if_neg hq] at hp
      exact hb.pids p hp
  · rw [hre.phase]
    split
    · decide
    · exact hb.zombie p
  · rw [hre.phase]
    split
    · rfl
    · exact hb.kernel
  · rw [hre.elf] at hp
    rw [hre.nextPid]
    exact hb.owner p hp
  · rw [hre.image] at him
    rw [hre.elf]
    exact hb.loaded p im him hl
  · rw [hre.ipc] at hp
    rw [hre.nextPid]
    exact hb.waiterPid p hp
  · rw [hre.ipc] at hp
    rw [hre.phase] at hl
    rw [hre.image]
    by_cases hq : p = pid
    · rw [hq] at hp ⊢
      exact hb.waiterImage pid hp hlive
    · rw [if_neg hq] at hl
      exact hb.waiterImage p hp hl

theorem resumedMem_eq_view (hok : ImageOk mach image s) {a : U32} (ha : Own image a) :
    resumedMem c image s a = view c image s a := by
  obtain ⟨-, himg, -, -⟩ := range_bounds hok
  unfold view
  by_cases hin : ByteMem.InRange image.imageBase image.imageSize.toNat a
  · rw [if_pos hin]
    unfold resumedMem ByteMem.store
    rw [if_pos ((ByteMem.sub_lt_iff_inRange (by omega)).mpr hin)]
  · rw [if_neg hin]
    have hstk : InStack image a := ha.resolve_left hin
    exact resumedMem_sameOutside hok a (not_inWindow_of_inStack hok hstk)

theorem taskRunUserEnter_resume {k : KState} (argc : Int) (argv : Nat → Option CStr)
    (ctx : ExecContext) (hb : Base mach k.core) (hpos : 0 < pid)
    (himg : procGetImage k.core.proc pid = some image) (hl : image.loaded = true)
    (hcv : image.contextValid = true) (hs : slotOf k.core.elf pid = some s)
    (hok : ImageOk mach image s) :
    ∃ k', taskRunUserEnter k pid argc argv ctx = (true, k') ∧
      Resumed k.core pid image s k'.core ∧ CurrentOk k'.core ∧
      k'.files.fds = k.files.fds := by
  obtain ⟨hre, hcur⟩ := setRunning_spec hb.synced (live_of_procGetImage himg)
  unfold taskRunUserEnter
  rw [himg]
  simp only [hcv, if_true]
  rw [if_neg (by simp only [hl, not_true_eq_false, or_false]; omega),
    elfResumeImage_eq (Int.le_of_lt hpos) hl hcv (by rw [hre.elf]; exact hs) hok]
  refine ⟨_, rfl, resumed_of_repaint hre, ?_, rfl⟩
  exact currentOk_ofSame hcur rfl fun _ => rfl

end SlopOS.Proofs.Leaving
