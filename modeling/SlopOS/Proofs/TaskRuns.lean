import SlopOS.Proofs.Mailboxes
import SlopOS.Proofs.ReachableStates
import SlopOS.Proofs.StepOutcomes
import SlopOS.Proofs.TaskStates
/-!
# Task and process states in every reachable state

The kernel functions that change a state do so in both tables, so `Coherent`
holds between any two steps; and whenever a user task has stopped, the kernel
task is the current one.
-/

namespace SlopOS.Proofs.TaskRuns

open SlopOS.Support SlopOS.Kernel
open SlopOS.Proofs.Tables SlopOS.Proofs.Scheduling SlopOS.Proofs.TaskStates
open SlopOS.Proofs.TableInvariant SlopOS.Proofs.Dispatch SlopOS.Proofs.Launching
open SlopOS.Proofs.UserPointers SlopOS.Proofs.SystemCalls SlopOS.Proofs.Moves
open SlopOS.Proofs.ReachableStates SlopOS.Proofs.StepOutcomes

/-- Neither the task table nor the process table has changed. -/
structure SameTables (c c' : Core) : Prop where
  task : c'.task = c.task
  proc : c'.proc = c.proc

variable {mach : Machine} {b : Boot} {s s' : Sys} {e : Event} {c c' : Core} {k k' : KState}
variable {pid dst : Int} {caller : Caller} {image : ProcImage}

theorem SameTables.refl (c : Core) : SameTables c c := ⟨rfl, rfl⟩

theorem Coherent.same (h : Coherent c) (hs : SameTables c c') : Coherent c' := by
  refine h.ofSame ?_ ?_ ?_
  · rw [hs.task]
  · rw [hs.task]
  · rw [hs.proc]

theorem coherent_bind (h : Coherent c) (pid : Int) (image : ProcImage) :
    Coherent { c with proc := procBindImage c.proc pid image } :=
  h.ofSame rfl rfl (procs_procBindImage image)

/-! ## The loader -/

theorem sameTables_slot (c : Core) (pid : Int) : SameTables c (elfSlotForPid c pid).2 := by
  obtain ⟨elf, h⟩ := Mail.elfSlotForPid_core c pid
  rw [h]
  exact ⟨rfl, rfl⟩

theorem sameTables_load (c : Core) (pid : Int) (plan : ExecLoadPlan) (file : FileView) :
    SameTables c (elfLoadFromPlan mach c pid plan file).core := by
  have hslot := sameTables_slot c pid
  unfold elfLoadFromPlan
  split
  · exact .refl c
  split
  · exact .refl c
  split
  · rename_i d hd
    rwa [hd] at hslot
  · rename_i slot d hd
    rw [hd] at hslot
    dsimp only
    split
    · exact ⟨hslot.task, hslot.proc⟩
    · exact ⟨hslot.task, hslot.proc⟩

theorem sameTables_snapshot (c : Core) (pid : Int) (image : ProcImage) :
    SameTables c (elfSnapshotImage c pid image).2 := by
  have hslot := sameTables_slot c pid
  unfold elfSnapshotImage
  split
  · exact .refl c
  split
  · exact .refl c
  split
  · rename_i d hd
    rwa [hd] at hslot
  · rename_i slot d hd
    rw [hd] at hslot
    exact ⟨hslot.task, hslot.proc⟩

theorem sameTables_resume (c : Core) (image : ProcImage) (pid : Int) :
    SameTables c (elfResumeImage c image pid).2 := by
  have hslot := sameTables_slot c pid
  unfold elfResumeImage
  split
  · exact .refl c
  split
  · exact .refl c
  split
  · rename_i d hd
    rwa [hd] at hslot
  · rename_i slot d hd
    rw [hd] at hslot
    exact ⟨hslot.task, hslot.proc⟩

theorem sameTables_execute (c : Core) (image : ProcImage) (pid argc : Int)
    (argv : Nat → Option CStr) : SameTables c (elfExecuteImage c image pid argc argv).2 := by
  have hdone := Loader.elfExecuteImage_cases c image pid argc argv
  generalize elfExecuteImage c image pid argc argv = r at hdone ⊢
  cases hdone <;> exact ⟨rfl, rfl⟩

theorem sameTables_write (c : Core) (pid : Int) (ptr len : U32) (src : Nat → U8) :
    SameTables c (elfWriteToTaskMemory c pid ptr src len).2 := by
  obtain ⟨elf, mem, h⟩ := Mail.elfWriteToTaskMemory_core c pid ptr len src
  rw [h]
  exact ⟨rfl, rfl⟩

/-! ## Messages -/

theorem coherent_wake (h : Coherent c) (dst : Int) (slot : Fin ipcMailboxMax) (image : ProcImage) :
    Coherent (wakeReceiver c dst slot image) := by
  have hset := @setBoth_states _ dst (coherent_bind h dst
    { image with context := { image.context with eax := 0 } }) _
    (show TaskState.ready ≠ .unused by decide) (by decide) fun _ => rfl
  exact Coherent.same hset ⟨rfl, rfl⟩

theorem coherent_deliver (h : Coherent c) (dst : Int) (msg : IpcMessage) :
    Coherent (ipcUnblockDeliver c dst msg).2 := by
  unfold ipcUnblockDeliver
  split
  · exact h
  split
  · exact h
  rename_i slot _
  split
  · exact Coherent.same h ⟨rfl, rfl⟩
  have hwrite := sameTables_write c dst (c.ipc.waiters slot).userMsgPtr
    (BitVec.ofNat 32 ipcMessageSize) msg.byte
  split
  · rename_i d hd
    rw [hd] at hwrite
    exact Coherent.same h hwrite
  · rename_i d hd
    rw [hd] at hwrite
    have hd' : Coherent d := Coherent.same h hwrite
    split
    · exact hd'
    split
    · exact hd'
    · exact coherent_wake hd' dst slot _

theorem coherent_send (h : Coherent c) (src dst : Int) (msg : IpcMessage) :
    Coherent (ipcSend c src dst msg).2 := by
  have hdeliver := coherent_deliver h dst { msg with srcPid := src, dstPid := dst }
  unfold ipcSend
  split
  · exact h
  dsimp only
  split
  · rename_i d hd
    rwa [hd] at hdeliver
  rename_i d hd
  rw [hd] at hdeliver
  split
  · exact hdeliver
  · split
    · exact Coherent.same hdeliver ⟨rfl, rfl⟩
    · exact Coherent.same hdeliver ⟨rfl, rfl⟩

theorem sameTables_block (c : Core) (pid : Int) (ptr : U32) :
    SameTables c (ipcBlockRecv c pid ptr).2 := by
  unfold ipcBlockRecv
  split
  · exact .refl c
  dsimp only
  split
  · exact .refl c
  · exact ⟨rfl, rfl⟩

/-! ## System calls -/

theorem sameTables_recv (k : KState) (msg : U32) {r : Int}
    (h : (ksysIpcRecv k msg).done = some (r, k')) : SameTables k.core k'.core := by
  unfold ksysIpcRecv at h
  split at h
  · cases h
    exact .refl _
  split at h
  · cases h
    exact sameTables_block _ _ _
  · rename_i kmsg d hrecv
    cases h
    unfold ipcRecv at hrecv
    split at hrecv
    · cases hrecv
    split at hrecv
    · cases hrecv
    split at hrecv
    · cases hrecv
      exact ⟨rfl, rfl⟩
    · cases hrecv

theorem coherent_sendWith (h : Coherent k.core) (msg : U32) {r : Int}
    (hdone : (ksysIpcSend k msg).done = some (r, k')) : Coherent k'.core := by
  unfold ksysIpcSend ksysIpcSendWith at hdone
  split at hdone
  · cases hdone
    exact h
  · cases hdone
    exact coherent_send h _ _ _

/-- A call that is not an exit sends a message or leaves both tables alone. -/
theorem entry_cases {ret : Int} {sl : Fin elfProcSlots} {num a1 a2 a3 a4 a5 : U32}
    (hown : OwnerOk mach k.core pid image sl) (hexit : num ≠ sysExit)
    (hdone : (syscallEntry mach k num a1 a2 a3 a4 a5).done = some (ret, k')) :
    (ksysIpcSend k a1).done = some (ret, k') ∨ SameTables k.core k'.core := by
  by_cases hsend : num ∈ sendNumbers
  · rw [entry_send hsend] at hdone
    exact .inl hdone
  by_cases hrecv : num = sysIpcRecv
  · rw [hrecv] at hdone
    exact .inr (sameTables_recv k a1 hdone)
  have hipc : num ∉ ipcNumbers := by
    unfold ipcNumbers
    unfold sendNumbers at hsend
    simp only [List.mem_cons, List.not_mem_nil, or_false, not_or] at hsend ⊢
    exact ⟨hsend.1, hrecv, hsend.2⟩
  obtain ⟨m, hcore, -⟩ := (syscallEntry_ok hown num a1 a2 a3 a4 a5 hipc hexit).core ret k' hdone
  rw [hcore]
  exact .inr ⟨rfl, rfl⟩

theorem coherent_entry {ret : Int} {sl : Fin elfProcSlots} {num a1 a2 a3 a4 a5 : U32}
    (hown : OwnerOk mach k.core pid image sl) (h : Coherent k.core) (hexit : num ≠ sysExit)
    (hdone : (syscallEntry mach k num a1 a2 a3 a4 a5).done = some (ret, k')) :
    Coherent k'.core := by
  rcases entry_cases hown hexit hdone with hsend | hsame
  · exact coherent_sendWith h a1 hsend
  · exact Coherent.same h hsame

theorem coherent_stub {sl : Fin elfProcSlots} {left : Bool}
    (hown : OwnerOk mach k.core pid image sl) (h : Coherent k.core)
    (hstub : syscallStub mach k = some (left, k')) : Coherent k'.core := by
  have hsave : ∀ c frame, Coherent c → Coherent (syscallSaveYieldContext c frame) := by
    intro c frame hc
    unfold syscallSaveYieldContext
    dsimp only
    split
    · exact hc
    split
    · exact hc
    · exact coherent_bind hc _ _
  have hstop : ∀ c reason, Coherent c → Coherent (returnToKernel (setStop c reason)) :=
    fun _ _ hc => Coherent.same hc ⟨rfl, rfl⟩
  cases syscallStub_cases hstub with
  | exited => exact Coherent.same h ⟨rfl, rfl⟩
  | left => exact hstop _ 2 h
  | yielded => exact hstop _ 1 (hsave _ _ h)
  | blocked hplain hdone =>
      exact hstop _ 3 (hsave _ _ (coherent_entry hown h (hplain.eax_ne hown.active) hdone))
  | returned hplain hdone =>
      exact Coherent.same (coherent_entry hown h (hplain.eax_ne hown.active) hdone) ⟨rfl, rfl⟩

/-! ## Stopping -/

theorem taskStopSaved_states {st : TaskState} {reason : ExecStopReason} (h : Coherent c)
    (hpid : pid ≠ 0) (hst : st ≠ .unused) (hrun : st ≠ .running) :
    Coherent (taskStopSaved c pid st (procOfTask st) reason).2 ∧
      ((taskStopSaved c pid st (procOfTask st) reason).1 ≠ none →
        AtKernel (taskStopSaved c pid st (procOfTask st) reason).2) := by
  unfold taskStopSaved
  split
  · exact ⟨h, fun hne => absurd rfl hne⟩
  rename_i image _
  have hsnap := sameTables_snapshot c pid image
  split
  · rename_i d hd
    rw [hd] at hsnap
    exact ⟨Coherent.same h hsnap, fun hne => absurd rfl hne⟩
  · rename_i d hd
    rw [hd] at hsnap
    have hleave := leaveTask_states (Coherent.same h hsnap) hpid hst hrun
    exact ⟨hleave.1, fun _ => hleave.2⟩

theorem taskRunUserStop_states (h : Coherent c) (hpid : pid ≠ 0) :
    Coherent (taskRunUserStop c pid).2 ∧
      ((taskRunUserStop c pid).1 ≠ none → AtKernel (taskRunUserStop c pid).2) := by
  unfold taskRunUserStop
  split
  · exact taskStopSaved_states h hpid (show TaskState.ready ≠ .unused by decide) (by decide)
  split
  · exact taskStopSaved_states h hpid (show TaskState.blocked ≠ .unused by decide) (by decide)
  · have hleave := leaveTask_states h hpid (show TaskState.zombie ≠ .unused by decide) (by decide)
    exact ⟨hleave.1, fun _ => hleave.2⟩

theorem callerEnd_states {rc : Int} {stop : Option ExecStopReason} (h : Coherent c)
    (hpid : pid ≠ 0)
    (hslot : ∀ i, caller = .auto i → stop = some .exited → (c.task.tasks i).pid ≠ 0) :
    Coherent (callerEnd caller c pid rc stop) := by
  cases caller with
  | run =>
      unfold callerEnd execRunElfPathEnd
      dsimp only
      split
      · exact exitAndReap_states _ h hpid
      · exact exitAndReap_states _ h hpid
      · exact h
  | resume =>
      unfold callerEnd execResumePidEnd
      dsimp only
      split
      · exact exitAndReap_states _ h hpid
      · exact h
  | auto i =>
      unfold callerEnd taskResumeNextReadyUserEnd
      dsimp only
      split
      · rename_i hexit
        exact exitAndReap_states _ h (hslot i rfl hexit)
      · exact h

/-! ## Entering -/

theorem taskRunUserEnter_states {argc : Int} {argv : Nat → Option CStr} {ctx : ExecContext}
    (h : Coherent k.core) : Coherent (taskRunUserEnter k pid argc argv ctx).2.core := by
  unfold taskRunUserEnter
  split
  · exact h
  rename_i image himg
  split
  · exact h
  dsimp only
  obtain ⟨slot, hset, -⟩ := setRunning_states h (live_of_procGetImage himg)
  split
  · exact Coherent.same hset (sameTables_resume _ _ _)
  · exact Coherent.same hset (sameTables_execute _ _ _ _ _)

def enteredKernel : Entered → KState
  | .returned _ k => k
  | .entered _ k => k

@[simp] theorem enteredKernel_orFailed (r : Entered) :
    enteredKernel r.orFailed = enteredKernel r := by
  cases r <;> rfl

theorem execStart_states {path : CStr} {argv : List CStr} {ctx : ExecContext} {ppid : Int}
    {file : FileView} {plan : ExecLoadPlan} (hb : Base mach k.core) (h : Coherent k.core) :
    Coherent (enteredKernel (execStart mach k path argv ctx ppid file plan)).core := by
  unfold execStart
  split
  · exact h
  rename_i pid d hspawn
  have hborn := taskSpawn_spec hb.synced hb.zombie hb.fresh hspawn
  have hpid : pid ≠ 0 := by
    have := hb.next.1
    have := hborn.pid_eq
    omega
  have hd := taskSpawn_states h hb.zombie hb.fresh hspawn
  have hload : Coherent (elfLoadFromPlan mach d pid plan file).core :=
    Coherent.same hd (sameTables_load d pid plan file)
  dsimp only
  split
  · exact exitAndReap_states _ hload hpid
  rename_i image _
  have hbound := coherent_bind hload pid { image with cwd := ctx.cwd, output := ctx.output }
  have henter := @taskRunUserEnter_states
    (k.setCore { (elfLoadFromPlan mach d pid plan file).core with
      proc := procBindImage (elfLoadFromPlan mach d pid plan file).core.proc pid
        { image with cwd := ctx.cwd, output := ctx.output } })
    pid argv.length (argv[·]?) ctx hbound
  split
  · rename_i hk
    rw [hk] at henter
    exact henter
  · rename_i hk
    rw [hk] at henter
    exact exitAndReap_states _ henter hpid

theorem execRunElfPath_states {path : CStr} {argv : List CStr} {ctx : ExecContext} {r : Entered}
    (hb : Base mach k.core) (h : Coherent k.core)
    (hrun : execRunElfPath mach k path argv ctx = some r) : Coherent (enteredKernel r).core := by
  unfold execRunElfPath at hrun
  dsimp only at hrun
  split at hrun
  · cases hrun
  · cases hrun
    exact h
  split at hrun
  · cases hrun
  split at hrun
  · cases hrun
    exact h
  · cases hrun
    exact execStart_states (k := k.setFs _) hb h

theorem execTry_states {argv : List CStr} {ctx : ExecContext} {r : Entered} {paths : List CStr}
    (hb : Base mach k.core) (h : Coherent k.core)
    (hrun : execTry mach k argv ctx paths = some r) : Coherent (enteredKernel r).core := by
  induction paths generalizing k with
  | nil =>
      cases hrun
      exact h
  | cons path paths ih =>
      rw [execTry] at hrun
      split at hrun
      · cases hrun
      · rename_i fs _
        exact ih (k := k.setFs fs) hb h hrun
      · rename_i fs _
        obtain ⟨r', hran, rfl⟩ := Option.map_eq_some_iff.mp hrun
        rw [enteredKernel_orFailed]
        exact execRunElfPath_states (k := k.setFs fs) hb h hran

theorem execRunPath_states {path : CStr} {argv : List CStr} {ctx : ExecContext} {r : Entered}
    (hb : Base mach k.core) (h : Coherent k.core)
    (hrun : execRunPath mach k path argv ctx = some r) : Coherent (enteredKernel r).core := by
  unfold execRunPath at hrun
  split at hrun
  · cases hrun
    exact h
  split at hrun
  · cases hrun
    exact Coherent.same h ⟨rfl, rfl⟩
  · exact execTry_states hb h hrun

/-! ## Steps -/

theorem leave_of_exited (hexited : (taskRunUserStop c pid).1 = some .exited) :
    c.ring3.stopReason ≠ 1 ∧ c.ring3.stopReason ≠ 3 ∧
      (taskRunUserStop c pid).2 = leaveTask c pid .zombie .zombie := by
  have hsaved : ∀ st pst why, why ≠ .exited →
      (taskStopSaved c pid st pst why).1 ≠ some .exited := by
    intro st pst why hwhy
    unfold taskStopSaved
    split
    · exact nofun
    split
    · exact nofun
    · exact fun heq => hwhy (Option.some.inj heq)
  unfold taskRunUserStop at hexited ⊢
  split at hexited
  · exact absurd hexited (hsaved _ _ _ (by decide))
  rename_i h1
  split at hexited
  · exact absurd hexited (hsaved _ _ _ (by decide))
  rename_i h3
  rw [if_neg h1, if_neg h3]
  exact ⟨h1, h3, rfl⟩

/-- Only the calls that end a process leave without a reason to come back. -/
theorem sameTables_stub (hstub : syscallStub mach k = some (true, k'))
    (h1 : k'.core.ring3.stopReason ≠ 1) (h3 : k'.core.ring3.stopReason ≠ 3) :
    SameTables k.core k'.core := by
  cases syscallStub_cases hstub with
  | exited => exact ⟨rfl, rfl⟩
  | left => exact ⟨rfl, rfl⟩
  | yielded => exact absurd rfl h1
  | blocked => exact absurd rfl h3

theorem stop_caller (hs : SysOk b.mach s) (hctl : s.ctl = .user pid caller)
    (hstub : syscallStub b.mach s.kernel = some (true, k')) (i : Fin maxTasks)
    (hcaller : caller = .auto i) (hexited : (taskRunUserStop k'.core pid).1 = some .exited) :
    ((taskRunUserStop k'.core pid).2.task.tasks i).pid ≠ 0 := by
  have hrun := hs.ctl
  rw [hctl] at hrun
  obtain ⟨h1, h3, hleave⟩ := leave_of_exited hexited
  have hsame := sameTables_stub hstub h1 h3
  have hpos := hrun.1.pos
  have hsynced : Synced k'.core := by
    refine ⟨?_, ?_, fun p => ?_⟩
    · rw [hsame.proc]
      exact hs.base.synced.procs
    · rw [hsame.task]
      exact hs.base.synced.tasks
    · rw [hsame.proc, hsame.task]
      exact hs.base.synced.sync p
  have hre := (leaveTask_repaint .zombie .zombie hsynced (by rw [hsame.proc]; exact hs.base.kernel)
    (by rw [hsame.proc]; exact hrun.1.live) (by omega : pid ≠ 0) (by decide) (by decide) rfl).1
  have hfind : (leaveTask k'.core pid .zombie .zombie).task.findSlotByPid pid = some i := by
    rw [hre.find, hsame.task]
    exact hrun.2 i hcaller
  rw [hleave, (occupied_of_find hfind).2]
  omega

theorem coherent_shellStep (hs : SysOk b.mach s) (h : Coherent s.kernel.core)
    (hstep : shellStep b s.kernel e = some s') : Coherent s'.kernel.core := by
  have henters : ∀ {pid : Int} {ctx : ExecContext} {ok k'},
      taskRunUserEnter s.kernel pid 0 (fun _ => none) ctx = (ok, k') → Coherent k'.core := by
    intro pid ctx ok k' henter
    have hstates := @taskRunUserEnter_states _ pid 0 (fun _ => none) ctx h
    rw [henter] at hstates
    exact hstates
  cases shellStep_cases hstep with
  | @launch _ _ _ _ r _ hrun =>
      have hr := execRunPath_states hs.base h hrun
      cases r with
      | returned rc k => exact hr
      | entered pid k => exact hr
  | idle => exact h
  | auto _ _ henter => exact henters henter
  | kept => exact h
  | resume _ _ _ _ henter => exact henters henter
  | files => exact h
  | tick => exact schedulerOnTimerTick_states h hs.current

theorem coherent_userStep (hs : SysOk b.mach s) (h : Coherent s.kernel.core)
    (huser : s.ctl = .user pid caller) (hstep : userStep b s.kernel pid caller e = some s') :
    Coherent s'.kernel.core := by
  have hrun := hs.ctl
  rw [huser] at hrun
  obtain ⟨image, sl, hown, -⟩ := ownerOk_of_running hs.base hrun.1
  cases userStep_cases hstep with
  | tick => exact schedulerOnTimerTick_states h hs.current
  | user regs bytes =>
      change Coherent (runUser s.kernel.core pid regs bytes)
      unfold runUser
      split
      · exact h
      · exact Coherent.same h ⟨rfl, rfl⟩
  | back hstub => exact coherent_stub hown h hstub
  | stopped hstub =>
      have hpid : pid ≠ 0 := by
        have := hrun.1.pos
        omega
      have hstop := taskRunUserStop_states (coherent_stub hown h hstub) hpid
      exact callerEnd_states hstop.1 hpid fun i hi hexit =>
        stop_caller hs huser hstub i hi hexit

theorem coherent_step (hs : SysOk b.mach s) (h : Coherent s.kernel.core)
    (hstep : step b s e = some s') : Coherent s'.kernel.core := by
  unfold step at hstep
  split at hstep
  · exact coherent_shellStep hs h hstep
  · rename_i huser
    exact coherent_userStep hs h huser hstep

/-! ## Every reachable state -/

theorem coherent_bootCore (mach : Machine) : Coherent (bootCore mach) := by
  have hbase := base_bootCore mach
  have hproc : ∀ p, procInit.findSlotByPid p = if p = 0 then some 0 else none := fun p =>
    SlotTable.indexOf_single 0 rfl rfl
  refine ⟨hbase.synced, hbase.kernel, fun p => ?_, fun i hi => ?_⟩
  · change procStateOf procInit p = procOfTask (taskStateOf taskingInit p)
    unfold procStateOf taskStateOf
    rw [hproc, find_taskingInit]
    by_cases hp : p = 0
    · rw [if_pos hp]
      rfl
    · rw [if_neg hp]
      rfl
  · change (taskingInit.tasks i).state = .running at hi
    change some 0 = some i
    by_cases h0 : i = 0
    · rw [h0]
    · simp only [taskingInit, Function.update_of_ne h0] at hi
      cases hi

theorem coherent_spawn {n : Int} {name : Option CStr} (hboot : Booting mach n c)
    (h : Coherent c) : Coherent (((taskSpawnKernel c name 0).map Prod.snd).getD c) := by
  cases hspawn : taskSpawnKernel c name 0 with
  | none => exact h
  | some r => exact taskSpawn_states h hboot.base.zombie hboot.base.fresh hspawn

theorem coherent_coreInit (mach : Machine) : Coherent (coreInit mach) := by
  have hboot : Booting mach 1 (bootCore mach) := booting_bootCore mach
  have hfirst := @coherent_spawn _ _ _ (some (cstr "shell-vga")) hboot (coherent_bootCore mach)
  exact coherent_spawn (hboot.spawn (by decide)) hfirst

theorem coherent_of_reachable (hs : Reachable b s) : Coherent s.kernel.core := by
  obtain ⟨s₀, es, hboot, hrun⟩ := hs
  have hinit : SysOk b.mach s₀ ∧ Coherent s₀.kernel.core := by
    refine ⟨sysOk_kmain hboot, ?_⟩
    obtain ⟨fs, -, rfl⟩ := Option.map_eq_some_iff.mp hboot
    exact coherent_coreInit b.mach
  have hall := Runs.invariant (I := fun s => SysOk b.mach s ∧ Coherent s.kernel.core)
    (fun _ _ _ _ h hstep => ⟨(step_ok h.1 hstep).ok, coherent_step h.1 h.2 hstep⟩)
    (Runs.AllSteps.trivial s₀ es) hrun hinit
  exact hall.2

/-- The task table and the process table agree, slot by slot. -/
structure TablesAgree (c : Core) : Prop where
  one : ∀ i j, (c.task.tasks i).state = .running → (c.task.tasks j).state = .running → i = j
  current : ∀ i, (c.task.tasks i).state = .running → c.task.currentIndex = some i
  tasks : SlotTable.Distinct TaskInfo.key c.task.tasks
  procs : SlotTable.Distinct ProcessInfo.key c.proc.procs
  live : ∀ p, (∃ i, (c.task.tasks i).key = some p) ↔ ∃ j, (c.proc.procs j).key = some p
  same : ∀ i j p, (c.task.tasks i).key = some p → (c.proc.procs j).key = some p →
    (c.proc.procs j).state = procOfTask (c.task.tasks i).state

theorem tablesAgree_of_coherent (h : Coherent c) : TablesAgree c := by
  have htask : ∀ i p, (c.task.tasks i).key = some p → c.task.findSlotByPid p = some i :=
    fun _ _ => h.synced.tasks.indexOf_eq_some.mpr
  have hproc : ∀ j p, (c.proc.procs j).key = some p → c.proc.findSlotByPid p = some j :=
    fun _ _ => h.synced.procs.indexOf_eq_some.mpr
  refine ⟨fun i j hi hj => ?_, h.only, h.synced.tasks, h.synced.procs, fun p => ?_,
    fun i j p hi hj => ?_⟩
  · have hindex := h.only i hi
    rw [h.only j hj] at hindex
    exact (Option.some.inj hindex).symm
  · have hiff : taskPhase c.task p ≠ .dead ↔ procPhase c.proc p ≠ .dead := by
      rw [h.synced.sync]
    rw [taskPhase_ne_dead_iff, procPhase_ne_dead_iff] at hiff
    constructor
    · rintro ⟨i, hi⟩
      obtain ⟨j, hj⟩ := hiff.mp ⟨i, htask i p hi⟩
      exact ⟨j, procKey_of_find hj⟩
    · rintro ⟨j, hj⟩
      obtain ⟨i, hi⟩ := hiff.mpr ⟨j, hproc j p hj⟩
      exact ⟨i, taskKey_of_find hi⟩
  · have hsame := h.same p
    rw [taskStateOf_of_find (htask i p hi)] at hsame
    unfold procStateOf at hsame
    rwa [hproc j p hj] at hsame

/-- In every reachable state the two tables agree and only the current task is running; and
when a user task has stopped there, the kernel task is current and alone in running. -/
theorem tablesAgree_reachable (hs : Reachable b s) :
    TablesAgree s.kernel.core ∧ ∀ pid caller k', s.ctl = .user pid caller →
      syscallStub b.mach s.kernel = some (true, k') →
      (taskRunUserStop k'.core pid).1 ≠ none → AtKernel (taskRunUserStop k'.core pid).2 := by
  have hcoherent := coherent_of_reachable hs
  refine ⟨tablesAgree_of_coherent hcoherent, fun pid caller k' hctl hstub hstop => ?_⟩
  have hsys := sysOk_of_reachable hs
  have hrun := hsys.ctl
  rw [hctl] at hrun
  obtain ⟨image, sl, hown, -⟩ := ownerOk_of_running hsys.base hrun.1
  have hpos := hrun.1.pos
  exact (taskRunUserStop_states (coherent_stub hown hcoherent hstub) (by omega)).2 hstop

/-- The launched program of the demonstration yields. -/
theorem tablesAgree_demo : ∃ s, Reachable demoBoot s ∧ s.ctl = .user 3 .run ∧
    TablesAgree s.kernel.core ∧ ∃ k', syscallStub demoBoot.mach s.kernel = some (true, k') ∧
      AtKernel (taskRunUserStop k'.core 3).2 := by
  have hrun : (demoRun [demoLaunch, .user { eax := sysYield, cs := 0x1B } fun _ => 0]).map
      (fun s => (s.ctl, (syscallStub demoBoot.mach s.kernel).map fun r =>
        (r.1, (taskRunUserStop r.2.core 3).1))) =
      some (.user 3 .run, some (true, some .yielded)) := by decide +kernel
  obtain ⟨s, hs, hfacts⟩ := exists_of_demoRun hrun
  obtain ⟨hctl, hstub⟩ := Prod.mk.inj hfacts
  obtain ⟨⟨left, k'⟩, hk, hleft⟩ := Option.map_eq_some_iff.mp hstub
  obtain ⟨rfl, hstop⟩ := Prod.mk.inj hleft
  have hreach := reachable_of_demoRun hs
  have hall := tablesAgree_reachable hreach
  refine ⟨s, hreach, hctl, hall.1, k', hk, hall.2 3 .run k' hctl hk ?_⟩
  dsimp only at hstop
  rw [hstop]
  exact nofun

end SlopOS.Proofs.TaskRuns
