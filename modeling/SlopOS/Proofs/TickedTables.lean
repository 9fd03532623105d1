import SlopOS.Proofs.TickFree
import SlopOS.Proofs.Timer
/-!
# Tables under timer ticks

Each function of `Ticks` leaves the tables as the function of `Task` or `Elf` does,
marks apart, whatever ticks fall into its gaps.  The one condition is on the
clean-up: between `proc_exit` and `proc_reap_pid` no switch may touch the dead process.
-/

namespace SlopOS.Proofs.TickedTables

open SlopOS.Support SlopOS.Kernel SlopOS.Kernel.Ticks
open SlopOS.Proofs.Tables SlopOS.Proofs.Scheduling SlopOS.Proofs.Marks
open SlopOS.Proofs.Timer SlopOS.Proofs.TickFree

/-- What the ticks of `w` need: with interrupts `on` the timer finds its tables as it
should, and without them there are no ticks. -/
structure Clock (w : Schedule) (on : Prop) (c : Core) : Prop where
  current : CurrentOk c
  off : ¬on → w = noTicks
  timed : on → Timed c.task

variable {w : Schedule} {on : Prop} {mach : Machine} {t : TaskTable} {c d : Core} {pid : Int}
variable {slot : Fin maxTasks}

theorem Clock.ofTimed (hon : on) (ht : Timed c.task) (hs : Synced c) : Clock w on c :=
  ⟨currentOk_of_timed ht hs, fun hoff => absurd hon hoff, fun _ => ht⟩

theorem wait_clock (gap : Gap) (h : Clock w on c) (hs : Synced c) :
    unmark (wait w gap c) = unmark c ∧ Clock w on (wait w gap c) := by
  by_cases hon : on
  · obtain ⟨hunmark, htimed⟩ := wait_spec (w := w) gap (h.timed hon) (follows_of_synced hs)
    exact ⟨hunmark, .ofTimed hon htimed (synced_of_unmark hunmark hs)⟩
  · obtain rfl := h.off hon
    exact ⟨rfl, h⟩

/-! ## Moving the mark -/

theorem runnable_of_phase (hs : Synced c) (hfind : c.task.findSlotByPid pid = some slot)
    (hrun : procPhase c.proc pid = .runnable) :
    taskStatePhase (c.task.tasks slot).state = .runnable := by
  rw [← taskPhase_of_find hfind, hs.sync, hrun]

theorem demoteCurrent_unmark (hs : Synced c) (slot : Fin maxTasks) :
    unmark (Kernel.demoteCurrent c slot) = unmark c := by
  unfold Kernel.demoteCurrent
  split
  · rfl
  rename_i cur _
  split
  · rename_i hcur
    have hrun : taskStatePhase (c.task.tasks cur).state = .runnable := by
      rw [hcur.2]
      rfl
    exact unmark_eq (unmarkProcs_setState rfl (follows_of_synced hs cur hrun))
      (unmarkTasks_setState rfl hrun) rfl rfl rfl rfl
  · rfl

theorem demoteCurrent_ticks (gap : Gap) (slot : Fin maxTasks) (ht : Timed c.task) (hs : Synced c) :
    unmark (Ticks.demoteCurrent w gap c slot) = unmark c ∧
      Timed (Ticks.demoteCurrent w gap c slot).task ∧
      ∀ i, ((Ticks.demoteCurrent w gap c slot).task.tasks i).state = .running → i = slot := by
  obtain ⟨cur, hcur, hrun⟩ := ht.current
  unfold Ticks.demoteCurrent
  rw [hcur]
  dsimp only
  split
  · let marked : Core := { c with proc := procSetState c.proc (c.task.tasks cur).pid .ready }
    have hmarked : unmark marked = unmark c :=
      unmark_eq (unmarkProcs_setState rfl (follows_of_synced hs cur hrun)) rfl rfl rfl rfl rfl
    obtain ⟨hwait, ht'⟩ := wait_spec (w := w) (c := marked) gap ht
      (follows_of_unmark hmarked (follows_of_synced hs))
    obtain ⟨cur', hcur', hrun'⟩ := ht'.current
    have hindex : (wait w gap { c with
        proc := procSetState c.proc (c.task.tasks cur).pid .ready }).task.currentIndex = some cur' :=
      hcur'
    rw [hindex]
    obtain ⟨hready, hnone⟩ := timed_ready ht' hcur'
    refine ⟨Eq.trans ?_ (hwait.trans hmarked), hready, fun i hi => absurd hi (hnone i)⟩
    exact unmark_eq rfl (unmarkTasks_setState rfl hrun') rfl rfl rfl rfl
  · rename_i hkeep
    refine ⟨rfl, ht, fun i hi => ?_⟩
    have hindex := ht.only i hi
    rw [hcur] at hindex
    obtain rfl := Option.some.inj hindex
    by_contra hne
    exact hkeep ⟨hne, hi⟩

theorem taskSetRunning_ticks (ht : Timed c.task) (hs : Synced c)
    (hrun : procPhase c.proc pid = .runnable) :
    unmark (taskSetRunning w c pid) = unmark c ∧ Timed (taskSetRunning w c pid).task := by
  obtain ⟨slot, hfind⟩ : ∃ slot, c.task.findSlotByPid pid = some slot := by
    rw [← taskPhase_ne_dead_iff, hs.sync, hrun]
    decide
  obtain ⟨h₁, ht₁⟩ := wait_spec (w := w) .taskFound ht (follows_of_synced hs)
  obtain ⟨h₂, ht₂, halone⟩ := demoteCurrent_ticks (w := w) .oldMarked slot ht₁
    (synced_of_unmark h₁ hs)
  have hdem := h₂.trans h₁
  unfold taskSetRunning
  rw [hfind]
  dsimp only
  generalize Ticks.demoteCurrent w .oldMarked (wait w .taskFound c) slot = e at ht₂ halone hdem ⊢
  have hslot : taskStatePhase (e.task.tasks slot).state = .runnable := by
    rw [(slot_of_unmark (task_of_unmark hdem) slot).1]
    exact runnable_of_phase hs hfind hrun
  let marked : Core := { e with
    task := { e.task.setState slot .running with currentIndex := some slot, sliceTicks := 0 } }
  have hmark : unmark marked = unmark e :=
    unmark_eq rfl (unmarkTasks_setState rfl hslot) rfl rfl rfl rfl
  have hmarked := hmark.trans hdem
  have htimed : Timed marked.task :=
    timed_mark halone ht₂.kernel ht₂.used fun _ => by decide
  obtain ⟨h₃, ht₃⟩ := wait_spec (w := w) .newMarked htimed
    (follows_of_unmark hmarked (follows_of_synced hs))
  have hall := h₃.trans hmarked
  refine ⟨Eq.trans ?_ hall, ht₃⟩
  refine unmark_eq (unmarkProcs_setState rfl (Or.inl ?_)) rfl rfl rfl rfl rfl
  rw [phase_of_unmark hall, hrun]

theorem taskSetState_unmark (hs : Synced c) (hrun : procPhase c.proc pid = .runnable) :
    unmark (taskSetState c pid .running) = unmark c := by
  have hdem := fun slot => demoteCurrent_unmark hs slot
  unfold taskSetState
  split
  · rfl
  rename_i slot hfind
  dsimp only
  rw [if_pos rfl]
  refine Eq.trans (unmark_eq (unmarkProcs_setState rfl (Or.inl ?_))
    (unmarkTasks_setState rfl ?_) rfl rfl rfl rfl) (hdem slot)
  · rw [phase_of_unmark (hdem slot), hrun]
  · rw [(slot_of_unmark (task_of_unmark (hdem slot)) slot).1]
    exact runnable_of_phase hs hfind hrun

/-- The marks `task_run_user_until_stop` sets before it enters Ring 3. -/
def markRunning (w : Schedule) (c : Core) (pid : Int) : Core :=
  let c := wait w .taskSet (taskSetRunning w (wait w .imageRead c) pid)
  wait w .procSet { c with proc := procSetState c.proc pid .running }

theorem markRunning_clock (h : Clock w on c) (hs : Synced c)
    (hrun : procPhase c.proc pid = .runnable) :
    unmark (markRunning w c pid) = unmark c ∧ Clock w on (markRunning w c pid) := by
  by_cases hon : on
  · obtain ⟨h₁, ht₁⟩ := wait_spec (w := w) .imageRead (h.timed hon) (follows_of_synced hs)
    obtain ⟨h₂, ht₂⟩ := taskSetRunning_ticks (w := w) ht₁ (synced_of_unmark h₁ hs)
      ((phase_of_unmark h₁ pid).trans hrun)
    have hset := h₂.trans h₁
    obtain ⟨h₃, ht₃⟩ := wait_spec (w := w) .taskSet ht₂
      (follows_of_synced (synced_of_unmark hset hs))
    have htask := h₃.trans hset
    unfold markRunning
    dsimp only
    generalize wait w .taskSet (taskSetRunning w (wait w .imageRead c) pid) = e at ht₃ htask ⊢
    have hproc : unmark { e with proc := procSetState e.proc pid .running } = unmark c := by
      refine Eq.trans (unmark_eq (unmarkProcs_setState rfl (Or.inl ?_)) rfl rfl rfl rfl rfl) htask
      rw [phase_of_unmark htask, hrun]
    obtain ⟨h₄, ht₄⟩ := wait_spec (w := w) (c := { e with
      proc := procSetState e.proc pid .running }) .procSet ht₃
      (follows_of_synced (synced_of_unmark hproc hs))
    have hall := h₄.trans hproc
    exact ⟨hall, .ofTimed hon ht₄ (synced_of_unmark hall hs)⟩
  · obtain rfl := h.off hon
    have hlive : procPhase c.proc pid ≠ .dead := by
      rw [hrun]
      decide
    have hset := taskSetState_unmark hs hrun
    unfold markRunning
    simp only [wait_noTicks, taskSetRunning_noTicks]
    refine ⟨Eq.trans (unmark_eq (unmarkProcs_setState rfl (Or.inl ?_)) rfl rfl rfl rfl rfl) hset,
      (setRunning_spec hs hlive).2, h.off, fun h' => absurd h' hon⟩
    rw [phase_of_unmark hset, hrun]

/-! ## Spawning -/

theorem follows_spawn {proc : ProcTable} {name : Option CStr} {ppid : Int} (hs : Synced c)
    (hfresh : procPhase c.proc c.proc.nextPid = .dead)
    (hspawn : procSpawnKernel c.proc name ppid = some (pid, proc)) :
    Follows { c with proc := proc } := by
  have hspec := procSpawnKernel_spec hs.procs (procPhase_eq_dead_iff.mp hfresh) hspawn
  intro i hi
  unfold Markable
  dsimp only
  rw [hspec.phase]
  split
  · exact Or.inl rfl
  · exact follows_of_synced hs i hi

theorem timed_spawn {info : TaskInfo} (h : Timed t) (hfree : t.allocSlot = some slot)
    (hready : info.state = .ready) :
    Timed { t.setTask slot info with tasksUsed := t.tasksUsed + 1 } := by
  have hstate := (Fin.find?_eq_some_iff.mp hfree).1
  have hne : ∀ i, taskStatePhase (t.tasks i).state = .runnable → i ≠ slot := by
    rintro i hi rfl
    rcases Bool.or_eq_true _ _ ▸ hstate with hst | hst
    · rw [of_decide_eq_true hst] at hi
      cases hi
    · rw [of_decide_eq_true hst] at hi
      cases hi
  have hold : ∀ i, i ≠ slot → (t.setTask slot info).tasks i = t.tasks i :=
    fun i hi => Function.update_of_ne hi _ _
  have hused := h.used
  obtain ⟨cur, hcur, hrun⟩ := h.current
  refine ⟨⟨cur, hcur, ?_⟩, fun i hi => ?_, ?_, ?_, fun i hi hpid => ?_⟩
  · dsimp only
    rw [hold cur (hne cur hrun), hrun]
  · have his : i ≠ slot := by
      rintro rfl
      have hinfo : (t.setTask i info).tasks i = info := Function.update_self i _ _
      dsimp only at hi
      rw [hinfo, hready] at hi
      cases hi
    dsimp only at hi
    rw [hold i his] at hi
    exact h.only i hi
  · obtain ⟨i, hpid, hi⟩ := h.kernel
    refine ⟨i, ?_, ?_⟩
    · dsimp only
      rw [hold i (hne i hi), hpid]
    · dsimp only
      rw [hold i (hne i hi), hi]
  · dsimp only
    omega
  · have hi' : t.currentIndex = some i := hi
    have his : i ≠ slot := by
      rw [hcur] at hi'
      obtain rfl := Option.some.inj hi'
      exact hne cur hrun
    dsimp only at hpid
    rw [hold i his] at hpid
    exact h.slice i hi' hpid

/-- A spawn among ticks is a spawn in a state that differs in marks, and ends in one that
differs in marks. -/
theorem taskSpawnUser_ticks {name : Option CStr} {ppid : Int} (ht : Timed c.task) (hs : Synced c)
    (hfresh : procPhase c.proc c.proc.nextPid = .dead)
    (hspawn : Ticks.taskSpawnUser w c name ppid = (some pid, d)) :
    ∃ c₁ d₁, unmark c₁ = unmark c ∧ Timed c₁.task ∧
      Kernel.taskSpawnUser c₁ name ppid = some (pid, d₁) ∧ unmark d = unmark d₁ ∧ Timed d.task := by
  unfold Ticks.taskSpawnUser at hspawn
  split at hspawn
  · cases hspawn
  rename_i slot hslot
  obtain ⟨h₁, ht₁⟩ := wait_spec (w := w) .slotFound ht (follows_of_synced hs)
  dsimp only at hspawn
  generalize wait w .slotFound c = c₁ at h₁ ht₁ hspawn
  split at hspawn
  · cases hspawn
  rename_i pid' proc hproc
  have hfollows : Follows { c₁ with proc := proc } := by
    refine follows_spawn (synced_of_unmark h₁ hs) ?_ hproc
    rw [phase_of_unmark h₁, nextPid_of_unmark h₁, hfresh]
  obtain ⟨h₂, ht₂⟩ := wait_spec (w := w) (c := { c₁ with proc := proc }) .procMade ht₁ hfollows
  generalize wait w .procMade { c₁ with proc := proc } = c₂ at h₂ ht₂ hspawn
  obtain ⟨hpid, hd⟩ := Prod.mk.inj hspawn
  obtain rfl := Option.some.inj hpid
  have hslot₁ : c₁.task.allocSlot = some slot :=
    (allocSlot_of_unmark (task_of_unmark h₁)).trans hslot
  have hslot₂ : c₂.task.allocSlot = some slot :=
    (allocSlot_of_unmark (task_of_unmark h₂)).trans hslot₁
  let info : TaskInfo := ⟨pid', ppid, .ready, 0, strCopy (name.getD (cstr "uproc")) 16⟩
  have hset : unmarkTasks { c₂.task.setTask slot info with tasksUsed := c₂.task.tasksUsed + 1 } =
      unmarkTasks { c₁.task.setTask slot info with tasksUsed := c₁.task.tasksUsed + 1 } := by
    have htask := task_of_unmark h₂
    have hused : c₂.task.tasksUsed = c₁.task.tasksUsed := used_of_unmark htask
    have hupdate : unmarkTasks (c₂.task.setTask slot info) =
        unmarkTasks (c₁.task.setTask slot info) := by
      rw [unmarkTasks_setTask, unmarkTasks_setTask, htask]
    rw [hused]
    exact congrArg (fun t : TaskTable => { t with tasksUsed := c₁.task.tasksUsed + 1 }) hupdate
  refine ⟨c₁, { c₁ with proc := proc, task := { c₁.task.setTask slot info with
    tasksUsed := c₁.task.tasksUsed + 1 } }, h₁, ht₁, ?_, ?_, ?_⟩
  · unfold Kernel.taskSpawnUser taskSpawn
    rw [hslot₁]
    dsimp only
    rw [hproc]
    rfl
  · rw [← hd]
    have hboth := unmark_update h₂ (proc_of_unmark h₂) hset
    exact hboth
  · rw [← hd]
    exact timed_spawn ht₂ hslot₂ rfl

theorem taskSpawnUser_failed {name : Option CStr} {ppid : Int} (h : Clock w on c) (hs : Synced c)
    (hspawn : Ticks.taskSpawnUser w c name ppid = (none, d)) :
    unmark d = unmark c ∧ Clock w on d := by
  unfold Ticks.taskSpawnUser at hspawn
  split at hspawn
  · cases hspawn
    exact ⟨rfl, h⟩
  dsimp only at hspawn
  split at hspawn
  · cases hspawn
    exact wait_clock .slotFound h hs
  · cases hspawn

/-! ## The search for an image slot -/

theorem takeFreeSlot_ticks (pid : Int) (slots : List (Fin elfProcSlots)) (h : Clock w on c)
    (hs : Synced c) :
    ∃ e, unmark e = unmark c ∧ Clock w on e ∧
      takeFreeSlot w pid slots c = takeFreeSlot noTicks pid slots e := by
  induction slots generalizing c with
  | nil => exact ⟨c, rfl, h, rfl⟩
  | cons i rest ih =>
      by_cases hneg : c.elf.slotOwnerPid i < 0
      · refine ⟨c, rfl, h, ?_⟩
        rw [takeFreeSlot, takeFreeSlot, if_pos hneg, if_pos hneg]
      obtain ⟨h₁, hclock⟩ := wait_clock (.ownerAsked i) h hs
      have hstate : ∀ {e : Core}, unmark e = unmark c →
          (procStateOf e.proc (e.elf.slotOwnerPid i) = .unused ↔
            procStateOf c.proc (c.elf.slotOwnerPid i) = .unused) := by
        intro e he
        rw [← procPhase_eq_dead_iff_unused, ← procPhase_eq_dead_iff_unused, elf_of_unmark he,
          phase_of_unmark he]
      have hneg' : ∀ {e : Core}, unmark e = unmark c → ¬e.elf.slotOwnerPid i < 0 := by
        intro e he
        rwa [elf_of_unmark he]
      by_cases hdead : procStateOf c.proc (c.elf.slotOwnerPid i) = .unused
      · refine ⟨wait w (.ownerAsked i) c, h₁, hclock, ?_⟩
        rw [takeFreeSlot, takeFreeSlot, if_neg hneg, if_neg (hneg' h₁)]
        dsimp only
        rw [if_pos hdead, if_pos ((hstate h₁).mpr hdead)]
        rfl
      · obtain ⟨e, he, hclock', heq⟩ := ih hclock (synced_of_unmark h₁ hs)
        have hall := he.trans h₁
        refine ⟨e, hall, hclock', ?_⟩
        rw [takeFreeSlot, takeFreeSlot, if_neg hneg, if_neg (hneg' hall)]
        dsimp only
        rw [if_neg hdead, if_neg fun hd => hdead ((hstate hall).mp hd), heq]
        rfl

/-- The loader among ticks is the loader in a state that differs in marks. -/
theorem elfLoadFromPlan_ticks (pid : Int) (plan : ExecLoadPlan) (file : FileView)
    (h : Clock w on c) (hs : Synced c) :
    ∃ e, unmark e = unmark c ∧ Clock w on e ∧
      Ticks.elfLoadFromPlan w mach c pid plan file =
        ((Kernel.elfLoadFromPlan mach e pid plan file).image,
          (Kernel.elfLoadFromPlan mach e pid plan file).core) := by
  by_cases hbad : ¬plan.valid ∨ pid < 0
  · refine ⟨c, rfl, h, ?_⟩
    rw [← elfLoadFromPlan_noTicks]
    unfold Ticks.elfLoadFromPlan
    rw [if_pos hbad, if_pos hbad]
  cases hin : imageOutsideWindow plan.imageBase plan.imageSize with
  | true =>
      refine ⟨c, rfl, h, ?_⟩
      rw [← elfLoadFromPlan_noTicks]
      unfold Ticks.elfLoadFromPlan
      rw [if_neg hbad, if_neg hbad, if_pos hin, if_pos hin]
  | false =>
      obtain ⟨e, he, hclock, heq⟩ := takeFreeSlot_ticks pid (List.finRange elfProcSlots) h hs
      have hgood : plan.valid ∧ 0 ≤ pid := by
        simpa only [not_or, not_not, Bool.not_eq_true, not_lt, Bool.not_eq_false] using hbad
      have hown : Ticks.elfSlotForPid w c pid = Ticks.elfSlotForPid noTicks c pid ∨
          Ticks.elfSlotForPid w c pid = Ticks.elfSlotForPid noTicks e pid := by
        unfold Ticks.elfSlotForPid
        rw [elf_of_unmark he]
        split
        · exact Or.inl rfl
        · exact Or.inr heq
      rcases hown with hown | hown
      · exact ⟨c, rfl, h, elfLoadFromPlan_eq file
          ⟨_, _, hown.trans (elfSlotForPid_noTicks c pid), rfl⟩ hgood hin⟩
      · exact ⟨e, he, hclock, elfLoadFromPlan_eq file
          ⟨_, _, hown.trans (elfSlotForPid_noTicks e pid), rfl⟩ hgood hin⟩

/-! ## The clean-up -/

theorem unmarkTasks_free (t : TaskTable) (slot : Fin maxTasks) :
    unmarkTasks (freeTask t slot) = freeTask (unmarkTasks t) slot := by
  have hset := unmarkTasks_setTask t slot emptyTask
  have hempty : unmarkTask emptyTask = emptyTask := rfl
  rw [hempty] at hset
  exact congrArg (fun u : TaskTable => { u with tasksUsed := t.tasksUsed - 1 }) hset

theorem freeTask_at (t : TaskTable) (slot i : Fin maxTasks) :
    (freeTask t slot).tasks i = if i = slot then emptyTask else t.tasks i := by
  unfold freeTask TaskTable.setTask
  by_cases hi : i = slot
  · subst hi
    simp
  · simp [hi]

theorem timed_free (h : Timed t) (hused : 3 ≤ t.tasksUsed) (hcur : t.currentIndex ≠ some slot)
    (hpid : (t.tasks slot).pid ≠ 0) : Timed (freeTask t slot) := by
  have hold : ∀ i, i ≠ slot → (freeTask t slot).tasks i = t.tasks i := by
    intro i hi
    rw [freeTask_at, if_neg hi]
  obtain ⟨cur, hindex, hrun⟩ := h.current
  have hne : cur ≠ slot := by
    rintro rfl
    exact hcur hindex
  refine ⟨⟨cur, hindex, ?_⟩, fun i hi => ?_, ?_, Nat.le_sub_of_add_le hused, fun i hi hi0 => ?_⟩
  · rw [hold cur hne, hrun]
  · by_cases his : i = slot
    · rw [his, freeTask_at, if_pos rfl] at hi
      cases hi
    · rw [hold i his] at hi
      exact h.only i hi
  · obtain ⟨i, h0, hi⟩ := h.kernel
    have his : i ≠ slot := by
      rintro rfl
      exact hpid h0
    exact ⟨i, by rw [hold i his, h0], by rw [hold i his, hi]⟩
  · have hi' : t.currentIndex = some i := hi
    have his : i ≠ slot := by
      rintro rfl
      exact hcur hi'
    rw [hold i his] at hi0
    exact h.slice i hi' hi0

theorem returnToKernel_ticks (hs : Synced c) (hkernel : procPhase c.proc 0 = .runnable)
    (hcur : c.task.currentIndex = some slot) (hdead : (c.task.tasks slot).state = .unused)
    (hslice : c.task.sliceTicks < schedTimesliceTicks) (hused : 2 ≤ c.task.tasksUsed)
    (hnone : ∀ i, (c.task.tasks i).state ≠ .running) :
    unmark (Ticks.taskReturnToKernelMain w c) = unmark c ∧
      Timed (Ticks.taskReturnToKernelMain w c).task := by
  obtain ⟨ks, hfind⟩ : ∃ ks, c.task.findSlotByPid 0 = some ks := by
    rw [← taskPhase_ne_dead_iff, hs.sync, hkernel]
    decide
  have hrun := runnable_of_phase hs hfind hkernel
  have hpid := (occupied_of_find hfind).2
  have hwait : wait w .kernelFound c = c := ticks_idle _ hcur hdead hslice
  have hdem : Ticks.demoteCurrent w .currentMarked c ks = c := by
    unfold Ticks.demoteCurrent
    rw [hcur]
    dsimp only
    rw [if_neg fun hcond => hnone slot hcond.2]
  let marked : Core := { c with
    task := { c.task.setState ks .running with currentIndex := some ks } }
  have hmarked : unmark marked = unmark c :=
    unmark_eq rfl (unmarkTasks_setState rfl hrun) rfl rfl rfl rfl
  have htimed : Timed marked.task :=
    timed_mark (fun i hi => absurd hi (hnone i)) ⟨ks, hpid, hrun⟩ hused fun h0 => absurd hpid h0
  obtain ⟨h₁, ht₁⟩ := wait_spec (w := w) .kernelMarked htimed
    (follows_of_synced (synced_of_unmark hmarked hs))
  have hall := h₁.trans hmarked
  unfold Ticks.taskReturnToKernelMain
  rw [hfind]
  dsimp only
  rw [hwait, hdem]
  change unmark { wait w .kernelMarked marked with proc := _, task := _ } = _ ∧ _
  generalize wait w .kernelMarked marked = e at ht₁ hall ⊢
  refine ⟨Eq.trans ?_ hall, ht₁.current, ht₁.only, ht₁.kernel, ht₁.used,
    fun _ _ _ => show 0 < schedTimesliceTicks by decide⟩
  have hrun' : taskStatePhase (e.task.tasks ks).state = .runnable := by
    rw [(slot_of_unmark (task_of_unmark hall) ks).1, hrun]
  exact unmark_eq (unmarkProcs_setState rfl
    (follows_of_synced (synced_of_unmark hall hs) ks hrun')) rfl rfl rfl rfl rfl

theorem taskReturnToKernelMain_unmark (hs : Synced c) (hkernel : procPhase c.proc 0 = .runnable) :
    unmark (Kernel.taskReturnToKernelMain c) = unmark c := by
  obtain ⟨ks, hfind⟩ : ∃ ks, c.task.findSlotByPid 0 = some ks := by
    rw [← taskPhase_ne_dead_iff, hs.sync, hkernel]
    decide
  have hdem := demoteCurrent_unmark hs ks
  have hrun : taskStatePhase ((Kernel.demoteCurrent c ks).task.tasks ks).state = .runnable := by
    rw [(slot_of_unmark (task_of_unmark hdem) ks).1]
    exact runnable_of_phase hs hfind hkernel
  unfold Kernel.taskReturnToKernelMain
  rw [hfind]
  dsimp only
  refine Eq.trans ?_ hdem
  exact unmark_eq (unmarkProcs_setState rfl
    (follows_of_synced (synced_of_unmark hdem hs) ks hrun)) (unmarkTasks_setState rfl hrun)
    rfl rfl rfl rfl

/-- The clean-up takes the process out of both tables and moves marks at most. -/
theorem exitAndReap_unmark (code : Int) (hs : Synced c) (hkernel : procPhase c.proc 0 = .runnable)
    (hlive : procPhase c.proc pid ≠ .dead) (hpid : pid ≠ 0)
    (hfind : c.task.findSlotByPid pid = some slot) :
    unmark (Kernel.exitAndReap c pid code) = unmark (removed c pid code slot) := by
  have hgone := removed_gone code hs hlive hfind
  rw [exitAndReap_eq code hfind]
  split
  · apply taskReturnToKernelMain_unmark hgone.synced
    rw [hgone.phase, if_neg hpid.symm, hkernel]
  · rfl

theorem taskReapPid_ticks (code : Int) (hs : Synced c) (hkernel : procPhase c.proc 0 = .runnable)
    (hlive : procPhase c.proc pid ≠ .dead) (hpid : pid ≠ 0)
    (hfind : c.task.findSlotByPid pid = some slot) (hused : 3 ≤ c.task.tasksUsed)
    (ht : Timed d.task) (hf : Follows d)
    (hd : unmark d = unmark { c with proc := (removed c pid code slot).proc }) :
    unmark (Ticks.taskReapPid w d pid) = unmark (removed c pid code slot) ∧
      Timed (Ticks.taskReapPid w d pid).task := by
  have hgone := removed_gone code hs hlive hfind
  obtain ⟨h₁, ht₁⟩ := wait_spec (w := w) .reapFound ht hf
  have hall := h₁.trans hd
  have hfind' : d.task.findSlotByPid pid = some slot := by
    rw [find_of_unmark hd]
    exact hfind
  unfold Ticks.taskReapPid
  rw [hfind']
  dsimp only
  generalize wait w .reapFound d = e at ht₁ hall ⊢
  let freed : Core := { e with task := freeTask e.task slot }
  have hfreed : unmark freed = unmark (removed c pid code slot) := by
    have hfree : unmarkTasks (freeTask e.task slot) = unmarkTasks (freeTask c.task slot) := by
      rw [unmarkTasks_free, unmarkTasks_free, task_of_unmark hall]
    have hboth := unmark_update hall (proc_of_unmark hall) hfree
    exact hboth
  have hsynced := synced_of_unmark hfreed hgone.synced
  have hkernel' : procPhase freed.proc 0 = .runnable := by
    rw [phase_of_unmark hfreed, hgone.phase, if_neg hpid.symm, hkernel]
  have hslotPid : (e.task.tasks slot).pid ≠ 0 := by
    rw [(slot_of_unmark (task_of_unmark hall) slot).2]
    change (c.task.tasks slot).pid ≠ 0
    rw [(occupied_of_find hfind).2]
    exact hpid
  have hused' : 3 ≤ e.task.tasksUsed := by
    rw [used_of_unmark (task_of_unmark hall)]
    exact hused
  have hempty : (freed.task.tasks slot).state = .unused := by
    change ((freeTask e.task slot).tasks slot).state = .unused
    rw [freeTask_at, if_pos rfl]
    rfl
  change unmark (if (wait w .taskFreed freed).task.currentIndex = some slot then
      Ticks.taskReturnToKernelMain w (wait w .taskFreed freed) else wait w .taskFreed freed) = _ ∧
    Timed (if (wait w .taskFreed freed).task.currentIndex = some slot then
      Ticks.taskReturnToKernelMain w (wait w .taskFreed freed) else wait w .taskFreed freed).task
  by_cases hcur : e.task.currentIndex = some slot
  · -- the slice of the dead process was not used up, so the timer leaves its slot alone
    have hslice := ht₁.slice slot hcur hslotPid
    have hnone : ∀ i, (freed.task.tasks i).state ≠ .running := by
      intro i hi
      change ((freeTask e.task slot).tasks i).state = .running at hi
      rw [freeTask_at] at hi
      split at hi
      · cases hi
      · rename_i hne
        have hi' := ht₁.only i hi
        rw [hcur] at hi'
        exact hne (Option.some.inj hi').symm
    have hwait : wait w .taskFreed freed = freed := ticks_idle _ hcur hempty hslice
    have hcur' : freed.task.currentIndex = some slot := hcur
    rw [hwait, if_pos hcur']
    obtain ⟨h₂, ht₂⟩ := returnToKernel_ticks (w := w) hsynced hkernel' hcur hempty hslice
      (Nat.le_sub_of_add_le hused') hnone
    exact ⟨h₂.trans hfreed, ht₂⟩
  · have htimed : Timed freed.task := timed_free ht₁ hused' hcur hslotPid
    obtain ⟨h₂, ht₂⟩ := wait_spec (w := w) .taskFreed htimed (follows_of_synced hsynced)
    have hother : (wait w .taskFreed freed).task.currentIndex ≠ some slot := by
      intro hback
      obtain ⟨i, hi, hrun⟩ := ht₂.current
      rw [hback] at hi
      obtain rfl := Option.some.inj hi
      rw [(slot_of_unmark (task_of_unmark h₂) slot).1, hempty] at hrun
      cases hrun
    rw [if_neg hother]
    exact ⟨h₂.trans hfreed, ht₂⟩

theorem exitAndReap_ticks (code : Int) (ht : Timed c.task) (hs : Synced c)
    (hkernel : procPhase c.proc 0 = .runnable) (hlive : procPhase c.proc pid ≠ .dead)
    (hpid : pid ≠ 0) (hfind : c.task.findSlotByPid pid = some slot) (hused : 3 ≤ c.task.tasksUsed)
    (hspares : Spares (w .exited) pid c) :
    unmark (Ticks.exitAndReap w c pid code) = unmark (removed c pid code slot) ∧
      Timed (Ticks.exitAndReap w c pid code).task := by
  have hgone := removed_gone code hs hlive hfind
  -- from `proc_exit` to `proc_reap_pid` the process is a zombie that the ticks spare
  let dying : Core := { c with proc := procExit c.proc pid code }
  have hothers : ∀ i, taskStatePhase (dying.task.tasks i).state = .runnable →
      (dying.task.tasks i).pid ≠ pid → Markable dying.proc (dying.task.tasks i).pid := by
    intro i hi hne
    have hmark := follows_of_synced hs i hi
    unfold Markable at hmark ⊢
    rwa [procPhase_procExit code hne]
  have hsame : Spares (w .exited) pid dying ↔ Spares (w .exited) pid c := spares_congr rfl
  obtain ⟨h₁, ht₁⟩ := ticks_spare (c := dying) ht hothers (hsame.mpr hspares)
  change unmark (wait w .exited dying) = _ at h₁
  change Timed (wait w .exited dying).task at ht₁
  -- from `proc_reap_pid` to `task_reap_pid` only the task is left
  let reapedAt (d : Core) : Core := { d with proc := reapProc d.proc pid }
  have hreaped : unmark (reapedAt (wait w .exited dying)) = unmark (reapedAt dying) := by
    refine unmark_update h₁ ?_ (task_of_unmark h₁)
    rw [unmarkProcs_reap, unmarkProcs_reap, proc_of_unmark h₁]
  have hfollows : Follows (reapedAt dying) := by
    intro i hi
    have hphase := hgone.phase (c.task.tasks i).pid
    have hmark := follows_of_synced hs i hi
    unfold Markable at hmark ⊢
    change procPhase (removed c pid code slot).proc (c.task.tasks i).pid = _ ∨
      procPhase (removed c pid code slot).proc (c.task.tasks i).pid = _
    rw [hphase]
    split
    · exact Or.inr rfl
    · exact hmark
  have hfollows' := follows_of_unmark hreaped hfollows
  obtain ⟨h₂, ht₂⟩ := wait_spec (w := w) (c := reapedAt (wait w .exited dying)) .reaped ht₁ hfollows'
  exact taskReapPid_ticks code hs hkernel hlive hpid hfind hused ht₂
    (follows_of_unmark h₂ hfollows') (h₂.trans hreaped)

/-- The clean-up among ticks that spare its process is the clean-up, marks apart. -/
theorem exitAndReap_clock (code : Int) (h : Clock w on c) (hs : Synced c)
    (hkernel : procPhase c.proc 0 = .runnable) (hlive : procPhase c.proc pid ≠ .dead)
    (hpid : pid ≠ 0) (hused : on → 3 ≤ c.task.tasksUsed) (hspares : Spares (w .exited) pid c) :
    unmark (Ticks.exitAndReap w c pid code) = unmark (Kernel.exitAndReap c pid code) ∧
      Clock w on (Ticks.exitAndReap w c pid code) := by
  obtain ⟨slot, hfind⟩ : ∃ slot, c.task.findSlotByPid pid = some slot := by
    rw [← taskPhase_ne_dead_iff, hs.sync]
    exact hlive
  obtain ⟨hgone, hcur⟩ := exitAndReap_spec code hs hkernel hlive hpid
  by_cases hon : on
  · obtain ⟨hunmark, htimed⟩ := exitAndReap_ticks code (h.timed hon) hs hkernel hlive hpid hfind
      (hused hon) hspares
    have hall := hunmark.trans (exitAndReap_unmark code hs hkernel hlive hpid hfind).symm
    exact ⟨hall, .ofTimed hon htimed (synced_of_unmark hall hgone.synced)⟩
  · obtain rfl := h.off hon
    rw [exitAndReap_noTicks]
    exact ⟨rfl, hcur h.current, h.off, fun h' => absurd h' hon⟩

end SlopOS.Proofs.TickedTables
