import SlopOS.Kernel.System
import SlopOS.Proofs.TaskRuns
import SlopOS.Proofs.TaskSlots
import SlopOS.Proofs.Timer
import SlopOS.Proofs.TreeRuns
/-!
# Time slices

`scheduler_on_timer_tick` makes the current task ready without looking at its state, but only when
the slice is used up.  A slice is used up by a running task alone, and the tick that does it goes on
to another task at once, because the kernel's own task is ready whenever it is not running.  A task
that blocks or dies does so with time left, which no later tick counts down.
-/

namespace SlopOS.Proofs.Slices

open SlopOS.Support SlopOS.Kernel SlopOS.Proofs.Tables SlopOS.Proofs.Scheduling SlopOS.Proofs.Timer
open SlopOS.Proofs.TaskSlots (SameSlots live_of_key live_of_findSlot sameSlots_setState
  demoteCurrent_tame countTick_same key_eq_none_iff)

/-! ## Runs -/

/-- The updates of the task table, and what the calls that make them do beside it. -/
inductive SchedEvent
  | spawnKernel (name : Option CStr) (ppid : Int)
  | spawnUser (name : Option CStr) (ppid : Int)
  | setState (pid : Int) (state : TaskState)
  | returnToKernelMain
  | reap (pid : Int)
  | send (src dst : Int) (msg : IpcMessage)
  | tick
  | other (d : Core)

/-- One call.  The kernel's own task is never blocked, killed or reaped. -/
def schedStep (c : Core) : SchedEvent → Option Core
  | .spawnKernel name ppid => some (((taskSpawnKernel c name ppid).map Prod.snd).getD c)
  | .spawnUser name ppid => some (((taskSpawnUser c name ppid).map Prod.snd).getD c)
  | .setState pid state =>
    if state = .unused ∨ pid = 0 ∧ taskStatePhase state ≠ .runnable then none
    else some (taskSetState c pid state)
  | .returnToKernelMain => some (taskReturnToKernelMain c)
  | .reap pid => if pid = 0 then none else some (taskReapPid c pid).2
  | .send src dst msg => some (ipcSend c src dst msg).2
  | .tick => some (schedulerOnTimerTick c)
  | .other d => some { d with task := c.task }

/-! ## The invariant -/

/-- Only the current task is running, the kernel's task is there and runnable, and the counter does
not fall behind the tasks. -/
structure Marked (t : TaskTable) : Prop where
  only : ∀ i, (t.tasks i).state = .running → t.currentIndex = some i
  counted : SlotTable.occupied TaskInfo.key t.tasks ≤ t.tasksUsed
  kernel : ∃ i, (t.tasks i).pid = 0 ∧ (t.tasks i).state ≠ .unused
  runnable : ∀ i, (t.tasks i).pid = 0 → (t.tasks i).state ≠ .unused →
    taskStatePhase (t.tasks i).state = .runnable

/-- What every tick finds: a task that has a slot is current, and that of a process has time
left. -/
structure Sliced (t : TaskTable) : Prop extends Marked t where
  live : ∀ i, t.currentIndex = some i → (t.tasks i).state ≠ .unused
  slice : ∀ i, t.currentIndex = some i → (t.tasks i).pid ≠ 0 → t.sliceTicks < schedTimesliceTicks

variable {t t' : TaskTable} {c c' : Core} {pid : Int} {slot cur next : Fin maxTasks}
variable {st : TaskState} {e : SchedEvent}

theorem counted_of_same (h : SameSlots t t')
    (hcount : SlotTable.occupied TaskInfo.key t.tasks ≤ t.tasksUsed) :
    SlotTable.occupied TaskInfo.key t'.tasks ≤ t'.tasksUsed := by
  rw [SlotTable.occupied_congr h.keys, h.used]
  exact hcount

/-- While a process has the processor, the kernel's task waits for it. -/
theorem Marked.ready_kernel (h : Marked t) (hcur : (t.tasks cur).pid ≠ 0)
    (halone : ∀ i, (t.tasks i).state = .running → i = cur) :
    ∃ i, i ≠ cur ∧ (t.tasks i).state = .ready := by
  obtain ⟨i, hi, hlive⟩ := h.kernel
  have hne : i ≠ cur := by
    rintro rfl
    exact hcur hi
  have hrun := h.runnable i hi hlive
  have hnot : (t.tasks i).state ≠ .running := fun hrunning => hne (halone i hrunning)
  refine ⟨i, hne, ?_⟩
  revert hrun hnot
  cases (t.tasks i).state <;> simp [taskStatePhase]

theorem Marked.two_le_used (h : Marked t) (hcur : (t.tasks cur).pid ≠ 0)
    (hlive : (t.tasks cur).state ≠ .unused) : 2 ≤ t.tasksUsed := by
  obtain ⟨i, hi, hilive⟩ := h.kernel
  have hne : i ≠ cur := by
    rintro rfl
    exact hcur hi
  have hsome : ∀ k, (t.tasks k).state ≠ .unused → ((t.tasks k).key).isSome := by
    intro k hk
    rw [Option.isSome_iff_ne_none, ne_eq, key_eq_none_iff]
    exact hk
  exact (SlotTable.two_le_occupied hne (hsome i hilive) (hsome cur hlive)).trans h.counted

/-! ## Writing a state -/

theorem Marked.kernel_setState (h : Marked t) (hst : st ≠ .unused)
    (hkernel : (t.tasks slot).pid = 0 → taskStatePhase st = .runnable) :
    (∃ i, ((t.setState slot st).tasks i).pid = 0 ∧
        ((t.setState slot st).tasks i).state ≠ .unused) ∧
      ∀ i, ((t.setState slot st).tasks i).pid = 0 →
        ((t.setState slot st).tasks i).state ≠ .unused →
        taskStatePhase ((t.setState slot st).tasks i).state = .runnable := by
  constructor
  · obtain ⟨i, hi, hlive⟩ := h.kernel
    have hstate := state_setState (t := t) slot i st
    have hpid := pid_setState (t := t) slot i st
    refine ⟨i, hpid.trans hi, ?_⟩
    rw [hstate]
    split
    · exact hst
    · exact hlive
  · intro i hi hlive
    have hstate := state_setState (t := t) slot i st
    have hpid := pid_setState (t := t) slot i st
    rw [hpid] at hi
    rw [hstate] at hlive ⊢
    split
    · rename_i heq
      rw [heq] at hi
      exact hkernel hi
    · rename_i hne
      rw [if_neg hne] at hlive
      exact h.runnable i hi hlive

theorem Marked.setState (h : Marked t) (hlive : (t.tasks slot).state ≠ .unused)
    (hst : st ≠ .unused) (hrun : st ≠ .running)
    (hkernel : (t.tasks slot).pid = 0 → taskStatePhase st = .runnable) :
    Marked (t.setState slot st) := by
  obtain ⟨hkept, hrunnable⟩ := h.kernel_setState hst hkernel
  refine ⟨fun i hi => ?_, counted_of_same (sameSlots_setState hst hlive) h.counted, hkept,
    hrunnable⟩
  rw [state_setState slot i st] at hi
  split at hi
  · exact absurd hi hrun
  · exact h.only i hi

theorem Sliced.setState (h : Sliced t) (hlive : (t.tasks slot).state ≠ .unused)
    (hst : st ≠ .unused) (hrun : st ≠ .running)
    (hkernel : (t.tasks slot).pid = 0 → taskStatePhase st = .runnable) :
    Sliced (t.setState slot st) := by
  refine ⟨h.toMarked.setState hlive hst hrun hkernel, fun i hi => ?_, fun i hi hpid => ?_⟩
  · exact live_of_key ((sameSlots_setState hst hlive).keys i) (h.live i hi)
  · rw [pid_setState slot i st] at hpid
    exact h.slice i hi hpid

/-- A task gets the processor, and a new slice, when no other is running. -/
theorem Marked.run (h : Marked t) (hlive : (t.tasks slot).state ≠ .unused)
    (halone : ∀ i, (t.tasks i).state = .running → i = slot) (switches : Nat) :
    Sliced { t.setState slot .running with
      currentIndex := some slot, sliceTicks := 0, switches := switches } := by
  have hsame : SameSlots t (t.setState slot .running) := sameSlots_setState (by decide) hlive
  obtain ⟨hkept, hrunnable⟩ := h.kernel_setState (show TaskState.running ≠ .unused by decide)
    fun _ : (t.tasks slot).pid = 0 => rfl
  refine ⟨⟨fun i hi => ?_, counted_of_same ⟨hsame.keys, hsame.used⟩ h.counted, hkept, hrunnable⟩,
    fun i hi => ?_, fun i _ _ => show 0 < schedTimesliceTicks by decide⟩
  · change ((t.setState slot .running).tasks i).state = .running at hi
    rw [state_setState slot i .running] at hi
    split at hi
    · rename_i heq
      rw [heq]
    · rw [halone i hi]
  · rw [← Option.some.inj hi]
    exact live_of_key (hsame.keys slot) hlive

theorem Marked.index_of_running (h : Marked t) (hcur : t.currentIndex = some cur) :
    ∀ i, (t.tasks i).state = .running → i = cur := by
  intro i hi
  have hi' := h.only i hi
  rw [hcur] at hi'
  exact (Option.some.inj hi').symm

theorem Marked.demote (h : Marked c.task) (slot : Fin maxTasks) :
    Marked (demoteCurrent c slot).task ∧
      ∀ i, ((demoteCurrent c slot).task.tasks i).state = .running → i = slot := by
  refine ⟨?_, TaskStates.running_demoteCurrent h.only slot⟩
  unfold demoteCurrent
  split
  · exact h
  rename_i cur hcur
  split
  · rename_i hdemoted
    have hlive : (c.task.tasks cur).state ≠ .unused := by
      rw [hdemoted.2]
      decide
    exact h.setState hlive (by decide) (by decide) fun _ => rfl
  · exact h

/-! ## The calls -/

theorem Sliced.taskSetState (h : Sliced c.task) (hst : st ≠ .unused)
    (hkernel : pid = 0 → taskStatePhase st = .runnable) :
    Sliced (taskSetState c pid st).task := by
  unfold Kernel.taskSetState
  split
  · exact h
  rename_i slot hfind
  obtain ⟨hlive, hpid⟩ := taskKey_eq_some.mp (taskKey_of_find hfind)
  split
  · obtain ⟨hdemoted, halone⟩ := h.toMarked.demote slot
    have hlive' := live_of_key ((demoteCurrent_tame c slot).slots.keys slot) hlive
    exact hdemoted.run hlive' halone (demoteCurrent c slot).task.switches
  · rename_i hrun
    refine h.setState hlive hst hrun ?_
    rw [hpid]
    exact hkernel

theorem Marked.returnToKernelMain (h : Marked c.task) :
    Sliced (taskReturnToKernelMain c).task := by
  unfold taskReturnToKernelMain
  split
  · rename_i hnone
    obtain ⟨i, hi, hlive⟩ := h.kernel
    have hkey : (c.task.tasks i).key = some 0 := taskKey_eq_some.mpr ⟨hlive, hi⟩
    exact absurd hkey (SlotTable.indexOf_eq_none.mp hnone i)
  · rename_i slot hfind
    obtain ⟨hdemoted, halone⟩ := h.demote slot
    have hlive := live_of_key ((demoteCurrent_tame c slot).slots.keys slot)
      (live_of_findSlot hfind)
    exact hdemoted.run hlive halone (demoteCurrent c slot).task.switches

/-- A slot whose task is not the kernel's gets another entry, or none. -/
theorem Marked.setTask {info : TaskInfo} {used : Nat} (h : Marked t) (hrun : info.state ≠ .running)
    (hold : (t.tasks slot).pid = 0 → (t.tasks slot).state = .unused)
    (hnew : info.pid = 0 → info.state ≠ .unused → taskStatePhase info.state = .runnable)
    (hused : t.tasksUsed + (if info.key.isSome then 1 else 0) ≤
      used + if (t.tasks slot).key.isSome then 1 else 0) :
    Marked { t.setTask slot info with tasksUsed := used } := by
  have hother : ∀ i, i ≠ slot → (t.setTask slot info).tasks i = t.tasks i :=
    fun i hi => Function.update_of_ne hi _ _
  have hself : (t.setTask slot info).tasks slot = info := Function.update_self ..
  constructor
  case only =>
    intro i hi
    change ((t.setTask slot info).tasks i).state = .running at hi
    by_cases heq : i = slot
    · rw [heq, hself] at hi
      exact absurd hi hrun
    · rw [hother i heq] at hi
      exact h.only i hi
  case counted =>
    have hcount := @SlotTable.occupied_update _ _ _ TaskInfo.key t.tasks slot info
    have hle := h.counted
    dsimp only [TaskTable.setTask]
    omega
  case kernel =>
    obtain ⟨i, hi, hlive⟩ := h.kernel
    have hne : i ≠ slot := by
      rintro rfl
      exact hlive (hold hi)
    refine ⟨i, ?_⟩
    change ((t.setTask slot info).tasks i).pid = 0 ∧ ((t.setTask slot info).tasks i).state ≠ .unused
    rw [hother i hne]
    exact ⟨hi, hlive⟩
  case runnable =>
    intro i
    change ((t.setTask slot info).tasks i).pid = 0 → ((t.setTask slot info).tasks i).state ≠ .unused →
      taskStatePhase ((t.setTask slot info).tasks i).state = .runnable
    by_cases heq : i = slot
    · rw [heq, hself]
      exact hnew
    · rw [hother i heq]
      exact h.runnable i

theorem Sliced.reap (h : Sliced c.task) (hpid : pid ≠ 0) : Sliced (taskReapPid c pid).2.task := by
  unfold taskReapPid
  split
  · exact h
  rename_i slot hfind
  have hkey := taskKey_of_find hfind
  obtain ⟨hlive, hslot⟩ := taskKey_eq_some.mp hkey
  have hfreed : Marked { c.task.setTask slot emptyTask with tasksUsed := c.task.tasksUsed - 1 } := by
    apply h.toMarked.setTask (by decide)
    · intro h0
      exact absurd (hslot.symm.trans h0) hpid
    · intro _ hne
      exact absurd rfl hne
    · have hempty : emptyTask.key = none := rfl
      rw [hkey, hempty, Option.isSome_some, if_pos rfl, Option.isSome_none,
        if_neg Bool.false_ne_true]
      omega
  dsimp only
  split
  · exact Marked.returnToKernelMain hfreed
  · rename_i hother
    have hsame : ∀ i, c.task.currentIndex = some i →
        (c.task.setTask slot emptyTask).tasks i = c.task.tasks i := by
      intro i hi
      apply Function.update_of_ne
      rintro rfl
      exact hother hi
    refine ⟨hfreed, fun i hi => ?_, fun i hi => ?_⟩
    · change ((c.task.setTask slot emptyTask).tasks i).state ≠ .unused
      rw [hsame i hi]
      exact h.live i hi
    · change ((c.task.setTask slot emptyTask).tasks i).pid ≠ 0 → _
      rw [hsame i hi]
      exact h.slice i hi

theorem allocSlot_spec (h : t.allocSlot = some slot) :
    (t.tasks slot).state = .unused ∨ (t.tasks slot).state = .zombie := by
  unfold TaskTable.allocSlot at h
  have hfound := (Fin.find?_eq_some_iff.mp h).1
  rwa [Bool.or_eq_true, decide_eq_true_eq, decide_eq_true_eq] at hfound

theorem Marked.pid_of_zombie (h : Marked t) (hzombie : (t.tasks slot).state = .zombie) :
    (t.tasks slot).pid ≠ 0 := by
  intro h0
  have hrun := h.runnable slot h0 (by rw [hzombie]; decide)
  rw [hzombie] at hrun
  cases hrun

theorem Sliced.spawn (h : Sliced c.task) (dflt : CStr) (name : Option CStr) (ppid : Int) :
    Sliced (((taskSpawn dflt c name ppid).map Prod.snd).getD c).task := by
  unfold taskSpawn
  split
  · exact h
  rename_i slot halloc
  split
  · exact h
  rename_i pid proc _
  have hslot := allocSlot_spec halloc
  have hself : (c.task.setTask slot ⟨pid, ppid, .ready, 0, strCopy (name.getD dflt) 16⟩).tasks slot =
      ⟨pid, ppid, .ready, 0, strCopy (name.getD dflt) 16⟩ := Function.update_self ..
  have hother : ∀ i, i ≠ slot → (c.task.setTask slot
      ⟨pid, ppid, .ready, 0, strCopy (name.getD dflt) 16⟩).tasks i = c.task.tasks i :=
    fun i hi => Function.update_of_ne hi _ _
  have hmarked : Marked { c.task.setTask slot ⟨pid, ppid, .ready, 0, strCopy (name.getD dflt) 16⟩ with
      tasksUsed := c.task.tasksUsed + 1 } := by
    apply h.toMarked.setTask (show TaskState.ready ≠ .running by decide)
    · intro h0
      rcases hslot with hunused | hzombie
      · exact hunused
      · exact absurd h0 (h.toMarked.pid_of_zombie hzombie)
    · exact fun _ _ => rfl
    · split <;> split <;> omega
  refine ⟨hmarked, fun i hi => ?_, fun i hi hpid => ?_⟩
  · change ((c.task.setTask slot _).tasks i).state ≠ .unused
    by_cases heq : i = slot
    · rw [heq, hself]
      exact (by decide : TaskState.ready ≠ .unused)
    · rw [hother i heq]
      exact h.live i hi
  · by_cases heq : i = slot
    · -- a current task whose slot is taken over is dead, and so no kernel task
      have hzombie : (c.task.tasks slot).state = .zombie := by
        rw [heq] at hi
        exact hslot.resolve_left (h.live slot hi)
      exact h.slice i hi (heq ▸ h.toMarked.pid_of_zombie hzombie)
    · change ((c.task.setTask slot _).tasks i).pid ≠ 0 at hpid
      rw [hother i heq] at hpid
      exact h.slice i hi hpid

/-- A message makes its receiver ready, if it does anything to the tasks. -/
theorem ipcSend_task (c : Core) (src dst : Int) (msg : IpcMessage) :
    (ipcSend c src dst msg).2.task = c.task ∨
      ∃ d, d.task = c.task ∧ (ipcSend c src dst msg).2.task = (taskSetState d dst .ready).task := by
  have hdeliver : ∀ msg, (ipcUnblockDeliver c dst msg).2.task = c.task ∨ ∃ d, d.task = c.task ∧
      (ipcUnblockDeliver c dst msg).2.task = (taskSetState d dst .ready).task := by
    intro msg
    unfold ipcUnblockDeliver
    split
    · exact Or.inl rfl
    split
    · exact Or.inl rfl
    rename_i slot _
    split
    · exact Or.inl rfl
    have hwrite := (TaskRuns.sameTables_write c dst (c.ipc.waiters slot).userMsgPtr
      (BitVec.ofNat 32 ipcMessageSize) msg.byte).task
    split
    · rename_i d hd
      rw [hd] at hwrite
      exact Or.inl hwrite
    · rename_i d hd
      rw [hd] at hwrite
      split
      · exact Or.inl hwrite
      rename_i image _
      split
      · exact Or.inl hwrite
      · let bound : ProcImage := { image with context := { image.context with eax := 0 } }
        exact Or.inr ⟨{ d with proc := procBindImage d.proc dst bound }, hwrite, rfl⟩
  have hsent := hdeliver { msg with srcPid := src, dstPid := dst }
  unfold ipcSend
  split
  · exact Or.inl rfl
  dsimp only
  split
  · rename_i d hd
    rwa [hd] at hsent
  rename_i d hd
  rw [hd] at hsent
  split
  · exact hsent
  · split
    · exact hsent
    · exact hsent

theorem Sliced.send (h : Sliced c.task) (src dst : Int) (msg : IpcMessage) :
    Sliced (ipcSend c src dst msg).2.task := by
  rcases ipcSend_task c src dst msg with hsame | ⟨d, hd, hset⟩
  · rw [hsame]
    exact h
  · rw [hset]
    rw [← hd] at h
    exact h.taskSetState (by decide) fun _ => rfl

/-! ## The timer -/

theorem Marked.countTick (h : Marked t) (cur : Fin maxTasks) : Marked (countTick t cur) := by
  have hkeeps := countTick_keeps t cur
  have hindex := (countTick_fields t cur).1
  constructor
  case only =>
    intro i hi
    rw [(hkeeps i).1] at hi
    exact hindex.trans (h.only i hi)
  case counted => exact counted_of_same (countTick_same t cur) h.counted
  case kernel =>
    obtain ⟨i, hi, hlive⟩ := h.kernel
    refine ⟨i, (hkeeps i).2.trans hi, ?_⟩
    rw [(hkeeps i).1]
    exact hlive
  case runnable =>
    intro i hi hlive
    rw [(hkeeps i).2] at hi
    rw [(hkeeps i).1] at hlive ⊢
    exact h.runnable i hi hlive

/-- The tick that uses up the slice of a process switches to another task. -/
theorem Sliced.slice_of_stay (h : Sliced t) (hcur : t.currentIndex = some cur)
    (hpid : (t.tasks cur).pid ≠ 0) (hstay : nextSwitch t = none) :
    (Kernel.countTick t cur).sliceTicks < schedTimesliceTicks := by
  by_contra hslice
  have hmarked := h.toMarked.countTick cur
  have hpid' : ((Kernel.countTick t cur).tasks cur).pid ≠ 0 := by
    rw [(countTick_keeps t cur cur).2]
    exact hpid
  have hlive : ((Kernel.countTick t cur).tasks cur).state ≠ .unused := by
    rw [(countTick_keeps t cur cur).1]
    exact h.live cur hcur
  have hused := hmarked.two_le_used hpid' hlive
  obtain ⟨i, hne, hready⟩ := hmarked.ready_kernel hpid'
    (hmarked.index_of_running ((countTick_fields t cur).1.trans hcur))
  unfold nextSwitch at hstay
  simp only [hcur] at hstay
  rw [if_neg (by simp only [not_or]; exact ⟨by omega, hslice⟩)] at hstay
  exact nextReady_ne_none hne hready (Option.map_eq_none_iff.mp hstay)

theorem Sliced.tick (h : Sliced c.task) : Sliced (schedulerOnTimerTick c).task := by
  cases hcur : c.task.currentIndex with
  | none =>
      unfold schedulerOnTimerTick
      rw [hcur]
      exact h
  | some cur =>
      have hmarked := h.toMarked.countTick cur
      have hsame := countTick_same c.task cur
      have hindex := (countTick_fields c.task cur).1.trans hcur
      have hlive := live_of_key (hsame.keys cur) (h.live cur hcur)
      rcases tick_cases c hcur with ⟨hstay, htick⟩ | ⟨next, -, hready, htick⟩
      · rw [htick]
        refine ⟨hmarked, fun i hi => ?_, fun i hi hpid => ?_⟩
        · obtain rfl := Option.some.inj (hindex.symm.trans hi)
          exact hlive
        · obtain rfl := Option.some.inj (hindex.symm.trans hi)
          apply h.slice_of_stay hcur _ hstay
          rw [← (countTick_keeps c.task cur cur).2]
          exact hpid
      · rw [htick]
        have hold : Marked ((Kernel.countTick c.task cur).setState cur .ready) :=
          hmarked.setState hlive (by decide) (by decide) fun _ => rfl
        have hnext : (((Kernel.countTick c.task cur).setState cur .ready).tasks next).state ≠
            .unused := by
          rw [state_setState cur next .ready]
          split
          · decide
          · rw [hready]
            decide
        have hnone : ∀ i, (((Kernel.countTick c.task cur).setState cur .ready).tasks i).state =
            .running → i = next := by
          intro i hi
          rw [state_setState cur i .ready] at hi
          split at hi
          · cases hi
          · rename_i hne
            exact absurd (hmarked.index_of_running hindex i hi) hne
        exact hold.run hnext hnone ((Kernel.countTick c.task cur).switches + 1)

theorem Sliced.tick_keeps (h : Sliced c.task) {i : Fin maxTasks}
    (hstopped : (c.task.tasks i).state = .blocked ∨ (c.task.tasks i).state = .zombie) :
    ((schedulerOnTimerTick c).task.tasks i).state = (c.task.tasks i).state := by
  cases hcur : c.task.currentIndex with
  | none =>
      unfold schedulerOnTimerTick
      rw [hcur]
  | some cur =>
      have hkeeps := countTick_keeps c.task cur
      rcases tick_cases c hcur with ⟨-, htick⟩ | ⟨next, hswitch, hready, htick⟩
      · rw [htick]
        exact (hkeeps i).1
      have hnext : i ≠ next := by
        rintro rfl
        rw [(hkeeps i).1] at hready
        rw [hready] at hstopped
        rcases hstopped with h | h <;> cases h
      have hother : i ≠ cur := by
        rintro rfl
        -- the slice of a task that does not run is not used up
        have hnot : (c.task.tasks i).state ≠ .running := by
          rcases hstopped with h | h <;> rw [h] <;> decide
        have hpid : (c.task.tasks i).pid ≠ 0 := by
          intro h0
          have hrun := h.runnable i h0 (h.live i hcur)
          rcases hstopped with h | h <;> rw [h] at hrun <;> cases hrun
        have hcount : Kernel.countTick c.task i = c.task := by
          unfold Kernel.countTick
          rw [if_neg hnot]
        have hleft := h.slice i hcur hpid
        unfold nextSwitch at hswitch
        simp only [hcur, hcount, hleft, or_true, if_true] at hswitch
        cases hswitch
      rw [htick]
      change ((((Kernel.countTick c.task cur).setState cur .ready).setState next .running).tasks
        i).state = _
      rw [state_setState next i .running, if_neg hnext, state_setState cur i .ready,
        if_neg hother, (hkeeps i).1]

/-! ## Whole runs -/

theorem sliced_taskingInit : Sliced taskingInit where
  only := by decide
  counted := by decide
  kernel := ⟨0, by decide⟩
  runnable := by decide
  live := by decide
  slice := by decide

theorem sliced_coreInit (mach : Machine) : Sliced (coreInit mach).task := by
  let boot : Core :=
    { task := taskingInit, proc := procInit, ipc := ipcInit, elf := elfInit,
      ring3 := ring3Init, mem := mach.ram }
  have hboot : Sliced boot.task := sliced_taskingInit
  have hvga := hboot.spawn (cstr "kproc") (some (cstr "shell-vga")) 0
  exact hvga.spawn (cstr "kproc") (some (cstr "shell-serial")) 0

theorem schedStep_sliced (h : Sliced c.task) (hstep : schedStep c e = some c') :
    Sliced c'.task := by
  cases e with
  | spawnKernel name ppid =>
      cases hstep
      exact h.spawn (cstr "kproc") name ppid
  | spawnUser name ppid =>
      cases hstep
      exact h.spawn (cstr "uproc") name ppid
  | setState pid state =>
      simp only [schedStep] at hstep
      split at hstep
      · cases hstep
      · rename_i hguard
        rw [not_or, not_and, not_not] at hguard
        cases hstep
        exact h.taskSetState hguard.1 hguard.2
  | returnToKernelMain =>
      cases hstep
      exact h.toMarked.returnToKernelMain
  | reap pid =>
      simp only [schedStep] at hstep
      split at hstep
      · cases hstep
      · rename_i hpid
        cases hstep
        exact h.reap hpid
  | send src dst msg =>
      cases hstep
      exact h.send src dst msg
  | tick =>
      cases hstep
      exact h.tick
  | other d =>
      cases hstep
      exact h

/-- A tick leaves every blocked and every dead task as it is, in every state of every run. -/
theorem tick_keeps_run (mach : Machine) (es : List SchedEvent) (c : Core) (i : Fin maxTasks)
    (hrun : Runs.run schedStep (coreInit mach) es = some c)
    (hstopped : (c.task.tasks i).state = .blocked ∨ (c.task.tasks i).state = .zombie) :
    ((schedulerOnTimerTick c).task.tasks i).state = (c.task.tasks i).state := by
  have hsliced : Sliced c.task := Runs.invariant (I := fun c : Core => Sliced c.task)
    (fun _ _ _ _ => schedStep_sliced) (Runs.AllSteps.trivial _ es) hrun (sliced_coreInit mach)
  exact hsliced.tick_keeps hstopped

/-- A program uses three ticks of its slice, and blocks while it is the current task. -/
def blocksInSlice : List SchedEvent :=
  [.spawnUser none 1, .setState 3 .running, .tick, .tick, .tick, .setState 3 .blocked]

theorem tick_keeps_blocked : ∃ c,
    Runs.run schedStep (coreInit TreeRuns.plainMach) blocksInSlice = some c ∧
      c.task.currentIndex = some 3 ∧ c.task.sliceTicks = 3 ∧ (c.task.tasks 3).state = .blocked ∧
      ((schedulerOnTimerTick c).task.tasks 3).state = (c.task.tasks 3).state := by
  have hview : (Runs.run schedStep (coreInit TreeRuns.plainMach) blocksInSlice).map
      (fun c => (c.task.currentIndex, c.task.sliceTicks, (c.task.tasks 3).state)) =
      some (some 3, 3, .blocked) := by
    decide +kernel
  obtain ⟨c, hrun, hc⟩ := Option.map_eq_some_iff.mp hview
  obtain ⟨hindex, hslice, hblocked⟩ : _ ∧ _ ∧ _ := by simpa only [Prod.mk.injEq] using hc
  exact ⟨c, hrun, hindex, hslice, hblocked,
    tick_keeps_run TreeRuns.plainMach blocksInSlice c 3 hrun (Or.inl hblocked)⟩

end SlopOS.Proofs.Slices
