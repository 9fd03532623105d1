import SlopOS.Kernel.System
import SlopOS.Proofs.Scheduling
import SlopOS.Proofs.ServiceTable
import SlopOS.Proofs.TreeRuns
import SlopOS.Support.Runs
import SlopOS.Support.SlotKeys
/-!
# Task slots and their owners

The task table counts its tasks in a variable of its own.  A task keeps its slot until
`task_reap_pid` clears it, or until it is a zombie when a new task is spawned: such a slot is taken
over as it is, and the count goes up all the same.
-/

namespace SlopOS.Proofs.TaskSlots

open SlopOS.Support SlopOS.Kernel SlopOS.Proofs.Tables SlopOS.Proofs.Scheduling
open SlopOS.Proofs.ServiceTable (ProcsOk Fewer fewer_procExit fewer_procReapPid procsOk_procInit)

/-! ## Runs -/

/-- The two tables, and for each task slot the pid of the task that had it last. -/
structure Owned where
  core : Core
  owner : Fin maxTasks → Option Int

/-- The public calls of `task.c`, and those of `proc.c` that go with them. -/
inductive TaskOp
  | spawnKernel (name : Option CStr) (ppid : Int)
  | spawnUser (name : Option CStr) (ppid : Int)
  | setState (pid : Int) (state : TaskState)
  | reap (pid : Int)
  | tick
  | procState (pid : Int) (state : ProcState)
  | procExit (pid code : Int)
  | procReap (pid : Int)

def Owned.spawn (s : Owned) (spawned : Option (Int × Core)) : Owned :=
  match s.core.task.allocSlot, spawned with
  | some slot, some (pid, c) => ⟨c, Function.update s.owner slot (some pid)⟩
  | _, _ => s

def taskOpStep (s : Owned) : TaskOp → Option Owned
  | .spawnKernel name ppid =>
    -- `next_pid` is an `int`; its overflow has no meaning
    if 2 ^ 31 - 1 ≤ s.core.proc.nextPid then none
    else some (s.spawn (taskSpawnKernel s.core name ppid))
  | .spawnUser name ppid =>
    if 2 ^ 31 - 1 ≤ s.core.proc.nextPid then none
    else some (s.spawn (taskSpawnUser s.core name ppid))
  | .setState pid state =>
    if state = .unused then none else some { s with core := taskSetState s.core pid state }
  | .reap pid => some { s with core := (taskReapPid s.core pid).2 }
  | .tick => some { s with core := schedulerOnTimerTick s.core }
  | .procState pid state =>
    if state = .unused then none
    else some { s with core := { s.core with proc := procSetState s.core.proc pid state } }
  | .procExit pid code =>
    some { s with core := { s.core with proc := procExit s.core.proc pid code } }
  | .procReap pid =>
    some { s with core := { s.core with
      proc := ((procReapPid s.core.proc pid).map Prod.snd).getD s.core.proc } }

/-- Where a spawn succeeds, the last owner of its slot and the state of that process. -/
def reusedBy (s : Owned) (spawned : Option (Int × Core)) : List (Int × ProcState) :=
  match s.core.task.allocSlot, spawned with
  | some slot, some _ => (s.owner slot).toList.map fun p => (p, procStateOf s.core.proc p)
  | _, _ => []

def reused (s : Owned) : TaskOp → List (Int × ProcState)
  | .spawnKernel name ppid => reusedBy s (taskSpawnKernel s.core name ppid)
  | .spawnUser name ppid => reusedBy s (taskSpawnUser s.core name ppid)
  | _ => []

/-- After `proc_init` and `tasking_init`; the one task is the kernel's. -/
def tasksInit (c : Core) : Owned :=
  ⟨{ c with task := taskingInit, proc := procInit }, Function.update (fun _ => none) 0 (some 0)⟩

/-- The count is right, no pid has two slots, and no slot has been taken over from a process that
was still there. -/
structure SlotsKept (s₀ : Owned) (es : List TaskOp) (s : Owned) : Prop where
  counted : taskCount s.core.task =
    (Finset.univ.filter fun i => (s.core.task.tasks i).state ≠ .unused).card
  distinct : ∀ i j, (s.core.task.tasks i).state ≠ .unused → (s.core.task.tasks j).state ≠ .unused →
    (s.core.task.tasks i).pid = (s.core.task.tasks j).pid → i = j
  reuse : ∀ x ∈ Runs.observe taskOpStep reused s₀ es, x.2 = .unused

/-- A spawn finds a free slot in front of any zombie's, and the task of a process is removed after
the process. -/
def InOrder (s : Owned) : TaskOp → Prop
  | .spawnKernel _ _ | .spawnUser _ _ => ∀ slot, s.core.task.allocSlot = some slot →
      (s.core.task.tasks slot).state = .unused
  | .reap pid => procStateOf s.core.proc pid = .unused
  | _ => True

instance (s : Owned) (e : TaskOp) : Decidable (InOrder s e) :=
  match e with
  | .spawnKernel _ _ => inferInstanceAs (Decidable (∀ _, _ → _))
  | .spawnUser _ _ => inferInstanceAs (Decidable (∀ _, _ → _))
  | .setState _ _ => isTrue trivial
  | .reap pid => inferInstanceAs (Decidable (procStateOf s.core.proc pid = .unused))
  | .tick => isTrue trivial
  | .procState _ _ => isTrue trivial
  | .procExit _ _ => isTrue trivial
  | .procReap _ => isTrue trivial

variable {s s' s₀ : Owned} {c : Core} {t : TaskTable} {pid : Int} {slot : Fin maxTasks}
variable {e : TaskOp} {es : List TaskOp}

/-! ## What the calls keep -/

structure SameSlots (t t' : TaskTable) : Prop where
  keys : ∀ i, (t'.tasks i).key = (t.tasks i).key
  used : t'.tasksUsed = t.tasksUsed

/-- No slot is taken or freed, and no process is started. -/
structure Tame (c c' : Core) : Prop where
  slots : SameSlots c.task c'.task
  procs : ProcsOk c.proc → Fewer c.proc c'.proc

def CurrentLive (t : TaskTable) : Prop :=
  ∀ i, t.currentIndex = some i → (t.tasks i).state ≠ .unused

theorem SameSlots.refl (t : TaskTable) : SameSlots t t := ⟨fun _ => rfl, rfl⟩

theorem SameSlots.trans {t₁ t₂ t₃ : TaskTable} (h : SameSlots t₁ t₂) (h' : SameSlots t₂ t₃) :
    SameSlots t₁ t₃ :=
  ⟨fun i => (h'.keys i).trans (h.keys i), h'.used.trans h.used⟩

theorem Tame.refl (c : Core) : Tame c c := ⟨.refl c.task, Fewer.refl⟩

theorem Tame.trans {c₁ c₂ c₃ : Core} (h : Tame c₁ c₂) (h' : Tame c₂ c₃) : Tame c₁ c₃ := by
  refine ⟨h.slots.trans h'.slots, fun hok => ?_⟩
  have hfirst := h.procs hok
  have hsecond := h'.procs (hfirst.ok hok)
  exact ⟨hsecond.distinct, hsecond.next.trans hfirst.next,
    fun p hp => hfirst.live p (hsecond.live p hp)⟩

theorem key_eq_none_iff {info : TaskInfo} : info.key = none ↔ info.state = .unused := by
  unfold TaskInfo.key
  split
  · rename_i hun
    simp [hun]
  · rename_i hocc
    simp [hocc]

theorem live_of_key {t t' : TaskTable} {i : Fin maxTasks} (h : (t'.tasks i).key = (t.tasks i).key)
    (hlive : (t.tasks i).state ≠ .unused) : (t'.tasks i).state ≠ .unused := by
  intro hun
  rw [key_eq_none_iff.mpr hun] at h
  exact hlive (key_eq_none_iff.mp h.symm)

theorem live_of_findSlot (h : t.findSlotByPid pid = some slot) : (t.tasks slot).state ≠ .unused :=
  (taskKey_eq_some.mp (taskKey_of_find h)).1

theorem sameSlots_setState {st : TaskState} (hst : st ≠ .unused)
    (hlive : (t.tasks slot).state ≠ .unused) : SameSlots t (t.setState slot st) := by
  refine ⟨fun i => ?_, rfl⟩
  by_cases hi : i = slot
  · rw [hi]
    have hkey := key_setState hst hlive
    simpa [TaskTable.setState, TaskTable.setTask] using hkey
  · simp [TaskTable.setState, TaskTable.setTask, hi]

theorem fewer_procSetState {proc : ProcTable} {state : ProcState} (hstate : state ≠ .unused)
    (pid : Int) (h : ProcsOk proc) : Fewer proc (procSetState proc pid state) := by
  refine ⟨distinct_procSetState hstate h.distinct, nextPid_procSetState state, fun p hp => ?_⟩
  rw [procPhase_procSetState hstate] at hp
  split at hp
  · rename_i hpid
    rw [hpid.1]
    exact hpid.2
  · exact hp

theorem demoteCurrent_tame (c : Core) (slot : Fin maxTasks) : Tame c (demoteCurrent c slot) := by
  unfold demoteCurrent
  split
  · exact .refl c
  split
  · rename_i hrun
    refine ⟨sameSlots_setState (by decide) ?_, fewer_procSetState (by decide) _⟩
    rw [hrun.2]
    decide
  · exact .refl c

theorem markRunning_tame (pid : Int) (hlive : (c.task.tasks slot).state ≠ .unused) :
    Tame c { c with
      task := { c.task.setState slot .running with currentIndex := some slot, sliceTicks := 0 }
      proc := procSetState c.proc pid .running } ∧
    CurrentLive { c.task.setState slot .running with
      currentIndex := some slot, sliceTicks := 0 } := by
  have hset : SameSlots c.task (c.task.setState slot .running) :=
    sameSlots_setState (by decide) hlive
  refine ⟨⟨⟨hset.keys, hset.used⟩, fewer_procSetState (by decide) pid⟩, fun i hi => ?_⟩
  rw [← Option.some.inj hi]
  exact live_of_key (hset.keys slot) hlive

theorem taskSetState_tame {state : TaskState} (pid : Int) (hstate : state ≠ .unused)
    (hcur : CurrentLive c.task) :
    Tame c (taskSetState c pid state) ∧ CurrentLive (taskSetState c pid state).task := by
  unfold taskSetState
  split
  · exact ⟨.refl c, hcur⟩
  rename_i slot hfind
  have hlive := live_of_findSlot hfind
  split
  · have hdemote := demoteCurrent_tame c slot
    obtain ⟨hmark, hcur'⟩ := markRunning_tame pid (live_of_key (hdemote.slots.keys slot) hlive)
    exact ⟨hdemote.trans hmark, hcur'⟩
  · have hset := sameSlots_setState hstate hlive
    exact ⟨⟨hset, Fewer.refl⟩, fun i hi => live_of_key (hset.keys i) (hcur i hi)⟩

theorem taskReturnToKernelMain_tame (c : Core) :
    Tame c (taskReturnToKernelMain c) ∧ CurrentLive (taskReturnToKernelMain c).task := by
  unfold taskReturnToKernelMain
  split
  · refine ⟨⟨⟨fun _ => rfl, rfl⟩, Fewer.refl⟩, fun i hi => ?_⟩
    cases hi
  · rename_i slot hfind
    have hdemote := demoteCurrent_tame c slot
    have hlive := live_of_key (hdemote.slots.keys slot) (live_of_findSlot hfind)
    obtain ⟨hmark, hcur⟩ :=
      markRunning_tame ((demoteCurrent c slot).task.tasks slot).pid hlive
    exact ⟨hdemote.trans hmark, hcur⟩

theorem countTick_same (t : TaskTable) (cur : Fin maxTasks) : SameSlots t (countTick t cur) := by
  constructor
  case keys =>
    intro i
    obtain ⟨hstate, hpid⟩ := countTick_keeps t cur i
    unfold TaskInfo.key
    rw [hstate, hpid]
  case used =>
    unfold countTick
    split <;> rfl

theorem switchTask_tame {cur next : Fin maxTasks} (hcur : (c.task.tasks cur).state ≠ .unused)
    (hnext : (c.task.tasks next).state = .ready) :
    Tame c (switchTask c cur next) ∧ CurrentLive (switchTask c cur next).task := by
  have hlive : (c.task.tasks next).state ≠ .unused := by
    rw [hnext]
    decide
  have hready : SameSlots c.task (c.task.setState cur .ready) :=
    sameSlots_setState (by decide) hcur
  have hrunning : SameSlots c.task ((c.task.setState cur .ready).setState next .running) :=
    hready.trans (sameSlots_setState (by decide) (live_of_key (hready.keys next) hlive))
  refine ⟨⟨⟨hrunning.keys, hrunning.used⟩, fun hok => ?_⟩, fun i hi => ?_⟩
  · have hold := fewer_procSetState (show ProcState.ready ≠ .unused by decide)
      (c.task.tasks cur).pid hok
    have hnew := fewer_procSetState (show ProcState.running ≠ .unused by decide)
      (c.task.tasks next).pid (hold.ok hok)
    exact ⟨hnew.distinct, hnew.next.trans hold.next, fun p hp => hold.live p (hnew.live p hp)⟩
  · rw [← Option.some.inj hi]
    exact live_of_key (hrunning.keys next) hlive

theorem schedulerOnTimerTick_tame (hcur : CurrentLive c.task) :
    Tame c (schedulerOnTimerTick c) ∧ CurrentLive (schedulerOnTimerTick c).task := by
  unfold schedulerOnTimerTick
  split
  · exact ⟨.refl c, hcur⟩
  rename_i cur hindex
  have hsame := countTick_same c.task cur
  have hcount : Tame c { c with task := countTick c.task cur } := ⟨hsame, Fewer.refl⟩
  have hlive : ((countTick c.task cur).tasks cur).state ≠ .unused :=
    live_of_key (hsame.keys cur) (hcur cur hindex)
  have hidle : CurrentLive (countTick c.task cur) := by
    intro i hi
    have hindex' : (countTick c.task cur).currentIndex = c.task.currentIndex := by
      unfold countTick
      split <;> rfl
    rw [hindex'] at hi
    exact live_of_key (hsame.keys i) (hcur i hi)
  dsimp only
  split
  · exact ⟨hcount, hidle⟩
  split
  · exact ⟨hcount, hidle⟩
  split
  · exact ⟨hcount, hidle⟩
  · rename_i next hnext
    obtain ⟨hswitch, hcur'⟩ := switchTask_tame (c := { c with task := countTick c.task cur }) hlive
      (ready_of_nextReady hnext)
    exact ⟨hcount.trans hswitch, hcur'⟩

/-! ## The invariant -/

/-- The counter, the owners and the two tables agree. -/
structure SlotsOk (s : Owned) : Prop where
  count : s.core.task.tasksUsed = SlotTable.occupied TaskInfo.key s.core.task.tasks
  procs : ProcsOk s.core.proc
  owns : ∀ i, (s.core.task.tasks i).state ≠ .unused → s.owner i = some (s.core.task.tasks i).pid
  once : ∀ i j p, s.owner i = some p → s.owner j = some p → i = j
  below : ∀ i p, s.owner i = some p → p < s.core.proc.nextPid
  gone : ∀ i p, (s.core.task.tasks i).state = .unused → s.owner i = some p →
    procPhase s.core.proc p = .dead

theorem SlotsOk.tame (h : SlotsOk s) (htame : Tame s.core c) : SlotsOk { s with core := c } := by
  have hprocs := htame.procs h.procs
  have hslots := htame.slots
  constructor
  case count =>
    rw [SlotTable.occupied_congr hslots.keys, ← h.count]
    exact hslots.used
  case procs => exact hprocs.ok h.procs
  case owns =>
    intro i hi
    have hlive : (s.core.task.tasks i).state ≠ .unused := live_of_key (hslots.keys i).symm hi
    have hold : (s.core.task.tasks i).key = some (s.core.task.tasks i).pid :=
      taskKey_eq_some.mpr ⟨hlive, rfl⟩
    have hkey := taskKey_eq_some.mp ((hslots.keys i).trans hold)
    rw [h.owns i hlive]
    exact congrArg some hkey.2.symm
  case once => exact h.once
  case below =>
    intro i p hp
    have hlt := h.below i p hp
    rw [← hprocs.next] at hlt
    exact hlt
  case gone =>
    intro i p hi hp
    have hfree : (s.core.task.tasks i).state = .unused := by
      by_contra hlive
      exact live_of_key (hslots.keys i) hlive hi
    have hdead := h.gone i p hfree hp
    by_contra hlive
    exact hprocs.live p hlive hdead

theorem SlotsOk.freed (h : SlotsOk s) (hfind : s.core.task.findSlotByPid pid = some slot)
    (hgone : procPhase s.core.proc pid = .dead) :
    SlotsOk { s with core := { s.core with task := { s.core.task.setTask slot emptyTask with
      tasksUsed := s.core.task.tasksUsed - 1 } } } := by
  have hkey := taskKey_of_find hfind
  obtain ⟨hlive, hpid⟩ := taskKey_eq_some.mp hkey
  have hother : ∀ i, i ≠ slot →
      (s.core.task.setTask slot emptyTask).tasks i = s.core.task.tasks i :=
    fun i hi => Function.update_of_ne hi _ _
  have hself : (s.core.task.setTask slot emptyTask).tasks slot = emptyTask :=
    Function.update_self ..
  constructor
  case count =>
    have hcount := @SlotTable.occupied_update _ _ _ TaskInfo.key s.core.task.tasks slot emptyTask
    rw [hkey, ← h.count] at hcount
    have hempty : emptyTask.key = none := rfl
    rw [hempty, Option.isSome_some, if_pos rfl, Option.isSome_none, if_neg Bool.false_ne_true] at hcount
    dsimp only [TaskTable.setTask]
    omega
  case procs => exact h.procs
  case owns =>
    intro i hi
    by_cases heq : i = slot
    · rw [heq] at hi
      exact absurd (congrArg TaskInfo.state hself) hi
    · have hsame := hother i heq
      change s.owner i = some ((s.core.task.setTask slot emptyTask).tasks i).pid
      rw [hsame]
      apply h.owns
      rw [← hsame]
      exact hi
  case once => exact h.once
  case below => exact h.below
  case gone =>
    intro i p hi hp
    by_cases heq : i = slot
    · rw [heq, h.owns slot hlive, hpid] at hp
      rw [← Option.some.inj hp]
      exact hgone
    · apply h.gone i p _ hp
      rw [← hother i heq]
      exact hi

theorem SlotsOk.taken {proc : ProcTable} {info : TaskInfo} (h : SlotsOk s)
    (hfree : (s.core.task.tasks slot).state = .unused) (hproc : Spawned s.core.proc proc)
    (hpid : info.pid = s.core.proc.nextPid) (hready : info.state = .ready) :
    SlotsOk ⟨{ s.core with proc := proc, task := { s.core.task.setTask slot info with
      tasksUsed := s.core.task.tasksUsed + 1 } },
        Function.update s.owner slot (some s.core.proc.nextPid)⟩ := by
  have hlive : info.state ≠ .unused := by
    rw [hready]
    decide
  have hother : ∀ i, i ≠ slot → (s.core.task.setTask slot info).tasks i = s.core.task.tasks i :=
    fun i hi => Function.update_of_ne hi _ _
  have hself : (s.core.task.setTask slot info).tasks slot = info := Function.update_self ..
  have hownself : Function.update s.owner slot (some s.core.proc.nextPid) slot =
      some s.core.proc.nextPid := Function.update_self ..
  have hownother : ∀ i, i ≠ slot →
      Function.update s.owner slot (some s.core.proc.nextPid) i = s.owner i :=
    fun i hi => Function.update_of_ne hi _ _
  -- the new pid is above those of all owners
  have hnew : ∀ i, s.owner i ≠ some s.core.proc.nextPid := by
    intro i hi
    exact absurd (h.below i _ hi) (Int.lt_irrefl _)
  constructor
  case count =>
    have hcount := @SlotTable.occupied_update _ _ _ TaskInfo.key s.core.task.tasks slot info
    have hkey : info.key = some info.pid := taskKey_eq_some.mpr ⟨hlive, rfl⟩
    rw [key_eq_none_iff.mpr hfree, hkey, Option.isSome_none, if_neg Bool.false_ne_true,
      Option.isSome_some, if_pos rfl, ← h.count] at hcount
    dsimp only [TaskTable.setTask]
    omega
  case procs => exact h.procs.of_spawned hproc
  case owns =>
    intro i hi
    change Function.update s.owner slot (some s.core.proc.nextPid) i =
      some ((s.core.task.setTask slot info).tasks i).pid
    by_cases heq : i = slot
    · rw [heq, hself, hownself, hpid]
    · rw [hownother i heq, hother i heq]
      apply h.owns
      rw [← hother i heq]
      exact hi
  case once =>
    have hdistinct : SlotTable.Distinct id s.owner := fun i j p => h.once i j p
    have hfresh : SlotTable.indexOf id s.owner s.core.proc.nextPid = none :=
      SlotTable.indexOf_eq_none.mpr hnew
    intro i j p hi hj
    exact hdistinct.update_fresh rfl hfresh hi hj
  case below =>
    intro i p hp
    change Function.update s.owner slot (some s.core.proc.nextPid) i = some p at hp
    change p < proc.nextPid
    rw [hproc.next]
    by_cases heq : i = slot
    · rw [heq, hownself] at hp
      rw [← Option.some.inj hp]
      omega
    · rw [hownother i heq] at hp
      have hlt := h.below i p hp
      omega
  case gone =>
    intro i p hi hp
    by_cases heq : i = slot
    · rw [heq] at hi
      change ((s.core.task.setTask slot info).tasks slot).state = .unused at hi
      rw [hself] at hi
      exact absurd hi hlive
    · change Function.update s.owner slot (some s.core.proc.nextPid) i = some p at hp
      rw [hownother i heq] at hp
      have hfree' : (s.core.task.tasks i).state = .unused := by
        rw [← hother i heq]
        exact hi
      change procPhase proc p = .dead
      have hne : p ≠ s.core.proc.nextPid := by
        rintro rfl
        exact hnew i hp
      rw [hproc.phase p, if_neg hne]
      exact h.gone i p hfree' hp

/-! ## Steps -/

theorem spawn_cases (s : Owned) (dflt : CStr) (name : Option CStr) (ppid : Int) :
    s.spawn (taskSpawn dflt s.core name ppid) = s ∨
      ∃ slot proc, s.core.task.allocSlot = some slot ∧
        procSpawnKernel s.core.proc name ppid = some (s.core.proc.nextPid, proc) ∧
        s.spawn (taskSpawn dflt s.core name ppid) = ⟨{ s.core with
            proc := proc
            task := { s.core.task.setTask slot ⟨s.core.proc.nextPid, ppid, .ready, 0,
                strCopy (name.getD dflt) 16⟩ with
              tasksUsed := s.core.task.tasksUsed + 1 } },
          Function.update s.owner slot (some s.core.proc.nextPid)⟩ := by
  unfold Owned.spawn taskSpawn
  cases halloc : s.core.task.allocSlot with
  | none => exact Or.inl rfl
  | some slot =>
      cases hproc : procSpawnKernel s.core.proc name ppid with
      | none => exact Or.inl rfl
      | some res =>
          obtain ⟨pid, proc⟩ := res
          have hpid : pid = s.core.proc.nextPid := by
            unfold procSpawnKernel at hproc
            split at hproc
            · cases hproc
            · cases hproc
              rfl
          subst hpid
          exact Or.inr ⟨slot, proc, rfl, rfl, rfl⟩

theorem spawn_ok (dflt : CStr) (name : Option CStr) (ppid : Int) (h : SlotsOk s)
    (hcur : CurrentLive s.core.task)
    (hfree : ∀ slot, s.core.task.allocSlot = some slot →
      (s.core.task.tasks slot).state = .unused) :
    SlotsOk (s.spawn (taskSpawn dflt s.core name ppid)) ∧
      CurrentLive (s.spawn (taskSpawn dflt s.core name ppid)).core.task := by
  obtain hsame | ⟨slot, proc, halloc, hproc, hspawn⟩ := spawn_cases s dflt name ppid
  · rw [hsame]
    exact ⟨h, hcur⟩
  rw [hspawn]
  refine ⟨h.taken (hfree slot halloc) (h.procs.spawned hproc) rfl rfl, fun i hi => ?_⟩
  by_cases heq : i = slot
  · rw [heq]
    simp [TaskTable.setTask]
  · have hlive := hcur i hi
    simpa [TaskTable.setTask, heq] using hlive

theorem reap_ok (h : SlotsOk s) (hcur : CurrentLive s.core.task)
    (hgone : procStateOf s.core.proc pid = .unused) :
    SlotsOk { s with core := (taskReapPid s.core pid).2 } ∧
      CurrentLive (taskReapPid s.core pid).2.task := by
  unfold taskReapPid
  split
  · exact ⟨h, hcur⟩
  rename_i slot hfind
  have hfreed := h.freed hfind (procPhase_eq_dead_iff_unused.mpr hgone)
  dsimp only
  split
  · obtain ⟨hback, hcur'⟩ := taskReturnToKernelMain_tame { s.core with
      task := { s.core.task.setTask slot emptyTask with
        tasksUsed := s.core.task.tasksUsed - 1 } }
    exact ⟨hfreed.tame hback, hcur'⟩
  · rename_i hother
    refine ⟨hfreed, fun i hi => ?_⟩
    have hne : i ≠ slot := by
      rintro rfl
      exact hother hi
    have hlive := hcur i hi
    simpa [TaskTable.setTask, hne] using hlive

theorem taskOpStep_ok (hok : InOrder s e) (h : SlotsOk s ∧ CurrentLive s.core.task)
    (hstep : taskOpStep s e = some s') : SlotsOk s' ∧ CurrentLive s'.core.task := by
  obtain ⟨hslots, hcur⟩ := h
  cases e with
  | spawnKernel name ppid =>
      simp only [taskOpStep] at hstep
      split at hstep
      · cases hstep
      · cases hstep
        exact spawn_ok (cstr "kproc") name ppid hslots hcur hok
  | spawnUser name ppid =>
      simp only [taskOpStep] at hstep
      split at hstep
      · cases hstep
      · cases hstep
        exact spawn_ok (cstr "uproc") name ppid hslots hcur hok
  | setState pid state =>
      simp only [taskOpStep] at hstep
      split at hstep
      · cases hstep
      · rename_i hstate
        cases hstep
        obtain ⟨htame, hcur'⟩ := taskSetState_tame pid hstate hcur
        exact ⟨hslots.tame htame, hcur'⟩
  | reap pid =>
      cases hstep
      exact reap_ok hslots hcur hok
  | tick =>
      cases hstep
      obtain ⟨htame, hcur'⟩ := schedulerOnTimerTick_tame hcur
      exact ⟨hslots.tame htame, hcur'⟩
  | procState pid state =>
      simp only [taskOpStep] at hstep
      split at hstep
      · cases hstep
      · rename_i hstate
        cases hstep
        exact ⟨hslots.tame ⟨.refl s.core.task, fewer_procSetState hstate pid⟩, hcur⟩
  | procExit pid code =>
      cases hstep
      exact ⟨hslots.tame ⟨.refl s.core.task, fun hprocs => fewer_procExit hprocs pid code⟩, hcur⟩
  | procReap pid =>
      cases hstep
      exact ⟨hslots.tame ⟨.refl s.core.task, fun hprocs => fewer_procReapPid hprocs pid⟩, hcur⟩

/-- The slot of a successful spawn was free, so the process that had it is gone. -/
theorem gone_of_reusedBy {spawned : Option (Int × Core)} {x : Int × ProcState} (h : SlotsOk s)
    (hfree : ∀ slot, s.core.task.allocSlot = some slot →
      (s.core.task.tasks slot).state = .unused) (hx : x ∈ reusedBy s spawned) :
    x.2 = .unused := by
  unfold reusedBy at hx
  split at hx
  · rename_i slot _ halloc
    obtain ⟨p, hp, rfl⟩ := List.mem_map.mp hx
    have hdead := h.gone slot p (hfree slot halloc) (Option.mem_toList.mp hp)
    exact procPhase_eq_dead_iff_unused.mp hdead
  · cases hx

theorem gone_of_reused {x : Int × ProcState} (hok : InOrder s e) (h : SlotsOk s)
    (hx : x ∈ reused s e) : x.2 = .unused := by
  cases e with
  | spawnKernel name ppid => exact gone_of_reusedBy h hok hx
  | spawnUser name ppid => exact gone_of_reusedBy h hok hx
  | setState | reap | tick | procState | procExit | procReap => cases hx

/-! ## Whole runs -/

theorem tasksInit_ok (c : Core) : SlotsOk (tasksInit c) ∧ CurrentLive (tasksInit c).core.task := by
  have howner : ∀ i p, (tasksInit c).owner i = some p → i = 0 ∧ p = 0 := by
    intro i p hp
    change Function.update (fun _ => none) 0 (some 0) i = some p at hp
    by_cases hi : i = 0
    · rw [hi, Function.update_self] at hp
      exact ⟨hi, (Option.some.inj hp).symm⟩
    · rw [Function.update_of_ne hi] at hp
      cases hp
  have hlive : ∀ i, (taskingInit.tasks i).state ≠ .unused → i = 0 := by decide
  constructor
  · constructor
    case count =>
      change taskingInit.tasksUsed = SlotTable.occupied TaskInfo.key taskingInit.tasks
      decide
    case procs => exact procsOk_procInit
    case owns =>
      intro i hi
      rw [hlive i hi]
      rfl
    case once =>
      intro i j p hi hj
      rw [(howner i p hi).1, (howner j p hj).1]
    case below =>
      intro i p hp
      rw [(howner i p hp).2]
      exact (by decide : (0 : Int) < 1)
    case gone =>
      intro i p hi hp
      rw [(howner i p hp).1] at hi
      exact absurd hi (show (taskingInit.tasks 0).state ≠ .unused by decide)
  · intro i hi
    rw [← Option.some.inj hi]
    exact (by decide : (taskingInit.tasks 0).state ≠ .unused)

/-- A run in which no spawn takes over a zombie's slot and each task outlives its process. -/
theorem slotsKept_run (c : Core) (es : List TaskOp) (s : Owned)
    (hok : Runs.AllSteps taskOpStep InOrder (tasksInit c) es)
    (hrun : Runs.run taskOpStep (tasksInit c) es = some s) : SlotsKept (tasksInit c) es s := by
  obtain ⟨hslots, -⟩ := Runs.invariant (fun _ _ _ => taskOpStep_ok) hok hrun (tasksInit_ok c)
  constructor
  case counted =>
    change s.core.task.tasksUsed = _
    rw [hslots.count]
    unfold SlotTable.occupied
    congr 1
    apply Finset.filter_congr
    intro i _
    rw [Option.isSome_iff_ne_none, ne_eq, ne_eq, key_eq_none_iff]
  case distinct =>
    intro i j hi hj hij
    apply hslots.once i j _ (hslots.owns i hi)
    rw [hij]
    exact hslots.owns j hj
  case reuse =>
    have hsteps : ∀ (s : Owned) (l : List (Int × ProcState)) e s', InOrder s e →
        ((SlotsOk s ∧ CurrentLive s.core.task) ∧ ∀ x ∈ l, x.2 = .unused) →
        taskOpStep s e = some s' →
        (SlotsOk s' ∧ CurrentLive s'.core.task) ∧ ∀ x ∈ l ++ reused s e, x.2 = .unused := by
      rintro s l e s' hok ⟨h, hl⟩ hstep
      refine ⟨taskOpStep_ok hok h hstep, fun x hx => ?_⟩
      rcases List.mem_append.mp hx with hx | hx
      · exact hl x hx
      · exact gone_of_reused hok h.1 hx
    have hall := Runs.observe_invariant hsteps hok hrun (l := [])
      ⟨tasksInit_ok c, fun x hx => absurd hx List.not_mem_nil⟩
    exact hall.2

def shells : List TaskOp :=
  [.spawnKernel (some (cstr "shell-vga")) 0, .spawnKernel (some (cstr "shell-serial")) 0]

def slotReused : List TaskOp :=
  shells ++ [.spawnUser none 1, .setState 3 .running, .tick, .setState 3 .zombie, .setState 0 .running,
    .procExit 3 0, .procReap 3, .reap 3, .spawnUser none 1]

theorem slotsKept_reused : ∃ s,
    Runs.run taskOpStep (tasksInit (coreInit TreeRuns.plainMach)) slotReused = some s ∧
      s.owner 3 = some 4 ∧
      SlotsKept (tasksInit (coreInit TreeRuns.plainMach)) slotReused s := by
  have hok : Runs.AllSteps taskOpStep InOrder (tasksInit (coreInit TreeRuns.plainMach))
      slotReused := by
    decide +kernel
  have hview : (Runs.run taskOpStep (tasksInit (coreInit TreeRuns.plainMach)) slotReused).map
      (fun s => s.owner 3) = some (some 4) := by
    decide +kernel
  obtain ⟨s, hrun, howner⟩ := Option.map_eq_some_iff.mp hview
  exact ⟨s, hrun, howner, slotsKept_run _ slotReused s hok hrun⟩

/-- A program that is a zombie when the next one is started. -/
def zombieTaken : List TaskOp :=
  shells ++ [.spawnUser none 1, .setState 3 .zombie, .spawnUser none 1]

/-- Four tasks are counted as five, and the process of the zombie is still there. -/
theorem not_slotsKept_zombie : ∃ s,
    Runs.run taskOpStep (tasksInit (coreInit TreeRuns.plainMach)) zombieTaken = some s ∧
      taskCount s.core.task = 5 ∧ s.owner 3 = some 4 ∧ procStateOf s.core.proc 3 = .ready ∧
      ¬SlotsKept (tasksInit (coreInit TreeRuns.plainMach)) zombieTaken s := by
  have hview : (Runs.run taskOpStep (tasksInit (coreInit TreeRuns.plainMach)) zombieTaken).map
      (fun s => (taskCount s.core.task, s.owner 3, procStateOf s.core.proc 3,
        (Finset.univ.filter fun i => (s.core.task.tasks i).state ≠ .unused).card)) =
      some (5, some 4, .ready, 4) := by
    decide +kernel
  obtain ⟨s, hrun, hs⟩ := Option.map_eq_some_iff.mp hview
  obtain ⟨hcount, howner, hproc, hcard⟩ : _ ∧ _ ∧ _ ∧ _ := by simpa only [Prod.mk.injEq] using hs
  refine ⟨s, hrun, hcount, howner, hproc, fun hkept => ?_⟩
  have hequal := hkept.counted
  rw [hcount, hcard] at hequal
  omega

end SlopOS.Proofs.TaskSlots
