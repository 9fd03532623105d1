import SlopOS.Kernel.Ticks
import SlopOS.Proofs.Marks
/-!
# What timer ticks do between two calls

A tick moves the `RUNNING` mark and changes nothing else, as long as the process
table lets it: a switch writes a mark for the old pid and one for the new, over
whatever state they have there.
-/

namespace SlopOS.Proofs.Timer

open SlopOS.Support SlopOS.Kernel SlopOS.Kernel.Ticks
open SlopOS.Proofs.Tables SlopOS.Proofs.Scheduling SlopOS.Proofs.Marks

def nextSwitch (t : TaskTable) : Option (Fin maxTasks × Fin maxTasks) :=
  match t.currentIndex with
  | none => none
  | some cur =>
    let t := countTick t cur
    if t.tasksUsed ≤ 1 ∨ t.sliceTicks < schedTimesliceTicks then none
    else (nextReady t cur).map fun next => (cur, next)

/-- What the timer finds whenever it fires: a runnable task is current, no other is
`RUNNING`, and a process other than the kernel's does not outstay its slice. -/
structure Timed (t : TaskTable) : Prop where
  current : ∃ i, t.currentIndex = some i ∧ taskStatePhase (t.tasks i).state = .runnable
  only : ∀ i, (t.tasks i).state = .running → t.currentIndex = some i
  kernel : ∃ i, (t.tasks i).pid = 0 ∧ taskStatePhase (t.tasks i).state = .runnable
  used : 2 ≤ t.tasksUsed
  slice : ∀ i, t.currentIndex = some i → (t.tasks i).pid ≠ 0 → t.sliceTicks < schedTimesliceTicks

/-- The process table has nothing but marks for the runnable tasks. -/
def Follows (c : Core) : Prop :=
  ∀ i, taskStatePhase (c.task.tasks i).state = .runnable → Markable c.proc (c.task.tasks i).pid

variable {t : TaskTable} {c c' : Core} {pid : Int} {slot cur next : Fin maxTasks} {w : Schedule}
variable {n : Nat}

/-! ## The rotation -/

theorem exists_offset {i : Fin maxTasks} (h : i ≠ cur) :
    ∃ n < maxTasks - 1, cur + Fin.ofNat maxTasks (n + 1) = i := by
  have hne : i.val ≠ cur.val := fun hv => h (Fin.ext hv)
  have hi : i.val < 32 := i.isLt
  have hcur : cur.val < 32 := cur.isLt
  refine ⟨(i.val + (32 - cur.val)) % 32 - 1, ?_, Fin.ext ?_⟩
  · change _ < 31
    omega
  · change (cur.val + ((i.val + (32 - cur.val)) % 32 - 1 + 1) % 32) % 32 = i.val
    omega

theorem nextReady_ne_none {i : Fin maxTasks} (hne : i ≠ cur) (hready : (t.tasks i).state = .ready) :
    nextReady t cur ≠ none := by
  intro hnone
  obtain ⟨n, hn, rfl⟩ := exists_offset hne
  have hall := List.find?_eq_none.mp hnone _
    (List.mem_map.mpr ⟨n, List.mem_range.mpr hn, rfl⟩)
  exact hall (decide_eq_true hready)

theorem tick_cases (c : Core) (hcur : c.task.currentIndex = some cur) :
    (nextSwitch c.task = none ∧
        schedulerOnTimerTick c = { c with task := countTick c.task cur }) ∨
      ∃ next, nextSwitch c.task = some (cur, next) ∧
        ((countTick c.task cur).tasks next).state = .ready ∧
        schedulerOnTimerTick c = switchTask { c with task := countTick c.task cur } cur next := by
  unfold nextSwitch schedulerOnTimerTick
  simp only [hcur]
  by_cases hused : (countTick c.task cur).tasksUsed ≤ 1
  · left
    simp [hused]
  by_cases hslice : (countTick c.task cur).sliceTicks < schedTimesliceTicks
  · left
    simp [hslice]
  rw [if_neg (by simp [hused, hslice]), if_neg hused, if_neg hslice]
  cases hnext : nextReady (countTick c.task cur) cur with
  | none => exact Or.inl ⟨rfl, rfl⟩
  | some next => exact Or.inr ⟨next, rfl, ready_of_nextReady hnext, rfl⟩

theorem countTick_fields (t : TaskTable) (cur : Fin maxTasks) :
    (countTick t cur).currentIndex = t.currentIndex ∧ (countTick t cur).tasksUsed = t.tasksUsed := by
  unfold countTick
  split <;> exact ⟨rfl, rfl⟩

/-! ## One tick -/

theorem kernel_setState {st : TaskState} (hst : taskStatePhase st = .runnable)
    (h : ∃ i, (t.tasks i).pid = 0 ∧ taskStatePhase (t.tasks i).state = .runnable) :
    ∃ i, ((t.setState slot st).tasks i).pid = 0 ∧
      taskStatePhase ((t.setState slot st).tasks i).state = .runnable := by
  obtain ⟨i, hpid, hrun⟩ := h
  refine ⟨i, (pid_setState slot i st).trans hpid, ?_⟩
  rw [state_setState slot i st]
  split
  · exact hst
  · exact hrun

theorem timed_mark {ticks switches : Nat}
    (halone : ∀ i, (t.tasks i).state = .running → i = slot)
    (hkernel : ∃ i, (t.tasks i).pid = 0 ∧ taskStatePhase (t.tasks i).state = .runnable)
    (hused : 2 ≤ t.tasksUsed) (hslice : (t.tasks slot).pid ≠ 0 → ticks < schedTimesliceTicks) :
    Timed { t.setState slot .running with
      currentIndex := some slot, sliceTicks := ticks, switches := switches } := by
  refine ⟨⟨slot, rfl, ?_⟩, fun i hi => ?_, kernel_setState rfl hkernel, hused, fun i hi hpid => ?_⟩
  · change taskStatePhase ((t.setState slot .running).tasks slot).state = .runnable
    rw [state_setState slot slot .running, if_pos rfl]
    rfl
  · change ((t.setState slot .running).tasks i).state = .running at hi
    rw [state_setState slot i .running] at hi
    split at hi
    · rename_i hslot
      rw [hslot]
    · rw [halone i hi]
  · obtain rfl := Option.some.inj hi
    exact hslice fun h0 => hpid ((pid_setState slot slot .running).trans h0)

theorem timed_ready (h : Timed t) (hcur : t.currentIndex = some cur) :
    Timed (t.setState cur .ready) ∧ ∀ i, ((t.setState cur .ready).tasks i).state ≠ .running := by
  have hnone : ∀ i, ((t.setState cur .ready).tasks i).state ≠ .running := by
    intro i hi
    rw [state_setState cur i .ready] at hi
    split at hi
    · cases hi
    · rename_i hne
      have hindex := h.only i hi
      rw [hcur] at hindex
      exact hne (Option.some.inj hindex).symm
  refine ⟨⟨⟨cur, hcur, ?_⟩, fun i hi => absurd hi (hnone i), kernel_setState rfl h.kernel, h.used,
    fun i hi hpid => ?_⟩, hnone⟩
  · rw [state_setState cur cur .ready, if_pos rfl]
    rfl
  · exact h.slice i hi fun h0 => hpid ((pid_setState cur i .ready).trans h0)

theorem timed_tick (h : Timed c.task) : Timed (schedulerOnTimerTick c).task := by
  obtain ⟨cur, hcur, hrun⟩ := h.current
  have hkeeps := countTick_keeps c.task cur
  obtain ⟨hindex, hused⟩ := countTick_fields c.task cur
  have hkernel : ∃ i, ((countTick c.task cur).tasks i).pid = 0 ∧
      taskStatePhase ((countTick c.task cur).tasks i).state = .runnable := by
    obtain ⟨i, hpid, hi⟩ := h.kernel
    exact ⟨i, (hkeeps i).2.trans hpid, by rw [(hkeeps i).1, hi]⟩
  have honly : ∀ i, ((countTick c.task cur).tasks i).state = .running → i = cur := by
    intro i hi
    rw [(hkeeps i).1] at hi
    have hi' := h.only i hi
    rw [hcur] at hi'
    exact (Option.some.inj hi').symm
  rcases tick_cases c hcur with ⟨hno, htick⟩ | ⟨next, -, hready, htick⟩
  · rw [htick]
    refine ⟨⟨cur, hindex.trans hcur, ?_⟩, fun i hi => ?_, hkernel, hused ▸ h.used,
      fun i hi hpid => ?_⟩
    · rw [(hkeeps cur).1, hrun]
    · rw [honly i hi]
      exact hindex.trans hcur
    · -- the kernel's task is ready, so an exhausted slice ends in a switch
      obtain rfl := Option.some.inj ((hindex.trans hcur).symm.trans hi)
      by_contra hslice
      obtain ⟨i, hpid0, hirun⟩ := hkernel
      have hne : i ≠ cur := by
        rintro rfl
        exact hpid hpid0
      have hiready : ((countTick c.task cur).tasks i).state = .ready := by
        have hnot : ((countTick c.task cur).tasks i).state ≠ .running := fun hi => hne (honly i hi)
        revert hirun hnot
        cases ((countTick c.task cur).tasks i).state <;> simp [taskStatePhase]
      have h2 := h.used
      unfold nextSwitch at hno
      simp only [hcur] at hno
      rw [if_neg (by simp only [not_or]; exact ⟨by omega, hslice⟩)] at hno
      exact nextReady_ne_none hne hiready (Option.map_eq_none_iff.mp hno)
  · rw [htick]
    have hnone : ∀ i, (((countTick c.task cur).setState cur .ready).tasks i).state = .running →
        i = next := by
      intro i hi
      rw [state_setState cur i .ready] at hi
      split at hi
      · cases hi
      · rename_i hne
        exact absurd (honly i hi) hne
    exact timed_mark hnone (kernel_setState rfl hkernel) (hused ▸ h.used) fun _ => by decide

/-- A tick moves marks and nothing else, unless it switches from or to a process whose
state in the process table is not a mark. -/
theorem tick_unmark (h : Timed c.task)
    (hswitch : ∀ cur next, nextSwitch c.task = some (cur, next) →
      Markable c.proc (c.task.tasks cur).pid ∧ Markable c.proc (c.task.tasks next).pid) :
    unmark (schedulerOnTimerTick c) = unmark c := by
  obtain ⟨cur, hcur, hrun⟩ := h.current
  have hkeeps := countTick_keeps c.task cur
  rcases tick_cases c hcur with ⟨-, htick⟩ | ⟨next, hno, hready, htick⟩
  · rw [htick]
    exact unmark_eq rfl (unmarkTasks_countTick c.task cur) rfl rfl rfl rfl
  · obtain ⟨hold, hnew⟩ := hswitch cur next hno
    rw [htick]
    refine unmark_eq ?_ ?_ rfl rfl rfl rfl
    · change unmarkProcs (procSetState (procSetState c.proc ((countTick c.task cur).tasks cur).pid
        .ready) ((countTick c.task cur).tasks next).pid .running) = _
      rw [(hkeeps cur).2, (hkeeps next).2]
      have hfirst : unmarkProcs (procSetState c.proc (c.task.tasks cur).pid .ready) =
          unmarkProcs c.proc := unmarkProcs_setState rfl hold
      have hnew' : Markable (procSetState c.proc (c.task.tasks cur).pid .ready)
          (c.task.tasks next).pid := by
        unfold Markable
        rw [← procPhase_unmarkProcs, hfirst, procPhase_unmarkProcs]
        exact hnew
      exact (unmarkProcs_setState rfl hnew').trans hfirst
    · have hslot : taskStatePhase ((countTick c.task cur).tasks cur).state = .runnable := by
        rw [(hkeeps cur).1, hrun]
      have hfirst : unmarkTasks ((countTick c.task cur).setState cur .ready) =
          unmarkTasks (countTick c.task cur) := unmarkTasks_setState rfl hslot
      have hslot' : taskStatePhase (((countTick c.task cur).setState cur .ready).tasks next).state =
          .runnable := by
        rw [(slot_of_unmark hfirst next).1, hready]
        rfl
      have hsecond : unmarkTasks (((countTick c.task cur).setState cur .ready).setState next
          .running) = unmarkTasks ((countTick c.task cur).setState cur .ready) :=
        unmarkTasks_setState rfl hslot'
      exact hsecond.trans (hfirst.trans (unmarkTasks_countTick c.task cur))

theorem tick_idle (hcur : c.task.currentIndex = some cur)
    (hdead : (c.task.tasks cur).state = .unused) (hslice : c.task.sliceTicks < schedTimesliceTicks) :
    schedulerOnTimerTick c = c := by
  have hcount : countTick c.task cur = c.task := by
    unfold countTick
    rw [hdead]
    rfl
  unfold schedulerOnTimerTick
  simp only [hcur, hcount, if_pos hslice]
  split <;> rfl

/-! ## Several ticks -/

theorem ticks_idle (n : Nat) (hcur : c.task.currentIndex = some cur)
    (hdead : (c.task.tasks cur).state = .unused) (hslice : c.task.sliceTicks < schedTimesliceTicks) :
    schedulerOnTimerTick^[n] c = c :=
  Function.iterate_fixed (tick_idle hcur hdead hslice) n

theorem follows_of_unmark (h : unmark c' = unmark c) (hf : Follows c) : Follows c' := by
  intro i hi
  obtain ⟨hphase, hpid⟩ := slot_of_unmark (task_of_unmark h) i
  rw [hphase] at hi
  unfold Markable
  rw [hpid, phase_of_unmark h]
  exact hf i hi

theorem follows_of_synced (h : Synced c) : Follows c := by
  intro i hi
  have hocc : (c.task.tasks i).state ≠ .unused := by
    intro hun
    rw [hun] at hi
    cases hi
  left
  rw [← h.sync, taskPhase_of_find (find_of_occupied h i hocc), hi]

theorem runnable_of_nextSwitch (h : Timed t) (hs : nextSwitch t = some (cur, next)) :
    taskStatePhase (t.tasks cur).state = .runnable ∧
      taskStatePhase (t.tasks next).state = .runnable := by
  obtain ⟨i, hi, hrun⟩ := h.current
  unfold nextSwitch at hs
  simp only [hi] at hs
  split at hs
  · cases hs
  obtain ⟨j, hj, heq⟩ := Option.map_eq_some_iff.mp hs
  obtain ⟨rfl, rfl⟩ := Prod.mk.inj heq
  refine ⟨hrun, ?_⟩
  have hready := ready_of_nextReady hj
  rw [(countTick_keeps t i j).1] at hready
  rw [hready]
  rfl

theorem ticks_spec (n : Nat) (h : Timed c.task) (hf : Follows c) :
    unmark (schedulerOnTimerTick^[n] c) = unmark c ∧ Timed (schedulerOnTimerTick^[n] c).task := by
  induction n with
  | zero => exact ⟨rfl, h⟩
  | succ n ih =>
      obtain ⟨hunmark, htimed⟩ := ih
      rw [Function.iterate_succ_apply']
      have hfollows := follows_of_unmark hunmark hf
      refine ⟨(tick_unmark htimed fun cur next hs => ?_).trans hunmark, timed_tick htimed⟩
      obtain ⟨hcur, hnext⟩ := runnable_of_nextSwitch htimed hs
      exact ⟨hfollows cur hcur, hfollows next hnext⟩

theorem wait_spec (gap : Gap) (h : Timed c.task) (hf : Follows c) :
    unmark (wait w gap c) = unmark c ∧ Timed (wait w gap c).task :=
  ticks_spec (w gap) h hf

/-- None of the next `n` ticks switches from or to process `pid`. -/
def Spares (n : Nat) (pid : Int) (c : Core) : Prop :=
  ∀ j < n, ∀ cur next, nextSwitch (schedulerOnTimerTick^[j] c).task = some (cur, next) →
    ((schedulerOnTimerTick^[j] c).task.tasks cur).pid ≠ pid ∧
      ((schedulerOnTimerTick^[j] c).task.tasks next).pid ≠ pid

theorem ticks_spare (h : Timed c.task)
    (hf : ∀ i, taskStatePhase (c.task.tasks i).state = .runnable → (c.task.tasks i).pid ≠ pid →
      Markable c.proc (c.task.tasks i).pid) (hspares : Spares n pid c) :
    unmark (schedulerOnTimerTick^[n] c) = unmark c ∧ Timed (schedulerOnTimerTick^[n] c).task := by
  induction n with
  | zero => exact ⟨rfl, h⟩
  | succ n ih =>
      obtain ⟨hunmark, htimed⟩ := ih fun j hj => hspares j (by omega)
      rw [Function.iterate_succ_apply']
      refine ⟨(tick_unmark htimed fun cur next hs => ?_).trans hunmark, timed_tick htimed⟩
      obtain ⟨hcur, hnext⟩ := runnable_of_nextSwitch htimed hs
      have hspare := hspares n (by omega) cur next hs
      have hmark : ∀ i, taskStatePhase ((schedulerOnTimerTick^[n] c).task.tasks i).state = .runnable →
          ((schedulerOnTimerTick^[n] c).task.tasks i).pid ≠ pid →
          Markable (schedulerOnTimerTick^[n] c).proc ((schedulerOnTimerTick^[n] c).task.tasks i).pid := by
        intro i hi hpid
        obtain ⟨hphase, hpid'⟩ := slot_of_unmark (task_of_unmark hunmark) i
        rw [hphase] at hi
        rw [hpid'] at hpid ⊢
        unfold Markable
        rw [phase_of_unmark hunmark]
        exact hf i hi hpid
      exact ⟨hmark cur hcur hspare.1, hmark next hnext hspare.2⟩

theorem ticks_task (n : Nat) (h : c'.task = c.task) :
    (schedulerOnTimerTick^[n] c').task = (schedulerOnTimerTick^[n] c).task := by
  induction n with
  | zero => exact h
  | succ n ih =>
      rw [Function.iterate_succ_apply', Function.iterate_succ_apply']
      generalize schedulerOnTimerTick^[n] c = d at ih ⊢
      generalize schedulerOnTimerTick^[n] c' = d' at ih ⊢
      cases hcur : d.task.currentIndex with
      | none =>
          unfold schedulerOnTimerTick
          rw [ih, hcur]
          exact ih
      | some cur =>
          have hcur' : d'.task.currentIndex = some cur := by rw [ih, hcur]
          rcases tick_cases d hcur with ⟨hno, htick⟩ | ⟨next, hno, -, htick⟩
          · rcases tick_cases d' hcur' with ⟨-, htick'⟩ | ⟨next', hno', -, -⟩
            · rw [htick, htick', ih]
            · rw [ih, hno] at hno'
              cases hno'
          · rcases tick_cases d' hcur' with ⟨hno', -⟩ | ⟨next', hno', -, htick'⟩
            · rw [ih, hno] at hno'
              cases hno'
            · rw [ih, hno] at hno'
              cases hno'
              rw [htick, htick']
              unfold switchTask
              rw [ih]

theorem spares_congr (h : c'.task = c.task) : Spares n pid c' ↔ Spares n pid c := by
  unfold Spares
  simp only [ticks_task _ h]

theorem currentOk_of_timed (h : Timed c.task) (hs : Synced c) : CurrentOk c := by
  obtain ⟨i, hi, hrun⟩ := h.current
  have hocc : (c.task.tasks i).state ≠ .unused := by
    intro hun
    rw [hun] at hrun
    cases hrun
  have hfind := find_of_occupied hs i hocc
  refine ⟨i, _, hi, hfind, ?_⟩
  rw [← hs.sync, taskPhase_of_find hfind, hrun]

end SlopOS.Proofs.Timer
