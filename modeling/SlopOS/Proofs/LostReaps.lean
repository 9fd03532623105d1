import SlopOS.Proofs.TickedTables
/-!
# A clean-up that loses its process

A tick between `proc_exit` and `proc_reap_pid` that switches from or to the dead
process writes a mark over `ZOMBIE`.  From then on only marks are written, so
`proc_reap_pid` refuses the process and it stays in the table.
-/

namespace SlopOS.Proofs.LostReaps

open SlopOS.Support SlopOS.Kernel SlopOS.Kernel.Ticks
open SlopOS.Proofs.Tables SlopOS.Proofs.Scheduling SlopOS.Proofs.Timer

/-- Nothing but marks has been written into the process table. -/
def Marked (t t' : ProcTable) : Prop :=
  ∀ q, procPhase t' q = procPhase t q ∨ procPhase t q ≠ .dead ∧ procPhase t' q = .runnable

variable {t t' t'' : ProcTable} {c : Core} {pid : Int} {w : Schedule} {n : Nat}

theorem Marked.refl (t : ProcTable) : Marked t t := fun _ => Or.inl rfl

theorem Marked.trans (h : Marked t t') (h' : Marked t' t'') : Marked t t'' := by
  intro q
  rcases h q with hq | ⟨hlive, hq⟩
  · rcases h' q with hq' | ⟨hlive', hq'⟩
    · exact Or.inl (hq'.trans hq)
    · exact Or.inr ⟨by rwa [hq] at hlive', hq'⟩
  · rcases h' q with hq' | ⟨-, hq'⟩
    · exact Or.inr ⟨hlive, hq'.trans hq⟩
    · exact Or.inr ⟨hlive, hq'⟩

theorem marked_setState {st : ProcState} (p : Int) (hst : procStatePhase st = .runnable) :
    Marked t (procSetState t p st) := by
  have hne : st ≠ .unused := by
    rintro rfl
    cases hst
  intro q
  rw [procPhase_procSetState hne]
  split
  · rename_i hq
    exact Or.inr ⟨hq.1 ▸ hq.2, hst⟩
  · exact Or.inl rfl

theorem Marked.runnable (h : Marked t t') (hrun : procPhase t pid = .runnable) :
    procPhase t' pid = .runnable := by
  rcases h pid with hq | ⟨-, hq⟩
  · rw [hq, hrun]
  · exact hq

theorem Marked.live (h : Marked t t') (hlive : procPhase t pid ≠ .dead) :
    procPhase t' pid ≠ .dead := by
  rcases h pid with hq | ⟨-, hq⟩
  · rwa [hq]
  · rw [hq]
    decide

/-! ## The functions of a clean-up -/

theorem marked_tick (c : Core) : Marked c.proc (schedulerOnTimerTick c).proc := by
  unfold schedulerOnTimerTick
  split
  · exact .refl _
  dsimp only
  split
  · exact .refl _
  split
  · exact .refl _
  split
  · exact .refl _
  · exact (marked_setState _ rfl).trans (marked_setState _ rfl)

theorem marked_ticks (n : Nat) (c : Core) : Marked c.proc (schedulerOnTimerTick^[n] c).proc := by
  induction n with
  | zero => exact .refl _
  | succ n ih =>
      rw [Function.iterate_succ_apply']
      exact ih.trans (marked_tick _)

theorem marked_demote (gap : Gap) (c : Core) (slot : Fin maxTasks) :
    Marked c.proc (Ticks.demoteCurrent w gap c slot).proc := by
  unfold Ticks.demoteCurrent
  split
  · exact .refl _
  split
  · rename_i cur _ _
    have hwait : Marked c.proc (wait w gap { c with
        proc := procSetState c.proc (c.task.tasks cur).pid .ready }).proc :=
      (marked_setState _ rfl).trans (marked_ticks _ _)
    dsimp only
    split
    · exact hwait
    · exact hwait
  · exact .refl _

theorem marked_returnToKernel (c : Core) :
    Marked c.proc (Ticks.taskReturnToKernelMain w c).proc := by
  unfold Ticks.taskReturnToKernelMain
  split
  · exact .refl _
  rename_i slot _
  have hdem := (marked_ticks (w .kernelFound) c).trans
    (marked_demote (w := w) .currentMarked (wait w .kernelFound c) slot)
  have hwait := hdem.trans (marked_ticks (w .kernelMarked) { Ticks.demoteCurrent w .currentMarked
    (wait w .kernelFound c) slot with
      task := { (Ticks.demoteCurrent w .currentMarked (wait w .kernelFound c) slot).task.setState
        slot .running with currentIndex := some slot } })
  exact hwait.trans (marked_setState _ rfl)

theorem marked_taskReap (c : Core) (pid : Int) : Marked c.proc (Ticks.taskReapPid w c pid).proc := by
  unfold Ticks.taskReapPid
  split
  · exact .refl _
  rename_i slot _
  have hfound := marked_ticks (w .reapFound) c
  have hfreed := hfound.trans (marked_ticks (w .taskFreed) { wait w .reapFound c with
    task := freeTask (wait w .reapFound c).task slot })
  dsimp only
  split
  · exact hfreed.trans (marked_returnToKernel _)
  · exact hfreed

/-! ## The lost process -/

theorem runnable_of_tick {cur next : Fin maxTasks} (hs : nextSwitch c.task = some (cur, next))
    (hlive : procPhase c.proc pid ≠ .dead)
    (hpid : (c.task.tasks cur).pid = pid ∨ (c.task.tasks next).pid = pid) :
    procPhase (schedulerOnTimerTick c).proc pid = .runnable := by
  have hcur : c.task.currentIndex = some cur := by
    unfold nextSwitch at hs
    split at hs
    · cases hs
    · rename_i i hi
      dsimp only at hs
      split at hs
      · cases hs
      · obtain ⟨j, -, heq⟩ := Option.map_eq_some_iff.mp hs
        rw [hi, (Prod.mk.inj heq).1]
  rcases tick_cases c hcur with ⟨hno, -⟩ | ⟨next', hno, -, htick⟩
  · rw [hs] at hno
    cases hno
  rw [hs] at hno
  cases hno
  have hkeeps := countTick_keeps c.task cur
  rw [htick]
  change procPhase (procSetState (procSetState c.proc ((countTick c.task cur).tasks cur).pid .ready)
    ((countTick c.task cur).tasks next).pid .running) pid = .runnable
  rw [(hkeeps cur).2, (hkeeps next).2]
  rcases hpid with hpid | hpid
  · have hold : procPhase (procSetState c.proc (c.task.tasks cur).pid .ready) pid = .runnable := by
      rw [hpid, procPhase_procSetState (by decide), if_pos ⟨rfl, hlive⟩]
      rfl
    exact (marked_setState _ rfl).runnable hold
  · have hlive' : procPhase (procSetState c.proc (c.task.tasks cur).pid .ready) pid ≠ .dead :=
      (marked_setState _ rfl).live hlive
    rw [hpid, procPhase_procSetState (by decide), if_pos ⟨rfl, hlive'⟩]
    rfl

theorem runnable_of_not_spares (hlive : procPhase c.proc pid ≠ .dead) (h : ¬Spares n pid c) :
    procPhase (schedulerOnTimerTick^[n] c).proc pid = .runnable := by
  unfold Spares at h
  push Not at h
  obtain ⟨j, hj, cur, next, hs, hpid⟩ := h
  have hhit : (((schedulerOnTimerTick^[j] c).task.tasks cur).pid = pid ∨
      ((schedulerOnTimerTick^[j] c).task.tasks next).pid = pid) := by
    by_cases hcur : ((schedulerOnTimerTick^[j] c).task.tasks cur).pid = pid
    · exact Or.inl hcur
    · exact Or.inr (hpid hcur)
  have hthen := runnable_of_tick hs ((marked_ticks j c).live hlive) hhit
  obtain ⟨m, rfl⟩ : ∃ m, n = m + (j + 1) := ⟨n - (j + 1), by omega⟩
  rw [Function.iterate_add_apply, Function.iterate_succ_apply']
  exact (marked_ticks m _).runnable hthen

/-- The clean-up leaves a process behind that its ticks do not spare. -/
theorem live_of_not_spares (code : Int) (hlive : procPhase c.proc pid ≠ .dead)
    (h : ¬Spares (w .exited) pid c) :
    procPhase (Ticks.exitAndReap w c pid code).proc pid ≠ .dead := by
  let dying : Core := { c with proc := procExit c.proc pid code }
  have hlive' : procPhase dying.proc pid ≠ .dead := by
    obtain ⟨slot, hfind⟩ := procPhase_ne_dead_iff.mp hlive
    refine procPhase_ne_dead_iff.mpr ⟨slot, ?_⟩
    change (procExit c.proc pid code).findSlotByPid pid = some slot
    rw [find_procExit, hfind]
  have hsame : Spares (w .exited) pid dying ↔ Spares (w .exited) pid c := spares_congr rfl
  have hspares : ¬Spares (w .exited) pid dying := fun hs => h (hsame.mp hs)
  have hrun := runnable_of_not_spares hlive' hspares
  change procPhase (wait w .exited dying).proc pid = .runnable at hrun
  have hrefused : procReapPid (wait w .exited dying).proc pid = none := by
    unfold procReapPid
    split
    · rfl
    rename_i slot hfind
    rw [procPhase_of_find hfind] at hrun
    rw [if_neg]
    intro hz
    rw [hz] at hrun
    cases hrun
  unfold Ticks.exitAndReap
  change procPhase (Ticks.taskReapPid w (wait w .reaped { wait w .exited dying with
    proc := reapProc (wait w .exited dying).proc pid }) pid).proc pid ≠ .dead
  have hkept : reapProc (wait w .exited dying).proc pid = (wait w .exited dying).proc := by
    unfold reapProc
    rw [hrefused]
  rw [hkept]
  have hfinal := ((marked_ticks (w .reaped) (wait w .exited dying)).trans
    (marked_taskReap (w := w) (wait w .reaped (wait w .exited dying)) pid)).runnable hrun
  change procPhase (Ticks.taskReapPid w (wait w .reaped (wait w .exited dying)) pid).proc pid ≠ .dead
  rw [hfinal]
  decide

end SlopOS.Proofs.LostReaps
