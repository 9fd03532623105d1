import SlopOS.Proofs.LaunchStages
import SlopOS.Proofs.LostReaps
import SlopOS.Proofs.ReachableStates
/-!
# Launches that fail among timer ticks

With interrupts enabled in the kernel, a run is a sequence of `clockedStep`s.  As long as
the clean-ups so far have spared their processes, a launch that fails puts everything back
if and only if the ticks of its clean-up spare the process, too.
-/

namespace SlopOS.Proofs.Rollback

open SlopOS.Support SlopOS.Kernel SlopOS.Kernel.Ticks
open SlopOS.Proofs.Tables SlopOS.Proofs.Mail SlopOS.Proofs.Scheduling SlopOS.Proofs.Marks
open SlopOS.Proofs.Timer SlopOS.Proofs.TickedTables SlopOS.Proofs.Entries
open SlopOS.Proofs.TableInvariant SlopOS.Proofs.Loader SlopOS.Proofs.UserPointers
open SlopOS.Proofs.Messages SlopOS.Proofs.Leaving SlopOS.Proofs.Views
open SlopOS.Proofs.Launching SlopOS.Proofs.TickedLaunch SlopOS.Proofs.LaunchStages
open SlopOS.Proofs.StepOutcomes SlopOS.Proofs.Moves SlopOS.Proofs.ReachableStates

/-- In `k'` the suspended process `p` comes back with the registers, image and stack that it
has in `k`. -/
def ResumesAs (k k' : KState) (p : Int) : Prop :=
  ∀ image s, procGetImage k.core.proc p = some image → image.loaded = true →
    image.contextValid = true → slotOf k.core.elf p = some s → 0 < p → ∀ ctx,
      ∃ k'', execResumePid k' p ctx = .entered p k'' ∧
        (∃ dummy, k''.core.ring3.regs = { image.context with espDummy := dummy }) ∧
        ∀ a, Own image a → k''.core.mem a = view k.core image s a

/-- What a failed launch from `k` to `k'` must not have changed. -/
structure RolledBack (k k' : KState) : Prop where
  procs : ∀ p, procEntry k'.core.proc p = procEntry k.core.proc p
  tasks : ∀ p, taskEntry k'.core.task p = taskEntry k.core.task p
  gone : procEntry k'.core.proc k.core.proc.nextPid = none ∧
    taskEntry k'.core.task k.core.proc.nextPid = none
  slots : ∀ p, procPhase k.core.proc p ≠ .dead → slotOf k'.core.elf p = slotOf k.core.elf p
  snapshots : k'.core.elf.userImages = k.core.elf.userImages
  mail : k'.core.ipc = k.core.ipc
  services : k'.services = k.services
  fds : k'.files.fds = k.files.fds
  resumes : ∀ p, ResumesAs k k' p

/-- No tick between `proc_exit` and `proc_reap_pid` switches from or to the process that a
failed launch cleans up. -/
def Spared (w : Schedule) : Launch → Prop
  | .failing pid k => Spares (w .exited) pid k.core
  | _ => True

/-- The clean-up of the launch, if the event is one, spares its process. -/
def SparesLaunch (b : Boot) (t : Clocked) : ClockedEvent → Prop
  | .launch path argv cwd output w =>
    ∀ r, launch b t path argv cwd output w = some r → Spared (t.ticks w) r
  | .plain _ => True

def NoImages (c : Core) : Prop :=
  ∀ q image, procGetImage c.proc q = some image → image.loaded = false

/-- What holds in every state of a run: while interrupts are enabled in the kernel, no
program has run. -/
structure ClockedOk (b : Boot) (t : Clocked) : Prop where
  sys : SysOk b.mach t.sys
  early : t.interrupts = true → t.sys.ctl = .shell →
    Timed t.sys.kernel.core.task ∧ NoImages t.sys.kernel.core

variable {b : Boot} {mach : Machine} {w : Schedule} {on : Prop} {k k' : KState} {c c' : Core}
variable {t t' : Clocked} {r : Launch} {path : CStr} {argv : List CStr} {cwd : NodeId}
variable {output : ConsoleTarget} {α : Type}

/-! ## A launch from a state of a run -/

theorem ClockedOk.clock (h : ClockedOk b t) (hctl : t.sys.ctl = .shell) (w : Schedule) :
    Clock (t.ticks w) (t.interrupts = true) t.sys.kernel.core := by
  refine ⟨h.sys.current, fun hoff => ?_, fun hon => (h.early hon hctl).1⟩
  unfold Clocked.ticks
  rw [if_neg hoff]

theorem ClockedOk.stage {safe : Prop} (h : ClockedOk b t)
    (hsafe : safe → LaunchSafe b.mach t.sys.kernel.files.fs cwd path)
    (hl : launch b t path argv cwd output w = some r) : t.sys.ctl = .shell ∧
      Stage b.mach safe (t.interrupts = true) (t.ticks w) t.sys.kernel r := by
  unfold launch at hl
  cases hctl : t.sys.ctl with
  | user pid caller =>
      rw [hctl] at hl
      cases hl
  | shell =>
      rw [hctl] at hl
      dsimp only at hl
      by_cases hnext : 2 ^ 31 - 1 ≤ t.sys.kernel.core.proc.nextPid
      · rw [if_pos hnext] at hl
        cases hl
      · rw [if_neg hnext] at hl
        have hlt := Int.not_le.mp hnext
        refine ⟨rfl, execRunPath_stage h.sys.base (h.clock hctl w) hlt (fun hs => ?_) hl⟩
        exact hsafe hs

theorem undone_of_finish {safe : Prop} {rc : Int} (hb : Base mach k.core)
    (hstage : Stage mach safe on w k r) (hused : on → 2 ≤ k.core.task.tasksUsed)
    (hspared : Spared w r) (hret : r.finish w = .returned rc k') :
    Undone mach safe on w k.core k'.core ∧ SameRest k k' := by
  cases hstage with
  | notRun undone rest =>
      cases hret
      exact ⟨undone, rest⟩
  | refused undone rest =>
      cases hret
      exact ⟨undone, rest⟩
  | failing carried rest =>
      cases hret
      exact ⟨carried.reaped hb (-1) hused hspared, rest.fds, rest.services⟩
  | entered launched rest => cases hret

/-! ## What has been put back -/

theorem resumesAs_of_undone {p : Int} (h : Undone mach True on w k.core k'.core) :
    ResumesAs k k' p := by
  intro image s himg hl hcv hs hpos ctx
  have hun := h.unchanged
  have hlive := live_of_procGetImage himg
  have himg' : procGetImage k'.core.proc p = some image :=
    (image_of_view (congrFun hun.view p)).trans himg
  have hs' : slotOf k'.core.elf p = some s := (hun.keeps.slots p hlive).trans hs
  obtain ⟨s₁, hs₁, hok⟩ := hun.base.loaded p image himg' hl
  obtain rfl := Option.some.inj (hs₁.symm.trans hs')
  obtain ⟨k'', henter, hres, -, -⟩ :=
    taskRunUserEnter_resume 0 (fun _ => none) ctx hun.base hpos himg' hl hcv hs' hok
  refine ⟨k'', ?_, hres.regs, fun a ha => ?_⟩
  · unfold execResumePid
    rw [himg']
    simp only [hl, hcv, not_true_eq_false, or_false]
    rw [if_neg (by omega), henter]
  · rw [hres.mem, resumedMem_eq_view hok ha]
    exact view_of_memKept (hun.kept True.intro p) himg hl hs ha

theorem rolledBack_of_undone (hb : Base mach k.core)
    (h : Undone mach True on w k.core k'.core) (hrest : SameRest k k') : RolledBack k k' := by
  have hfresh := entries_of_dead hb.synced hb.fresh
  exact {
    procs := fun p => (h.entries p).proc
    tasks := fun p => (h.entries p).task
    gone := ⟨(h.entries _).proc.trans hfresh.1, (h.entries _).task.trans hfresh.2⟩
    slots := h.unchanged.keeps.slots
    snapshots := h.images
    mail := h.ipc
    services := hrest.services
    fds := hrest.fds
    resumes := fun p => resumesAs_of_undone h }

theorem procEntry_ne_none {p : Int} (h : procPhase c.proc p ≠ .dead) :
    procEntry c.proc p ≠ none := by
  obtain ⟨i, hi⟩ := procPhase_ne_dead_iff.mp h
  unfold procEntry
  rw [hi]
  exact Option.some_ne_none _

/-- A launch whose clean-up does not spare its process leaves it in the table. -/
theorem not_rolledBack {safe : Prop} {rc : Int} (hstage : Stage mach safe on w k r)
    (hspared : ¬Spared w r) (hret : r.finish w = .returned rc k') : ¬RolledBack k k' := by
  cases hstage with
  | notRun undone rest => exact absurd True.intro hspared
  | refused undone rest => exact absurd True.intro hspared
  | entered launched rest => exact absurd True.intro hspared
  | @failing pid k₁ carried rest =>
      cases hret
      have hlive : procPhase k₁.core.proc pid ≠ .dead := by
        rw [carried.newborn.phase]
        decide
      have hlost := LostReaps.live_of_not_spares (-1) hlive hspared
      intro hback
      have hgone := hback.gone.1
      rw [← carried.newborn.pid_eq] at hgone
      exact procEntry_ne_none hlost hgone

/-! ## Every run -/

theorem noImages_of_undone {safe : Prop} (h : Undone mach safe on w c c') (hno : NoImages c) :
    NoImages c' := by
  intro q image himg
  rw [image_of_view (congrFun h.unchanged.view q)] at himg
  exact hno q image himg

theorem clockedOk_launch (h : ClockedOk b t) (hspared : SparesLaunch b t (.launch path argv cwd
      output w)) (hstep : clockedStep b t (.launch path argv cwd output w) = some t') :
    ClockedOk b t' := by
  obtain ⟨r, hl, rfl⟩ := Option.map_eq_some_iff.mp hstep
  obtain ⟨hctl, hstage⟩ := @ClockedOk.stage _ _ _ _ _ _ _ _ False h (fun hno => hno.elim) hl
  have hearly : ∀ {x : Bool}, (t.interrupts && x) = true → t.interrupts = true :=
    fun hx => (Bool.and_eq_true_iff.mp hx).1
  cases hret : r.finish (t.ticks w) with
  | returned rc k' =>
      obtain ⟨hundone, -⟩ := undone_of_finish h.sys.base hstage
        (fun hon => (h.early hon hctl).1.used) (hspared r hl) hret
      refine ⟨⟨hundone.unchanged.base, hundone.unchanged.current, True.intro⟩, fun hon _ => ?_⟩
      have hon' := hearly hon
      exact ⟨hundone.clock.timed hon', noImages_of_undone hundone (h.early hon' hctl).2⟩
  | entered pid k' =>
      cases hstage with
      | notRun undone rest => cases hret
      | refused undone rest => cases hret
      | failing carried rest => cases hret
      | entered launched rest =>
          cases hret
          refine ⟨⟨launched.base, launched.current, launched.running, ?_⟩, fun _ hshell => ?_⟩
          · intro i hi
            cases hi
          · cases hshell

/-- Without images the other commands of the shell leave the tables alone. -/
theorem core_of_shellStep {e : Event} {s' : Sys} (hno : NoImages k.core)
    (hlaunch : ∀ path argv cwd output, e ≠ .launch path argv cwd output)
    (hstep : shellStep b k e = some s') :
    s'.kernel.core = k.core ∨ s'.kernel.core = schedulerOnTimerTick k.core := by
  cases shellStep_cases hstep with
  | launch hnext hrun => exact absurd rfl (hlaunch _ _ _ _)
  | auto hfind himage henter =>
      obtain ⟨-, -, image, himg, hloaded, -⟩ := resumable_spec (Fin.find?_eq_some_iff.mp hfind).1
      rw [hno _ image himg] at hloaded
      cases hloaded
  | resume himage hpos hloaded hvalid henter =>
      rw [hno _ _ himage] at hloaded
      cases hloaded
  | idle hnone => exact Or.inl rfl
  | kept pid cwd output => exact Or.inl rfl
  | files hfiles => exact Or.inl rfl
  | tick => exact Or.inr rfl

theorem clockedOk_plain {e : Event} (h : ClockedOk b t)
    (hstep : clockedStep b t (.plain e) = some t') : ClockedOk b t' := by
  unfold clockedStep at hstep
  dsimp only at hstep
  split at hstep
  swap
  · cases hstep
  rename_i hadmits
  obtain ⟨s', hs', rfl⟩ := Option.map_eq_some_iff.mp hstep
  refine ⟨(step_ok h.sys hs').ok, fun hon hshell => ?_⟩
  obtain ⟨hinter, hkeeps⟩ := Bool.and_eq_true_iff.mp hon
  cases hctl : t.sys.ctl with
  | user pid caller =>
      rw [hctl, show s'.ctl = .shell from hshell] at hkeeps
      cases hkeeps
  | shell =>
      obtain ⟨htimed, hno⟩ := h.early hinter hctl
      have hnotLaunch : ∀ path argv cwd output, e ≠ .launch path argv cwd output := by
        rintro path argv cwd output rfl
        cases hadmits
      unfold step at hs'
      rw [hctl] at hs'
      change Timed s'.kernel.core.task ∧ NoImages s'.kernel.core
      rcases core_of_shellStep hno hnotLaunch hs' with hcore | hcore
      · rw [hcore]
        exact ⟨htimed, hno⟩
      · obtain ⟨hunmark, htimed'⟩ := ticks_spec 1 htimed (follows_of_synced h.sys.base.synced)
        rw [hcore]
        refine ⟨htimed', fun q image himg => hno q image ?_⟩
        rw [← image_of_unmark hunmark]
        exact himg

theorem clockedOk_step {e : ClockedEvent} (h : ClockedOk b t) (hspared : SparesLaunch b t e)
    (hstep : clockedStep b t e = some t') : ClockedOk b t' := by
  cases e with
  | launch path argv cwd output w => exact clockedOk_launch h hspared hstep
  | plain e => exact clockedOk_plain h hstep

theorem tables_spawn (name : Option CStr) (ht : c'.task = c.task) (hp : c'.proc = c.proc) :
    (((taskSpawnKernel c' name 0).map Prod.snd).getD c').task =
        (((taskSpawnKernel c name 0).map Prod.snd).getD c).task ∧
      (((taskSpawnKernel c' name 0).map Prod.snd).getD c').proc =
        (((taskSpawnKernel c name 0).map Prod.snd).getD c).proc := by
  unfold taskSpawnKernel taskSpawn
  rw [ht, hp]
  split
  · exact ⟨ht, hp⟩
  split
  · exact ⟨ht, hp⟩
  · exact ⟨rfl, rfl⟩

theorem timed_coreInit (mach : Machine) : Timed (coreInit mach).task := by
  have honly : ∀ i, ((coreInit demoBoot.mach).task.tasks i).state = .running →
      (coreInit demoBoot.mach).task.currentIndex = some i := by decide +kernel
  have hsame : (coreInit mach).task = (coreInit demoBoot.mach).task := by
    obtain ⟨ht, hp⟩ := @tables_spawn (bootCore demoBoot.mach) (bootCore mach)
      (some (cstr "shell-vga")) rfl rfl
    have hboth := tables_spawn (some (cstr "shell-serial")) ht hp
    exact hboth.1
  rw [hsame]
  exact ⟨⟨0, by decide +kernel, by decide +kernel⟩, honly,
    ⟨0, by decide +kernel, by decide +kernel⟩, by decide +kernel, fun _ _ _ => by decide +kernel⟩

theorem clockedOk_kmain {s : Sys} (h : kmain b = some s) : ClockedOk b ⟨s, true⟩ := by
  refine ⟨sysOk_kmain h, fun _ _ => ?_⟩
  obtain ⟨fs, -, rfl⟩ := Option.map_eq_some_iff.mp h
  exact ⟨timed_coreInit b.mach, (booting_coreInit b.mach).loaded⟩

/-- In a run whose clean-ups have spared their processes so far, a launch that fails without
a load bound that wraps is rolled back exactly when its clean-up spares the process. -/
theorem launch_rolledBack_iff {s₀ : Sys} {es : List ClockedEvent} {rc : Int}
    (hboot : kmain b = some s₀) (hrun : Runs.run (clockedStep b) ⟨s₀, true⟩ es = some t)
    (hspared : Runs.AllSteps (clockedStep b) (SparesLaunch b) ⟨s₀, true⟩ es)
    (hl : launch b t path argv cwd output w = some r)
    (hsafe : LaunchSafe b.mach t.sys.kernel.files.fs cwd path)
    (hret : r.finish (t.ticks w) = .returned rc k') :
    RolledBack t.sys.kernel k' ↔ Spared (t.ticks w) r := by
  have hok : ClockedOk b t := Runs.invariant (I := ClockedOk b)
    (fun _ _ _ hcond h hstep => clockedOk_step h hcond hstep) hspared hrun (clockedOk_kmain hboot)
  obtain ⟨hctl, hstage⟩ := @ClockedOk.stage _ _ _ _ _ _ _ _ True hok (fun _ => hsafe) hl
  constructor
  · intro hback
    by_contra hnot
    exact not_rolledBack hstage hnot hret hback
  · intro hspares
    obtain ⟨hundone, hrest⟩ := undone_of_finish hok.sys.base hstage
      (fun hon => (hok.early hon hctl).1.used) hspares hret
    exact rolledBack_of_undone hok.sys.base hundone hrest

/-! ## An argument that does not fit the stack -/

def longArgs : List CStr := [List.replicate 4040 (chr 'x')]

/-- The first state of the system and a failing launch from it. -/
def longLaunch (w : Schedule) : Option (Sys × Launch) :=
  (kmain demoBoot).bind fun s =>
    (launch demoBoot ⟨s, true⟩ demoPath longArgs 0 .vga w).map fun r => (s, r)

/-- What a call that has returned has left of process 3. -/
def leftOver : Entered → Option (Int × ProcState)
  | .returned rc k => some (rc, procStateOf k.core.proc 3)
  | .entered _ _ => none

theorem longLaunch_spec {f : Sys × Launch → α} {y : α} (h : (longLaunch w).map f = some y) :
    ∃ s r, kmain demoBoot = some s ∧ launch demoBoot ⟨s, true⟩ demoPath longArgs 0 .vga w = some r ∧
      f (s, r) = y := by
  obtain ⟨⟨s, r⟩, hpair, hy⟩ := Option.map_eq_some_iff.mp h
  obtain ⟨s', hboot, hmap⟩ := Option.bind_eq_some_iff.mp hpair
  obtain ⟨r', hl, heq⟩ := Option.map_eq_some_iff.mp hmap
  cases heq
  exact ⟨s, r, hboot, hl, hy⟩

theorem returned_of_leftOver {e : Entered} {rc : Int} {st : ProcState}
    (h : leftOver e = some (rc, st)) :
    ∃ k', e = .returned rc k' ∧ procStateOf k'.core.proc 3 = st := by
  cases e with
  | returned rc' k' =>
      cases h
      exact ⟨k', rfl, rfl⟩
  | entered pid k' => cases h

def earlyTicks : Schedule := fun gap => if gap = .exited then 0 else 2

theorem launch_rolledBack_demo : ∃ s r k', kmain demoBoot = some s ∧
    launch demoBoot ⟨s, true⟩ demoPath longArgs 0 .vga earlyTicks = some r ∧
    r.finish earlyTicks = .returned (-1) k' ∧ RolledBack s.kernel k' := by
  have hdone : (longLaunch earlyTicks).map (fun x => leftOver (x.2.finish earlyTicks)) =
      some (some (-1, .unused)) := by decide +kernel
  obtain ⟨s, r, hboot, hl, hleft⟩ := longLaunch_spec hdone
  obtain ⟨k', hret, -⟩ := returned_of_leftOver hleft
  have hspared : Spared earlyTicks r := by
    cases r with
    | failing pid k =>
        intro j hj
        exact absurd hj (Nat.not_lt_zero j)
    | notRun rc k => trivial
    | refused k => trivial
    | entered pid k => trivial
  have hrun : Runs.run (clockedStep demoBoot) ⟨s, true⟩ [] = some ⟨s, true⟩ := rfl
  exact ⟨s, r, k', hboot, hl, hret, (launch_rolledBack_iff hboot hrun trivial hl
    (demoLaunch_safe _ 0) hret).mpr hspared⟩

/-- The new process uses up its slice between `proc_exit` and `proc_reap_pid`. -/
def lateTicks : Schedule := fun gap =>
  if gap = .procSet then 3 else if gap = .exited then 1 else 0

/-- The launch fails, and its process stays in the table as a `READY` one. -/
theorem launch_leavesProcess : ∃ s r k', kmain demoBoot = some s ∧
    launch demoBoot ⟨s, true⟩ demoPath longArgs 0 .vga lateTicks = some r ∧
    r.finish lateTicks = .returned (-1) k' ∧ s.kernel.core.proc.nextPid = 3 ∧
    procStateOf k'.core.proc 3 = .ready ∧ ¬RolledBack s.kernel k' := by
  have hdone : (longLaunch lateTicks).map (fun x =>
      (x.1.kernel.core.proc.nextPid, leftOver (x.2.finish lateTicks))) =
      some (3, some (-1, .ready)) := by decide +kernel
  obtain ⟨s, r, hboot, hl, hboth⟩ := longLaunch_spec hdone
  obtain ⟨hnext, hleft⟩ := Prod.mk.inj hboth
  obtain ⟨k', hret, hstate⟩ := returned_of_leftOver hleft
  refine ⟨s, r, k', hboot, hl, hret, hnext, hstate, fun hback => ?_⟩
  have hgone := hback.gone.1
  have hnext' : s.kernel.core.proc.nextPid = 3 := hnext
  rw [hnext'] at hgone
  refine procEntry_ne_none (p := 3) (fun hdead => ?_) hgone
  unfold procPhase at hdead
  rw [hstate] at hdead
  cases hdead

end SlopOS.Proofs.Rollback
