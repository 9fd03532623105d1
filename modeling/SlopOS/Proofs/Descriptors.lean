import Mathlib.Data.Fintype.Card
import SlopOS.Proofs.ReachableStates
/-!
# Owners of descriptors

A descriptor is given to a live process and is released by `ksys_close` alone:
no path by which a process dies looks at the table.  Used slots belong to live
processes as long as every process closes what it has open before it exits.
-/

namespace SlopOS.Proofs.Descriptors

open SlopOS.Support SlopOS.Kernel
open SlopOS.Proofs.Tables SlopOS.Proofs.Mail SlopOS.Proofs.Scheduling
open SlopOS.Proofs.TableInvariant SlopOS.Proofs.Messages SlopOS.Proofs.Leaving
open SlopOS.Proofs.FileOutcomes SlopOS.Proofs.Views SlopOS.Proofs.Launching SlopOS.Proofs.Moves SlopOS.Proofs.ReachableStates

def OwnersLive (k : KState) : Prop :=
  ∀ i, (k.files.fds i).used = true → procStateOf k.core.proc (k.files.fds i).pid ≠ .unused

def heldSlots (k : KState) : Finset (Fin fdMax) :=
  Finset.univ.filter fun i => (k.files.fds i).used = true ∧
    procStateOf k.core.proc (k.files.fds i).pid ≠ .unused

def isExitNumber (num : U32) : Prop := num = sysExit ∨ num = sysRetKernel

instance (num : U32) : Decidable (isExitNumber num) := inferInstanceAs (Decidable (_ ∨ _))

/-- A process that exits in this step has no descriptor open. -/
def ExitsClean (s : Sys) (e : Event) : Prop :=
  isCall e = true → isExitNumber s.kernel.core.ring3.regs.eax →
    ∀ i, (s.kernel.files.fds i).used = true →
      runner s.ctl ≠ some (s.kernel.files.fds i).pid

instance (s : Sys) (e : Event) : Decidable (ExitsClean s e) :=
  inferInstanceAs (Decidable (_ → _ → ∀ _, _ → _))

variable {b : Boot} {mach : Machine} {safe : Prop} {c c' : Core} {ctl ctl' : Ctl} {e : Event}
variable {p : Int} {s s' : Sys} {k : KState}

theorem live_move (hlive : procPhase c.proc p ≠ .dead) (hm : Move mach safe c ctl e c' ctl') :
    procPhase c'.proc p ≠ .dead ∨
      (e = .syscall ∧ isExitNumber c.ring3.regs.eax ∧ ∃ caller, ctl = .user p caller) := by
  have hupdate : ∀ {q v}, procView c' = Function.update (procView c) q v →
      (q = p → v.phase ≠ .dead) → procPhase c'.proc p ≠ .dead := by
    intro q v hview hv
    change (procView c' p).phase ≠ .dead
    rw [hview, Function.update_apply]
    split
    · rename_i hp
      exact hv hp.symm
    · exact hlive
  cases hm with
  | quiet noCall view =>
      left
      rwa [phase_of_view (congrFun view p)]
  | work silent view =>
      left
      rwa [phase_of_view (congrFun view p)]
  | received number result full view =>
      exact Or.inl (hupdate view fun hq => by rw [hq]; exact hlive)
  | queued number result target live notReceiving empty view =>
      exact Or.inl (hupdate view fun _ => live)
  | @delivered pid dst caller ptr image sl c₁ d c' number result target send delivered core =>
      have hsame : procView c' = procView d := by
        rw [core]
        rfl
      exact Or.inl (hupdate (hsame.trans (procView_delivered delivered)) fun _ => nofun)
  | yielded number stop => exact Or.inl (hupdate (procView_stopped stop.stopped) fun _ => nofun)
  | blocked number empty within waits stop =>
      have hview := procView_stopped stop.stopped
      rw [procView_blockedAt waits, Function.update_idem, Function.update_self] at hview
      exact Or.inl (hupdate hview fun _ => nofun)
  | @exited pid caller r c' number gone =>
      by_cases hp : p = pid
      · rw [hp]
        exact Or.inr ⟨rfl, number, caller, rfl⟩
      · left
        rw [gone.phase, if_neg hp]
        exact hlive
  | @launched pid e image c' noCall launched =>
      left
      by_cases hp : p = pid
      · rw [hp, launched.phase]
        decide
      · rwa [phase_of_view (launched.others p hp)]
  | resumed how found loaded valid slot fits resumed =>
      exact Or.inl (hupdate (procView_resumed resumed) fun _ => nofun)

theorem ownersLive_step (hs : SysOk b.mach s ∧ OwnersLive s.kernel) (hclean : ExitsClean s e)
    (hstep : step b s e = some s') : SysOk b.mach s' ∧ OwnersLive s'.kernel := by
  have hok := step_ok hs.1 hstep
  refine ⟨hok.ok, fun i hused => ?_⟩
  rw [ne_eq, ← procPhase_eq_dead_iff_unused]
  rcases hok.fds i hused with ⟨hold, hpid⟩ | ⟨-, hctl, caller, hown⟩
  · have hlive := hs.2 i hold
    rw [ne_eq, ← procPhase_eq_dead_iff_unused] at hlive
    rw [hpid]
    rcases live_move hlive hok.move with h | ⟨rfl, hexit, caller, hctl⟩
    · exact h
    · have hne := hclean rfl hexit i hold
      rw [hctl] at hne
      exact absurd rfl hne
  · have hrun := hok.ok.ctl
    rw [hctl, hown] at hrun
    exact hrun.1.live

/-! ## Running out of descriptors -/

theorem heldSlots_full (h : OwnersLive k) (hnone : fdAllocSlot k.files.fds = none) :
    13 ≤ (heldSlots k).card := by
  have hused : ∀ i : Fin fdMax, 3 ≤ i.val → (k.files.fds i).used = true := by
    intro i hi
    have hfail := Fin.find?_eq_none_iff.mp hnone i
    simpa [hi] using hfail
  have hsub : (Finset.univ.filter fun i : Fin fdMax => 3 ≤ i.val) ⊆ heldSlots k := by
    intro i hi
    rw [Finset.mem_filter] at hi
    unfold heldSlots
    rw [Finset.mem_filter]
    exact ⟨hi.1, hused i hi.2, h i (hused i hi.2)⟩
  have hcard : (Finset.univ.filter fun i : Fin fdMax => 3 ≤ i.val).card = 13 := by decide
  rw [← hcard]
  exact Finset.card_le_card hsub

/-- `ksys_open` reports a full table only if there is no free slot. -/
theorem fdAllocSlot_of_nfile {path flags : U32} {k' : KState}
    (h : (ksysOpen mach k path flags).done = some (errNfile, k')) :
    fdAllocSlot k.files.fds = none := by
  generalize hcode : errNfile = code at h
  cases ksysOpen_cases h with
  | refused hrefused => rcases hrefused with rfl | rfl <;> exact absurd hcode (by decide)
  | unmade => exact absurd hcode (by decide)
  | unread => exact absurd hcode (by decide)
  | noSlot _ _ _ hslot => exact hslot
  | opened _ _ _ _ hopen =>
      have hneg : errNfile < 0 := by decide
      cases hopen with
      | noRoom => exact absurd hcode (by decide)
      | buffered => omega
      | plain => omega

/-! ## Every run -/

/-- Used slots have live owners, and opening does not fail for want of a slot while
live processes hold fewer than 13. -/
def DescriptorsLive (mach : Machine) (k : KState) : Prop :=
  OwnersLive k ∧ ((heldSlots k).card < 13 →
    ∀ path flags k', (ksysOpen mach k path flags).done ≠ some (errNfile, k'))

/-- Every run in which processes exit without open descriptors. -/
theorem descriptorsLive_run {s₀ : Sys} {es : List Event} (hboot : kmain b = some s₀)
    (hok : Runs.AllSteps (step b) ExitsClean s₀ es) (hrun : Runs.run (step b) s₀ es = some s) :
    DescriptorsLive b.mach s.kernel := by
  have hlive : SysOk b.mach s ∧ OwnersLive s.kernel :=
    Runs.invariant (I := fun s => SysOk b.mach s ∧ OwnersLive s.kernel)
      (fun _ _ _ hclean hs hstep => ownersLive_step hs hclean hstep) hok hrun
      ⟨sysOk_kmain hboot, fun i hused => by simp [(kmain_spec hboot).2.2 i] at hused⟩
  refine ⟨hlive.2, fun hfew path flags k' hopen => ?_⟩
  have hfull := heldSlots_full hlive.2 (fdAllocSlot_of_nfile hopen)
  omega

def demoFile : ByteMem.Mem := fun a =>
  (cstr "/docs/readme.txt").getD (a - 0x00300100).toNat 0

def demoTidy : List Event :=
  demoLaunch :: demoCall sysOpen 0x00300100 demoFile ++ demoCall sysClose 3 (fun _ => 0) ++
    demoCall sysExit 0 (fun _ => 0)

theorem descriptorsLive_demo : ∃ s₀ s, kmain demoBoot = some s₀ ∧
    Runs.run (step demoBoot) s₀ demoTidy = some s ∧ DescriptorsLive demoBoot.mach s.kernel := by
  have hrun : (demoRun demoTidy).map Sys.ctl = some .shell := by decide +kernel
  obtain ⟨s, hs, -⟩ := exists_of_demoRun hrun
  obtain ⟨s₀, hboot, hrun⟩ := Option.bind_eq_some_iff.mp hs
  have hok : (kmain demoBoot).all fun s₀ =>
      decide (Runs.AllSteps (step demoBoot) ExitsClean s₀ demoTidy) := by decide +kernel
  rw [hboot, Option.all_some, decide_eq_true_eq] at hok
  exact ⟨s₀, s, hboot, hrun, descriptorsLive_run hboot hok hrun⟩

def demoUntidy : List Event :=
  demoLaunch :: demoCall sysOpen 0x00300100 demoFile ++ demoCall sysExit 0 (fun _ => 0)

/-- The descriptor outlives the process that opened it. -/
theorem not_descriptorsLive_exit : ¬∀ b s, Reachable b s → s.ctl = .shell →
    DescriptorsLive b.mach s.kernel := by
  intro hall
  have hrun : (demoRun demoUntidy).map (fun s => (s.ctl, (s.kernel.files.fds 3).used,
      procStateOf s.kernel.core.proc (s.kernel.files.fds 3).pid)) =
      some (.shell, true, .unused) := by decide +kernel
  obtain ⟨s, hs, hview⟩ := exists_of_demoRun hrun
  simp only [Prod.mk.injEq] at hview
  obtain ⟨hctl, hused, hdead⟩ := hview
  exact (hall demoBoot s (reachable_of_demoRun hs) hctl).1 3 hused hdead

end SlopOS.Proofs.Descriptors
