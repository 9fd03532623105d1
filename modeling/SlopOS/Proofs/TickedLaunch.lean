import SlopOS.Proofs.Entries
import SlopOS.Proofs.Launching
import SlopOS.Proofs.TickedTables
/-!
# Launching a program among timer ticks

The stages of `Launching`, with ticks between them.  `Carried` holds of the new
process from its spawn on; a launch that fails is `Undone` if the ticks of its
clean-up spare the process, and leaves it in the process table if they do not.
-/

namespace SlopOS.Proofs.TickedLaunch

open SlopOS.Support SlopOS.Kernel SlopOS.Kernel.Ticks
open SlopOS.Proofs.Tables SlopOS.Proofs.Mail SlopOS.Proofs.Scheduling SlopOS.Proofs.Marks
open SlopOS.Proofs.Timer SlopOS.Proofs.TickedTables SlopOS.Proofs.Entries
open SlopOS.Proofs.TableInvariant SlopOS.Proofs.Loader SlopOS.Proofs.UserPointers
open SlopOS.Proofs.Views SlopOS.Proofs.Launching
open SlopOS.Proofs.ElfBounds (PassesChecks NoWrap)

/-- `Newborn`, with all that is as before in the entries of the others. -/
structure Carried (mach : Machine) (safe on : Prop) (w : Schedule) (c : Core) (pid : Int)
    (c' : Core) : Prop where
  newborn : Newborn mach safe c pid c'
  clock : Clock w on c'
  images : c'.elf.userImages = c.elf.userImages
  entries : ∀ q, q ≠ pid → SameEntries c c' q
  used : c'.task.tasksUsed = c.task.tasksUsed + 1

/-- Nothing has happened to any process, nor to its entries. -/
structure Undone (mach : Machine) (safe on : Prop) (w : Schedule) (c c' : Core) : Prop where
  unchanged : Unchanged mach safe c c'
  clock : Clock w on c'
  images : c'.elf.userImages = c.elf.userImages
  ipc : c'.ipc = c.ipc
  entries : ∀ q, SameEntries c c' q

variable {w : Schedule} {on safe : Prop} {mach : Machine} {c c' c'' d : Core} {pid : Int}
variable {image : ProcImage} {s : Fin elfProcSlots}

/-! ## Ticks between the stages -/

theorem Carried.unmark (h : Carried mach safe on w c pid c') (hb : Base mach c)
    (he : unmark d = Marks.unmark c') (hclock : Clock w on d) : Carried mach safe on w c pid d := by
  have hquiet := repaint_of_unmark he h.newborn.base.synced
  refine ⟨h.newborn.quiet hb hquiet hclock.current, hclock, ?_, fun q hq => ?_, ?_⟩
  · rw [elf_of_unmark he]
    exact h.images
  · exact (h.entries q hq).trans (sameEntries_of_unmark he)
  · exact (used_of_unmark (task_of_unmark he)).trans h.used

theorem Carried.wait (h : Carried mach safe on w c pid c') (hb : Base mach c) (gap : Gap) :
    Carried mach safe on w c pid (wait w gap c') := by
  obtain ⟨he, hclock⟩ := wait_clock gap h.clock h.newborn.base.synced
  exact h.unmark hb he hclock

theorem undone_of_unmark (hb : Base mach c) (he : unmark d = unmark c) (hclock : Clock w on d) :
    Undone mach safe on w c d := by
  have hquiet := repaint_of_unmark he hb.synced
  exact ⟨unchanged_of_quiet hb hclock.current hquiet, hclock, by rw [elf_of_unmark he], hquiet.ipc,
    fun q => sameEntries_of_unmark he⟩

/-! ## The stages -/

theorem newborn_from (hs : Synced c) (he : unmark c' = unmark c)
    (h : Newborn mach safe c' pid c'') : Newborn mach safe c pid c'' := by
  have hquiet := repaint_of_unmark he hs
  refine ⟨?_, ?_, h.ipc.trans hquiet.ipc, fun q hq => ?_, h.phase, fun q hq => ?_, fun hs' q => ?_,
    h.base, h.current⟩
  · rw [← hquiet.nextPid]
    exact h.pid_eq
  · rw [← hquiet.nextPid]
    exact h.next
  · exact (h.others q hq).trans (congrFun (procView_quiet hquiet) q)
  · rw [← hquiet.phase] at hq
    exact (h.slots q hq).trans (by rw [hquiet.elf])
  · exact (memKept_of_same (by rw [hquiet.elf]) hquiet.mem).trans (h.kept hs' q) (hquiet.image q)
      fun _ => by rw [hquiet.elf]

theorem carried_spawn {name : Option CStr} {ppid : Int} (hb : Base mach c) (hclock : Clock w on c)
    (hnext : c.proc.nextPid < 2 ^ 31 - 1)
    (hspawn : Ticks.taskSpawnUser w c name ppid = (some pid, d)) :
    Carried mach safe on w c pid d ∧ d.elf = c.elf ∧ procGetImage d.proc pid = some emptyImage := by
  obtain ⟨c₁, d₁, he, hclock₁, hplain, hd, hclock'⟩ : ∃ c₁ d₁, unmark c₁ = unmark c ∧
      CurrentOk c₁ ∧ Kernel.taskSpawnUser c₁ name ppid = some (pid, d₁) ∧ unmark d = unmark d₁ ∧
      (on → Timed d.task) := by
    by_cases hon : on
    · obtain ⟨c₁, d₁, he, ht₁, hplain, hd, htd⟩ :=
        taskSpawnUser_ticks (hclock.timed hon) hb.synced hb.fresh hspawn
      exact ⟨c₁, d₁, he, currentOk_of_timed ht₁ (synced_of_unmark he hb.synced), hplain, hd,
        fun _ => htd⟩
    · obtain rfl := hclock.off hon
      rw [TickFree.taskSpawnUser_noTicks] at hspawn
      split at hspawn
      · cases hspawn
      · rename_i hplain
        cases hspawn
        exact ⟨c, d, rfl, hclock.current, hplain, rfl, fun h => absurd h hon⟩
  have hquiet := repaint_of_unmark he hb.synced
  have hb₁ := hb.quiet hquiet
  have hborn := taskSpawn_spec hb₁.synced hb₁.zombie hb₁.fresh hplain
  have hnew : Newborn mach safe c₁ pid d₁ :=
    newborn_of_born hb₁ hclock₁ (by rw [hquiet.nextPid]; exact hnext) hborn
  have hfrom := newborn_from hb.synced he hnew
  have hquiet' := repaint_of_unmark hd hnew.base.synced
  have hcur : CurrentOk d := by
    by_cases hon : on
    · exact currentOk_of_timed (hclock' hon) hquiet'.synced
    · obtain rfl := hclock.off hon
      obtain ⟨i, p, hi, hfind, hrun⟩ := hclock.current
      have hne : p ≠ pid := by
        rintro rfl
        rw [hfrom.fresh hb] at hrun
        cases hrun
      refine ⟨i, p, ?_, ?_, ?_⟩
      · rw [TickFree.taskSpawnUser_noTicks] at hspawn
        split at hspawn
        · cases hspawn
        · rename_i hplain'
          cases hspawn
          exact (taskSpawn_spec hb.synced hb.zombie hb.fresh hplain').current.trans hi
      · rw [find_of_unmark hd, hborn.find p hne, find_of_unmark he, hfind]
      · rw [phase_of_unmark hd, hborn.phase, if_neg hne, phase_of_unmark he, hrun]
  have hused : d₁.task.tasksUsed = c₁.task.tasksUsed + 1 := by
    unfold Kernel.taskSpawnUser taskSpawn at hplain
    split at hplain
    · cases hplain
    split at hplain
    · cases hplain
    · cases hplain
      rfl
  refine ⟨⟨hfrom.quiet hb hquiet' hcur, ⟨hcur, hclock.off, hclock'⟩, ?_, fun q hq => ?_, ?_⟩,
    ?_, ?_⟩
  · rw [elf_of_unmark hd, hborn.elf, elf_of_unmark he]
  · exact ((sameEntries_of_unmark he).trans (sameEntries_spawn hb₁.synced hb₁.zombie hb₁.fresh
      hplain hq)).trans (sameEntries_of_unmark hd)
  · rw [used_of_unmark (task_of_unmark hd), hused, used_of_unmark (task_of_unmark he)]
  · rw [elf_of_unmark hd, hborn.elf, elf_of_unmark he]
  · rw [image_of_unmark hd, hborn.image, if_pos rfl]

theorem Carried.bind (image : ProcImage) (h : Carried mach safe on w c pid c') (hb : Base mach c)
    (himage : image.loaded = true → ∃ s, slotOf c'.elf pid = some s ∧ ImageOk mach image s) :
    Carried mach safe on w c pid { c' with proc := procBindImage c'.proc pid image } := by
  have hnew := h.newborn.bind image hb himage
  exact ⟨hnew, ⟨hnew.current, h.clock.off, h.clock.timed⟩, h.images,
    fun q hq => (h.entries q hq).trans (sameEntries_bind image hq), h.used⟩

theorem Carried.sameTables (h : Carried mach safe on w c pid c')
    (hnew : Newborn mach safe c pid d) (ht : d.task = c'.task) (hp : d.proc = c'.proc)
    (hi : d.elf.userImages = c'.elf.userImages) : Carried mach safe on w c pid d := by
  refine ⟨hnew, ⟨hnew.current, h.clock.off, fun hon => ?_⟩, hi.trans h.images, fun q hq => ?_, ?_⟩
  · rw [ht]
    exact h.clock.timed hon
  · exact (h.entries q hq).trans (sameEntries_of_tables ht hp)
  · rw [ht]
    exact h.used

theorem Carried.load {plan : ExecLoadPlan} {r : LoadResult} (h : Carried mach safe on w c pid c')
    (hb : Base mach c) (hl : Loaded mach c' pid plan r)
    (hwin : safe → ∀ seg ∈ plan.segments, elfUserImageBase.toNat ≤ seg.vaddr.toNat ∧
      seg.vaddr.toNat + seg.fileSize.toNat ≤ elfUserImageBase.toNat + elfUserImageMax) :
    Carried mach safe on w c pid r.core :=
  h.sameTables (h.newborn.load hb hl hwin) hl.task hl.proc hl.images

/-! ## The clean-up -/

/-- The clean-up of a failed launch, where its ticks spare the process. -/
theorem Carried.reaped (h : Carried mach safe on w c pid c') (hb : Base mach c) (code : Int)
    (hused : on → 2 ≤ c.task.tasksUsed) (hspares : Spares (w .exited) pid c') :
    Undone mach safe on w c (Ticks.exitAndReap w c' pid code) := by
  have hnew := h.newborn
  have hpos := hnew.pos hb
  have hpid : pid ≠ 0 := by omega
  have hlive : procPhase c'.proc pid ≠ .dead := by
    rw [hnew.phase]
    decide
  obtain ⟨slot, hfind⟩ : ∃ slot, c'.task.findSlotByPid pid = some slot := by
    rw [← taskPhase_ne_dead_iff, hnew.base.synced.sync]
    exact hlive
  have hused' : on → 3 ≤ c'.task.tasksUsed := by
    intro hon
    have hold := hused hon
    have hstep := h.used
    omega
  obtain ⟨he, hclock⟩ := exitAndReap_clock code h.clock hnew.base.synced hnew.base.kernel hlive hpid
    hused' hspares
  have hplain := exitAndReap_unmark code hnew.base.synced hnew.base.kernel hlive hpid hfind
  have hgone := removed_gone code hnew.base.synced hlive hfind
  have hunchanged := hnew.reaped hb code
  have hquiet := repaint_of_unmark he hunchanged.base.synced
  have hall := he.trans hplain
  have hquiet' := repaint_of_unmark hall hgone.synced
  refine ⟨hunchanged.quiet hquiet hclock.current, hclock, ?_, ?_, fun q => ?_⟩
  · rw [hquiet'.elf, hgone.elf]
    exact h.images
  · rw [hquiet'.ipc, hgone.ipc]
    exact hnew.ipc
  · by_cases hq : q = pid
    · have hdead : procPhase (Ticks.exitAndReap w c' pid code).proc q = .dead := by
        rw [hquiet'.phase, hgone.phase, if_pos hq]
      have hbefore := entries_of_dead hb.synced (hq ▸ hnew.fresh hb)
      have hafter := entries_of_dead hquiet'.synced hdead
      exact ⟨hafter.1.trans hbefore.1.symm, hafter.2.trans hbefore.2.symm⟩
    · exact ((h.entries q hq).trans (sameEntries_removed code hnew.base.synced hlive hfind
        hq)).trans (sameEntries_of_unmark hall)

end SlopOS.Proofs.TickedLaunch
