import SlopOS.Proofs.TickedLaunch
/-!
# Where a launch among ticks can stand

`exec_run_path` goes through the stages of `TickedLaunch` one after the other.
`Stage` says what is known at each of its ends; a launch that stands at `failing`
still has its process to clean up.
-/

namespace SlopOS.Proofs.LaunchStages

open SlopOS.Support SlopOS.Kernel SlopOS.Kernel.Ticks
open SlopOS.Proofs.Tables SlopOS.Proofs.Mail SlopOS.Proofs.Scheduling SlopOS.Proofs.Marks
open SlopOS.Proofs.Timer SlopOS.Proofs.TickedTables SlopOS.Proofs.Entries
open SlopOS.Proofs.TableInvariant SlopOS.Proofs.Loader SlopOS.Proofs.UserPointers
open SlopOS.Proofs.Views SlopOS.Proofs.Launching SlopOS.Proofs.TickedLaunch
open SlopOS.Proofs.ElfBounds (PassesChecks NoWrap)

structure SameRest (k k' : KState) : Prop where
  fds : k'.files.fds = k.files.fds
  services : k'.services = k.services

inductive Stage (mach : Machine) (safe on : Prop) (w : Schedule) (k : KState) : Launch → Prop
  | notRun {rc : Int} {k' : KState} (undone : Undone mach safe on w k.core k'.core)
      (rest : SameRest k k') : Stage mach safe on w k (.notRun rc k')
  | refused {k' : KState} (undone : Undone mach safe on w k.core k'.core)
      (rest : SameRest k k') : Stage mach safe on w k (.refused k')
  | failing {pid : Int} {k' : KState} (carried : Carried mach safe on w k.core pid k'.core)
      (rest : SameRest k k') : Stage mach safe on w k (.failing pid k')
  | entered {pid : Int} {k' : KState} {image : ProcImage}
      (launched : Launched mach safe k.core pid image k'.core)
      (rest : SameRest k k') : Stage mach safe on w k (.entered pid k')

variable {w : Schedule} {on safe : Prop} {mach : Machine} {c : Core} {k k' : KState} {pid : Int}
variable {image : ProcImage} {s : Fin elfProcSlots}

/-- `task_run_user_until_stop` with a process that has not run yet. -/
theorem taskRunUserEnter_ticks (argc : Int) (argv : Nat → Option CStr) (ctx : ExecContext)
    (h : Carried mach safe on w c pid k.core) (hb : Base mach c)
    (himg : procGetImage k.core.proc pid = some image) (hl : image.loaded = true)
    (hcv : image.contextValid = false) (hs : slotOf k.core.elf pid = some s)
    (hok : ImageOk mach image s) :
    ∃ ok k', Ticks.taskRunUserEnter w k pid argc argv ctx = (ok, k') ∧
      Carried mach safe on w c pid k'.core ∧ SameRest k k' ∧
      (ok = true → Launched mach safe c pid image k'.core) := by
  have hpos := h.newborn.pos hb
  obtain ⟨he, hclock⟩ := markRunning_clock h.clock h.newborn.base.synced h.newborn.phase
  have hrun := h.unmark hb he hclock
  have hs' : slotOf (markRunning w k.core pid).elf pid = some s := by
    rw [elf_of_unmark he, hs]
  have himg' : procGetImage (markRunning w k.core pid).proc pid = some image := by
    rw [image_of_unmark he, himg]
  rcases hexec : elfExecuteImage (markRunning w k.core pid) image pid argc argv with ⟨ok, d⟩
  have hends : (Ticks.taskRunUserEnter w k pid argc argv ctx).1 = ok ∧
      (Ticks.taskRunUserEnter w k pid argc argv ctx).2.core = d ∧
      SameRest k (Ticks.taskRunUserEnter w k pid argc argv ctx).2 := by
    unfold Ticks.taskRunUserEnter
    rw [himg]
    simp only [hcv, Bool.false_eq_true, if_false]
    rw [if_neg (by simp only [hl, not_true_eq_false, or_false]; omega)]
    exact ⟨congrArg Prod.fst hexec, congrArg Prod.snd hexec, rfl, rfl⟩
  obtain ⟨rfl, rfl, hrest⟩ := hends
  obtain ⟨hframe, hmem, hentered⟩ := elfExecuteImage_spec hok hexec
  have henter := hrun.newborn.enter hb hs' hok hframe hmem
  have hcarried := hrun.sameTables henter hframe.task hframe.proc (by rw [hframe.elf])
  refine ⟨_, _, rfl, hcarried, hrest, fun hyes => ⟨henter, ?_, ?_⟩⟩
  · exact (congrArg (procGetImage · pid) hframe.proc).trans himg'
  · have hj := hentered hyes
    refine ⟨hj.active, hj.current, hj.stop, hpos, image, ?_, hl⟩
    exact (congrArg (procGetImage · pid) hframe.proc).trans himg'

/-! ## Starting among marks -/

section Marks

variable {c₁ c' : Core} (hs : Synced c) (he : unmark c₁ = unmark c)
include hs he

theorem undone_from (h : Undone mach safe on w c₁ c') : Undone mach safe on w c c' := by
  have hquiet := repaint_of_unmark he hs
  have hbefore : Keeps c c₁ := keeps_of_elf hquiet.nextPid (by rw [hquiet.elf])
  have hview := procView_quiet hquiet
  refine ⟨⟨h.unchanged.view.trans hview, ⟨?_, fun q hq => ?_⟩, fun hsafe q => ?_,
    h.unchanged.base, h.unchanged.current⟩, h.clock, ?_, h.ipc.trans hquiet.ipc,
    fun q => (sameEntries_of_unmark he).trans (h.entries q)⟩
  · exact Int.le_trans hbefore.next h.unchanged.keeps.next
  · rw [← hquiet.phase] at hq
    rw [h.unchanged.keeps.slots q hq, hquiet.elf]
  · exact (memKept_of_same (by rw [hquiet.elf]) hquiet.mem).trans (h.unchanged.kept hsafe q)
      (hquiet.image q) fun _ => by rw [hquiet.elf]
  · rw [h.images, elf_of_unmark he]

theorem carried_from (h : Carried mach safe on w c₁ pid c') : Carried mach safe on w c pid c' := by
  refine ⟨newborn_from hs he h.newborn, h.clock, ?_,
    fun q hq => (sameEntries_of_unmark he).trans (h.entries q hq), ?_⟩
  · rw [h.images, elf_of_unmark he]
  · rw [h.used, used_of_unmark (task_of_unmark he)]

end Marks

/-- A launch may start from a state that differs in marks and in the file system. -/
theorem stage_from (k₁ : KState) {r : Launch} (hs : Synced k.core)
    (he : unmark k₁.core = unmark k.core) (hrest : SameRest k k₁)
    (h : Stage mach safe on w k₁ r) : Stage mach safe on w k r := by
  cases h with
  | notRun undone rest =>
      exact .notRun (undone_from hs he undone)
        ⟨rest.fds.trans hrest.fds, rest.services.trans hrest.services⟩
  | refused undone rest =>
      exact .refused (undone_from hs he undone)
        ⟨rest.fds.trans hrest.fds, rest.services.trans hrest.services⟩
  | failing carried rest =>
      exact .failing (carried_from hs he carried)
        ⟨rest.fds.trans hrest.fds, rest.services.trans hrest.services⟩
  | entered launched rest =>
      exact .entered ⟨newborn_from hs he launched.toNewborn, launched.image, launched.running⟩
        ⟨rest.fds.trans hrest.fds, rest.services.trans hrest.services⟩

/-! ## `exec_run_elf_path` -/

section Start

variable {path : CStr} {argv : List CStr} {ctx : ExecContext}
variable (hb : Base mach k.core) (hclock : Clock w on k.core)
variable (hnext : k.core.proc.nextPid < 2 ^ 31 - 1)
include hb hclock hnext

theorem execStart_stage {ppid : Int} {file : FileView} {again : Option FileView}
    {plan : ExecLoadPlan} (hplan : elfPrepareLoadPlanFromVfs again = some plan)
    (hsafe : safe → ∀ f, again = some f → PassesChecks f → NoWrap f) :
    Stage mach safe on w k (Ticks.execStart w mach k path argv ctx ppid file plan) := by
  unfold Ticks.execStart
  split
  · rename_i d hspawn
    obtain ⟨he, hclock'⟩ := taskSpawnUser_failed hclock hb.synced hspawn
    exact .refused (undone_of_unmark hb he hclock') ⟨rfl, rfl⟩
  rename_i pid d hspawn
  have hcarried : Carried mach safe on w k.core pid d ∧ d.elf = k.core.elf ∧
      procGetImage d.proc pid = some emptyImage := carried_spawn hb hclock hnext hspawn
  obtain ⟨hspawned, helf, himage⟩ := hcarried
  have h₁ := hspawned.wait hb .spawned
  have hpos := h₁.newborn.pos hb
  obtain ⟨hwait, -⟩ := wait_clock .spawned hspawned.clock hspawned.newborn.base.synced
  -- the loader may see other marks than the spawn has left
  obtain ⟨e, he, hclock', hload⟩ := @elfLoadFromPlan_ticks w on mach _ pid plan file
    h₁.clock h₁.newborn.base.synced
  have h₂ := h₁.unmark hb he hclock'
  have hslot : slotOf e.elf pid = none := by
    rw [elf_of_unmark he, elf_of_unmark hwait, helf, h₁.newborn.pid_eq]
    exact slotOf_fresh hb
  have hempty : ∀ im, procGetImage e.proc pid = some im → im.loaded = false := by
    intro im him
    rw [image_of_unmark he, image_of_unmark hwait, himage] at him
    obtain rfl := Option.some.inj him
    rfl
  have hwin := window_of_plan hplan hsafe
  have hpidlt : 0 ≤ pid ∧ pid < e.proc.nextPid := by
    have heq := h₂.newborn.pid_eq
    have hn := h₂.newborn.next
    omega
  have hloaded := elfLoadFromPlan_spec file h₂.newborn.base hpidlt hslot hempty
    (prepare_bounds hplan)
  have h₃ := (h₂.load hb hloaded hwin).wait hb .loaded
  obtain ⟨hwait', -⟩ := wait_clock .loaded (h₂.load hb hloaded hwin).clock
    (h₂.load hb hloaded hwin).newborn.base.synced
  dsimp only
  rw [hload]
  dsimp only
  generalize hr : Kernel.elfLoadFromPlan mach e pid plan file = r at hloaded hwait' h₃ ⊢
  split
  · exact .failing h₃ ⟨rfl, rfl⟩
  rename_i im him
  obtain ⟨hl, hcv, s, hs, hok⟩ := hloaded.image im him
  let image : ProcImage := { im with cwd := ctx.cwd, output := ctx.output }
  have hok' : ImageOk mach image s := ⟨hok.lower, hok.upper, hok.stackBase, hok.stackSize⟩
  let loaded : Core := wait w .loaded r.core
  have hs₃ : slotOf loaded.elf pid = some s := by
    rw [elf_of_unmark hwait', hs]
  let bound : Core := { loaded with proc := procBindImage loaded.proc pid image }
  have h₄ : Carried mach safe on w k.core pid bound := h₃.bind image hb fun _ => ⟨s, hs₃, hok'⟩
  have hlive : procPhase loaded.proc pid ≠ .dead := by
    rw [h₃.newborn.phase]
    decide
  have himg : procGetImage bound.proc pid = some image := by
    change procGetImage (procBindImage loaded.proc pid image) pid = _
    rw [procGetImage_procBindImage, if_pos ⟨rfl, hlive⟩]
  have h₅ := h₄.wait hb .bound
  obtain ⟨hwait'', -⟩ := wait_clock .bound h₄.clock h₄.newborn.base.synced
  have himg₅ : procGetImage (wait w .bound bound).proc pid = some image := by
    rw [image_of_unmark hwait'', himg]
  have hs₅ : slotOf (wait w .bound bound).elf pid = some s := by
    rw [elf_of_unmark hwait'']
    exact hs₃
  obtain ⟨ok, k', heq, h₆, hrest, hlaunched⟩ := taskRunUserEnter_ticks argv.length
    (argv[·]?) ctx (k := k.setCore (wait w .bound bound)) h₅ hb himg₅ hl hcv hs₅ hok'
  rw [heq]
  cases ok with
  | true => exact .entered (hlaunched rfl) ⟨hrest.fds, hrest.services⟩
  | false => exact .failing h₆ ⟨hrest.fds, hrest.services⟩

/-- `exec_run_elf_path` reads the pid of the running task before it does anything else. -/
theorem execRunElfPath_stage {r : Launch} (hsafe : safe → ∀ f,
      Loadable mach k.files.fs (ctx.cwd.getD vfsRoot) path f → PassesChecks f → NoWrap f)
    (h : Ticks.execRunElfPath w mach k path argv ctx = some r) : Stage mach safe on w k r := by
  obtain ⟨h₁, hclock₁⟩ := wait_clock .called hclock hb.synced
  obtain ⟨h₂, hclock₂⟩ := wait_clock .parentRead hclock₁ (synced_of_unmark h₁ hb.synced)
  have he := h₂.trans h₁
  have hundone : Undone mach safe on w k.core (wait w .parentRead (wait w .called k.core)) :=
    undone_of_unmark hb he hclock₂
  unfold Ticks.execRunElfPath at h
  dsimp only at h
  generalize wait w .parentRead (wait w .called k.core) = d at he hclock₂ hundone h
  split at h
  · cases h
  · cases h
    exact .refused hundone ⟨rfl, rfl⟩
  rename_i file fs hread
  obtain ⟨heap, rfl⟩ := readForLoader_fs hread
  split at h
  · cases h
  rename_i again fs' hagain
  split at h
  · cases h
    exact .refused hundone ⟨rfl, rfl⟩
  · rename_i plan hplan
    cases h
    have hnext' : d.proc.nextPid < 2 ^ 31 - 1 := by
      rw [nextPid_of_unmark he]
      exact hnext
    have hsafe' : safe → ∀ f, again = some f → PassesChecks f → NoWrap f := by
      rintro hs f rfl
      exact hsafe hs f ⟨heap, fs', hagain⟩
    exact stage_from ((k.setCore d).setFs fs') hb.synced he ⟨rfl, rfl⟩
      (execStart_stage hundone.unchanged.base hclock₂ hnext' hplan hsafe')

theorem execTry_stage {paths : List CStr} {fs : Fs} {r : Launch}
    (hfs : ∃ heap, fs = { k.files.fs with heap := heap })
    (hsafe : safe → ∀ p ∈ paths, ∀ f,
      Loadable mach k.files.fs (ctx.cwd.getD vfsRoot) p f → PassesChecks f → NoWrap f)
    (h : Ticks.execTry w mach (k.setFs fs) argv ctx paths = some r) :
    Stage mach safe on w k r := by
  induction paths generalizing fs with
  | nil =>
      cases h
      exact .notRun (undone_of_unmark hb rfl hclock) ⟨rfl, rfl⟩
  | cons p paths ih =>
      obtain ⟨heap, rfl⟩ := hfs
      rw [Ticks.execTry] at h
      split at h
      · cases h
      · rename_i fs' hread
        obtain ⟨heap', rfl⟩ := execIsElfPath_fs hread
        exact ih ⟨heap', rfl⟩ (fun hs p' hp' => hsafe hs p' (List.mem_cons_of_mem p hp')) h
      · rename_i fs' hread
        obtain ⟨heap', rfl⟩ := execIsElfPath_fs hread
        have hrun : Stage mach safe on w (k.setFs { k.files.fs with heap := heap' }) r :=
          execRunElfPath_stage (k := k.setFs { k.files.fs with heap := heap' }) hb hclock hnext
            (fun hs => hsafe hs p List.mem_cons_self) h
        exact stage_from (k.setFs { k.files.fs with heap := heap' }) hb.synced rfl ⟨rfl, rfl⟩ hrun

theorem execRunPath_stage {r : Launch}
    (hsafe : safe → LaunchSafe mach k.files.fs (ctx.cwd.getD vfsRoot) path)
    (h : Ticks.execRunPath w mach k path argv ctx = some r) : Stage mach safe on w k r := by
  unfold Ticks.execRunPath at h
  split at h
  · cases h
    exact .notRun (undone_of_unmark hb rfl hclock) ⟨rfl, rfl⟩
  split at h
  · cases h
    have hcur : CurrentOk (ring3Test k.core) := currentOk_ofSame hclock.current rfl fun _ => rfl
    refine .notRun ⟨⟨procView_congr (fun _ => rfl) (fun _ => rfl) rfl, keeps_of_elf rfl rfl,
      fun _ _ => memKept_of_same rfl rfl, hb.setMem k.core.mem _, hcur⟩,
      ⟨hcur, hclock.off, hclock.timed⟩, rfl, rfl, fun _ => sameEntries_of_tables rfl rfl⟩
      ⟨rfl, rfl⟩
  · exact execTry_stage hb hclock hnext ⟨k.files.fs.heap, rfl⟩ hsafe h

end Start

end SlopOS.Proofs.LaunchStages
