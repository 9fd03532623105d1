import SlopOS.Proofs.Views
/-!
# Launching a program

`exec_run_elf_path` spawns a process, loads its image, binds it and enters
Ring 3.  `Newborn` holds from the spawn on and is carried over every stage; a
stage that fails reaps the process again (`Newborn.reaped`).
-/

namespace SlopOS.Proofs.Launching

open SlopOS.Support SlopOS.Kernel
open SlopOS.Proofs.Tables SlopOS.Proofs.Mail SlopOS.Proofs.Scheduling
open SlopOS.Proofs.TableInvariant SlopOS.Proofs.Loader SlopOS.Proofs.UserPointers
open SlopOS.Proofs.Views
open SlopOS.Proofs.ElfBounds (PassesChecks NoWrap)

/-- Process `pid` has been spawned; everybody else is as before, and where `safe`
holds the memory of stopped processes is, too. -/
structure Newborn (mach : Machine) (safe : Prop) (c : Core) (pid : Int) (c' : Core) : Prop where
  pid_eq : pid = c.proc.nextPid
  next : c'.proc.nextPid = c.proc.nextPid + 1
  ipc : c'.ipc = c.ipc
  others : ∀ q, q ≠ pid → procView c' q = procView c q
  phase : procPhase c'.proc pid = .runnable
  slots : ∀ q, procPhase c.proc q ≠ .dead → slotOf c'.elf q = slotOf c.elf q
  kept : safe → ∀ q, MemKept c c' q
  base : Base mach c'
  current : CurrentOk c'

structure Unchanged (mach : Machine) (safe : Prop) (c c' : Core) : Prop where
  view : procView c' = procView c
  keeps : Keeps c c'
  kept : safe → ∀ q, MemKept c c' q
  base : Base mach c'
  current : CurrentOk c'

/-- Process `pid` is in Ring 3 for the first time, with `image`. -/
structure Launched (mach : Machine) (safe : Prop) (c : Core) (pid : Int) (image : ProcImage)
    (c' : Core) : Prop extends Newborn mach safe c pid c' where
  image : procGetImage c'.proc pid = some image
  running : TableInvariant.Running c' pid

variable {mach : Machine} {safe : Prop} {c c' c'' : Core} {pid : Int} {image : ProcImage}
variable {s : Fin elfProcSlots}

theorem Newborn.pos (h : Newborn mach safe c pid c') (hb : Base mach c) : 0 < pid := by
  have hnext := hb.next
  have hpid := h.pid_eq
  omega

theorem Newborn.fresh (h : Newborn mach safe c pid c') (hb : Base mach c) :
    procPhase c.proc pid = .dead := by
  rw [h.pid_eq]
  exact hb.fresh

/-- The memory kept so far stays kept where the next stage keeps it. -/
theorem Newborn.kept_trans (h : Newborn mach safe c pid c') (hb : Base mach c) {q : Int}
    (hs : safe) (hnext : q ≠ pid → MemKept c' c'' q) : MemKept c c'' q := by
  by_cases hq : q = pid
  · rw [hq]
    exact memKept_of_dead (h.fresh hb)
  · exact (h.kept hs q).trans (hnext hq) (image_of_view (h.others q hq)) (h.slots q)

/-! ## The stages -/

theorem newborn_of_born (hb : Base mach c) (hcur : CurrentOk c)
    (hnext : c.proc.nextPid < 2 ^ 31 - 1) (h : Born c c' pid) : Newborn mach safe c pid c' := by
  have hpid := h.pid_eq
  refine ⟨h.pid_eq, h.nextPid, h.ipc, fun q hq => ?_, ?_, fun q _ => ?_, fun _ q => ?_,
    hb.born h hnext, ?_⟩
  · unfold procView
    rw [h.phase, if_neg hq, h.image, if_neg hq, h.ipc]
  · rw [h.phase, if_pos rfl]
  · rw [h.elf]
  · exact memKept_of_same (by rw [h.elf]) h.mem
  · obtain ⟨i, p, hi, hfind, hrun⟩ := hcur
    have hne : p ≠ pid := by
      rintro rfl
      rw [hpid, hb.fresh] at hrun
      cases hrun
    refine ⟨i, p, ?_, ?_, ?_⟩
    · rw [h.current, hi]
    · rw [h.find p hne, hfind]
    · rw [h.phase, if_neg hne, hrun]

theorem Newborn.load {plan : ExecLoadPlan} {r : LoadResult} (h : Newborn mach safe c pid c')
    (hb : Base mach c) (hl : Loaded mach c' pid plan r)
    (hwin : safe → ∀ seg ∈ plan.segments, elfUserImageBase.toNat ≤ seg.vaddr.toNat ∧
      seg.vaddr.toNat + seg.fileSize.toNat ≤ elfUserImageBase.toNat + elfUserImageMax) :
    Newborn mach safe c pid r.core := by
  have hview : procView r.core = procView c' :=
    procView_congr (fun q => by rw [hl.proc]) (fun q => by rw [hl.proc]) hl.ipc
  refine ⟨h.pid_eq, ?_, hl.ipc.trans h.ipc, fun q hq => ?_, ?_, fun q hq => ?_,
    fun hs q => ?_, hl.base, ?_⟩
  · rw [hl.proc]
    exact h.next
  · rw [hview]
    exact h.others q hq
  · rw [hl.proc]
    exact h.phase
  · have hne : q ≠ pid := by
      rintro rfl
      exact hq (h.fresh hb)
    rw [hl.other q hne (by rwa [phase_of_view (h.others q hne)])]
    exact h.slots q hq
  · apply h.kept_trans hb hs
    intro _
    exact memKept_of_window h.base hl.images (hl.mem (hwin hs))
  · exact currentOk_ofSame h.current hl.task fun q => by rw [hl.proc]

theorem Newborn.bind (image : ProcImage) (h : Newborn mach safe c pid c') (hb : Base mach c)
    (himage : image.loaded = true → ∃ s, slotOf c'.elf pid = some s ∧ ImageOk mach image s) :
    Newborn mach safe c pid { c' with proc := procBindImage c'.proc pid image } := by
  have hfresh : waiting c'.ipc pid = none := by
    by_contra hne
    rw [h.ipc] at hne
    have hlt := hb.waiterPid pid hne
    have hpid := h.pid_eq
    omega
  have hphase : ∀ q, procPhase (procBindImage c'.proc pid image) q = procPhase c'.proc q :=
    fun q => procPhase_procBindImage image
  refine ⟨h.pid_eq, (nextPid_procBindImage image).trans h.next, h.ipc, fun q hq => ?_,
    (hphase pid).trans h.phase, h.slots, fun hs q => ?_,
    h.base.bind himage fun hw => absurd hfresh hw, currentOk_ofSame h.current rfl hphase⟩
  · refine Eq.trans ?_ (h.others q hq)
    unfold procView
    dsimp only
    rw [hphase, procGetImage_procBindImage, if_neg (by simp [hq])]
  · exact h.kept_trans hb hs fun _ => memKept_of_same rfl rfl

theorem Newborn.quiet (h : Newborn mach safe c pid c') (hb : Base mach c)
    (hquiet : Repaint c' c'' (procPhase c'.proc)) (hcur : CurrentOk c'') :
    Newborn mach safe c pid c'' := by
  refine ⟨h.pid_eq, hquiet.nextPid.trans h.next, hquiet.ipc.trans h.ipc, fun q hq => ?_,
    (hquiet.phase pid).trans h.phase, fun q hq => ?_, fun hs q => ?_, h.base.quiet hquiet, hcur⟩
  · rw [procView_quiet hquiet]
    exact h.others q hq
  · rw [hquiet.elf]
    exact h.slots q hq
  · exact h.kept_trans hb hs fun _ => memKept_of_same (by rw [hquiet.elf]) hquiet.mem

theorem Newborn.run (h : Newborn mach safe c pid c') (hb : Base mach c) :
    Newborn mach safe c pid
      { taskSetState c' pid .running with
        proc := procSetState (taskSetState c' pid .running).proc pid .running } := by
  have hlive : procPhase c'.proc pid ≠ .dead := by
    rw [h.phase]
    decide
  obtain ⟨hre, hcur⟩ := setRunning_spec h.base.synced hlive
  refine h.quiet hb (hre.congr fun q => ?_) hcur
  rw [← h.phase, Function.update_eq_self]

theorem Newborn.enter (h : Newborn mach safe c pid c') (hb : Base mach c)
    (hs : slotOf c'.elf pid = some s) (hok : ImageOk mach image s) (hf : EnterFrame c' c'')
    (hm : SameOutside (InStack image) c'.mem c''.mem) : Newborn mach safe c pid c'' := by
  have hview : procView c'' = procView c' :=
    procView_congr (fun q => by rw [hf.proc]) (fun q => by rw [hf.proc]) hf.ipc
  refine ⟨h.pid_eq, ?_, hf.ipc.trans h.ipc, fun q hq => ?_, ?_, fun q hq => ?_,
    fun hs' q => ?_, ?_, ?_⟩
  · rw [hf.proc]
    exact h.next
  · rw [hview]
    exact h.others q hq
  · rw [hf.proc]
    exact h.phase
  · rw [hf.elf]
    exact h.slots q hq
  · apply h.kept_trans hb hs'
    intro hq
    exact memKept_of_own h.base hs hok hq (fun s' _ => by rw [hf.elf])
      (hm.mono fun a ha => Or.inr ha)
  · refine h.base.ofSame hf.task hf.proc (by rw [hf.elf]) ?_ fun p hp => ?_
    · rw [hf.ipc]
      exact h.base.mail
    · rwa [hf.ipc] at hp
  · exact currentOk_ofSame h.current hf.task fun q => by rw [hf.proc]

theorem Newborn.reaped (h : Newborn mach safe c pid c') (hb : Base mach c) (code : Int) :
    Unchanged mach safe c (exitAndReap c' pid code) := by
  have hpos := h.pos hb
  have hlive : procPhase c'.proc pid ≠ .dead := by
    rw [h.phase]
    decide
  obtain ⟨hgone, hcur⟩ := exitAndReap_spec code h.base.synced h.base.kernel hlive (by omega)
  refine ⟨?_, ⟨?_, fun q hq => ?_⟩, fun hs q => ?_, h.base.gone hgone (by omega),
    hcur h.current⟩
  · rw [procView_gone hgone]
    funext q
    by_cases hq : q = pid
    · rw [hq, Function.update_self]
      unfold procView
      have hdead := h.fresh hb
      have hnone : procGetImage c.proc pid = none := by
        by_contra hne
        obtain ⟨im, him⟩ := Option.ne_none_iff_exists'.mp hne
        exact live_of_procGetImage him hdead
      rw [hdead, hnone, h.ipc]
    · rw [Function.update_of_ne hq]
      exact h.others q hq
  · rw [hgone.nextPid, h.next]
    omega
  · rw [hgone.elf]
    exact h.slots q hq
  · exact h.kept_trans hb hs fun _ => memKept_of_same (by rw [hgone.elf]) hgone.mem

theorem unchanged_of_quiet (hb : Base mach c) (hcur : CurrentOk c')
    (h : Repaint c c' (procPhase c.proc)) : Unchanged mach safe c c' :=
  ⟨procView_quiet h, keeps_of_elf h.nextPid (by rw [h.elf]),
    fun _ _ => memKept_of_same (by rw [h.elf]) h.mem, hb.quiet h, hcur⟩

theorem Unchanged.refl (hb : Base mach c) (hcur : CurrentOk c) : Unchanged mach safe c c :=
  unchanged_of_quiet hb hcur (Repaint.refl hb.synced)

theorem Unchanged.quiet (h : Unchanged mach safe c c')
    (hquiet : Repaint c' c'' (procPhase c'.proc)) (hcur : CurrentOk c'') :
    Unchanged mach safe c c'' := by
  refine ⟨(procView_quiet hquiet).trans h.view, ⟨?_, fun q hq => ?_⟩, fun hs q => ?_,
    h.base.quiet hquiet, hcur⟩
  · rw [hquiet.nextPid]
    exact h.keeps.next
  · rw [hquiet.elf]
    exact h.keeps.slots q hq
  · exact (h.kept hs q).trans (memKept_of_same (by rw [hquiet.elf]) hquiet.mem)
      (image_of_view (congrFun h.view q)) (h.keeps.slots q)

/-! ## `exec_run_elf_path` -/

inductive Start (mach : Machine) (safe : Prop) (k : KState) : Entered → Prop
  | failed {rc : Int} {k' : KState} (unchanged : Unchanged mach safe k.core k'.core)
      (fds : k'.files.fds = k.files.fds) : Start mach safe k (.returned rc k')
  | started {pid : Int} {k' : KState} {image : ProcImage}
      (launched : Launched mach safe k.core pid image k'.core)
      (fds : k'.files.fds = k.files.fds) : Start mach safe k (.entered pid k')

theorem slotOf_fresh (hb : Base mach c) : slotOf c.elf c.proc.nextPid = none := by
  by_contra hne
  have hlt := hb.owner _ hne
  omega

theorem taskRunUserEnter_launch {k : KState} (argc : Int) (argv : Nat → Option CStr)
    (ctx : ExecContext) (h : Newborn mach safe c pid k.core) (hb : Base mach c)
    (himg : procGetImage k.core.proc pid = some image) (hl : image.loaded = true)
    (hcv : image.contextValid = false) (hs : slotOf k.core.elf pid = some s)
    (hok : ImageOk mach image s) :
    ∃ ok k', taskRunUserEnter k pid argc argv ctx = (ok, k') ∧
      Newborn mach safe c pid k'.core ∧ k'.files.fds = k.files.fds ∧
      (ok = true → Launched mach safe c pid image k'.core) := by
  have hpos := h.pos hb
  have hrun := h.run hb
  obtain ⟨hre, -⟩ := setRunning_spec h.base.synced (live_of_procGetImage himg)
  have hs' := (congrArg (slotOf · pid) hre.elf).trans hs
  have himg' := (hre.image pid).trans himg
  unfold taskRunUserEnter
  rw [himg]
  simp only [hcv, Bool.false_eq_true, if_false]
  rw [if_neg (by simp only [hl, not_true_eq_false, or_false]; omega)]
  generalize { taskSetState k.core pid .running with
    proc := procSetState (taskSetState k.core pid .running).proc pid .running } = c₁
    at hrun hs' himg' ⊢
  rcases hexec : elfExecuteImage c₁ image pid argc argv with ⟨ok, c₂⟩
  obtain ⟨hframe, hmem, hentered⟩ := elfExecuteImage_spec hok hexec
  have henter := hrun.enter hb hs' hok hframe hmem
  refine ⟨ok, _, rfl, henter, rfl, fun hyes => ⟨henter, ?_, ?_⟩⟩
  · exact (congrArg (procGetImage · pid) hframe.proc).trans himg'
  · have hj := hentered hyes
    refine ⟨hj.active, hj.current, hj.stop, hpos, image, ?_, hl⟩
    exact (congrArg (procGetImage · pid) hframe.proc).trans himg'

theorem execStart_spec {k : KState} {path : CStr} {argv : List CStr} {ctx : ExecContext}
    {ppid : Int} {file : FileView} {again : Option FileView} {plan : ExecLoadPlan}
    (hb : Base mach k.core) (hcur : CurrentOk k.core)
    (hnext : k.core.proc.nextPid < 2 ^ 31 - 1)
    (hplan : elfPrepareLoadPlanFromVfs again = some plan)
    (hsafe : safe → ∀ f, again = some f → PassesChecks f → NoWrap f) :
    Start mach safe k (execStart mach k path argv ctx ppid file plan) := by
  unfold execStart
  split
  · exact .failed (Unchanged.refl hb hcur) rfl
  rename_i pid c₁ hspawn
  have hborn := taskSpawn_spec hb.synced hb.zombie hb.fresh hspawn
  have h₁ : Newborn mach safe k.core pid c₁ := newborn_of_born hb hcur hnext hborn
  have hpos := h₁.pos hb
  have hslot₁ : slotOf c₁.elf pid = none := by
    rw [hborn.elf, hborn.pid_eq]
    exact slotOf_fresh hb
  have hempty : ∀ im, procGetImage c₁.proc pid = some im → im.loaded = false := by
    intro im him
    rw [hborn.image, if_pos rfl] at him
    obtain rfl := Option.some.inj him
    rfl
  have hwin := window_of_plan hplan hsafe
  have hpidlt : 0 ≤ pid ∧ pid < c₁.proc.nextPid := by
    have heq := h₁.pid_eq
    have hn := h₁.next
    omega
  have hload := elfLoadFromPlan_spec file h₁.base hpidlt hslot₁ hempty
    (prepare_bounds hplan)
  have h₂ := h₁.load hb hload hwin
  dsimp only
  split
  · exact .failed (h₂.reaped hb (-1)) rfl
  rename_i im him
  obtain ⟨hl, hcv, s, hs, hok⟩ := hload.image im him
  let image : ProcImage := { im with cwd := ctx.cwd, output := ctx.output }
  have hok' : ImageOk mach image s := ⟨hok.lower, hok.upper, hok.stackBase, hok.stackSize⟩
  let loaded : Core := (elfLoadFromPlan mach c₁ pid plan file).core
  let bound : Core := { loaded with proc := procBindImage loaded.proc pid image }
  have h₃ : Newborn mach safe k.core pid bound := h₂.bind image hb fun _ => ⟨s, hs, hok'⟩
  have hlive : procPhase loaded.proc pid ≠ .dead := by
    rw [h₂.phase]
    decide
  have himg₃ : procGetImage (procBindImage loaded.proc pid image) pid = some image := by
    rw [procGetImage_procBindImage, if_pos ⟨rfl, hlive⟩]
  obtain ⟨ok, k', heq, h₄, hfds, hlaunched⟩ := taskRunUserEnter_launch argv.length
    (argv[·]?) ctx (k := k.setCore bound) h₃ hb himg₃ hl hcv hs hok'
  rw [heq]
  cases ok with
  | true => exact .started (hlaunched rfl) hfds
  | false => exact .failed (h₄.reaped hb (-1)) hfds

/-! ## `exec_run_path` -/

/-- Reading a file may take blocks from the heap and changes nothing else. -/
theorem vfsReadFile_fs {fs fs' : Fs} {cwd : NodeId} {path : CStr}
    {r : Option (Option Bytes × U32)} (h : vfsReadFile mach fs cwd path = some (r, fs')) :
    ∃ heap, fs' = { fs with heap := heap } := by
  unfold vfsReadFile at h
  split at h
  · obtain ⟨⟨data, heap⟩, -, heq⟩ := Option.map_eq_some_iff.mp h
    cases heq
    exact ⟨heap, rfl⟩
  split at h
  · cases h
    exact ⟨fs.heap, rfl⟩
  · cases h
    exact ⟨fs.heap, rfl⟩

theorem readForLoader_fs {fs fs' : Fs} {cwd : NodeId} {path : CStr} {f : Option FileView}
    (h : readForLoader mach fs cwd path = some (f, fs')) : ∃ heap, fs' = { fs with heap := heap } := by
  unfold readForLoader at h
  split at h
  · cases h
  · rename_i hread
    cases h
    exact vfsReadFile_fs hread
  · rename_i hread
    cases h
    exact vfsReadFile_fs hread

theorem execIsElfPath_fs {fs fs' : Fs} {cwd : NodeId} {path : CStr} {isElf : Bool}
    (h : execIsElfPath mach fs cwd path = some (isElf, fs')) :
    ∃ heap, fs' = { fs with heap := heap } := by
  unfold execIsElfPath at h
  split at h
  · cases h
  · rename_i hread
    cases h
    exact vfsReadFile_fs hread
  · rename_i hread
    cases h
    exact vfsReadFile_fs hread

/-- What a file on the CD holds does not depend on the heap it is read into. -/
theorem isoReadFileAlloc_data {read : U32 → Option Sector} {heap heap' h h' : Heap} {path : CStr}
    {bs bs' : Bytes} (hr : isoReadFileAlloc read heap path = some (some bs, h))
    (hr' : isoReadFileAlloc read heap' path = some (some bs', h')) : bs = bs' := by
  unfold isoReadFileAlloc at hr hr'
  dsimp only at hr hr'
  split at hr
  · cases hr
  rename_i hp
  rw [if_neg hp] at hr'
  split at hr
  · cases hr
  rename_i root volume hroot
  rw [hroot] at hr'
  dsimp only at hr'
  split at hr
  · cases hr
  rename_i hvalid
  rw [if_neg hvalid] at hr'
  split at hr
  · cases hr
  · cases hr
  rename_i cur comp have' hwalk
  rw [hwalk] at hr'
  dsimp only at hr'
  split at hr
  · cases hr
  rename_i hcomp
  rw [if_neg hcomp] at hr'
  split at hr
  · cases hr
  · cases hr
  rename_i child hchild
  rw [hchild] at hr'
  dsimp only at hr'
  split at hr
  · cases hr
  rename_i hfile
  rw [if_neg hfile] at hr'
  split at hr
  · cases hr
  rename_i hext
  rw [if_neg hext] at hr'
  split at hr
  · cases hr
  rename_i hsize
  rw [if_neg hsize] at hr'
  split at hr
  · cases hr
  split at hr'
  · cases hr'
  · have hd := congrArg Prod.fst (Option.some.inj hr)
    have hd' := congrArg Prod.fst (Option.some.inj hr')
    exact Option.some.inj (hd.symm.trans hd')

/-- `f` is what a read of `path` finds, however much of the heap is left. -/
def Loadable (mach : Machine) (fs : Fs) (cwd : NodeId) (path : CStr) (f : FileView) : Prop :=
  ∃ heap fs', readForLoader mach { fs with heap := heap } cwd path = some (some f, fs')

/-- No file that running `path` may load passes the loader's checks by a sum that
wraps. -/
def LaunchSafe (mach : Machine) (fs : Fs) (cwd : NodeId) (path : CStr) : Prop :=
  ∀ p ∈ execCandidates path, ∀ f, Loadable mach fs cwd p f → PassesChecks f → NoWrap f

theorem Start.orFailed {r : Entered} (h : Start mach safe k r) : Start mach safe k r.orFailed := by
  cases h with
  | failed unchanged fds => exact .failed unchanged fds
  | started launched fds => exact .started launched fds

theorem Start.ofSetFs {k : KState} {fs : Fs} {r : Entered} (h : Start mach safe (k.setFs fs) r) :
    Start mach safe k r := by
  cases h with
  | failed unchanged fds => exact .failed unchanged fds
  | started launched fds => exact .started launched fds

section Exec

variable {k : KState} {path : CStr} {argv : List CStr} {ctx : ExecContext} {r : Entered}
variable (hb : Base mach k.core) (hcur : CurrentOk k.core)
variable (hnext : k.core.proc.nextPid < 2 ^ 31 - 1)
include hb hcur hnext

theorem execRunElfPath_spec (hsafe : safe → ∀ f,
      Loadable mach k.files.fs (ctx.cwd.getD vfsRoot) path f → PassesChecks f → NoWrap f)
    (h : execRunElfPath mach k path argv ctx = some r) : Start mach safe k r := by
  unfold execRunElfPath at h
  dsimp only at h
  split at h
  · cases h
  · cases h
    exact .failed (Unchanged.refl hb hcur) rfl
  rename_i file fs hread
  obtain ⟨heap, rfl⟩ := readForLoader_fs hread
  split at h
  · cases h
  rename_i again fs' hagain
  split at h
  · cases h
    exact .failed (Unchanged.refl hb hcur) rfl
  · rename_i plan hplan
    cases h
    apply Start.ofSetFs
    apply execStart_spec (k := k.setFs fs') hb hcur hnext hplan
    rintro hs f rfl
    exact hsafe hs f ⟨heap, fs', hagain⟩

theorem execTry_spec {paths : List CStr} {fs : Fs} (hfs : ∃ heap, fs = { k.files.fs with heap := heap })
    (hsafe : safe → ∀ p ∈ paths, ∀ f,
      Loadable mach k.files.fs (ctx.cwd.getD vfsRoot) p f → PassesChecks f → NoWrap f)
    (h : execTry mach (k.setFs fs) argv ctx paths = some r) : Start mach safe k r := by
  induction paths generalizing fs with
  | nil =>
      cases h
      exact .failed (Unchanged.refl hb hcur) rfl
  | cons p paths ih =>
      obtain ⟨heap, rfl⟩ := hfs
      rw [execTry] at h
      split at h
      · cases h
      · rename_i fs' hread
        obtain ⟨heap', rfl⟩ := execIsElfPath_fs hread
        exact ih ⟨heap', rfl⟩ (fun hs p' hp' => hsafe hs p' (List.mem_cons_of_mem p hp')) h
      · rename_i fs' hread
        obtain ⟨heap', rfl⟩ := execIsElfPath_fs hread
        obtain ⟨r', hrun, rfl⟩ := Option.map_eq_some_iff.mp h
        have hstart : Start mach safe (k.setFs { k.files.fs with heap := heap' }) r' :=
          execRunElfPath_spec hb hcur hnext (fun hs => hsafe hs p List.mem_cons_self) hrun
        exact hstart.ofSetFs.orFailed

theorem execRunPath_spec
    (hsafe : safe → LaunchSafe mach k.files.fs (ctx.cwd.getD vfsRoot) path)
    (h : execRunPath mach k path argv ctx = some r) : Start mach safe k r := by
  unfold execRunPath at h
  split at h
  · cases h
    exact .failed (Unchanged.refl hb hcur) rfl
  split at h
  · cases h
    refine .failed ⟨procView_congr (fun _ => rfl) (fun _ => rfl) rfl, keeps_of_elf rfl rfl,
      fun _ _ => memKept_of_same rfl rfl, hb.setMem k.core.mem _, ?_⟩ rfl
    exact currentOk_ofSame hcur rfl fun _ => rfl
  · exact execTry_spec hb hcur hnext ⟨k.files.fs.heap, rfl⟩ hsafe h

end Exec

end SlopOS.Proofs.Launching
