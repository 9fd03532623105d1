import SlopOS.Kernel.ShellLoop
import SlopOS.Proofs.WorkingDirs
/-!
# Runs of the two shells

Whatever is typed on the two consoles, and whatever the processes do in between, the kernel goes
through a run of its own transition system, the shells work in directories of the tree, and files
and descriptors go through a run of the events of `FileSessions`.
-/

namespace SlopOS.Proofs.ShellRuns

open SlopOS.Support SlopOS.Kernel
open SlopOS.Proofs.FileTree SlopOS.Proofs.FileEdits SlopOS.Proofs.FileSteps
open SlopOS.Proofs.FileSessions SlopOS.Proofs.TreeRuns SlopOS.Proofs.StepOutcomes
open SlopOS.Proofs.TableInvariant SlopOS.Proofs.ReachableStates SlopOS.Proofs.WorkingDirs
open SlopOS.Proofs.Tables SlopOS.Proofs.Scheduling

variable {b : Boot} {k k' : KState} {ctx ctx' : ShellContext} {call : ShellCall} {text : CStr}
variable {sys sys' : Sys} {s s' s₀ : ShellLoop} {e : LoopEvent} {es : List LoopEvent}
variable {t : Terminal} {c : U8} {o : Option U8}

/-! ## One call -/

/-- The kernel stays, or takes one step whose event names a directory. -/
def Follows (b : Boot) (sys sys' : Sys) : Prop :=
  sys' = sys ∨ ∃ e, NamesDir sys.kernel.files.fs.tree e ∧ step b sys e = some sys'

theorem Follows.refl (b : Boot) (sys : Sys) : Follows b sys sys := Or.inl rfl

theorem follows_shell {e : Event} (hcwd : NamesDir k.files.fs.tree e)
    (h : shellStep b k e = some sys) : Follows b ⟨k, .shell⟩ sys := Or.inr ⟨e, hcwd, h⟩

theorem follows_alloc {size ptr : U32} {heap : Heap}
    (h : Kernel.kmalloc k.files.fs.heap size = some (ptr, heap)) :
    Follows b ⟨k, .shell⟩ ⟨k.setFs { k.files.fs with heap := heap }, .shell⟩ := by
  have hstep : shellStep b k (.alloc size) =
      some ⟨k.setFs { k.files.fs with heap := heap }, .shell⟩ := by
    unfold shellStep
    dsimp only
    rw [h]
  exact follows_shell (e := .alloc size) True.intro hstep

theorem follows_read {path : CStr} {cwd : NodeId} {fs : Fs}
    {found : Option (Option Bytes × U32)}
    (h : vfsReadFile b.mach k.files.fs cwd path = some (found, fs)) :
    Follows b ⟨k, .shell⟩ ⟨k.setFs fs, .shell⟩ := by
  obtain ⟨heap, hallocs, rfl⟩ : ∃ heap, Allocs k.files.fs.heap heap ∧
      fs = { k.files.fs with heap := heap } := by
    unfold vfsReadFile at h
    split at h
    · obtain ⟨⟨data, heap⟩, hread, hpair⟩ := Option.map_eq_some_iff.mp h
      cases hpair
      exact ⟨heap, fsReadFileFromMount_allocs hread, rfl⟩
    split at h <;>
    · cases h
      exact ⟨_, Or.inl rfl, rfl⟩
  rcases hallocs with rfl | ⟨size, ptr, halloc⟩
  · exact .refl b _
  · exact follows_alloc halloc

structure Performed (b : Boot) (k : KState) (ctx ctx' : ShellContext) (sys : Sys) : Prop where
  output : ctx'.output = ctx.output
  input : ctx'.input = ctx.input
  follows : Follows b ⟨k, .shell⟩ sys
  cwd : ctx'.cwd = ctx.cwd ∨ IsDir sys.kernel.files.fs.tree ctx'.cwd

theorem performed_same (h : Follows b ⟨k, .shell⟩ sys) : Performed b k ctx ctx sys :=
  ⟨rfl, rfl, h, Or.inl rfl⟩

theorem perform_spec (hr : Rooted k) (hcwd : IsDir k.files.fs.tree ctx.cwd)
    (h : call.perform b k ctx = some (text, ctx', sys)) : Performed b k ctx ctx' sys := by
  cases call with
  | nothing =>
      cases h
      exact performed_same (.refl b _)
  | print text =>
      cases h
      exact performed_same (.refl b _)
  | clear =>
      cases h
      exact performed_same (.refl b _)
  | heapSummary =>
      cases h
      exact performed_same (.refl b _)
  | kmalloc size =>
      rw [ShellCall.perform] at h
      split at h
      · cases h
        exact performed_same (.refl b _)
      · rename_i ptr heap halloc
        cases h
        exact performed_same (follows_alloc halloc)
  | vfsList path =>
      obtain ⟨listed, -, heq⟩ := Option.map_eq_some_iff.mp h
      cases heq
      exact performed_same (.refl b _)
  | vfsReadFile path =>
      obtain ⟨⟨found, fs⟩, hread, heq⟩ := Option.map_eq_some_iff.mp h
      cases heq
      exact performed_same (follows_read hread)
  | execResumePid pid =>
      cases h
      exact performed_same (follows_shell (e := .resume pid ctx.cwd ctx.output) hcwd rfl)
  | vfsChangeDir path =>
      obtain ⟨⟨found, fs⟩, hchange, heq⟩ := Option.map_eq_some_iff.mp h
      obtain ⟨-, -, hdir⟩ := vfsChangeDir_edits hr.tree hcwd.1 hchange
      have hfollows : Follows b ⟨k, .shell⟩ ⟨k.setFs fs, .shell⟩ := by
        have hstep : shellStep b k (.cd ctx.cwd path) = some ⟨k.setFs fs, .shell⟩ := by
          unfold shellStep
          dsimp only
          rw [hchange, Option.map_some]
        exact follows_shell (e := .cd ctx.cwd path) hcwd hstep
      cases found with
      | none =>
          cases heq
          exact performed_same hfollows
      | some node =>
          cases heq
          exact ⟨rfl, rfl, hfollows, Or.inr (hdir node rfl)⟩
  | vfsWriteFile path text =>
      cases h
      exact performed_same (follows_shell (e := .echo ctx.cwd path text) hcwd rfl)
  | execRunPath path argv =>
      rw [ShellCall.perform] at h
      split at h
      · cases h
      rename_i hnext
      obtain ⟨r, hrun, heq⟩ := Option.map_eq_some_iff.mp h
      have hfollows : Follows b ⟨k, .shell⟩ (r.toSys .run) := by
        have hstep : shellStep b k (.launch path argv ctx.cwd ctx.output) = some (r.toSys .run) := by
          unfold shellStep
          dsimp only
          rw [if_neg hnext, hrun, Option.map_some]
        exact follows_shell (e := .launch path argv ctx.cwd ctx.output) hcwd hstep
      cases r with
      | returned rc k' =>
          cases heq
          exact performed_same hfollows
      | entered pid k' =>
          cases heq
          exact performed_same hfollows
  | stop => cases h

/-! ## One key -/

def IsEnter (c : U8) : Prop := c = chr '\n' ∨ c = chr '\r'

def IsErase (c : U8) : Prop := c = 8 ∨ c = 127

/-- A character that is put into the line. -/
def IsPlain (c : U8) : Prop := chr ' ' ≤ c ∧ c ≤ chr '~'

/-- The loop once the line of `t` has run, or once its process is in Ring 3. -/
def afterCall (s : ShellLoop) (t : Terminal) (text : CStr) (ctx : ShellContext) (sys : Sys) :
    ShellLoop :=
  let s := ({ s with sys := sys }.setShell t ctx).print t (cstr "\n" ++ text)
  if sys.ctl = .shell then s.endLine t else { s with line := some t }

def afterErase (s : ShellLoop) (t : Terminal) : ShellLoop :=
  (s.setShell t { s.shells t with input := (s.shells t).input.dropLast }).print t [8]

def afterPlain (s : ShellLoop) (t : Terminal) (c : U8) : ShellLoop :=
  (s.setShell t { s.shells t with input := (s.shells t).input ++ [c] }).print t [c]

inductive Keyed (b : Boot) (s : ShellLoop) (t : Terminal) (c : U8) : ShellLoop → Prop
  | enter {call : ShellCall} {text : CStr} {ctx : ShellContext} {sys : Sys} (hc : IsEnter c)
      (hline : shellExecuteLine (s.shells t).input = some call)
      (hperform : call.perform b s.sys.kernel (s.shells t) = some (text, ctx, sys)) :
      Keyed b s t c (afterCall s t text ctx sys)
  | erase (hc : IsErase c) (hsome : (s.shells t).input ≠ []) : Keyed b s t c (afterErase s t)
  | plain (hc : IsPlain c) (hroom : (s.shells t).input.length < shellInputMax) :
      Keyed b s t c (afterPlain s t c)
  | spare (hc : ¬IsEnter c) (herase : IsErase c → (s.shells t).input = [])
      (hplain : IsPlain c → shellInputMax ≤ (s.shells t).input.length) : Keyed b s t c s

theorem runLine_keyed (hc : IsEnter c) (h : s.runLine b t = some s') : Keyed b s t c s' := by
  unfold ShellLoop.runLine at h
  split at h
  · cases h
  rename_i call hline
  obtain ⟨⟨text, ctx, sys⟩, hperform, rfl⟩ := Option.map_eq_some_iff.mp h
  exact .enter hc hline hperform

theorem not_plain_of_erase (h : IsErase c) : ¬IsPlain c := by
  rcases h with rfl | rfl <;> unfold IsPlain <;> decide

theorem processChar_keyed (h : s.processChar b t c = some s') : Keyed b s t c s' := by
  unfold ShellLoop.processChar at h
  dsimp only at h
  by_cases hc : IsEnter c
  · have hnew : (if c = chr '\r' then chr '\n' else c) = chr '\n' := by
      rcases hc with rfl | rfl <;> rfl
    rw [hnew, if_pos rfl] at h
    exact runLine_keyed hc h
  obtain ⟨hnew, hret⟩ := not_or.mp hc
  rw [if_neg hret, if_neg hnew] at h
  by_cases herase : c = 8 ∨ c = 127
  · rw [if_pos herase] at h
    by_cases hnil : (s.shells t).input = []
    · rw [if_pos hnil] at h
      cases h
      exact .spare hc (fun _ => hnil) fun hplain => absurd hplain (not_plain_of_erase herase)
    · rw [if_neg hnil] at h
      cases h
      exact .erase herase hnil
  rw [if_neg herase] at h
  by_cases hplain : chr ' ' ≤ c ∧ c ≤ chr '~' ∧ (s.shells t).input.length < shellInputMax
  · rw [if_pos hplain] at h
    cases h
    exact .plain ⟨hplain.1, hplain.2.1⟩ hplain.2.2
  · rw [if_neg hplain] at h
    cases h
    refine .spare hc (fun h => absurd h herase) fun h => Nat.not_lt.mp fun hroom => ?_
    exact hplain ⟨h.1, h.2, hroom⟩

/-! ## One turn -/

inductive Turned (b : Boot) (s : ShellLoop) : LoopEvent → ShellLoop → Prop
  | silent {point : LoopPoint} (hctl : s.sys.ctl = .shell) :
      Turned b s (.poll none) { s with point := point }
  | key {t : Terminal} {c : U8} {point : LoopPoint} {s' : ShellLoop} (hctl : s.sys.ctl = .shell)
      (hpoll : s.point.polls = some t) (hkey : Keyed b { s with point := point } t c s') :
      Turned b s (.poll (some c)) s'
  | rest {sys : Sys} (hctl : s.sys.ctl = .shell) (hfollows : Follows b s.sys sys) :
      Turned b s .rest { s with sys := sys, point := .keyboard }
  | moved {e : LoopEvent} {sys : Sys} (hpoll : ∀ o, e ≠ .poll o)
      (hfollows : Follows b s.sys sys) : Turned b s e (s.follow sys)

theorem loopStep_turned (h : loopStep b s e = some s') : Turned b s e s' := by
  cases e with
  | poll o =>
      rw [loopStep] at h
      split at h
      · rename_i t hctl hpoll
        cases o with
        | none =>
            cases h
            exact .silent hctl
        | some c => exact .key hctl hpoll (processChar_keyed h)
      · cases h
  | rest =>
      rw [loopStep] at h
      split at h
      · rename_i hctl _
        cases h
        exact .rest hctl (.refl b _)
      · rename_i hctl _
        obtain ⟨sys, hstep, rfl⟩ := Option.map_eq_some_iff.mp h
        exact .rest hctl (Or.inr ⟨.autoResume, True.intro, hstep⟩)
      · cases h
  | tick =>
      obtain ⟨sys, hstep, rfl⟩ := Option.map_eq_some_iff.mp h
      exact .moved (fun o h => by cases h) (Or.inr ⟨.tick, True.intro, hstep⟩)
  | user regs bytes =>
      obtain ⟨sys, hstep, rfl⟩ := Option.map_eq_some_iff.mp h
      exact .moved (fun o h => by cases h) (Or.inr ⟨.user regs bytes, True.intro, hstep⟩)
  | syscall =>
      obtain ⟨sys, hstep, rfl⟩ := Option.map_eq_some_iff.mp h
      exact .moved (fun o h => by cases h) (Or.inr ⟨.syscall, True.intro, hstep⟩)

/-! ## Runs -/

/-- The kernel is in a state of its own transition system, and its files are in one of theirs. -/
structure Sound (b : Boot) (sys : Sys) : Prop where
  reachable : Reachable b sys
  files : Reached b.mach sys.kernel
  rooted : Rooted sys.kernel

theorem reached_covered (h : Reached b.mach k) (hcov : Covered b.mach k k') :
    Reached b.mach k' := by
  obtain ⟨k₀, es, hfresh, hrun⟩ := h
  obtain ⟨fs, hfs⟩ := hcov
  exact ⟨k₀, es ++ fs, hfresh, Runs.run_append_eq_some.mpr ⟨k, hrun, hfs⟩⟩

theorem Sound.follows (h : Sound b sys) (hf : Follows b sys sys') : Sound b sys' := by
  rcases hf with rfl | ⟨e, hcwd, hstep⟩
  · exact h
  · obtain ⟨s₀, es, hboot, hrun⟩ := h.reachable
    refine ⟨⟨s₀, es ++ [e], hboot, Runs.run_append_eq_some.mpr ⟨sys, hrun, ?_⟩⟩, ?_, ?_⟩
    · exact Runs.run_cons_eq_some.mpr ⟨sys', hstep, rfl⟩
    · exact reached_covered h.files (step_advances h.rooted hcwd hstep).covered
    · exact rooted_step (sysOk_of_reachable h.reachable) h.rooted hcwd hstep

theorem follows_isDir {n : Nat} (h : Rooted sys.kernel) (hf : Follows b sys sys')
    (hdir : IsDir sys.kernel.files.fs.tree n) : IsDir sys'.kernel.files.fs.tree n := by
  rcases hf with rfl | ⟨e, hcwd, hstep⟩
  · exact hdir
  · exact hdir.grows h.tree (step_advances h hcwd hstep).edits

/-- The shells are at work in directories, and have their own consoles. -/
structure ShellsOk (sys : Sys) (shells : Terminal → ShellContext) : Prop where
  cwds : ∀ t, IsDir sys.kernel.files.fs.tree (shells t).cwd
  outputs : ∀ t, (shells t).output = t.target

theorem ShellsOk.follows {shells : Terminal → ShellContext} (h : ShellsOk sys shells)
    (hr : Rooted sys.kernel) (hf : Follows b sys sys') : ShellsOk sys' shells :=
  ⟨fun t => follows_isDir hr hf (h.cwds t), h.outputs⟩

theorem ShellsOk.set {shells : Terminal → ShellContext} (h : ShellsOk sys shells)
    (hdir : IsDir sys.kernel.files.fs.tree ctx.cwd) (hout : ctx.output = t.target) :
    ShellsOk sys (Function.update shells t ctx) := by
  constructor
  all_goals
    intro u
    by_cases hu : u = t
  · rw [hu, Function.update_self]
    exact hdir
  · rw [Function.update_of_ne hu]
    exact h.cwds u
  · rw [hu, Function.update_self]
    exact hout
  · rw [Function.update_of_ne hu]
    exact h.outputs u

structure LoopOk (b : Boot) (s : ShellLoop) : Prop where
  sound : Sound b s.sys
  shells : ShellsOk s.sys s.shells
  idle : s.sys.ctl = .shell → s.line = none

theorem LoopOk.endLine (h : LoopOk b s) (t : Terminal) : LoopOk b (s.endLine t) where
  sound := h.sound
  shells := h.shells.set (h.shells.cwds t) (h.shells.outputs t)
  idle := h.idle

theorem LoopOk.keyed (h : LoopOk b s) (hctl : s.sys.ctl = .shell) (hkey : Keyed b s t c s') :
    LoopOk b s' := by
  cases hkey with
  | @enter call text ctx sys hc hline hperform =>
      have hcwd := h.shells.cwds t
      have hdone := perform_spec h.sound.rooted hcwd hperform
      have hsys : s.sys = ⟨s.sys.kernel, .shell⟩ := by rw [← hctl]
      have hfollows : Follows b s.sys sys := by
        rw [hsys]
        exact hdone.follows
      have hsound := h.sound.follows hfollows
      have hdir : IsDir sys.kernel.files.fs.tree ctx.cwd := by
        rcases hdone.cwd with hsame | hdir
        · rw [hsame]
          exact follows_isDir h.sound.rooted hfollows hcwd
        · exact hdir
      have hshells := (h.shells.follows h.sound.rooted hfollows).set hdir
        (hdone.output.trans (h.shells.outputs t))
      unfold afterCall
      dsimp only
      split
      · have hcalled : LoopOk b (({ s with sys := sys }.setShell t ctx).print t (cstr "\n" ++ text)) :=
          ⟨hsound, hshells, fun _ => h.idle hctl⟩
        exact hcalled.endLine t
      · rename_i huser
        exact ⟨hsound, hshells, fun hshell => absurd hshell huser⟩
  | erase => exact ⟨h.sound, h.shells.set (h.shells.cwds t) (h.shells.outputs t), h.idle⟩
  | plain => exact ⟨h.sound, h.shells.set (h.shells.cwds t) (h.shells.outputs t), h.idle⟩
  | spare => exact h

theorem LoopOk.follow (h : LoopOk b s) (hf : Follows b s.sys sys) : LoopOk b (s.follow sys) := by
  have hsound := h.sound.follows hf
  have hshells := h.shells.follows h.sound.rooted hf
  unfold ShellLoop.follow
  dsimp only
  split
  · split
    · rename_i hline
      exact ⟨hsound, hshells, fun _ => hline⟩
    · rename_i t hline
      exact ⟨hsound, hshells.set (hshells.cwds t) (hshells.outputs t), fun _ => rfl⟩
  · rename_i huser
    exact ⟨hsound, hshells, fun hshell => absurd hshell huser⟩

theorem LoopOk.turned (h : LoopOk b s) (hturn : Turned b s e s') : LoopOk b s' := by
  cases hturn with
  | silent => exact ⟨h.sound, h.shells, h.idle⟩
  | @key t c point _ hctl hpoll hkey =>
      have hpoint : LoopOk b { s with point := point } := ⟨h.sound, h.shells, h.idle⟩
      exact hpoint.keyed hctl hkey
  | rest hctl hfollows =>
      exact ⟨h.sound.follows hfollows, h.shells.follows h.sound.rooted hfollows,
        fun _ => h.idle hctl⟩
  | moved _ hfollows => exact h.follow hfollows

/-! ## From boot -/

theorem fresh_kmain (h : kmain b = some sys) : Fresh sys.kernel := by
  obtain ⟨fs, hinit, rfl⟩ := Option.map_eq_some_iff.mp h
  exact ⟨⟨_, _, hinit⟩, fun _ => rfl, rfl⟩

def Unplaced (c : Core) : Prop := ∀ q image, procGetImage c.proc q = some image → image.cwd = none

theorem Unplaced.spawn {mach : Machine} {n : Int} {c : Core} {name : Option CStr}
    (hboot : Booting mach n c) (h : Unplaced c) :
    Unplaced (((taskSpawnKernel c name 0).map Prod.snd).getD c) := by
  intro q image himage
  cases hspawn : taskSpawnKernel c name 0 with
  | none =>
      rw [hspawn] at himage
      exact h q image himage
  | some r =>
      obtain ⟨pid, c'⟩ := r
      have hborn := taskSpawn_spec hboot.base.synced hboot.base.zombie hboot.base.fresh hspawn
      rw [hspawn] at himage
      have himage' := (hborn.image q).symm.trans himage
      split at himage'
      · obtain rfl := Option.some.inj himage'
        rfl
      · exact h q image himage'

theorem unplaced_coreInit (mach : Machine) : Unplaced (coreInit mach) := by
  have hinit : Unplaced (bootCore mach) := by
    intro q image himage
    obtain ⟨slot, hslot⟩ := procPhase_ne_dead_iff.mp (live_of_procGetImage himage)
    rw [procGetImage_of_find hslot] at himage
    obtain rfl := Option.some.inj himage
    rfl
  have hboot := booting_bootCore mach
  exact (hinit.spawn hboot).spawn (hboot.spawn (by decide))

theorem sound_kmain (h : kmain b = some sys) : Sound b sys := by
  have hfresh := fresh_kmain h
  refine ⟨⟨sys, [], h, rfl⟩, ⟨sys.kernel, [], hfresh, rfl⟩, (filesOk_fresh hfresh).tree, ?_, ?_⟩
  · intro n hn
    rw [hfresh.userCwd] at hn
    cases hn
  · obtain ⟨fs, -, rfl⟩ := Option.map_eq_some_iff.mp h
    intro p image n himage hn
    rw [unplaced_coreInit b.mach p image himage] at hn
    cases hn

theorem loopOk_boot (h : shellLoop b = some s) : LoopOk b s := by
  obtain ⟨sys, hboot, rfl⟩ := Option.map_eq_some_iff.mp h
  have hsound := sound_kmain hboot
  obtain ⟨fs, -, rfl⟩ := Option.map_eq_some_iff.mp hboot
  exact ⟨hsound, ⟨fun _ => isDir_root hsound.rooted.tree, fun _ => rfl⟩, fun _ => rfl⟩

theorem loopOk_run (hinit : shellLoop b = some s₀) (hrun : Runs.run (loopStep b) s₀ es = some s) :
    LoopOk b s :=
  Runs.invariant (fun _ _ _ _ h hstep => h.turned (loopStep_turned hstep))
    (Runs.AllSteps.trivial s₀ es) hrun (loopOk_boot hinit)

/-- At every point of the loop the kernel is in a state that its own transition system reaches,
the files are in one that the events of `FileSessions` reach, and shells and processes work in
directories of the tree. -/
theorem shells_run (hinit : shellLoop b = some s₀) (hrun : Runs.run (loopStep b) s₀ es = some s) :
    Reachable b s.sys ∧ Reached b.mach s.sys.kernel ∧ Rooted s.sys.kernel ∧
      ∀ t, IsDir s.sys.kernel.files.fs.tree (s.shells t).cwd := by
  have hok := loopOk_run hinit hrun
  exact ⟨hok.sound.reachable, hok.sound.files, hok.sound.rooted, hok.shells.cwds⟩

def demoKeys (keyboard serial : CStr) : List LoopEvent :=
  keyboard.flatMap (fun c => [.poll (some c), .poll none, .rest]) ++
    serial.flatMap fun c => [.poll none, .poll (some c), .rest]

def demoLoop (es : List LoopEvent) : Option ShellLoop :=
  (shellLoop demoBoot).bind fun s₀ => Runs.run (loopStep demoBoot) s₀ es

def demoSession : List LoopEvent :=
  (demoKeys (cstr "cd docs\r") (cstr "/mount/cdrom/a.elf\r")).dropLast

theorem shells_run_demo : ∃ s, demoLoop demoSession = some s ∧ s.sys.ctl = .user 3 .run ∧
    (s.shells .vga).cwd = 1 ∧ Reachable demoBoot s.sys ∧ Reached demoBoot.mach s.sys.kernel ∧
      Rooted s.sys.kernel ∧ ∀ t, IsDir s.sys.kernel.files.fs.tree (s.shells t).cwd := by
  have hview : (demoLoop demoSession).map (fun s => (s.sys.ctl, (s.shells .vga).cwd)) =
      some (.user 3 .run, 1) := by decide +kernel
  obtain ⟨s, hs, hpair⟩ := Option.map_eq_some_iff.mp hview
  obtain ⟨s₀, hinit, hrun⟩ := Option.bind_eq_some_iff.mp hs
  obtain ⟨hctl, hcwd⟩ := Prod.mk.inj hpair
  exact ⟨s, hs, hctl, hcwd, shells_run hinit hrun⟩

end SlopOS.Proofs.ShellRuns
