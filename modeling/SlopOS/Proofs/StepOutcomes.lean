import SlopOS.Kernel.System
/-!
# The ways through a step

The stub of `int 0x80` and the commands of the shell taken apart once: one case
for each way, with the tests that lead there and the state that it leaves.
-/

namespace SlopOS.Proofs.StepOutcomes

open SlopOS.Support SlopOS.Kernel

variable {b : Boot} {mach : Machine} {k k' : KState} {e : Event} {s' : Sys} {pid : Int}
variable {caller : Caller}

/-! ## The stub -/

def Asks (k : KState) (num : U32) : Prop :=
  k.core.ring3.regs.eax = num ∧
    (decide (k.core.ring3.regs.cs &&& 3 = 3) || k.core.ring3.active) = true

theorem asks_iff (hactive : k.core.ring3.active = true) (num : U32) :
    Asks k num ↔ k.core.ring3.regs.eax = num := by
  unfold Asks
  rw [hactive, Bool.or_true, and_iff_left rfl]

/-- None of the three calls that the stub handles itself. -/
structure Plain (k : KState) : Prop where
  exit : ¬Asks k sysExit
  retKernel : ¬Asks k sysRetKernel
  yield : ¬Asks k sysYield

theorem Plain.eax_ne (h : Plain k) (hactive : k.core.ring3.active = true) :
    k.core.ring3.regs.eax ≠ sysExit := fun heax => h.exit ((asks_iff hactive _).mpr heax)

/-- `syscall_entry` with the registers of the process. -/
def entered (mach : Machine) (k : KState) : Outcome :=
  syscallEntry mach k k.core.ring3.regs.eax k.core.ring3.regs.ebx k.core.ring3.regs.ecx
    k.core.ring3.regs.edx k.core.ring3.regs.esi k.core.ring3.regs.edi

inductive StubDone (mach : Machine) (k : KState) : Bool → KState → Prop
  | exited (hasks : Asks k sysExit) : StubDone mach k true
      (k.setCore (returnToKernel (setExit k.core k.core.ring3.regs.ebx)))
  | left (hasks : Asks k sysRetKernel) : StubDone mach k true
      (k.setCore (returnToKernel (setStop k.core 2)))
  | yielded (hasks : Asks k sysYield) : StubDone mach k true
      (k.setCore (returnToKernel (setStop (syscallSaveYieldContext k.core k.core.ring3.regs) 1)))
  | blocked {k₁ : KState} (hplain : Plain k) (hdone : (entered mach k).done = some (errBlocked, k₁)) :
      StubDone mach k true
        (k₁.setCore (returnToKernel (setStop (syscallSaveYieldContext k₁.core k.core.ring3.regs) 3)))
  | returned {r : Int} {k₁ : KState} (hplain : Plain k) (hdone : (entered mach k).done = some (r, k₁))
      (hr : r ≠ errBlocked) : StubDone mach k false
        (k₁.setCore { k₁.core with
          ring3 := { k₁.core.ring3 with regs := { k₁.core.ring3.regs with eax := toU32 r } } })

theorem syscallStub_cases {out : Bool} (h : syscallStub mach k = some (out, k')) :
    StubDone mach k out k' := by
  unfold syscallStub at h
  dsimp only at h
  split at h
  · rename_i hasks
    cases h
    exact .exited hasks
  rename_i hexit
  split at h
  · rename_i hasks
    cases h
    exact .left hasks
  rename_i hret
  split at h
  · rename_i hasks
    cases h
    exact .yielded hasks
  rename_i hyield
  split at h
  · cases h
  rename_i r k₁ hdone
  split at h
  · rename_i hr
    rw [hr] at hdone
    cases h
    exact .blocked ⟨hexit, hret, hyield⟩ hdone
  · rename_i hr
    cases h
    exact .returned ⟨hexit, hret, hyield⟩ hdone hr

/-! ## A process in Ring 3 -/

inductive UserDone (b : Boot) (k : KState) (pid : Int) (caller : Caller) : Event → Sys → Prop
  | tick : UserDone b k pid caller .tick
      ⟨k.setCore (schedulerOnTimerTick k.core), .user pid caller⟩
  | user (regs : UserContext) (bytes : ByteMem.Mem) : UserDone b k pid caller (.user regs bytes)
      ⟨k.setCore (runUser k.core pid regs bytes), .user pid caller⟩
  | back {k' : KState} (hstub : syscallStub b.mach k = some (false, k')) :
      UserDone b k pid caller .syscall ⟨k', .user pid caller⟩
  | stopped {k' : KState} (hstub : syscallStub b.mach k = some (true, k')) :
      UserDone b k pid caller .syscall (stopUser k' pid caller)

theorem userStep_cases (h : userStep b k pid caller e = some s') : UserDone b k pid caller e s' := by
  cases e with
  | tick =>
      cases h
      exact .tick
  | user regs bytes =>
      cases h
      exact .user regs bytes
  | syscall =>
      rw [userStep] at h
      split at h
      · cases h
      · rename_i hstub
        cases h
        exact .back hstub
      · rename_i hstub
        obtain rfl := Option.some.inj h
        exact .stopped hstub
  | _ => cases h

/-! ## The shell -/

inductive FileCommand (b : Boot) (k : KState) : Event → Fs → Prop
  | echo (cwd : NodeId) (path : CStr) (text : Bytes) : FileCommand b k (.echo cwd path text)
      (vfsWriteFile k.files.fs cwd path (text.getD · 0) (BitVec.ofNat 32 text.length)).2
  | cd {cwd : NodeId} {path : CStr} {found : Option NodeId} {fs : Fs}
      (hchange : vfsChangeDir b.mach k.files.fs cwd path = some (found, fs)) :
      FileCommand b k (.cd cwd path) fs
  | full {size : U32} (hnone : kmalloc k.files.fs.heap size = none) :
      FileCommand b k (.alloc size) k.files.fs
  | alloc {size ptr : U32} {heap : Heap} (halloc : kmalloc k.files.fs.heap size = some (ptr, heap)) :
      FileCommand b k (.alloc size) { k.files.fs with heap := heap }

def enteredCtl (ok : Bool) (pid : Int) (caller : Caller) : Ctl :=
  if ok then .user pid caller else .shell

inductive ShellDone (b : Boot) (k : KState) : Event → Sys → Prop
  | launch {path : CStr} {argv : List CStr} {cwd : NodeId} {output : ConsoleTarget} {r : Entered}
      (hnext : k.core.proc.nextPid < 2 ^ 31 - 1)
      (hrun : execRunPath b.mach k path argv ⟨output, some cwd, b.mbi, b.magic⟩ = some r) :
      ShellDone b k (.launch path argv cwd output) (r.toSys .run)
  | idle (hnone : taskResumeNextReadyUser k b.mbi b.magic = none) :
      ShellDone b k .autoResume ⟨k, .shell⟩
  | auto {i : Fin maxTasks} {image : ProcImage} {ok : Bool} {k' : KState}
      (hfind : Fin.find? (resumable k.core) = some i)
      (himage : procGetImage k.core.proc (k.core.task.tasks i).pid = some image)
      (henter : taskRunUserEnter k (k.core.task.tasks i).pid 0 (fun _ => none)
        ⟨image.output, image.cwd, b.mbi, b.magic⟩ = (ok, k')) :
      ShellDone b k .autoResume ⟨k', enteredCtl ok (k.core.task.tasks i).pid (.auto i)⟩
  | kept (pid : Int) (cwd : NodeId) (output : ConsoleTarget) :
      ShellDone b k (.resume pid cwd output) ⟨k, .shell⟩
  | resume {pid : Int} {cwd : NodeId} {output : ConsoleTarget} {image : ProcImage} {ok : Bool}
      {k' : KState} (himage : procGetImage k.core.proc pid = some image) (hpos : 0 < pid)
      (hloaded : image.loaded = true) (hvalid : image.contextValid = true)
      (henter : taskRunUserEnter k pid 0 (fun _ => none) ⟨output, some cwd, b.mbi, b.magic⟩ =
        (ok, k')) :
      ShellDone b k (.resume pid cwd output) ⟨k', enteredCtl ok pid .resume⟩
  | files {e : Event} {fs : Fs} (hfiles : FileCommand b k e fs) : ShellDone b k e ⟨k.setFs fs, .shell⟩
  | tick : ShellDone b k .tick ⟨k.setCore (schedulerOnTimerTick k.core), .shell⟩

theorem autoResume_cases (h : shellStep b k .autoResume = some s') :
    ShellDone b k .autoResume s' := by
  unfold shellStep at h
  dsimp only at h
  cases hresume : taskResumeNextReadyUser k b.mbi b.magic with
  | none =>
      rw [hresume] at h
      cases h
      exact .idle hresume
  | some found =>
      obtain ⟨i, ok, k'⟩ := found
      have hs : s' = ⟨k', enteredCtl ok (k.core.task.tasks i).pid (.auto i)⟩ := by
        rw [hresume] at h
        cases ok <;> exact (Option.some.inj h).symm
      unfold taskResumeNextReadyUser at hresume
      split at hresume
      · cases hresume
      rename_i hfind
      dsimp only at hresume
      split at hresume
      · cases hresume
      · rename_i himage
        cases hresume
        rw [hs]
        exact .auto hfind himage rfl

theorem resume_cases (b : Boot) (k : KState) (pid : Int) (cwd : NodeId) (output : ConsoleTarget) :
    ShellDone b k (.resume pid cwd output)
      ((execResumePid k pid ⟨output, some cwd, b.mbi, b.magic⟩).toSys .resume) := by
  unfold execResumePid
  split
  · exact .kept pid cwd output
  rename_i image himage
  split
  · exact .kept pid cwd output
  rename_i hgood
  rw [not_or, not_or, not_not, not_not, Int.not_le] at hgood
  split
  · rename_i henter
    exact .resume himage hgood.1 hgood.2.1 hgood.2.2 henter
  · rename_i henter
    exact .resume himage hgood.1 hgood.2.1 hgood.2.2 henter

theorem shellStep_cases (h : shellStep b k e = some s') : ShellDone b k e s' := by
  cases e with
  | launch path argv cwd output =>
      unfold shellStep at h
      dsimp only at h
      split at h
      · cases h
      rename_i hnext
      obtain ⟨r, hrun, rfl⟩ := Option.map_eq_some_iff.mp h
      exact .launch (Int.not_le.mp hnext) hrun
  | autoResume => exact autoResume_cases h
  | resume pid cwd output =>
      cases h
      exact resume_cases b k pid cwd output
  | echo cwd path text =>
      cases h
      exact .files (.echo cwd path text)
  | cd cwd path =>
      obtain ⟨⟨found, fs⟩, hchange, rfl⟩ := Option.map_eq_some_iff.mp h
      exact .files (.cd hchange)
  | alloc size =>
      unfold shellStep at h
      dsimp only at h
      split at h
      · rename_i hnone
        cases h
        exact .files (.full hnone)
      · rename_i halloc
        cases h
        exact .files (.alloc halloc)
  | tick =>
      cases h
      exact .tick
  | user regs bytes => cases h
  | syscall => cases h

end SlopOS.Proofs.StepOutcomes
