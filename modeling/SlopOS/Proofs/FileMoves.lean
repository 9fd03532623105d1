import SlopOS.Proofs.FileSteps
import SlopOS.Proofs.StepOutcomes
/-!
# Files over a step of the system

Whatever the event, the file system goes through the steps of `FileSteps`, and only a system call
of the running process can change a descriptor.
-/

namespace SlopOS.Proofs.FileMoves

open SlopOS.Support SlopOS.Kernel
open SlopOS.Proofs.FileSteps SlopOS.Proofs.StepOutcomes

/-- The file system has gone through steps, and no descriptor has changed. -/
structure KeepsFds (k k' : KState) : Prop where
  steps : FsSteps k.files.fs k'.files.fs
  fds : k'.files.fds = k.files.fds

def Entered.kernel : Entered → KState
  | .returned _ k => k
  | .entered _ k => k

@[simp] theorem kernel_orFailed (r : Entered) : Entered.kernel r.orFailed = Entered.kernel r := by
  cases r <;> rfl

variable {mach : Machine} {b : Boot} {k k' k₁ : KState} {fs fs' : Fs} {cwd : NodeId} {path : CStr}
variable {argv : List CStr} {ctx : ExecContext} {r : Entered} {s s' : Sys} {e : Event}
variable {pid : Int} {caller : Caller}

theorem KeepsFds.refl (k : KState) : KeepsFds k k := ⟨.refl, rfl⟩

theorem keepsFds_of_files (h : k'.files = k.files) : KeepsFds k k' where
  steps := by
    rw [h]
    exact .refl
  fds := by rw [h]

theorem keepsFds_setFs (h : FsSteps k.files.fs fs) : KeepsFds k (k.setFs fs) := ⟨h, rfl⟩

theorem KeepsFds.trans (h : KeepsFds k k₁) (h' : KeepsFds k₁ k') : KeepsFds k k' :=
  ⟨h.steps.trans h'.steps, h'.fds.trans h.fds⟩

/-! ## Launching -/

theorem taskRunUserEnter_keeps {argc : Int} {argv : Nat → Option CStr} {ok : Bool}
    (h : taskRunUserEnter k pid argc argv ctx = (ok, k')) : KeepsFds k k' := by
  unfold taskRunUserEnter at h
  split at h
  · cases h
    exact .refl k
  split at h
  · cases h
    exact .refl k
  · cases h
    exact ⟨.refl, rfl⟩

theorem execStart_keeps (k : KState) (path : CStr) (argv : List CStr) (ctx : ExecContext)
    (ppid : Int) (file : FileView) (plan : ExecLoadPlan) :
    KeepsFds k (Entered.kernel (execStart mach k path argv ctx ppid file plan)) := by
  unfold execStart
  split
  · exact .refl k
  dsimp only
  split
  · exact keepsFds_of_files rfl
  split
  all_goals
    rename_i heq
    have henter := taskRunUserEnter_keeps heq
    exact ⟨henter.steps, henter.fds⟩

theorem readForLoader_steps {f : Option FileView}
    (h : readForLoader mach fs cwd path = some (f, fs')) : FsSteps fs fs' := by
  unfold readForLoader at h
  split at h
  · cases h
  · rename_i hread
    cases h
    exact vfsReadFile_steps hread
  · rename_i hread
    cases h
    exact vfsReadFile_steps hread

theorem execIsElfPath_steps {isElf : Bool}
    (h : execIsElfPath mach fs cwd path = some (isElf, fs')) : FsSteps fs fs' := by
  unfold execIsElfPath at h
  split at h
  · cases h
  · rename_i hread
    cases h
    exact vfsReadFile_steps hread
  · rename_i hread
    cases h
    exact vfsReadFile_steps hread

theorem execRunElfPath_keeps (h : execRunElfPath mach k path argv ctx = some r) :
    KeepsFds k (Entered.kernel r) := by
  unfold execRunElfPath at h
  dsimp only at h
  split at h
  · cases h
  · rename_i hread
    cases h
    exact keepsFds_setFs (readForLoader_steps hread)
  rename_i hread
  split at h
  · cases h
  rename_i hagain
  have hsteps := (readForLoader_steps hread).trans (readForLoader_steps hagain)
  split at h
  · cases h
    exact keepsFds_setFs hsteps
  · cases h
    exact (keepsFds_setFs hsteps).trans (execStart_keeps _ _ _ _ _ _ _)

theorem execTry_keeps {paths : List CStr} (h : execTry mach k argv ctx paths = some r) :
    KeepsFds k (Entered.kernel r) := by
  induction paths generalizing k with
  | nil =>
      cases h
      exact .refl k
  | cons p paths ih =>
      rw [execTry] at h
      split at h
      · cases h
      · rename_i hread
        exact (keepsFds_setFs (execIsElfPath_steps hread)).trans (ih h)
      · rename_i hread
        obtain ⟨r', hrun, rfl⟩ := Option.map_eq_some_iff.mp h
        rw [kernel_orFailed]
        exact (keepsFds_setFs (execIsElfPath_steps hread)).trans (execRunElfPath_keeps hrun)

theorem execRunPath_keeps (h : execRunPath mach k path argv ctx = some r) :
    KeepsFds k (Entered.kernel r) := by
  unfold execRunPath at h
  split at h
  · cases h
    exact .refl k
  split at h
  · cases h
    exact keepsFds_of_files rfl
  · exact execTry_keeps h

/-! ## Steps -/

/-- The state is left by a call of `syscall_entry` with any arguments, or no descriptor has
changed. -/
def CallOrKeeps (mach : Machine) (k k' : KState) : Prop :=
  KeepsFds k k' ∨ ∃ num a1 a2 a3 a4 a5 r k₁,
    (syscallEntry mach k num a1 a2 a3 a4 a5).done = some (r, k₁) ∧ k'.files = k₁.files

theorem syscallStub_files {left : Bool} (h : syscallStub mach k = some (left, k')) :
    CallOrKeeps mach k k' := by
  cases syscallStub_cases h with
  | exited => exact Or.inl (keepsFds_of_files rfl)
  | left => exact Or.inl (keepsFds_of_files rfl)
  | yielded => exact Or.inl (keepsFds_of_files rfl)
  | blocked _ hdone => exact Or.inr ⟨_, _, _, _, _, _, _, _, hdone, rfl⟩
  | returned _ hdone => exact Or.inr ⟨_, _, _, _, _, _, _, _, hdone, rfl⟩

theorem callOrKeeps_stop (pid : Int) (caller : Caller) (h : CallOrKeeps mach k k') :
    CallOrKeeps mach k (stopUser k' pid caller).kernel := by
  have hfiles : (stopUser k' pid caller).kernel.files = k'.files := by
    unfold stopUser
    rfl
  rcases h with hkeeps | ⟨num, a1, a2, a3, a4, a5, r, k₁, hdone, hsame⟩
  · exact Or.inl (hkeeps.trans (keepsFds_of_files hfiles))
  · exact Or.inr ⟨num, a1, a2, a3, a4, a5, r, k₁, hdone, hfiles.trans hsame⟩

theorem toSys_kernel (caller : Caller) (r : Entered) :
    (Entered.toSys caller r).kernel = Entered.kernel r := by
  cases r <;> rfl

theorem shellStep_keeps (h : shellStep b k e = some s') : KeepsFds k s'.kernel := by
  cases shellStep_cases h with
  | launch _ hrun =>
      rw [toSys_kernel]
      exact execRunPath_keeps hrun
  | idle => exact .refl k
  | auto _ _ henter => exact taskRunUserEnter_keeps henter
  | kept => exact .refl k
  | resume _ _ _ _ henter => exact taskRunUserEnter_keeps henter
  | files hfiles =>
      cases hfiles with
      | echo => exact keepsFds_setFs (vfsWriteFile_steps _ _ _ _ _)
      | cd hchange => exact keepsFds_setFs (vfsChangeDir_steps hchange)
      | full => exact .refl k
      | alloc halloc => exact keepsFds_setFs (FsSteps.refl.alloc halloc)
  | tick => exact keepsFds_of_files rfl

theorem userStep_files (h : userStep b k pid caller e = some s') :
    CallOrKeeps b.mach k s'.kernel := by
  cases userStep_cases h with
  | tick => exact Or.inl (keepsFds_of_files rfl)
  | user => exact Or.inl (keepsFds_of_files rfl)
  | back hstub => exact syscallStub_files hstub
  | stopped hstub => exact callOrKeeps_stop pid caller (syscallStub_files hstub)

end SlopOS.Proofs.FileMoves
