import SlopOS.Proofs.DiscFiles
import SlopOS.Proofs.HeapUse
import SlopOS.Proofs.PlacedRuns
import SlopOS.Proofs.ReachableStates
/-!
# What `vfs_stat` leaves behind

A path of the tree is answered from its node.  For a file of the CD the size comes from
`iso_read_file_alloc`, which copies the whole file to the heap: the copy is of no use to anybody
afterwards, and the heap takes nothing back.
-/

namespace SlopOS.Proofs.StatReads

open SlopOS.Support SlopOS.Kernel
open SlopOS.Proofs.FileTree SlopOS.Proofs.DiscFiles SlopOS.Proofs.HeapBlocks SlopOS.Proofs.HeapUse
open SlopOS.Proofs.FileSessions SlopOS.Proofs.FileSteps SlopOS.Proofs.PlacedRuns
open SlopOS.Proofs.ReachableStates (demoBoot)

/-! ## Repeated calls -/

/-- What so many calls answer, one after the other. -/
def stats (mach : Machine) (cwd : NodeId) (path : CStr) : Nat → Fs → Option (List (Bool × UserStat))
  | 0, _ => some []
  | n + 1, fs =>
    match vfsStat mach fs cwd path with
    | none => none
    | some (found, fs) => (stats mach cwd path n fs).map (found :: ·)

/-- A call leaves the tree, the mounts and the use of the heap, and every further call gives the
same answer. -/
structure StatPure (mach : Machine) (fs : Fs) (cwd : NodeId) (path : CStr) : Prop where
  frame : ∀ found fs', vfsStat mach fs cwd path = some (found, fs') →
    fs'.tree = fs.tree ∧ fs'.mounts = fs.mounts ∧ heapBytesUsed fs'.heap = heapBytesUsed fs.heap
  again : ∀ found fs', vfsStat mach fs cwd path = some (found, fs') →
    ∀ n, stats mach cwd path n fs = some (List.replicate n found)

/-- The path names a file on the CD that is not too large to be read, and the heap has room for
a copy. -/
def CopiesFile (mach : Machine) (fs : Fs) (cwd : NodeId) (path : CStr) : Prop :=
  path ≠ [] ∧ ∃ subpath id loc,
    vfsMountSubpath (vfsCheckPath fs.tree cwd path) = some subpath ∧
    mountedDevice fs.mounts cdromMount = some id ∧
    isoResolvePath (mach.storageRead id) subpath = some (some (loc, false)) ∧
    loc.size.toNat ≤ isoFileMax ∧ kmalloc fs.heap (loc.size + 1) ≠ none

/-- A kernel that has been started; it is linked at 1 MiB and ends below the memory of the
processes. -/
def BootedFs (fs : Fs) : Prop :=
  ∃ kernelEnd mbi magic mounts, 0x00100000 ≤ kernelEnd.toNat ∧ kernelEnd.toNat ≤ 0x00300000 ∧
    vfsInit mounts (heapInit kernelEnd mbi magic) = some fs

variable {mach : Machine} {fs fs' : Fs} {cwd : NodeId} {path subpath : CStr} {found : Bool × UserStat}
variable {k₀ k : KState} {es : List FileEvent}

theorem stats_of_same (h : vfsStat mach fs cwd path = some (found, fs)) (n : Nat) :
    stats mach cwd path n fs = some (List.replicate n found) := by
  induction n with
  | zero => rfl
  | succ n ih =>
      rw [stats, h]
      dsimp only
      rw [ih]
      rfl

/-! ## The heap of a kernel that is running -/

theorem heapFine_booted (h : BootedFs fs) : HeapFine fs.heap := by
  obtain ⟨kernelEnd, mbi, magic, mounts, hlow, hhigh, hinit⟩ := h
  exact (rises_of_steps (vfsInit_steps hinit) (heapFine_init hlow hhigh)).1

theorem heapFine_run (hboot : BootedFs k₀.files.fs)
    (hrun : Runs.run (fileStep mach) k₀ es = some k) : HeapFine k.files.fs.heap := by
  have hstep : ∀ k e k', True → HeapFine k.files.fs.heap → fileStep mach k e = some k' →
      HeapFine k'.files.fs.heap :=
    fun k e k' _ hfine h => (fileStep_rises h hfine).1
  exact Runs.invariant (I := fun k : KState => HeapFine k.files.fs.heap) hstep
    (Runs.AllSteps.trivial k₀ es) hrun (heapFine_booted hboot)

/-! ## One call -/

/-- A read from the mount leaves the heap, or it has copied a file. -/
theorem readFromMount_cases {data : Option Bytes} {heap' : Heap}
    (h : fsReadFileFromMount mach fs.mounts fs.heap cdromMount subpath = some (data, heap')) :
    heap' = fs.heap ∨ ∃ id loc, mountedDevice fs.mounts cdromMount = some id ∧
      isoResolvePath (mach.storageRead id) subpath = some (some (loc, false)) ∧
      loc.size.toNat ≤ isoFileMax ∧ kmalloc fs.heap (loc.size + 1) ≠ none := by
  unfold fsReadFileFromMount at h
  split at h
  · cases h
    exact Or.inl rfl
  rename_i id hdevice
  rcases readFileAlloc_cases h with ⟨-, hsame⟩ | ⟨loc, addr, hresolve, hmax, halloc, -⟩
  · exact Or.inl hsame
  · refine Or.inr ⟨id, loc, hdevice, hresolve, hmax, ?_⟩
    rw [halloc]
    exact Option.some_ne_none _

theorem vfsStat_same (hcopies : ¬CopiesFile mach fs cwd path)
    (h : vfsStat mach fs cwd path = some (found, fs')) : fs' = fs := by
  unfold vfsStat at h
  split at h
  · cases h
    rfl
  rename_i hne
  split at h
  · rename_i subpath hsub
    split at h
    · cases h
    · cases h
      rfl
    · obtain ⟨⟨data, heap'⟩, hread, hpair⟩ := Option.map_eq_some_iff.mp h
      have hheap : heap' = fs.heap := by
        rcases readFromMount_cases hread with hsame | ⟨id, loc, hdevice, hfile⟩
        · exact hsame
        · exact absurd ⟨hne, subpath, id, loc, hsub, hdevice, hfile⟩ hcopies
      rw [hheap] at hpair
      cases data <;>
      · cases hpair
        rfl
  · split at h <;>
    · cases h
      rfl

theorem vfsStat_copies (hfine : HeapFine fs.heap) (hcopies : CopiesFile mach fs cwd path) :
    ∃ found fs', vfsStat mach fs cwd path = some (found, fs') ∧
      heapBytesUsed fs'.heap ≠ heapBytesUsed fs.heap := by
  obtain ⟨hne, subpath, id, loc, hsub, hdevice, hresolve, hmax, hroom⟩ := hcopies
  obtain ⟨⟨addr, heap'⟩, halloc⟩ := Option.ne_none_iff_exists'.mp hroom
  have hread : ∃ data, fsReadFileFromMount mach fs.mounts fs.heap cdromMount subpath =
      some (data, heap') := by
    unfold fsReadFileFromMount
    rw [hdevice]
    exact ⟨_, readFileAlloc_of_file hresolve hmax halloc⟩
  obtain ⟨data, hread⟩ := hread
  have hdir : fsPathIsDirFromMount mach fs.mounts cdromMount subpath = some false := by
    unfold fsPathIsDirFromMount
    rw [hdevice]
    dsimp only
    unfold isoOpsPathIsDir
    rw [hresolve]
    rfl
  have hgrown : heapBytesUsed heap' ≠ heapBytesUsed fs.heap := by
    have hg := kmalloc_spec hfine.aligned hfine.limit_le halloc
    have hup : fs.heap.current.toNat + (loc.size + 1).toNat ≤ heap'.current.toNat := by
      rw [hg.current]
      exact Alignment.le_roundUp (by decide)
    have hpos : 0 < (loc.size + 1).toNat := by
      have hsmall : isoFileMax = 2097152 := rfl
      bv_omega
    unfold heapBytesUsed
    rw [hg.start]
    intro heq
    have hmark : heap'.current = fs.heap.current := by bv_omega
    rw [hmark] at hup
    omega
  unfold vfsStat
  rw [if_neg hne, hsub]
  dsimp only
  rw [hdir, hread]
  dsimp only
  rw [Option.map_some]
  cases data with
  | none => exact ⟨_, _, rfl, hgrown⟩
  | some bs => exact ⟨_, _, rfl, hgrown⟩

/-- A call is a pure observation, unless it copies a file of the CD. -/
theorem statPure_iff (hboot : BootedFs k₀.files.fs)
    (hrun : Runs.run (fileStep mach) k₀ es = some k) :
    StatPure mach k.files.fs cwd path ↔ ¬CopiesFile mach k.files.fs cwd path := by
  constructor
  · intro hpure hcopies
    obtain ⟨found, fs', hstat, hgrown⟩ := vfsStat_copies (heapFine_run hboot hrun) hcopies
    obtain ⟨-, -, hused⟩ := hpure.frame found fs' hstat
    exact hgrown hused
  · intro hcopies
    constructor
    case frame =>
      intro found fs' hstat
      rw [vfsStat_same hcopies hstat]
      exact ⟨rfl, rfl, rfl⟩
    case again =>
      intro found fs' hstat
      rw [vfsStat_same hcopies hstat] at hstat
      exact stats_of_same hstat

/-! ## Fixed kernels -/

/-- A kernel with this file system and no open files. -/
def freshState (fs : Fs) : KState where
  core := coreInit demoBoot.mach
  services := serviceInit
  files :=
    { fs := fs, fds := fun _ => bootFd, userCwd := none, userBootMbi := none,
      userBootMagic := 0, keyboard := fun _ => 0 }

theorem statPure_demo : ∃ fs k, BootedFs fs ∧
    Runs.run (fileStep demoBoot.mach) (freshState fs)
      [.tree (.makeDir vfsRoot (cstr "/tmp/a"))] = some k ∧
    StatPure demoBoot.mach k.files.fs vfsRoot (cstr "/mount/cdrom/b.elf") := by
  have hsome : ((vfsInit (fsInit (some 0))
      (heapInit 0x00180000 demoBoot.mbi demoBoot.magic)).bind fun fs =>
        Runs.run (fileStep demoBoot.mach) (freshState fs)
          [.tree (.makeDir vfsRoot (cstr "/tmp/a"))]).isSome := by decide +kernel
  obtain ⟨k, hsome⟩ := Option.isSome_iff_exists.mp hsome
  obtain ⟨fs, hinit, hrun⟩ := Option.bind_eq_some_iff.mp hsome
  have hboot : BootedFs fs :=
    ⟨0x00180000, demoBoot.mbi, demoBoot.magic, _, by decide, by decide, hinit⟩
  have hfresh : BootedFs (freshState fs).files.fs := hboot
  refine ⟨fs, k, hboot, hrun, (statPure_iff hfresh hrun).mpr ?_⟩
  rintro ⟨-, subpath, id, loc, hsub, hdevice, hresolve, -⟩
  have hpath : vfsMountSubpath (vfsCheckPath k.files.fs.tree vfsRoot (cstr "/mount/cdrom/b.elf")) =
      some (cstr "/b.elf") := by
    unfold vfsCheckPath
    rw [if_pos (by decide)]
    decide
  obtain rfl := Option.some.inj (hpath.symm.trans hsub)
  have hmissing : isoResolvePath (demoBoot.mach.storageRead 0) (cstr "/b.elf") = some none := by
    decide +kernel
  have hread : ∀ id, demoBoot.mach.storageRead id = demoBoot.mach.storageRead 0 := fun _ => rfl
  rw [hread, hmissing] at hresolve
  cases hresolve

/-- On a machine with little memory five calls find the file of the CD, and the sixth does not. -/
theorem not_statPure_disc : ∃ fs, BootedFs fs ∧
    stats demoBoot.mach vfsRoot (cstr "/mount/cdrom/a.elf") 6 fs =
      some (List.replicate 5 (true, ⟨modeFile, 84⟩) ++ [(false, ⟨0, 0⟩)]) ∧
    ¬StatPure demoBoot.mach fs vfsRoot (cstr "/mount/cdrom/a.elf") := by
  have hview : (vfsInit (fsInit (some 0))
      (heapInit 0x00180000 (some ⟨1, 640, 513⟩) multibootMagic)).map (fun fs =>
        (stats demoBoot.mach vfsRoot (cstr "/mount/cdrom/a.elf") 6 fs,
          (vfsStat demoBoot.mach fs vfsRoot (cstr "/mount/cdrom/a.elf")).map fun r =>
            (r.1, heapBytesUsed fs.heap, heapBytesUsed r.2.heap))) =
      some (some (List.replicate 5 (true, ⟨modeFile, 84⟩) ++ [(false, ⟨0, 0⟩)]),
        some ((true, ⟨modeFile, 84⟩), 512, 608)) := by decide +kernel
  obtain ⟨fs, hinit, hfs⟩ := Option.map_eq_some_iff.mp hview
  simp only [Prod.mk.injEq] at hfs
  obtain ⟨hstats, hstat⟩ := hfs
  refine ⟨fs, ⟨0x00180000, some ⟨1, 640, 513⟩, multibootMagic, _, by decide, by decide, hinit⟩,
    hstats, fun hpure => ?_⟩
  obtain ⟨⟨found, fs'⟩, hcall, hused⟩ := Option.map_eq_some_iff.mp hstat
  simp only [Prod.mk.injEq] at hused
  obtain ⟨-, hbefore, hafter⟩ := hused
  obtain ⟨-, -, hsame⟩ := hpure.frame found fs' hcall
  rw [hbefore, hafter] at hsame
  exact absurd hsame (by decide)

end SlopOS.Proofs.StatReads
