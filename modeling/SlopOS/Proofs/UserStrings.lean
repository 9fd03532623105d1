import SlopOS.Proofs.Creation
import SlopOS.Proofs.Closing
/-!
# Strings that are longer than the buffers

A path that a process passes goes through three buffers of 128 bytes: the copy of the user string,
the absolute path that `ksys_open` makes of it, and the text that the mount tests look at.  Each
has its own rule for what does not fit: `copy_user_cstr` cuts the string, `make_abs_path` refuses
it, and the mount tests fall back to the relative path.
-/

namespace SlopOS.Proofs.UserStrings

open SlopOS.Support SlopOS.Support.PathText SlopOS.Kernel
open SlopOS.Proofs.FileTree SlopOS.Proofs.FilePaths SlopOS.Proofs.FileEdits SlopOS.Proofs.TreeRuns
open SlopOS.Proofs.PrintedPaths SlopOS.Proofs.StatOpen SlopOS.Proofs.Creation
open SlopOS.Proofs.FileCalls SlopOS.Proofs.FileWrites SlopOS.Proofs.FileSessions

variable {mach : Machine} {k k' : KState} {fs fs' : Fs} {t u : VfsTree} {cwd n : Nat}
variable {s kpath path full : CStr} {ptr st flags : U32} {fd : Int} {slot : Fin fdMax}

/-! ## The string -/

/-- The NUL-terminated string at `ptr`. -/
def UserString (mem : ByteMem.Mem) : U32 → CStr → Prop
  | ptr, [] => mem ptr = 0
  | ptr, c :: s => mem ptr = c ∧ c ≠ 0 ∧ UserString mem (ptr + 1) s

/-- What a path can stand for: a place on the CD, by its path there, or a node of the tree. -/
inductive Place
  | disc (path : CStr)
  | node (n : Nat)
  | nowhere
deriving DecidableEq

/-- The place that `path` stands for where the mount tests look at `text`. -/
def placeIn (t : VfsTree) (cwd : Nat) (text path : CStr) : Place :=
  match vfsMountSubpath text with
  | some subpath => .disc subpath
  | none =>
    match vfsResolveFrom t cwd path with
    | some n => .node n
    | none => .nowhere

/-- The place that `vfs_read_file` and `vfs_stat` look at. -/
def lookedAt (t : VfsTree) (cwd : Nat) (path : CStr) : Place :=
  placeIn t cwd (vfsCheckPath t cwd path) path

def wholeCwd (t : VfsTree) (cwd : Nat) : CStr := chr '/' :: [chr '/'].intercalate (pathOf t cwd)

/-- The whole of a path, as it is seen from the working directory. -/
def wholePath (t : VfsTree) (cwd : Nat) (s : CStr) : CStr :=
  if s.head? = some (chr '/') then s else slashed (wholeCwd t cwd) ++ s

/-- The place that the whole of `s` names. -/
def named (t : VfsTree) (cwd : Nat) (s : CStr) : Place := placeIn t cwd (wholePath t cwd s) s

theorem vfsReadFile_place (mach : Machine) (fs : Fs) (cwd : Nat) (path : CStr) :
    vfsReadFile mach fs cwd path =
      match lookedAt fs.tree cwd path with
      | .disc subpath => (fsReadFileFromMount mach fs.mounts fs.heap cdromMount subpath).map
          fun (data, heap) =>
            (data.map fun bs => (some bs, BitVec.ofNat 32 bs.length), { fs with heap := heap })
      | .node n => some (if (fs.tree.node n).type = .file then
          some ((fs.tree.node n).data, (fs.tree.node n).size) else none, fs)
      | .nowhere => some (none, fs) := by
  unfold vfsReadFile lookedAt placeIn
  cases vfsMountSubpath (vfsCheckPath fs.tree cwd path) with
  | some subpath => rfl
  | none => cases vfsResolveFrom fs.tree cwd path <;> rfl

theorem vfsStat_place (mach : Machine) (fs : Fs) (cwd : Nat) (hne : path ≠ []) :
    vfsStat mach fs cwd path =
      match lookedAt fs.tree cwd path with
      | .disc subpath =>
        match fsPathIsDirFromMount mach fs.mounts cdromMount subpath with
        | none => none
        | some true => some ((true, ⟨modeDir, 0⟩), fs)
        | some false => (fsReadFileFromMount mach fs.mounts fs.heap cdromMount subpath).map
            fun (data, heap) => match data with
              | none => ((false, ⟨0, 0⟩), { fs with heap := heap })
              | some bs =>
                ((true, ⟨modeFile, BitVec.ofNat 32 bs.length⟩), { fs with heap := heap })
      | .node n => some (if (fs.tree.node n).type = .dir then (true, ⟨modeDir, 0⟩)
          else (true, ⟨modeFile, (fs.tree.node n).size⟩), fs)
      | .nowhere => some ((false, ⟨0, 0⟩), fs) := by
  unfold vfsStat lookedAt placeIn
  rw [if_neg hne]
  cases vfsMountSubpath (vfsCheckPath fs.tree cwd path) with
  | some subpath => rfl
  | none => cases vfsResolveFrom fs.tree cwd path <;> rfl

/-- Of a path the two functions take the place that it stands for, and nothing else. -/
theorem reads_alike {path' : CStr} (hne : path ≠ []) (hne' : path' ≠ [])
    (h : lookedAt fs.tree cwd path = lookedAt fs.tree cwd path') :
    vfsReadFile mach fs cwd path = vfsReadFile mach fs cwd path' ∧
      vfsStat mach fs cwd path = vfsStat mach fs cwd path' := by
  constructor
  · rw [vfsReadFile_place, vfsReadFile_place, h]
  · rw [vfsStat_place mach fs cwd hne, vfsStat_place mach fs cwd hne', h]

instance UserString.decidable (mem : ByteMem.Mem) :
    ∀ (ptr : U32) (s : CStr), Decidable (UserString mem ptr s)
  | ptr, [] => inferInstanceAs (Decidable (mem ptr = 0))
  | ptr, c :: s =>
    have : Decidable (UserString mem (ptr + 1) s) := UserString.decidable mem (ptr + 1) s
    inferInstanceAs (Decidable (mem ptr = c ∧ c ≠ 0 ∧ UserString mem (ptr + 1) s))

end SlopOS.Proofs.UserStrings
