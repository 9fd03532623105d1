import SlopOS.Kernel.Atapi
import SlopOS.Kernel.Iso
/-!
# `fs.c`: mounting

The mount table while it is built, over the table of block devices.
-/

namespace SlopOS.Kernel

open SlopOS.Support SlopOS.Support.PortBus

def maxMounts : Nat := 8

def fsOpsForName (fsName : CStr) : Option FsOps :=
  if strEq fsName (cstr "iso9660") then some .iso9660 else none

def isKnownFs (fsName : CStr) : Bool :=
  strEq fsName (cstr "memfs") || (fsOpsForName fsName).isSome

/-- `fs_mount`; a pointer that is null is `none`. -/
def fsMount {α σ : Type} (devices : BlockDevices α σ) (path fsName : Option CStr) (deviceId : Int)
    (mounts : Mounts) : Bool × Mounts :=
  match path, fsName with
  | some path, some fsName =>
    let ops := fsOpsForName fsName
    if maxMounts ≤ mounts.length ∨ isKnownFs fsName = false then (false, mounts)
    else if path.head? ≠ some (chr '/') then (false, mounts)
    else if strEq fsName (cstr "memfs") = false ∧ (storageGetDevice devices deviceId).isNone then
      (false, mounts)
    else (true, mounts ++ [⟨strCopy path 16, strCopy fsName 16, deviceId, ops⟩])
  -- the file system is looked up before the tests, but not used then
  | _, _ => (false, mounts)

/-- `fs_init` by its calls. -/
def fsInitCalls {α σ : Type} (devices : BlockDevices α σ) : Mounts :=
  let mounts := (fsMount devices (some (cstr "/")) (some (cstr "memfs")) (-1) []).2
  match storageFindDevice devices (cstr "cd0") with
  | none => mounts
  | some cd0 =>
    (fsMount devices (some (cstr "/mount/cdrom")) (some (cstr "iso9660")) cd0.id mounts).2

end SlopOS.Kernel
