import SlopOS.Kernel.Core
import SlopOS.Kernel.Heap
/-!
# `fs.c`: ISO9660 and the mount table

A directory is scanned record by record with an untrusted step, so a scan may
never end: the scanning functions return `none` for a call that does not
return, and `some` of their result otherwise.  A scan that makes more turns
than there are 32-bit offsets has repeated one and goes on for ever, which is
why `scanFuel` turns decide the matter.
-/

namespace SlopOS.Kernel

def isoSectorSize : Nat := 2048
def isoFileMax : Nat := 2 * 1024 * 1024
def direntNameSize : Nat := 64

structure IsoDirLoc where
  extentLba : U32
  size : U32
  flags : U8
deriving Repr, DecidableEq

structure FsDirEntry where
  name : CStr
  isDir : Bool
deriving Repr, DecidableEq

def readU32Le (p : Nat → U8) : U32 := SlopOS.Support.ByteMem.wordOf (p 0) (p 1) (p 2) (p 3)

def asciiLower (c : U8) : U8 := if chr 'A' ≤ c ∧ c ≤ chr 'Z' then c - chr 'A' + chr 'a' else c

def cstrOf (buf : List U8) : CStr := buf.takeWhile fun c => c ≠ 0

def namesMatchCasefold : CStr → CStr → Bool
  | [], [] => true
  | a :: as, b :: bs => decide (asciiLower a = asciiLower b) && namesMatchCasefold as bs
  | _, _ => false

/-! ## Record names -/

def isoSystemUseOffset (nameLen : Nat) : Nat :=
  if nameLen % 2 = 0 then 33 + nameLen + 1 else 33 + nameLen

/-- The loop over the system-use entries; every entry is at least 4 bytes, so
`recLen` turns are enough. -/
def rockRidgeLoop (entry : Nat → U8) (recLen outSize : Nat) :
    Nat → Nat → List U8 → Option (List U8)
  | 0, _, _ => none
  | fuel + 1, off, out =>
    if recLen < off + 4 then none
    else
      let entryLen := (entry (off + 2)).toNat
      if entryLen < 4 ∨ recLen < off + entryLen then none
      else if entry off = chr 'N' ∧ entry (off + 1) = chr 'M' ∧ 5 ≤ entryLen then
        let flags := entry (off + 4)
        if flags &&& 0x06 ≠ 0 then none
        else
          let name := (List.range (entryLen - 5)).map fun i => asciiLower (entry (off + 5 + i))
          let out := out ++ name.take (outSize - 1 - out.length)
          if flags &&& 0x01 = 0 ∧ out ≠ [] then some out
          else rockRidgeLoop entry recLen outSize fuel (off + entryLen) out
      else rockRidgeLoop entry recLen outSize fuel (off + entryLen) out

def isoTryReadRockRidgeName (entry : Nat → U8) (recLen nameLen outSize : Nat) : Option (List U8) :=
  let off := isoSystemUseOffset nameLen
  if recLen ≤ off then none else rockRidgeLoop entry recLen outSize (recLen + 1) off []

/-- The identifier without its version suffix and trailing dot. -/
def isoEffectiveName (recName : Nat → U8) (recNameLen : Nat) : List U8 :=
  let ident := ((List.range recNameLen).map recName).takeWhile fun c => c ≠ chr ';'
  if ident.getLast? = some (chr '.') then ident.dropLast else ident

def nameMatchesLoop : List U8 → CStr → Bool
  | [], component => decide (component = [])
  | _ :: _, [] => false
  | a :: as, b :: bs => decide (asciiLower a = asciiLower b) && nameMatchesLoop as bs

def isoNameMatches (recName : Nat → U8) (recNameLen : Nat) (component : CStr) : Bool :=
  nameMatchesLoop (isoEffectiveName recName recNameLen) component

def isoRecordNameMatches (entry : Nat → U8) (recLen : Nat) (recName : Nat → U8)
    (recNameLen : Nat) (component : CStr) : Bool :=
  match isoTryReadRockRidgeName entry recLen recNameLen direntNameSize with
  | some rrName => namesMatchCasefold (cstrOf rrName) component
  | none => isoNameMatches recName recNameLen component

def isoNameCopy (recName : Nat → U8) (recNameLen outSize : Nat) : List U8 :=
  ((isoEffectiveName recName recNameLen).take (outSize - 1)).map asciiLower

def isoRecordNameCopy (entry : Nat → U8) (recLen : Nat) (recName : Nat → U8)
    (recNameLen outSize : Nat) : CStr :=
  match isoTryReadRockRidgeName entry recLen recNameLen outSize with
  | some rrName => cstrOf rrName
  | none => cstrOf (isoNameCopy recName recNameLen outSize)

/-! ## Volume descriptor and extents -/

/-- `iso_read_pvd_root`: the root directory and the number of sectors. -/
def isoReadPvdRoot (read : U32 → Option Sector) : Option (IsoDirLoc × U32) :=
  match read 16 with
  | none => none
  | some sector =>
    if sector 0 ≠ 1 ∨ sector 6 ≠ 1 ∨ sector 1 ≠ chr 'C' ∨ sector 2 ≠ chr 'D' ∨
        sector 3 ≠ chr '0' ∨ sector 4 ≠ chr '0' ∨ sector 5 ≠ chr '1' then none
    else
      let root : Nat → U8 := fun i => sector (156 + i)
      if root 0 < 34 then none
      else
        some (⟨readU32Le fun i => root (2 + i), readU32Le fun i => root (10 + i), root 25⟩,
          readU32Le fun i => sector (80 + i))

def isoExtentValid (extentLba sizeBytes volumeSectors : U32) : Bool :=
  let sectors := (sizeBytes + 2047) / 2048
  if volumeSectors = 0 then false
  else if volumeSectors ≤ extentLba then false
  else if sectors = 0 then true
  else if extentLba + sectors < extentLba then false
  else decide (extentLba + sectors ≤ volumeSectors)

/-! ## Directory scans -/

def scanFuel : Nat := 4294967297

/-- The self and parent records, which every scan passes over. -/
def isDotRecord (nameLen : Nat) (recName : Nat → U8) : Bool :=
  decide (nameLen = 1) && (decide (recName 0 = 0) || decide (recName 0 = 1))

def findChildLoop (read : U32 → Option Sector) (dir : IsoDirLoc) (name : CStr) :
    Nat → U32 → Option (Option IsoDirLoc)
  | 0, _ => none
  | fuel + 1, offset =>
    if dir.size ≤ offset then some none
    else
      match read (dir.extentLba + offset / 2048) with
      | none => some none
      | some sector =>
        let secOff := (offset % 2048).toNat
        let recLen := (sector secOff).toNat
        if recLen = 0 then findChildLoop read dir name fuel ((offset / 2048 + 1) * 2048)
        else if isoSectorSize < secOff + recLen ∨ recLen < 34 then some none
        else
          let entry : Nat → U8 := fun i => sector (secOff + i)
          let nameLen := (entry 32).toNat
          let recName : Nat → U8 := fun i => entry (33 + i)
          if !isDotRecord nameLen recName &&
              isoRecordNameMatches entry recLen recName nameLen name then
            some (some ⟨readU32Le fun i => entry (2 + i), readU32Le fun i => entry (10 + i), entry 25⟩)
          else findChildLoop read dir name fuel (offset + BitVec.ofNat 32 recLen)

def isoFindChild (read : U32 → Option Sector) (dir : IsoDirLoc) (name : CStr) :
    Option (Option IsoDirLoc) :=
  findChildLoop read dir name scanFuel 0

/-- The scan of `iso_list_dir` and `iso_list_dir_entries`: whether it reached the
end of the directory, and the entries it met. -/
def listDirLoop (read : U32 → Option Sector) (dir : IsoDirLoc) :
    Nat → U32 → List FsDirEntry → Option (Bool × List FsDirEntry)
  | 0, _, _ => none
  | fuel + 1, offset, entries =>
    if dir.size ≤ offset then some (true, entries)
    else
      match read (dir.extentLba + offset / 2048) with
      | none => some (false, entries)
      | some sector =>
        let secOff := (offset % 2048).toNat
        let recLen := (sector secOff).toNat
        if recLen = 0 then listDirLoop read dir fuel ((offset / 2048 + 1) * 2048) entries
        else if isoSectorSize < secOff + recLen ∨ recLen < 34 then some (false, entries)
        else
          let entry : Nat → U8 := fun i => sector (secOff + i)
          let nameLen := (entry 32).toNat
          let recName : Nat → U8 := fun i => entry (33 + i)
          let entries :=
            if isDotRecord nameLen recName then entries
            else entries ++ [⟨isoRecordNameCopy entry recLen recName nameLen direntNameSize,
              decide (entry 25 &&& 0x02 ≠ 0)⟩]
          listDirLoop read dir fuel (offset + BitVec.ofNat 32 recLen) entries

def isoListDir (read : U32 → Option Sector) (dir : IsoDirLoc) : Option (Bool × List FsDirEntry) :=
  listDirLoop read dir scanFuel 0 []

/-- `iso_list_dir_entries`: the entries stored, the inner `none` for a scan that
fails.  Entries beyond `maxEntries` are passed over. -/
def isoListDirEntries (read : U32 → Option Sector) (dir : IsoDirLoc) (maxEntries : Nat) :
    Option (Option (List FsDirEntry)) :=
  (isoListDir read dir).map fun (ok, entries) =>
    if ok then some (entries.take maxEntries) else none

/-! ## Path walks -/

/-- The character loop that `iso_read_file_alloc` and `iso_resolve_path` both
contain: the directory reached, the component still open and whether there was
any; the inner `none` is one of its error returns. -/
def isoWalk (read : U32 → Option Sector) (volumeSectors : U32) :
    CStr → IsoDirLoc → CStr → Bool → Option (Option (IsoDirLoc × CStr × Bool))
  | [], cur, comp, haveComponent => some (some (cur, comp, haveComponent))
  | c :: p, cur, comp, haveComponent =>
    if c = chr '/' then
      if comp = [] then isoWalk read volumeSectors p cur comp haveComponent
      else
        match isoFindChild read cur comp with
        | none => none
        | some none => some none
        | some (some child) =>
          if child.flags &&& 0x02 = 0 then some none
          else if !isoExtentValid child.extentLba child.size volumeSectors then some none
          else isoWalk read volumeSectors p child [] true
    else if direntNameSize ≤ comp.length + 1 then some none
    else isoWalk read volumeSectors p cur (comp ++ [c]) true

/-- `while (*p == '/') ++p;` -/
def skipSlashes (p : CStr) : CStr := p.dropWhile fun c => c = chr '/'

/-- The copy loop of `iso_read_file_alloc` over `n` sectors from the `k`-th on. -/
def readDataLoop (read : U32 → Option Sector) (lba : U32) (total : Nat) :
    Nat → Nat → Bytes → Option Bytes
  | 0, _, buf => some buf
  | n + 1, k, buf =>
    match read (lba + BitVec.ofNat 32 k) with
    | none => none
    | some sector =>
      let chunk := min isoSectorSize (total - isoSectorSize * k)
      readDataLoop read lba total n (k + 1) (buf ++ (List.range chunk).map sector)

/-- `iso_read_file_alloc`; the heap keeps a block whose sectors then fail to read. -/
def isoReadFileAlloc (read : U32 → Option Sector) (heap : Heap) (isoPath : CStr) :
    Option (Option Bytes × Heap) :=
  let p := skipSlashes isoPath
  if p = [] then some (none, heap)
  else
    match isoReadPvdRoot read with
    | none => some (none, heap)
    | some (root, volumeSectors) =>
      if !isoExtentValid root.extentLba root.size volumeSectors then some (none, heap)
      else
        match isoWalk read volumeSectors p root [] false with
        | none => none
        | some none => some (none, heap)
        | some (some (cur, comp, haveComponent)) =>
          if !haveComponent ∨ comp = [] then some (none, heap)
          else
            match isoFindChild read cur comp with
            | none => none
            | some none => some (none, heap)
            | some (some child) =>
              if child.flags &&& 0x02 ≠ 0 then some (none, heap)
              else if !isoExtentValid child.extentLba child.size volumeSectors then
                some (none, heap)
              else if isoFileMax < child.size.toNat then some (none, heap)
              else
                match kmalloc heap (child.size + 1) with
                | none => some (none, heap)
                | some (_, heap) =>
                  let total := child.size.toNat
                  some (readDataLoop read child.extentLba total
                    ((total + 2047) / 2048) 0 [], heap)

def isoResolvePath (read : U32 → Option Sector) (isoPath : CStr) :
    Option (Option (IsoDirLoc × Bool)) :=
  let p := skipSlashes isoPath
  match isoReadPvdRoot read with
  | none => some none
  | some (root, volumeSectors) =>
    if !isoExtentValid root.extentLba root.size volumeSectors then some none
    else if p = [] then some (some (root, true))
    else
      match isoWalk read volumeSectors p root [] false with
      | none => none
      | some none => some none
      | some (some (cur, comp, haveComponent)) =>
        if !haveComponent ∨ comp = [] then some (some (cur, true))
        else
          match isoFindChild read cur comp with
          | none => none
          | some none => some none
          | some (some child) =>
            if !isoExtentValid child.extentLba child.size volumeSectors then some none
            else some (some (child, decide (child.flags &&& 0x02 ≠ 0)))

def isoOpsPathIsDir (read : U32 → Option Sector) (path : CStr) : Option Bool :=
  (isoResolvePath read path).map fun r =>
    match r with
    | none => false
    | some (_, isDir) => isDir

def isoOpsListDir (read : U32 → Option Sector) (path : CStr) :
    Option (Bool × List FsDirEntry) :=
  match isoResolvePath read path with
  | none => none
  | some none => some (false, [])
  | some (some (loc, isDir)) => if isDir then isoListDir read loc else some (false, [])

/-! ## Mounts -/

/-- The operation tables a mount can point to. -/
inductive FsOps
  | iso9660
deriving Repr, DecidableEq

structure MountEntry where
  path : CStr
  fsName : CStr
  deviceId : Int
  ops : Option FsOps
deriving Repr, DecidableEq

/-- `mounts[0 .. mounts_used - 1]`. -/
abbrev Mounts := List MountEntry

/-- `fs_init`, for the device that `storage_find_device("cd0")` found. -/
def fsInit (cd0 : Option Int) : Mounts :=
  ⟨cstr "/", cstr "memfs", -1, none⟩ ::
    match cd0 with
    | none => []
    | some id => [⟨strCopy (cstr "/mount/cdrom") 16, cstr "iso9660", id, some .iso9660⟩]

def findMount (mounts : Mounts) (path : CStr) : Option MountEntry :=
  mounts.find? fun m => strEq m.path path

/-- The mount at `mountPath` if it has a device and an operation table. -/
def mountedDevice (mounts : Mounts) (mountPath : CStr) : Option Int :=
  match findMount mounts mountPath with
  | none => none
  | some m => if m.deviceId < 0 ∨ m.ops = none then none else some m.deviceId

def fsReadFileFromMount (mach : Machine) (mounts : Mounts) (heap : Heap)
    (mountPath path : CStr) : Option (Option Bytes × Heap) :=
  match mountedDevice mounts mountPath with
  | none => some (none, heap)
  | some id => isoReadFileAlloc (mach.storageRead id) heap path

def fsPathIsDirFromMount (mach : Machine) (mounts : Mounts) (mountPath path : CStr) :
    Option Bool :=
  match mountedDevice mounts mountPath with
  | none => some false
  | some id => isoOpsPathIsDir (mach.storageRead id) path

def fsListDirFromMount (mach : Machine) (mounts : Mounts) (mountPath path : CStr) :
    Option (Bool × List FsDirEntry) :=
  match mountedDevice mounts mountPath with
  | none => some (false, [])
  | some id => isoOpsListDir (mach.storageRead id) path

end SlopOS.Kernel
