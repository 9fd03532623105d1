import SlopOS.Kernel.Mounts
/-!
# The tables of devices and mounts

Devices are registered and file systems mounted in any order.  Both tables only grow, so what has
been found once is found from then on.
-/

namespace SlopOS.Proofs.DeviceTables

open SlopOS.Support SlopOS.Kernel

variable {α σ : Type}

/-! ## Calls -/

inductive TableCall (α σ : Type)
  | register (name : Option CStr) (sectorSize : U32) (read : Option (BlockReadFn α σ))
      (ctx : Option α)
  | mount (path fsName : Option CStr) (deviceId : Int)

structure Tables (α σ : Type) where
  devices : BlockDevices α σ
  mounts : Mounts

namespace Tables

def call (t : Tables α σ) : TableCall α σ → Tables α σ
  | .register name sectorSize read ctx =>
    { t with devices := (storageRegisterDevice name sectorSize read ctx t.devices).2 }
  | .mount path fsName deviceId =>
    { t with mounts := (fsMount t.devices path fsName deviceId t.mounts).2 }

def calls (t : Tables α σ) (cs : List (TableCall α σ)) : Tables α σ := cs.foldl call t

/-- Both tables empty, as `storage_init` and `fs_init` find them. -/
def empty : Tables α σ := ⟨[], []⟩

end Tables

open Tables

variable {t t' : Tables α σ} {devices : BlockDevices α σ} {mounts : Mounts}
variable {path fsName : CStr} {deviceId id : Int} {m : MountEntry} {dev : BlockDevice α σ}

/-! ## What is in them -/

/-- Both tables end where a table before them ended, or go on behind it. -/
def Extends (t t' : Tables α σ) : Prop :=
  t.devices <+: t'.devices ∧ t.mounts <+: t'.mounts

theorem Extends.refl (t : Tables α σ) : Extends t t :=
  ⟨List.prefix_refl _, List.prefix_refl _⟩

theorem Extends.trans {u : Tables α σ} (h : Extends t t') (h' : Extends t' u) :
    Extends t u :=
  ⟨h.1.trans h'.1, h.2.trans h'.2⟩

theorem getDevice_extended {devices' : BlockDevices α σ} (hpre : devices <+: devices')
    (h : storageGetDevice devices id = some dev) : storageGetDevice devices' id = some dev := by
  obtain ⟨more, rfl⟩ := hpre
  unfold storageGetDevice at h ⊢
  split at h
  · cases h
  · rename_i hin
    have hlt : id.toNat < devices.length := by omega
    rw [if_neg (by rw [List.length_append]; omega), List.getElem?_append_left hlt]
    exact h

theorem findMount_extended {mounts' : Mounts} (hpre : mounts <+: mounts')
    (h : findMount mounts path = some m) : findMount mounts' path = some m := by
  obtain ⟨more, rfl⟩ := hpre
  unfold findMount at h ⊢
  rw [List.find?_append, h, Option.some_or]

structure DeviceOk (i : Nat) (dev : BlockDevice α σ) : Prop where
  id : dev.id = i
  name_short : dev.name.length < 16
  sectors : dev.sectorSize ≠ 0

inductive Backed (devices : BlockDevices α σ) (m : MountEntry) : Prop
  | memfs : m.fsName = cstr "memfs" → m.ops = none → Backed devices m
  | iso9660 : m.fsName = cstr "iso9660" → m.ops = some .iso9660 →
      (storageGetDevice devices m.deviceId).isSome → Backed devices m

structure MountOk (devices : BlockDevices α σ) (m : MountEntry) : Prop where
  absolute : m.path.head? = some (chr '/')
  path_short : m.path.length < 16
  backed : Backed devices m

structure TablesOk (t : Tables α σ) : Prop where
  devices_le : t.devices.length ≤ maxBlockDevices
  mounts_le : t.mounts.length ≤ maxMounts
  devices : ∀ i dev, t.devices[i]? = some dev → DeviceOk i dev
  mounts : ∀ m ∈ t.mounts, MountOk t.devices m

theorem MountOk.mono {devices' : BlockDevices α σ} (h : MountOk devices m)
    (hpre : devices <+: devices') : MountOk devices' m := by
  refine ⟨h.absolute, h.path_short, ?_⟩
  cases h.backed with
  | memfs hname hops => exact .memfs hname hops
  | iso9660 hname hops hdev =>
      obtain ⟨dev, hdev⟩ := Option.isSome_iff_exists.mp hdev
      exact .iso9660 hname hops (by rw [getDevice_extended hpre hdev]; rfl)

/-! ## A call -/

theorem length_copyName (name : CStr) (n : Nat) : (copyName name (n + 1)).length ≤ n := by
  induction n generalizing name with
  | zero =>
      cases name with
      | nil => exact Nat.le_refl 0
      | cons c name => exact Nat.le_refl 0
  | succ n ih =>
      cases name with
      | nil => exact Nat.zero_le _
      | cons c name =>
          rw [copyName, List.length_cons]
          exact Nat.succ_le_succ (ih name)

/-- A registration that is taken fills the next place of the table. -/
theorem register_cases (name : Option CStr) (sectorSize : U32) (read : Option (BlockReadFn α σ))
    (ctx : Option α) (devices : BlockDevices α σ) :
    (storageRegisterDevice name sectorSize read ctx devices).2 = devices ∨
      ∃ dev, DeviceOk devices.length dev ∧ devices.length < maxBlockDevices ∧
        (storageRegisterDevice name sectorSize read ctx devices).2 = devices ++ [dev] := by
  unfold storageRegisterDevice
  split
  · rename_i name read
    split
    · exact Or.inl rfl
    · rename_i hroom
      obtain ⟨hsector, hfull⟩ := not_or.mp hroom
      exact Or.inr ⟨_, ⟨rfl, Nat.lt_succ_of_le (length_copyName name 15), hsector⟩,
        Nat.not_le.mp hfull, rfl⟩
  · exact Or.inl rfl

theorem strCopy_head {n : Nat} (h : path.head? = some (chr '/')) :
    (strCopy path (n + 2)).head? = some (chr '/') := by
  obtain ⟨rest, rfl⟩ := List.head?_eq_some_iff.mp h
  rfl

theorem backed_of_known (hknown : isKnownFs fsName = true)
    (hdev : ¬(strEq fsName (cstr "memfs") = false ∧ (storageGetDevice devices deviceId).isNone)) :
    Backed devices ⟨path, strCopy fsName 16, deviceId, fsOpsForName fsName⟩ := by
  by_cases hmem : fsName = cstr "memfs"
  · subst hmem
    exact .memfs (show strCopy (cstr "memfs") 16 = _ by decide)
      (show fsOpsForName (cstr "memfs") = _ by decide)
  · have hiso : fsName = cstr "iso9660" := by
      unfold isKnownFs fsOpsForName strEq at hknown
      by_contra hiso
      rw [decide_eq_false hmem, decide_eq_false hiso] at hknown
      exact absurd hknown (by decide)
    subst hiso
    refine .iso9660 (show strCopy (cstr "iso9660") 16 = _ by decide)
      (show fsOpsForName (cstr "iso9660") = _ by decide) ?_
    rw [← Option.isNone_eq_false_iff]
    by_contra hnone
    exact hdev ⟨decide_eq_false hmem, by simpa using hnone⟩

theorem mount_cases (devices : BlockDevices α σ) (path fsName : Option CStr) (deviceId : Int)
    (mounts : Mounts) :
    fsMount devices path fsName deviceId mounts = (false, mounts) ∨
      ∃ m, MountOk devices m ∧ mounts.length < maxMounts ∧
        path.map (strCopy · 16) = some m.path ∧ m.deviceId = deviceId ∧
        fsMount devices path fsName deviceId mounts = (true, mounts ++ [m]) := by
  unfold fsMount
  split
  case h_2 => exact Or.inl rfl
  rename_i path fsName
  dsimp only
  split
  · exact Or.inl rfl
  rename_i hroom
  obtain ⟨hfull, hknown⟩ := not_or.mp hroom
  split
  · exact Or.inl rfl
  rename_i hslash
  split
  · exact Or.inl rfl
  rename_i hdev
  have hpath : (strCopy path 16).length < 16 := by
    unfold strCopy
    rw [List.length_take]
    omega
  exact Or.inr ⟨_, ⟨strCopy_head (not_not.mp hslash), hpath,
    backed_of_known (Bool.not_eq_false _ ▸ hknown) hdev⟩, Nat.not_le.mp hfull, rfl, rfl, rfl⟩

theorem call_extends (t : Tables α σ) (c : TableCall α σ) : Extends t (t.call c) := by
  cases c with
  | register name sectorSize read ctx =>
      refine ⟨?_, List.prefix_refl _⟩
      dsimp only [Tables.call]
      rcases register_cases name sectorSize read ctx t.devices with h | ⟨dev, -, -, h⟩
      · rw [h]
      · rw [h]
        exact List.prefix_append _ _
  | mount path fsName deviceId =>
      refine ⟨List.prefix_refl _, ?_⟩
      dsimp only [Tables.call]
      rcases mount_cases t.devices path fsName deviceId t.mounts with h | ⟨m, -, -, -, -, h⟩
      · rw [h]
      · rw [h]
        exact List.prefix_append _ _

theorem call_ok (h : TablesOk t) (c : TableCall α σ) : TablesOk (t.call c) := by
  have hext := call_extends t c
  cases c with
  | register name sectorSize read ctx =>
      dsimp only [Tables.call] at hext ⊢
      rcases register_cases name sectorSize read ctx t.devices with heq | ⟨dev, hdev, hlt, heq⟩
      · rw [heq]
        exact h
      · rw [heq] at hext ⊢
        constructor
        case devices_le =>
          rw [List.length_append]
          exact hlt
        case mounts_le => exact h.mounts_le
        case devices =>
          intro i dev' hi
          rw [List.getElem?_append] at hi
          split at hi
          · exact h.devices i dev' hi
          · rename_i hge
            rw [List.getElem?_singleton] at hi
            split at hi
            · obtain rfl := Option.some.inj hi
              rwa [show i = t.devices.length by omega]
            · cases hi
        case mounts => exact fun m hm => (h.mounts m hm).mono hext.1
  | mount path fsName deviceId =>
      dsimp only [Tables.call]
      rcases mount_cases t.devices path fsName deviceId t.mounts with heq | ⟨m, hm, hlt, -, -, heq⟩
      · rw [heq]
        exact h
      · rw [heq]
        constructor
        case devices_le => exact h.devices_le
        case mounts_le =>
          rw [List.length_append]
          exact hlt
        case devices => exact h.devices
        case mounts =>
          intro m' hm'
          rcases List.mem_append.mp hm' with hold | hnew
          · exact h.mounts m' hold
          · rwa [List.mem_singleton.mp hnew]

/-! ## Any sequence of calls -/

theorem calls_extends (t : Tables α σ) (cs : List (TableCall α σ)) :
    Extends t (t.calls cs) := by
  induction cs generalizing t with
  | nil => exact .refl t
  | cons c cs ih => exact (call_extends t c).trans (ih (t.call c))

theorem calls_ok (h : TablesOk t) (cs : List (TableCall α σ)) : TablesOk (t.calls cs) := by
  induction cs generalizing t with
  | nil => exact h
  | cons c cs ih => exact ih (call_ok h c)

theorem tablesOk_empty : TablesOk (empty : Tables α σ) where
  devices_le := Nat.zero_le _
  mounts_le := Nat.zero_le _
  devices i dev h := by cases h
  mounts m h := by cases h

theorem findMount_long (h : TablesOk t) (hlong : 16 ≤ path.length) :
    findMount t.mounts path = none := by
  unfold findMount
  rw [List.find?_eq_none]
  intro m hm
  have hshort := (h.mounts m hm).path_short
  have hne : m.path ≠ path := by
    rintro rfl
    omega
  unfold strEq
  rw [decide_eq_false hne]
  exact Bool.false_ne_true

theorem findMount_mounted {fsName : Option CStr} (hfree : findMount t.mounts path = none) (hshort : path.length < 16)
    (h : (fsMount t.devices (some path) fsName deviceId t.mounts).1 = true) :
    ∃ m, m.path = path ∧ m.deviceId = deviceId ∧
      findMount (t.call (.mount (some path) fsName deviceId)).mounts path = some m := by
  dsimp only [Tables.call]
  rcases mount_cases t.devices (some path) fsName deviceId t.mounts with
    heq | ⟨m, -, -, hpath, hid, heq⟩
  · rw [heq] at h
    cases h
  · have hcopy : strCopy path 16 = path := List.take_of_length_le (by omega)
    rw [Option.map_some, hcopy] at hpath
    have hpath := (Option.some.inj hpath).symm
    refine ⟨m, hpath, hid, ?_⟩
    rw [heq]
    unfold findMount at hfree ⊢
    rw [List.find?_append, hfree, Option.none_or, List.find?_singleton, if_pos]
    unfold strEq
    exact decide_eq_true hpath

/-- `fs_init` mounts the root, and the CD where one has been registered. -/
theorem fsInitCalls_eq (h : TablesOk t) :
    fsInitCalls t.devices = fsInit ((storageFindDevice t.devices (cstr "cd0")).map BlockDevice.id) := by
  unfold fsInitCalls
  have hroot : (fsMount t.devices (some (cstr "/")) (some (cstr "memfs")) (-1) []).2 =
      [⟨cstr "/", cstr "memfs", -1, none⟩] := rfl
  rw [hroot]
  cases hfind : storageFindDevice t.devices (cstr "cd0") with
  | none => rfl
  | some cd0 =>
      obtain ⟨i, hi⟩ := List.mem_iff_getElem?.mp (List.mem_of_find?_eq_some hfind)
      have hid := (h.devices i cd0 hi).id
      have hlt : i < t.devices.length := (List.getElem?_eq_some_iff.mp hi).1
      have hget : storageGetDevice t.devices cd0.id = some cd0 := by
        unfold storageGetDevice
        rw [hid, if_neg (by omega)]
        exact hi
      dsimp only
      unfold fsMount
      rw [hget]
      rfl

/-- Both tables stay within their bounds and every mount keeps its file system and its device.
A mount or device that is found is found for ever, a mount comes into sight if its path was free
and has fewer than sixteen characters, and `fs_init` is the model of it that the file system
starts from. -/
theorem tables_run (cs : List (TableCall α σ)) :
    TablesOk ((empty : Tables α σ).calls cs) ∧
    (∀ more, (∀ path m, findMount (empty.calls cs).mounts path = some m →
        findMount ((empty.calls cs).calls more).mounts path = some m) ∧
      ∀ (id : Int) (dev : BlockDevice α σ),
        storageGetDevice (empty.calls cs).devices id = some dev →
        storageGetDevice ((empty.calls cs).calls more).devices id = some dev) ∧
    (∀ path fsName deviceId, findMount (empty.calls cs).mounts path = none →
      (fsMount (empty.calls cs).devices (some path) fsName deviceId
        (empty.calls cs).mounts).1 = true →
      ((∃ m, findMount ((empty.calls cs).call (.mount (some path) fsName deviceId)).mounts path =
        some m ∧ m.deviceId = deviceId) ↔ path.length < 16)) ∧
    fsInitCalls (empty.calls cs).devices =
      fsInit ((storageFindDevice (empty.calls cs).devices (cstr "cd0")).map BlockDevice.id) := by
  have hok := calls_ok (tablesOk_empty : TablesOk (empty : Tables α σ)) cs
  refine ⟨hok, fun more => ?_, fun path fsName deviceId hfree htaken => ?_, fsInitCalls_eq hok⟩
  · have hext := calls_extends ((empty : Tables α σ).calls cs) more
    constructor
    · exact fun path m hfound => findMount_extended hext.2 hfound
    · exact fun id dev hdev => getDevice_extended hext.1 hdev
  · constructor
    · rintro ⟨m, hm, -⟩
      by_contra hlong
      rw [findMount_long (call_ok hok _) (Nat.not_lt.mp hlong)] at hm
      cases hm
    · intro hshort
      obtain ⟨m, -, hid, hm⟩ := findMount_mounted hfree hshort htaken
      exact ⟨m, hm, hid⟩

end SlopOS.Proofs.DeviceTables
