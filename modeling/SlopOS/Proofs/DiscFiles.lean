import SlopOS.Proofs.DiscPaths
/-!
# Reading a file of the disc

`iso_read_file_alloc` and `iso_resolve_path` walk the path with two copies of
one loop.  A read succeeds exactly where the walk ends at a file that is not too
large, whose sectors can be read and for which there is memory.
-/

namespace SlopOS.Proofs.DiscFiles

open SlopOS.Support SlopOS.Kernel SlopOS.Proofs.DiscScan SlopOS.Proofs.DiscPaths

def sectorBytes (sector : Sector) : Bytes := (List.range isoSectorSize).map sector

def extentSector (read : Disc) (lba : U32) (k : Nat) : Option Sector :=
  read (lba + BitVec.ofNat 32 k)

/-- `n` sectors of an extent from the `k`-th on, one after the other. -/
def sectorsFrom (read : Disc) (lba : U32) (n k : Nat) : Bytes :=
  (List.range n).flatMap fun i =>
    sectorBytes ((extentSector read lba (k + i)).getD fun _ => 0)

def sectorCount (size : Nat) : Nat := (size + 2047) / 2048

/-- The first `size` bytes of the sectors of an extent. -/
def extentBytes (read : Disc) (loc : IsoDirLoc) : Bytes :=
  (sectorsFrom read loc.extentLba (sectorCount loc.size.toNat) 0).take loc.size.toNat

/-- `*out_data` and `*out_size`. -/
structure ReadOut where
  data : Option Bytes
  size : U32
deriving DecidableEq

/-- `iso_read_file_alloc` with its two outputs, from what they held before. -/
def isoReadFileOut (read : Disc) (heap : Heap) (isoPath : CStr) (out : ReadOut) :
    Option (Bool × ReadOut × Heap) :=
  let out := { out with data := none }
  let out := { out with size := 0 }
  let p := skipSlashes isoPath
  if p = [] then some (false, out, heap)
  else
    match isoReadPvdRoot read with
    | none => some (false, out, heap)
    | some (root, volumeSectors) =>
      if !isoExtentValid root.extentLba root.size volumeSectors then some (false, out, heap)
      else
        match isoWalk read volumeSectors p root [] false with
        | none => none
        | some none => some (false, out, heap)
        | some (some (cur, comp, haveComponent)) =>
          if !haveComponent ∨ comp = [] then some (false, out, heap)
          else
            match isoFindChild read cur comp with
            | none => none
            | some none => some (false, out, heap)
            | some (some child) =>
              if child.flags &&& 0x02 ≠ 0 then some (false, out, heap)
              else if !isoExtentValid child.extentLba child.size volumeSectors then
                some (false, out, heap)
              else if isoFileMax < child.size.toNat then some (false, out, heap)
              else
                match kmalloc heap (child.size + 1) with
                | none => some (false, out, heap)
                | some (_, heap) =>
                  let total := child.size
                  match readDataLoop read child.extentLba total.toNat
                      ((total.toNat + 2047) / 2048) 0 [] with
                  | none => some (false, out, heap)
                  | some buf =>
                    let out := { out with data := some buf }
                    some (true, { out with size := total }, heap)

variable {read : Disc} {lba : U32} {loc : IsoDirLoc} {n k total : Nat} {buf : Bytes}
variable {heap : Heap} {path : CStr}

theorem length_sectorBytes (sector : Sector) : (sectorBytes sector).length = isoSectorSize := by
  simp [sectorBytes]

theorem sectorsFrom_succ (read : Disc) (lba : U32) (n k : Nat) :
    sectorsFrom read lba (n + 1) k =
      sectorBytes ((extentSector read lba k).getD fun _ => 0) ++ sectorsFrom read lba n (k + 1) := by
  have hshift : (fun i => sectorBytes ((extentSector read lba (k + (i + 1))).getD fun _ => 0)) =
      fun i => sectorBytes ((extentSector read lba (k + 1 + i)).getD fun _ => 0) := by
    funext i
    rw [Nat.add_assoc, Nat.add_comm 1 i]
  unfold sectorsFrom
  rw [List.range_succ_eq_map, List.flatMap_cons, List.flatMap_map, ← hshift]
  rfl

theorem length_sectorsFrom (read : Disc) (lba : U32) (n k : Nat) :
    (sectorsFrom read lba n k).length = n * isoSectorSize := by
  induction n generalizing k with
  | zero => simp [sectorsFrom]
  | succ n ih =>
      rw [sectorsFrom_succ, List.length_append, length_sectorBytes, ih, Nat.succ_mul, Nat.add_comm]

theorem length_extentBytes (read : Disc) (loc : IsoDirLoc) :
    (extentBytes read loc).length = loc.size.toNat := by
  have hlen := length_sectorsFrom read loc.extentLba (sectorCount loc.size.toNat) 0
  simp only [isoSectorSize, sectorCount] at hlen
  unfold extentBytes sectorCount
  rw [List.length_take, hlen]
  omega

/-- The copy loop: all sectors of the rest, cut to the rest of the file. -/
theorem readDataLoop_eq_some (read : Disc) (lba : U32) (total n k : Nat) (buf bytes : Bytes) :
    readDataLoop read lba total n k buf = some bytes ↔
      (∀ i < n, (extentSector read lba (k + i)).isSome) ∧
        bytes = buf ++ (sectorsFrom read lba n k).take (total - isoSectorSize * k) := by
  induction n generalizing k buf with
  | zero =>
      have hnone : sectorsFrom read lba 0 k = [] := rfl
      rw [readDataLoop, hnone, List.take_nil, List.append_nil, Option.some_inj]
      constructor
      · intro h
        exact ⟨fun i hi => absurd hi (Nat.not_lt_zero i), h.symm⟩
      · intro h
        exact h.2.symm
  | succ n ih =>
      rw [readDataLoop]
      cases hread : extentSector read lba k with
      | none =>
          have hfail : ¬∀ i < n + 1, (extentSector read lba (k + i)).isSome := by
            intro hall
            have h0 := hall 0 (Nat.succ_pos n)
            rw [Nat.add_zero, hread] at h0
            cases h0
          unfold extentSector at hread
          rw [hread]
          refine ⟨fun h => ?_, fun h => absurd h.1 hfail⟩
          cases h
      | some sector =>
          have hchunk : (List.range (min isoSectorSize (total - isoSectorSize * k))).map sector =
              (sectorBytes sector).take (total - isoSectorSize * k) := by
            rw [sectorBytes, ← List.map_take, List.take_range, Nat.min_comm]
          have hrest : total - isoSectorSize * k - isoSectorSize =
              total - isoSectorSize * (k + 1) := by
            rw [Nat.mul_succ]
            omega
          have hsplit : (sectorsFrom read lba (n + 1) k).take (total - isoSectorSize * k) =
              (sectorBytes sector).take (total - isoSectorSize * k) ++
                (sectorsFrom read lba n (k + 1)).take (total - isoSectorSize * (k + 1)) := by
            rw [sectorsFrom_succ, hread, Option.getD_some, List.take_append, length_sectorBytes,
              hrest]
          have hall : (∀ i < n + 1, (extentSector read lba (k + i)).isSome) ↔
              ∀ i < n, (extentSector read lba (k + 1 + i)).isSome := by
            constructor
            · intro h i hi
              rw [Nat.add_assoc, Nat.add_comm 1 i]
              exact h (i + 1) (by omega)
            · intro h i hi
              cases i with
              | zero =>
                  rw [Nat.add_zero, hread]
                  rfl
              | succ i =>
                  rw [Nat.add_comm i 1, ← Nat.add_assoc]
                  exact h i (by omega)
          rw [hall, hsplit, ← List.append_assoc, ← hchunk]
          unfold extentSector at hread
          rw [hread]
          exact ih (k + 1) _

theorem isoResolvePath_file_iff : isoResolvePath read path = some (some (loc, false)) ↔
    ∃ root volumeSectors dir last, isoReadPvdRoot read = some (root, volumeSectors) ∧
      isoExtentValid root.extentLba root.size volumeSectors = true ∧
      isoSplit read volumeSectors root path = some (some (dir, last)) ∧ last ≠ [] ∧
      isoFindChild read dir last = some (some loc) ∧ loc.flags &&& 0x02 = 0 ∧
      isoExtentValid loc.extentLba loc.size volumeSectors = true := by
  rw [isoResolvePath_eq]
  constructor
  · intro h
    split at h
    · cases h
    rename_i root volumeSectors hpvd
    split at h
    · cases h
    rename_i hroot
    split at h
    · cases h
    · cases h
    rename_i dir last hsplit
    split at h
    · cases h
    rename_i hlast
    split at h
    · cases h
    · cases h
    rename_i child hchild
    split at h
    · cases h
    rename_i hvalid
    simp only [Option.some_inj, Prod.mk.injEq, decide_eq_false_iff_not, not_not] at h
    obtain ⟨rfl, hflags⟩ := h
    exact ⟨root, volumeSectors, dir, last, hpvd, by simpa using hroot, hsplit, hlast, hchild,
      hflags, by simpa using hvalid⟩
  · rintro ⟨root, volumeSectors, dir, last, hpvd, hroot, hsplit, hlast, hchild, hflags, hvalid⟩
    rw [hpvd]
    dsimp only
    rw [if_neg (by simpa using hroot), hsplit]
    dsimp only
    rw [if_neg hlast, hchild]
    dsimp only
    rw [if_neg (by simpa using hvalid), hflags]
    rfl

/-- `iso_read_file_alloc` leaves the heap, or it has found a file and taken the memory for it. -/
theorem readFileAlloc_cases {heap heap' : Heap} {data : Option Bytes}
    (h : isoReadFileAlloc read heap path = some (data, heap')) :
    (data = none ∧ heap' = heap) ∨
    ∃ loc addr, isoResolvePath read path = some (some (loc, false)) ∧
      loc.size.toNat ≤ isoFileMax ∧ kmalloc heap (loc.size + 1) = some (addr, heap') ∧
      readDataLoop read loc.extentLba loc.size.toNat ((loc.size.toNat + 2047) / 2048) 0 [] =
        data := by
  have hnone : ∀ {data : Option Bytes}, some ((none : Option Bytes), heap) = some (data, heap') →
      data = none ∧ heap' = heap := by
    intro data heq
    cases heq
    exact ⟨rfl, rfl⟩
  rw [isoReadFileAlloc_eq] at h
  split at h
  · exact Or.inl (hnone h)
  rename_i root volumeSectors hpvd
  split at h
  · exact Or.inl (hnone h)
  rename_i hroot
  split at h
  · cases h
  · exact Or.inl (hnone h)
  rename_i dir last hsplit
  split at h
  · exact Or.inl (hnone h)
  rename_i hlast
  split at h
  · cases h
  · exact Or.inl (hnone h)
  rename_i child hchild
  split at h
  · exact Or.inl (hnone h)
  rename_i hflags
  split at h
  · exact Or.inl (hnone h)
  rename_i hvalid
  split at h
  · exact Or.inl (hnone h)
  rename_i hmax
  split at h
  · exact Or.inl (hnone h)
  rename_i addr heap₁ halloc
  simp only [Option.some_inj, Prod.mk.injEq] at h
  obtain ⟨hdata, rfl⟩ := h
  have hresolve : isoResolvePath read path = some (some (child, false)) :=
    isoResolvePath_file_iff.mpr ⟨root, volumeSectors, dir, last, hpvd, by simpa using hroot,
      hsplit, hlast, hchild, not_not.mp hflags, by simpa using hvalid⟩
  exact Or.inr ⟨child, addr, hresolve, Nat.not_lt.mp hmax, halloc, hdata⟩

theorem parts_of_readFileAlloc {heap heap' : Heap} {bytes : Bytes}
    (h : isoReadFileAlloc read heap path = some (some bytes, heap')) :
    ∃ loc addr, isoResolvePath read path = some (some (loc, false)) ∧
      loc.size.toNat ≤ isoFileMax ∧ kmalloc heap (loc.size + 1) = some (addr, heap') ∧
      readDataLoop read loc.extentLba loc.size.toNat ((loc.size.toNat + 2047) / 2048) 0 [] =
        some bytes := by
  rcases readFileAlloc_cases h with ⟨hnone, -⟩ | hparts
  · cases hnone
  · exact hparts

/-- For a file that is not too large the memory is taken, whether its sectors can be read or not. -/
theorem readFileAlloc_of_file {heap heap' : Heap} {addr : U32}
    (hresolve : isoResolvePath read path = some (some (loc, false)))
    (hmax : loc.size.toNat ≤ isoFileMax)
    (halloc : kmalloc heap (loc.size + 1) = some (addr, heap')) :
    isoReadFileAlloc read heap path =
      some (readDataLoop read loc.extentLba loc.size.toNat
        ((loc.size.toNat + 2047) / 2048) 0 [], heap') := by
  obtain ⟨root, volumeSectors, dir, last, hpvd, hroot, hsplit, hlast, hchild, hflags, hvalid⟩ :=
    isoResolvePath_file_iff.mp hresolve
  rw [isoReadFileAlloc_eq, hpvd]
  dsimp only
  rw [if_neg (by simp [hroot]), hsplit]
  dsimp only
  rw [if_neg hlast, hchild]
  dsimp only
  rw [if_neg (not_not.mpr hflags), if_neg (by simp [hvalid]), if_neg (Nat.not_lt.mpr hmax), halloc]

def outputs : Option Bytes × Heap → Bool × ReadOut × Heap
  | (none, heap) => (false, ⟨none, 0⟩, heap)
  | (some bytes, heap) => (true, ⟨some bytes, BitVec.ofNat 32 bytes.length⟩, heap)

theorem readDataLoop_extent {bytes : Bytes} :
    readDataLoop read loc.extentLba loc.size.toNat ((loc.size.toNat + 2047) / 2048) 0 [] =
        some bytes ↔
      (∀ k < sectorCount loc.size.toNat, (extentSector read loc.extentLba k).isSome) ∧
        bytes = extentBytes read loc := by
  rw [readDataLoop_eq_some, List.nil_append, Nat.mul_zero, Nat.sub_zero]
  simp only [Nat.zero_add]
  rfl

theorem readDataLoop_length {bytes : Bytes}
    (h : readDataLoop read loc.extentLba loc.size.toNat ((loc.size.toNat + 2047) / 2048) 0 [] =
      some bytes) : bytes.length = loc.size.toNat := by
  obtain ⟨-, rfl⟩ := readDataLoop_extent.mp h
  exact length_extentBytes read loc

theorem readDataLoop_size {bytes : Bytes}
    (h : readDataLoop read loc.extentLba loc.size.toNat ((loc.size.toNat + 2047) / 2048) 0 [] =
      some bytes) : BitVec.ofNat 32 bytes.length = loc.size := by
  rw [readDataLoop_length h, BitVec.ofNat_toNat, BitVec.setWidth_eq]

/-- The outputs are cleared first and set only with a complete buffer. -/
theorem isoReadFileOut_eq (read : Disc) (heap : Heap) (path : CStr) (out : ReadOut) :
    isoReadFileOut read heap path out = (isoReadFileAlloc read heap path).map outputs := by
  unfold isoReadFileOut isoReadFileAlloc
  dsimp only
  split
  · rfl
  cases isoReadPvdRoot read with
  | none => rfl
  | some pvd =>
    obtain ⟨root, volumeSectors⟩ := pvd
    dsimp only
    split
    · rfl
    cases isoWalk read volumeSectors (skipSlashes path) root [] false with
    | none => rfl
    | some walked =>
    cases walked with
    | none => rfl
    | some walked =>
    obtain ⟨cur, comp, haveComponent⟩ := walked
    dsimp only
    split
    · rfl
    cases isoFindChild read cur comp with
    | none => rfl
    | some found =>
    cases found with
    | none => rfl
    | some child =>
    dsimp only
    split
    · rfl
    split
    · rfl
    split
    · rfl
    cases kmalloc heap (child.size + 1) with
    | none => rfl
    | some block =>
    dsimp only
    cases hdata : readDataLoop read child.extentLba child.size.toNat
        ((child.size.toNat + 2047) / 2048) 0 [] with
    | none => rfl
    | some bytes => rw [Option.map_some, outputs, readDataLoop_size hdata]

/-- Success of `iso_read_file_alloc`, what it then hands out, and what a failure leaves. -/
theorem isoReadFileAlloc_iff (read : Disc) (heap : Heap) (path : CStr) (out : ReadOut) :
    (∀ bytes size heap', isoReadFileOut read heap path out = some (true, ⟨bytes, size⟩, heap') ↔
      ∃ loc addr, isoResolvePath read path = some (some (loc, false)) ∧
        loc.size.toNat ≤ isoFileMax ∧
        (∀ k < sectorCount loc.size.toNat, (extentSector read loc.extentLba k).isSome) ∧
        kmalloc heap (loc.size + 1) = some (addr, heap') ∧
        bytes = some (extentBytes read loc) ∧ size = loc.size) ∧
    (∀ out' heap', isoReadFileOut read heap path out = some (false, out', heap') →
      out' = ⟨none, 0⟩) ∧
    isoReadFileAlloc read heap path =
      (isoReadFileOut read heap path out).map fun r => (r.2.1.data, r.2.2) := by
  rw [isoReadFileOut_eq]
  refine ⟨fun bytes size heap' => ?_, fun out' heap' h => ?_, ?_⟩
  · constructor
    · intro h
      obtain ⟨⟨data, heap₁⟩, hread, hout⟩ := Option.map_eq_some_iff.mp h
      cases data with
      | none => cases hout
      | some bs =>
          cases hout
          obtain ⟨loc, addr, hresolve, hmax, halloc, hdata⟩ := parts_of_readFileAlloc hread
          have hsize := readDataLoop_size hdata
          obtain ⟨hsectors, hbytes⟩ := readDataLoop_extent.mp hdata
          exact ⟨loc, addr, hresolve, hmax, hsectors, halloc, congrArg some hbytes, hsize⟩
    · rintro ⟨loc, addr, hresolve, hmax, hsectors, halloc, rfl, rfl⟩
      have hdata : readDataLoop read loc.extentLba loc.size.toNat
          ((loc.size.toNat + 2047) / 2048) 0 [] = some (extentBytes read loc) :=
        readDataLoop_extent.mpr ⟨hsectors, rfl⟩
      rw [readFileAlloc_of_file hresolve hmax halloc, hdata, Option.map_some, outputs,
        readDataLoop_size hdata]
  · obtain ⟨⟨data, heap₁⟩, -, hout⟩ := Option.map_eq_some_iff.mp h
    cases data with
    | none =>
        cases hout
        rfl
    | some bs => cases hout
  · rw [Option.map_map]
    have hdata : (fun r => (r.2.1.data, r.2.2)) ∘ outputs = id := by
      funext r
      obtain ⟨data, heap₁⟩ := r
      cases data <;> rfl
    rw [hdata, Option.map_id, id_eq]

/-- A volume of 100 sectors with one file, `A` in sector 21, which holds `abc`. -/
def oneFileDisc : Disc := fun lba =>
  if lba = 16 then some fun i =>
    ([1] ++ cstr "CD001" ++ [1]).getD i (if i = 80 then 100 else if i = 156 then 34
      else if i = 158 then 20 else if i = 167 then 8 else if i = 181 then 2 else 0)
  else if lba = 20 then some fun i =>
    if i = 0 then 34 else if i = 2 then 21 else if i = 10 then 3 else if i = 32 then 1
      else if i = 33 then chr 'A' else 0
  else if lba = 21 then some fun i => (cstr "abc").getD i 0
  else none

theorem isoReadFileAlloc_demo :
    isoReadFileOut oneFileDisc ⟨0x1000, 0x1000, 0x2000, true⟩ (cstr "//a") ⟨none, 7⟩ =
      some (true, ⟨some (cstr "abc"), 3⟩, ⟨0x1000, 0x1010, 0x2000, true⟩) := by
  obtain ⟨hsuccess, -, -⟩ :=
    isoReadFileAlloc_iff oneFileDisc ⟨0x1000, 0x1000, 0x2000, true⟩ (cstr "//a") ⟨none, 7⟩
  rw [hsuccess]
  refine ⟨⟨21, 3, 0⟩, 0x1000, ?_, ?_, ?_, ?_, ?_, rfl⟩
  all_goals decide +kernel

end SlopOS.Proofs.DiscFiles
