import SlopOS.Kernel.Iso
/-!
# Scanning a directory of the disc

`scanNext` says once what a turn of the three scan loops does with its offset.
The offset grows from turn to turn as long as the directory is not larger than
`scanSizeMax`; beyond that size the sum behind the last sector wraps to 0 and
the scan starts again.
-/

namespace SlopOS.Proofs.DiscScan

open SlopOS.Support SlopOS.Kernel

abbrev Disc := U32 → Option Sector

/-- A record of a directory: its bytes and its length. -/
structure DirRecord where
  entry : Nat → U8
  recLen : Nat

namespace DirRecord

def nameLen (r : DirRecord) : Nat := (r.entry 32).toNat

def recName (r : DirRecord) : Nat → U8 := fun i => r.entry (33 + i)

def isDot (r : DirRecord) : Bool := isDotRecord r.nameLen r.recName

def listedName (r : DirRecord) : CStr :=
  isoRecordNameCopy r.entry r.recLen r.recName r.nameLen direntNameSize

def isDir (r : DirRecord) : Bool := decide (r.entry 25 &&& 0x02 ≠ 0)

def listed (r : DirRecord) : FsDirEntry := ⟨r.listedName, r.isDir⟩

/-- Whether a search for `name` stops at the record. -/
def answers (r : DirRecord) (name : CStr) : Bool :=
  !r.isDot && isoRecordNameMatches r.entry r.recLen r.recName r.nameLen name

def loc (r : DirRecord) : IsoDirLoc :=
  ⟨readU32Le fun i => r.entry (2 + i), readU32Le fun i => r.entry (10 + i), r.entry 25⟩

end DirRecord

inductive ScanStep
  | done
  | failed
  | skip (next : U32)
  | record (r : DirRecord) (next : U32)

def scanNext (read : Disc) (dir : IsoDirLoc) (offset : U32) : ScanStep :=
  if dir.size ≤ offset then .done
  else
    match read (dir.extentLba + offset / 2048) with
    | none => .failed
    | some sector =>
      let secOff := (offset % 2048).toNat
      let recLen := (sector secOff).toNat
      if recLen = 0 then .skip ((offset / 2048 + 1) * 2048)
      else if isoSectorSize < secOff + recLen ∨ recLen < 34 then .failed
      else .record ⟨fun i => sector (secOff + i), recLen⟩ (offset + BitVec.ofNat 32 recLen)

/-- The largest directory whose scan cannot wrap: up to the last sector. -/
def scanSizeMax : Nat := 2 ^ 32 - 2048

variable {read : Disc} {dir : IsoDirLoc} {name : CStr} {offset next : U32} {fuel : Nat}

/-! ## The loops, turn by turn -/

theorem findChildLoop_succ (read : Disc) (dir : IsoDirLoc) (name : CStr) (fuel : Nat)
    (offset : U32) :
    findChildLoop read dir name (fuel + 1) offset =
      match scanNext read dir offset with
      | .done => some none
      | .failed => some none
      | .skip next => findChildLoop read dir name fuel next
      | .record r next =>
        if r.answers name then some (some r.loc) else findChildLoop read dir name fuel next := by
  rw [findChildLoop, scanNext]
  by_cases hend : dir.size ≤ offset
  · rw [if_pos hend, if_pos hend]
  rw [if_neg hend, if_neg hend]
  cases hread : read (dir.extentLba + offset / 2048) with
  | none => rfl
  | some sector =>
      dsimp only
      split
      · rfl
      split
      · rfl
      · rfl

theorem listDirLoop_succ (read : Disc) (dir : IsoDirLoc) (fuel : Nat) (offset : U32)
    (entries : List FsDirEntry) :
    listDirLoop read dir (fuel + 1) offset entries =
      match scanNext read dir offset with
      | .done => some (true, entries)
      | .failed => some (false, entries)
      | .skip next => listDirLoop read dir fuel next entries
      | .record r next =>
        listDirLoop read dir fuel next (if r.isDot then entries else entries ++ [r.listed]) := by
  rw [listDirLoop, scanNext]
  by_cases hend : dir.size ≤ offset
  · rw [if_pos hend, if_pos hend]
  rw [if_neg hend, if_neg hend]
  cases hread : read (dir.extentLba + offset / 2048) with
  | none => rfl
  | some sector =>
      dsimp only
      split
      · rfl
      split
      · rfl
      · rfl

/-! ## The offset -/

def StepsTo (read : Disc) (dir : IsoDirLoc) (offset next : U32) : Prop :=
  scanNext read dir offset = .skip next ∨ ∃ r, scanNext read dir offset = .record r next

theorem toNat_div (offset : U32) : (offset / 2048).toNat = offset.toNat / 2048 := by
  rw [BitVec.toNat_udiv]
  rfl

theorem toNat_mod (offset : U32) : (offset % 2048).toNat = offset.toNat % 2048 := by
  rw [BitVec.toNat_umod]
  rfl

/-- Where a turn goes on, in exact arithmetic: at the next sector, or behind a record that
ends in this one. -/
theorem stepsTo_exact (h : StepsTo read dir offset next) :
    offset < dir.size ∧ ∃ n, next = BitVec.ofNat 32 n ∧ offset.toNat < n ∧
      n ≤ (offset.toNat / 2048 + 1) * 2048 := by
  have hsplit := Nat.div_add_mod offset.toNat 2048
  have hmod : offset.toNat % 2048 < 2048 := Nat.mod_lt _ (by decide)
  unfold StepsTo scanNext at h
  split at h
  · simp at h
  rename_i hlt
  refine ⟨BitVec.not_le.mp hlt, ?_⟩
  split at h
  · simp at h
  rename_i sector hread
  dsimp only at h
  split at h
  · simp only [ScanStep.skip.injEq, reduceCtorEq, exists_false, or_false] at h
    refine ⟨(offset.toNat / 2048 + 1) * 2048, ?_, by omega, Nat.le_refl _⟩
    rw [← h]
    apply BitVec.eq_of_toNat_eq
    rw [BitVec.toNat_mul, BitVec.toNat_add, toNat_div, BitVec.toNat_ofNat]
    simp
  rename_i hzero
  split at h
  · simp at h
  rename_i hfits
  simp only [reduceCtorEq, ScanStep.record.injEq, false_or] at h
  obtain ⟨r, -, hnext⟩ := h
  simp only [not_or, Nat.not_lt, isoSectorSize, toNat_mod] at hfits
  rw [toNat_mod] at hzero hnext
  generalize hrec : (sector (offset.toNat % 2048)).toNat = recLen at *
  refine ⟨offset.toNat + recLen, ?_, by omega, by omega⟩
  rw [← hnext]
  apply BitVec.eq_of_toNat_eq
  rw [BitVec.toNat_add, BitVec.toNat_ofNat, BitVec.toNat_ofNat, Nat.add_mod_mod]

theorem stepsTo_lt (hsize : dir.size.toNat ≤ scanSizeMax) (h : StepsTo read dir offset next) :
    offset.toNat < next.toNat := by
  obtain ⟨hlt, n, rfl, hn, hle⟩ := stepsTo_exact h
  have hoff : offset.toNat < dir.size.toNat := hlt
  unfold scanSizeMax at hsize
  have hsector : offset.toNat / 2048 + 1 ≤ 2 ^ 21 - 1 := by omega
  rw [BitVec.toNat_ofNat, Nat.mod_eq_of_lt (by omega)]
  exact hn

/-! ## Termination -/

theorem findChildLoop_isSome (hsize : dir.size.toNat ≤ scanSizeMax)
    (hfuel : 2 ^ 32 ≤ offset.toNat + fuel) : (findChildLoop read dir name fuel offset).isSome := by
  induction fuel generalizing offset with
  | zero =>
      have := offset.isLt
      omega
  | succ fuel ih =>
      rw [findChildLoop_succ]
      cases hnext : scanNext read dir offset with
      | done => rfl
      | failed => rfl
      | skip next =>
          have := stepsTo_lt hsize (Or.inl hnext)
          exact ih (by omega)
      | record r next =>
          have := stepsTo_lt hsize (Or.inr ⟨r, hnext⟩)
          dsimp only
          split
          · rfl
          · exact ih (by omega)

theorem listDirLoop_isSome {entries : List FsDirEntry} (hsize : dir.size.toNat ≤ scanSizeMax)
    (hfuel : 2 ^ 32 ≤ offset.toNat + fuel) :
    (listDirLoop read dir fuel offset entries).isSome := by
  induction fuel generalizing offset entries with
  | zero =>
      have := offset.isLt
      omega
  | succ fuel ih =>
      rw [listDirLoop_succ]
      cases hnext : scanNext read dir offset with
      | done => rfl
      | failed => rfl
      | skip next =>
          have := stepsTo_lt hsize (Or.inl hnext)
          exact ih (by omega)
      | record r next =>
          have := stepsTo_lt hsize (Or.inr ⟨r, hnext⟩)
          exact ih (by omega)

theorem isoFindChild_isSome (hsize : dir.size.toNat ≤ scanSizeMax) :
    (isoFindChild read dir name).isSome :=
  findChildLoop_isSome hsize (by decide)

theorem isoListDir_isSome (hsize : dir.size.toNat ≤ scanSizeMax) :
    (isoListDir read dir).isSome :=
  listDirLoop_isSome hsize (by decide)

/-! ## Directories that are too large -/

/-- All sectors from the first one of the directory on hold zeros, so that every turn skips
a sector. -/
def Blank (read : Disc) (dir : IsoDirLoc) : Prop :=
  ∀ offset : U32, read (dir.extentLba + offset / 2048) = some fun _ => 0

theorem scanNext_blank (hblank : Blank read dir) (hsize : scanSizeMax < dir.size.toNat)
    (hoff : offset.toNat % 2048 = 0) :
    ∃ next : U32, scanNext read dir offset = .skip next ∧ next.toNat % 2048 = 0 := by
  have hlt : ¬dir.size ≤ offset := by
    have := offset.isLt
    unfold scanSizeMax at hsize
    rw [BitVec.not_le, BitVec.lt_def]
    omega
  refine ⟨(offset / 2048 + 1) * 2048, ?_, ?_⟩
  · unfold scanNext
    rw [if_neg hlt, hblank offset]
    rfl
  · rw [BitVec.toNat_mul]
    change (_ * 2048) % 2 ^ 32 % 2048 = 0
    omega

theorem findChildLoop_blank (hblank : Blank read dir) (hsize : scanSizeMax < dir.size.toNat)
    (hoff : offset.toNat % 2048 = 0) : findChildLoop read dir name fuel offset = none := by
  induction fuel generalizing offset with
  | zero => rfl
  | succ fuel ih =>
      obtain ⟨next, hskip, hnext⟩ := scanNext_blank hblank hsize hoff
      rw [findChildLoop_succ, hskip]
      exact ih hnext

end SlopOS.Proofs.DiscScan
