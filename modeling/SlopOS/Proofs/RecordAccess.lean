import SlopOS.Proofs.DiscNames
import SlopOS.Support.Traced
/-!
# The bytes of a directory record

The functions of `fs.c` that work on one record once more, with a trace of the
bytes they look at, counted from the first byte of the record, and of what they
store in a name buffer.  Without the trace they are the functions of the model.
-/

namespace SlopOS.Proofs.RecordAccess

open SlopOS.Support SlopOS.Kernel SlopOS.Proofs.DiscScan SlopOS.Proofs.DiscNames

/-- A byte of the record is looked at; a byte is stored in the name buffer; the name buffer is read
as a string. -/
inductive Access
  | look (i : Nat)
  | store (i : Nat) (c : U8)
  | use
deriving DecidableEq

def look (entry : Nat → U8) (i : Nat) : Traced Access U8 := .event (.look i) (entry i)

def store (i : Nat) (c : U8) : Traced Access Unit := .event (.store i c) ()

def use : Traced Access Unit := .event .use ()

/-! ## Rock Ridge names -/

/-- The inner loop of `iso_try_read_rock_ridge_name`, from byte `i` of the entry on. -/
def copyEntryName (entry : Nat → U8) (off outSize : Nat) :
    Nat → Nat → List U8 → Traced Access (List U8)
  | 0, _, out => pure out
  | n + 1, i, out =>
    if outSize ≤ out.length + 1 then pure out
    else do
      let c ← look entry (off + i)
      store out.length (asciiLower c)
      copyEntryName entry off outSize n (i + 1) (out ++ [asciiLower c])

/-- `entry[0] == 'N' && entry[1] == 'M' && entry_len >= 5u`. -/
def isNameEntry (entry : Nat → U8) (off entryLen : Nat) : Traced Access Bool := do
  let first ← look entry off
  if first ≠ chr 'N' then pure false
  else do
    let second ← look entry (off + 1)
    pure (decide (second = chr 'M' ∧ 5 ≤ entryLen))

def rockRidgeTraced (entry : Nat → U8) (recLen outSize : Nat) :
    Nat → Nat → List U8 → Traced Access (Option (List U8))
  | 0, _, _ => pure none
  | fuel + 1, off, out =>
    if recLen < off + 4 then pure none
    else do
      let len ← look entry (off + 2)
      if len.toNat < 4 ∨ recLen < off + len.toNat then pure none
      else do
        let isName ← isNameEntry entry off len.toNat
        if !isName then rockRidgeTraced entry recLen outSize fuel (off + len.toNat) out
        else do
          let flags ← look entry (off + 4)
          if flags &&& 0x06 ≠ 0 then pure none
          else do
            let out ← copyEntryName entry off outSize (len.toNat - 5) 5 out
            if flags &&& 0x01 = 0 ∧ out ≠ [] then do
              store out.length 0
              pure (some out)
            else rockRidgeTraced entry recLen outSize fuel (off + len.toNat) out

def isoTryReadRockRidgeNameTraced (entry : Nat → U8) (recLen nameLen outSize : Nat) :
    Traced Access (Option (List U8)) :=
  let off := isoSystemUseOffset nameLen
  if recLen ≤ off then pure none else rockRidgeTraced entry recLen outSize (recLen + 1) off []

/-! ## Identifiers -/

/-- Up to the `;`, with `n` bytes of the identifier left. -/
def effectiveLenLoop (entry : Nat → U8) : Nat → Nat → Traced Access Nat
  | 0, k => pure k
  | n + 1, k => do
    let c ← look entry (33 + k)
    if c = chr ';' then pure k else effectiveLenLoop entry n (k + 1)

def isoEffectiveLen (entry : Nat → U8) (nameLen : Nat) : Traced Access Nat := do
  let k ← effectiveLenLoop entry nameLen 0
  if k = 0 then pure 0
  else do
    let c ← look entry (33 + (k - 1))
    pure (if c = chr '.' then k - 1 else k)

def nameMatchesTraced (entry : Nat → U8) : Nat → Nat → CStr → Traced Access Bool
  | 0, _, component => pure (decide (component = []))
  | n + 1, i, component => do
    let a ← look entry (33 + i)
    match component with
    | [] => pure false
    | b :: bs =>
      if asciiLower a = asciiLower b then nameMatchesTraced entry n (i + 1) bs else pure false

def isoNameMatchesTraced (entry : Nat → U8) (nameLen : Nat) (component : CStr) :
    Traced Access Bool := do
  let k ← isoEffectiveLen entry nameLen
  nameMatchesTraced entry k 0 component

def nameCopyLoop (entry : Nat → U8) (outSize : Nat) : Nat → Nat → List U8 → Traced Access (List U8)
  | 0, _, out => pure out
  | n + 1, i, out => do
    let c ← look entry (33 + i)
    if outSize ≤ out.length + 1 then pure out
    else do
      store out.length (asciiLower c)
      nameCopyLoop entry outSize n (i + 1) (out ++ [asciiLower c])

def isoNameCopyTraced (entry : Nat → U8) (nameLen outSize : Nat) : Traced Access (List U8) := do
  let k ← isoEffectiveLen entry nameLen
  let out ← nameCopyLoop entry outSize k 0 []
  store out.length 0
  pure out

/-! ## Records -/

def isoRecordNameMatchesTraced (r : DirRecord) (component : CStr) : Traced Access Bool := do
  let rrName ← isoTryReadRockRidgeNameTraced r.entry r.recLen r.nameLen direntNameSize
  match rrName with
  | some rrName => do
    use
    pure (namesMatchCasefold (cstrOf rrName) component)
  | none => isoNameMatchesTraced r.entry r.nameLen component

def isoRecordNameCopyTraced (r : DirRecord) : Traced Access CStr := do
  let rrName ← isoTryReadRockRidgeNameTraced r.entry r.recLen r.nameLen direntNameSize
  match rrName with
  | some rrName => pure (cstrOf rrName)
  | none => do
    let out ← isoNameCopyTraced r.entry r.nameLen direntNameSize
    pure (cstrOf out)

/-- The test for the self and parent records, with the bytes before it. -/
def isDotTraced (r : DirRecord) : Traced Access Bool := do
  let _ ← look r.entry 0
  let nameLen ← look r.entry 32
  if nameLen.toNat = 1 then do
    let c ← look r.entry 33
    pure (decide (c = 0) || decide (c = 1))
  else pure false

def lookU32 (entry : Nat → U8) (i : Nat) : Traced Access U32 := do
  let b0 ← look entry i
  let b1 ← look entry (i + 1)
  let b2 ← look entry (i + 2)
  let b3 ← look entry (i + 3)
  pure (ByteMem.wordOf b0 b1 b2 b3)

def findChildRecord (r : DirRecord) (name : CStr) : Traced Access (Option IsoDirLoc) := do
  let isDot ← isDotTraced r
  if isDot then pure none
  else do
    let found ← isoRecordNameMatchesTraced r name
    if !found then pure none
    else do
      let extentLba ← lookU32 r.entry 2
      let size ← lookU32 r.entry 10
      let flags ← look r.entry 25
      pure (some ⟨extentLba, size, flags⟩)

/-- What `iso_list_dir` and `iso_list_dir_entries` do with a record; the latter passes over it
when there is no room for another entry. -/
def listDirRecord (r : DirRecord) (room : Bool) : Traced Access (Option FsDirEntry) := do
  let isDot ← isDotTraced r
  if isDot || !room then pure none
  else do
    let name ← isoRecordNameCopyTraced r
    let flags ← look r.entry 25
    use
    pure (some ⟨name, decide (flags &&& 0x02 ≠ 0)⟩)

/-! ## Scans -/

/-- A record that a scan works on, where it begins in its sector, whether its name is wanted, and
what the scan does with it. -/
structure Visit where
  r : DirRecord
  secOff : Nat
  wanted : Bool
  log : List Access

/-- The records that `iso_find_child` meets in `n` turns. -/
def findChildVisits (read : Disc) (dir : IsoDirLoc) (name : CStr) : Nat → U32 → List Visit
  | 0, _ => []
  | n + 1, offset =>
    match scanNext read dir offset with
    | .done => []
    | .failed => []
    | .skip next => findChildVisits read dir name n next
    | .record r next =>
      ⟨r, (offset % 2048).toNat, true, (findChildRecord r name).log⟩ ::
        match (findChildRecord r name).out with
        | some _ => []
        | none => findChildVisits read dir name n next

/-- The records that a listing meets in `n` turns; `iso_list_dir` has no limit. -/
def listDirVisits (read : Disc) (dir : IsoDirLoc) (limit : Option Nat) :
    Nat → U32 → Nat → List Visit
  | 0, _, _ => []
  | n + 1, offset, count =>
    match scanNext read dir offset with
    | .done => []
    | .failed => []
    | .skip next => listDirVisits read dir limit n next count
    | .record r next =>
      let room := limit.all fun maxEntries => decide (count < maxEntries)
      ⟨r, (offset % 2048).toNat, room, (listDirRecord r room).log⟩ ::
        listDirVisits read dir limit n next
          (if (listDirRecord r room).out.isSome then count + 1 else count)

inductive Scan
  | findChild (name : CStr)
  | listDir
  | listDirEntries (maxEntries : Nat)

def visits (read : Disc) (dir : IsoDirLoc) (n : Nat) : Scan → List Visit
  | .findChild name => findChildVisits read dir name n 0
  | .listDir => listDirVisits read dir none n 0 0
  | .listDirEntries maxEntries => listDirVisits read dir (some maxEntries) n 0 0

variable {entry : Nat → U8} {recLen outSize nameLen off n i k fuel : Nat} {out : List U8}
variable {r : DirRecord} {name component : CStr}

/-! ## Without the trace -/

@[simp] theorem out_look : (look entry i).out = entry i := rfl

@[simp] theorem log_look : (look entry i).log = [.look i] := rfl

@[simp] theorem log_store {c : U8} : (store i c).log = [.store i c] := rfl

@[simp] theorem log_use : use.log = [.use] := rfl

theorem map_range_from {α : Type} (f : Nat → α) (n i : Nat) :
    ((List.range (n + 1)).map fun j => f (i + j)) = f i :: (List.range n).map fun j => f (i + 1 + j) := by
  have hshift : (fun j => f (i + 1 + j)) = fun j => f (i + (j + 1)) := by
    funext j
    congr 1
    omega
  rw [List.range_succ_eq_map, List.map_cons, List.map_map, hshift]
  rfl

theorem copyEntryName_out : (copyEntryName entry off outSize n i out).out =
    out ++ ((List.range n).map fun j => asciiLower (entry (off + (i + j)))).take
      (outSize - 1 - out.length) := by
  induction n generalizing i out with
  | zero => simp [copyEntryName]
  | succ n ih =>
      rw [copyEntryName]
      by_cases hfull : outSize ≤ out.length + 1
      · have hzero : outSize - 1 - out.length = 0 := by omega
        rw [if_pos hfull, hzero, List.take_zero, List.append_nil]
        rfl
      · have hroom : outSize - 1 - out.length = outSize - 1 - (out.length + 1) + 1 := by omega
        rw [if_neg hfull, Traced.out_bind, Traced.out_bind, out_look, ih, List.length_append,
          List.length_singleton, map_range_from (fun j => asciiLower (entry (off + j))), hroom,
          List.take_succ_cons, List.append_assoc, List.singleton_append]

theorem isNameEntry_out (entryLen : Nat) : (isNameEntry entry off entryLen).out =
    decide (entry off = chr 'N' ∧ entry (off + 1) = chr 'M' ∧ 5 ≤ entryLen) := by
  rw [isNameEntry, Traced.out_bind, out_look]
  by_cases hfirst : entry off = chr 'N'
  · rw [if_neg (not_not.mpr hfirst), Traced.out_bind, out_look, Traced.out_pure]
    simp [hfirst]
  · rw [if_pos hfirst, Traced.out_pure]
    simp [hfirst]

theorem rockRidgeTraced_out : (rockRidgeTraced entry recLen outSize fuel off out).out =
    rockRidgeLoop entry recLen outSize fuel off out := by
  induction fuel generalizing off out with
  | zero => rfl
  | succ fuel ih =>
      rw [rockRidgeTraced, rockRidgeLoop]
      split
      · rfl
      rw [Traced.out_bind, out_look]
      dsimp only
      split
      · rfl
      rw [Traced.out_bind, isNameEntry_out]
      by_cases hname : entry off = chr 'N' ∧ entry (off + 1) = chr 'M' ∧ 5 ≤ (entry (off + 2)).toNat
      · rw [decide_eq_true hname, if_pos hname, if_neg (by decide), Traced.out_bind, out_look]
        split
        · rfl
        have hassoc : (fun j => asciiLower (entry (off + 5 + j))) =
            fun j => asciiLower (entry (off + (5 + j))) := by
          funext j
          rw [Nat.add_assoc]
        rw [Traced.out_bind, copyEntryName_out, hassoc]
        split
        · rfl
        · exact ih
      · rw [decide_eq_false hname, if_neg hname, if_pos (by decide)]
        exact ih

theorem isoTryReadRockRidgeNameTraced_out :
    (isoTryReadRockRidgeNameTraced entry recLen nameLen outSize).out =
      isoTryReadRockRidgeName entry recLen nameLen outSize := by
  unfold isoTryReadRockRidgeNameTraced isoTryReadRockRidgeName
  dsimp only
  split
  · rfl
  · exact rockRidgeTraced_out

/-- The identifier from byte `k` on, up to the `;`. -/
def identFrom (entry : Nat → U8) (n k : Nat) : List U8 :=
  ((List.range n).map fun j => entry (33 + (k + j))).takeWhile fun c => c ≠ chr ';'

theorem identFrom_succ : identFrom entry (n + 1) k =
    if entry (33 + k) = chr ';' then [] else entry (33 + k) :: identFrom entry n (k + 1) := by
  unfold identFrom
  rw [map_range_from (fun j => entry (33 + j)), List.takeWhile_cons]
  by_cases hend : entry (33 + k) = chr ';'
  · rw [if_pos hend, hend]
    rfl
  · rw [if_neg hend, if_pos (decide_eq_true hend)]

theorem effectiveLenLoop_out : (effectiveLenLoop entry n k).out =
    k + (identFrom entry n k).length := by
  induction n generalizing k with
  | zero => rfl
  | succ n ih =>
      rw [effectiveLenLoop, Traced.out_bind, out_look, identFrom_succ]
      split
      · rfl
      · rw [ih, List.length_cons]
        omega

theorem identFrom_eq_map : identFrom entry n k =
    (List.range (identFrom entry n k).length).map fun j => entry (33 + (k + j)) := by
  have hprefix := List.takeWhile_prefix (l := (List.range n).map fun j => entry (33 + (k + j)))
    (fun c => decide (c ≠ chr ';'))
  obtain ⟨rest, hrest⟩ := hprefix
  have htake : identFrom entry n k =
      ((List.range n).map fun j => entry (33 + (k + j))).take (identFrom entry n k).length := by
    rw [← hrest]
    exact List.take_left.symm
  rw [← List.map_take, List.take_range] at htake
  have hlen := congrArg List.length htake
  rw [List.length_map, List.length_range] at hlen
  rw [← hlen] at htake
  exact htake

theorem effectiveName_eq_map : isoEffectiveName (fun i => entry (33 + i)) n =
    (List.range (isoEffectiveLen entry n).out).map fun j => entry (33 + j) := by
  have hident : ((List.range n).map fun i => entry (33 + i)).takeWhile (fun c => c ≠ chr ';') =
      (List.range (identFrom entry n 0).length).map fun j => entry (33 + j) := by
    have heq := @identFrom_eq_map entry n 0
    simp only [Nat.zero_add] at heq
    rw [← heq]
    unfold identFrom
    simp only [Nat.zero_add]
  unfold isoEffectiveName isoEffectiveLen
  rw [hident, Traced.out_bind, effectiveLenLoop_out, Nat.zero_add]
  dsimp only
  generalize (identFrom entry n 0).length = len
  cases len with
  | zero => rfl
  | succ len =>
      rw [if_neg (Nat.succ_ne_zero len), Traced.out_bind, out_look, Traced.out_pure,
        Nat.add_sub_cancel, List.range_succ, List.map_append, List.map_singleton,
        List.getLast?_concat, List.dropLast_concat]
      by_cases hpoint : entry (33 + len) = chr '.'
      · rw [if_pos (congrArg some hpoint), if_pos hpoint]
      · rw [if_neg fun h => hpoint (Option.some.inj h), if_neg hpoint, List.range_succ,
          List.map_append, List.map_singleton]

theorem nameMatchesTraced_out : (nameMatchesTraced entry n i component).out =
    nameMatchesLoop ((List.range n).map fun j => entry (33 + (i + j))) component := by
  induction n generalizing i component with
  | zero => rfl
  | succ n ih =>
      rw [nameMatchesTraced, Traced.out_bind, out_look, map_range_from (fun j => entry (33 + j))]
      cases component with
      | nil => rfl
      | cons b bs =>
          rw [nameMatchesLoop]
          dsimp only
          by_cases hsame : asciiLower (entry (33 + i)) = asciiLower b
          · rw [if_pos hsame, decide_eq_true hsame, Bool.true_and]
            exact ih
          · rw [if_neg hsame, decide_eq_false hsame, Bool.false_and]
            rfl

/-- The copy of an identifier takes one look more than that of a Rock Ridge name. -/
theorem nameCopyLoop_out : (nameCopyLoop entry outSize n i out).out =
    (copyEntryName entry 33 outSize n i out).out := by
  induction n generalizing i out with
  | zero => rfl
  | succ n ih =>
      rw [nameCopyLoop, copyEntryName, Traced.out_bind, out_look]
      split
      · rfl
      · exact ih

theorem isoNameMatchesTraced_out : (isoNameMatchesTraced entry nameLen component).out =
    isoNameMatches (fun i => entry (33 + i)) nameLen component := by
  rw [isoNameMatchesTraced, Traced.out_bind, nameMatchesTraced_out]
  unfold isoNameMatches
  rw [effectiveName_eq_map]
  simp only [Nat.zero_add]

theorem isoNameCopyTraced_out : (isoNameCopyTraced entry nameLen outSize).out =
    isoNameCopy (fun i => entry (33 + i)) nameLen outSize := by
  rw [isoNameCopyTraced, Traced.out_bind, Traced.out_bind, Traced.out_bind, Traced.out_pure,
    nameCopyLoop_out, copyEntryName_out]
  unfold isoNameCopy
  rw [effectiveName_eq_map, ← List.map_take, ← List.map_take, List.map_map, List.nil_append,
    List.length_nil, Nat.sub_zero]
  simp only [Nat.zero_add]
  rfl

theorem isDotTraced_out : (isDotTraced r).out = r.isDot := by
  unfold isDotTraced DirRecord.isDot isDotRecord
  rw [Traced.out_bind, Traced.out_bind, out_look]
  change (if r.nameLen = 1 then _ else pure false : Traced Access Bool).out = _
  by_cases hone : r.nameLen = 1
  · rw [if_pos hone, decide_eq_true hone]
    rfl
  · rw [if_neg hone, decide_eq_false hone]
    rfl

theorem isoRecordNameMatchesTraced_out : (isoRecordNameMatchesTraced r component).out =
    isoRecordNameMatches r.entry r.recLen r.recName r.nameLen component := by
  unfold isoRecordNameMatchesTraced isoRecordNameMatches
  rw [Traced.out_bind, isoTryReadRockRidgeNameTraced_out]
  cases isoTryReadRockRidgeName r.entry r.recLen r.nameLen direntNameSize with
  | some rrName => rfl
  | none => exact isoNameMatchesTraced_out

theorem isoRecordNameCopyTraced_out : (isoRecordNameCopyTraced r).out = r.listedName := by
  unfold isoRecordNameCopyTraced DirRecord.listedName isoRecordNameCopy
  rw [Traced.out_bind, isoTryReadRockRidgeNameTraced_out]
  cases isoTryReadRockRidgeName r.entry r.recLen r.nameLen direntNameSize with
  | some rrName => rfl
  | none => exact congrArg cstrOf isoNameCopyTraced_out

theorem findChildRecord_out : (findChildRecord r name).out =
    if r.answers name then some r.loc else none := by
  unfold findChildRecord DirRecord.answers
  rw [Traced.out_bind, isDotTraced_out]
  cases r.isDot with
  | true => rfl
  | false =>
      rw [if_neg Bool.false_ne_true, Traced.out_bind, isoRecordNameMatchesTraced_out]
      cases isoRecordNameMatches r.entry r.recLen r.recName r.nameLen name <;> rfl

theorem listDirRecord_out (room : Bool) : (listDirRecord r room).out =
    if r.isDot || !room then none else some r.listed := by
  unfold listDirRecord DirRecord.listed
  rw [Traced.out_bind, isDotTraced_out]
  split
  · rfl
  · rw [Traced.out_bind, isoRecordNameCopyTraced_out]
    rfl

end SlopOS.Proofs.RecordAccess
