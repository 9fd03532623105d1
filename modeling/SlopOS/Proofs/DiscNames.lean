import Mathlib.Data.List.Find
import SlopOS.Proofs.DiscScan
/-!
# Listed names and found names

A listing copies the name of a record into a buffer of 64 bytes; a search
compares the name it is given with the record again.  A Rock Ridge name goes
through the same buffer both times, an ISO identifier only in the listing.
-/

namespace SlopOS.Proofs.DiscNames

open SlopOS.Support SlopOS.Kernel SlopOS.Proofs.DiscScan

variable {read : Disc} {dir : IsoDirLoc} {name : CStr} {offset : U32} {fuel maxEntries : Nat}
variable {r : DirRecord} {records : List DirRecord} {entries : List FsDirEntry}

/-! ## Names up to case -/

theorem asciiLower_idem (c : U8) : asciiLower (asciiLower c) = asciiLower c := by
  revert c
  decide

theorem asciiLower_eq_zero (c : U8) : asciiLower c = 0 ↔ c = 0 := by
  revert c
  decide

theorem map_asciiLower_idem (s : CStr) : (s.map asciiLower).map asciiLower = s.map asciiLower := by
  rw [List.map_map]
  exact List.map_congr_left fun c _ => asciiLower_idem c

theorem zero_mem_map_asciiLower (s : CStr) : 0 ∈ s.map asciiLower ↔ 0 ∈ s := by
  rw [List.mem_map]
  constructor
  · rintro ⟨c, hc, hzero⟩
    rwa [(asciiLower_eq_zero c).mp hzero] at hc
  · intro h
    exact ⟨0, h, rfl⟩

theorem namesMatchCasefold_iff (a b : CStr) :
    namesMatchCasefold a b = true ↔ a.map asciiLower = b.map asciiLower := by
  induction a generalizing b with
  | nil => cases b <;> simp [namesMatchCasefold]
  | cons x a ih => cases b <;> simp [namesMatchCasefold, ih]

theorem nameMatchesLoop_eq (a b : CStr) : nameMatchesLoop a b = namesMatchCasefold a b := by
  induction a generalizing b with
  | nil => cases b <;> rfl
  | cons x a ih => cases b <;> simp [nameMatchesLoop, namesMatchCasefold, ih]

theorem zero_not_mem_cstrOf (buf : List U8) : 0 ∉ cstrOf buf := by
  intro h
  have hall := List.all_takeWhile (p := fun c : U8 => c ≠ 0) (l := buf)
  have := List.all_eq_true.mp hall 0 h
  simp at this

theorem cstrOf_of_not_mem {buf : List U8} (h : 0 ∉ buf) : cstrOf buf = buf := by
  induction buf with
  | nil => rfl
  | cons c buf ih =>
      rw [List.mem_cons, not_or] at h
      unfold cstrOf at ih ⊢
      rw [List.takeWhile_cons_of_pos (by simpa using Ne.symm h.1), ih h.2]

theorem length_cstrOf_le (buf : List U8) : (cstrOf buf).length ≤ buf.length :=
  (List.takeWhile_prefix _).length_le

/-! ## The two names of a record -/

def rockRidge (r : DirRecord) : Option (List U8) :=
  isoTryReadRockRidgeName r.entry r.recLen r.nameLen direntNameSize

def identifier (r : DirRecord) : CStr := isoEffectiveName r.recName r.nameLen

/-- The listed name is all of the name that a search compares: a Rock Ridge name, or an
identifier that fits the buffer and contains no NUL. -/
def plainName (r : DirRecord) : Bool :=
  (rockRidge r).isSome || (decide ((identifier r).length < direntNameSize) &&
    (identifier r).all fun c => decide (c ≠ 0))

theorem listedName_rockRidge {rr : List U8} (hrr : rockRidge r = some rr) :
    r.listedName = cstrOf rr := by
  unfold rockRidge at hrr
  unfold DirRecord.listedName isoRecordNameCopy
  rw [hrr]

theorem listedName_identifier (hrr : rockRidge r = none) :
    r.listedName = cstrOf (((identifier r).take (direntNameSize - 1)).map asciiLower) := by
  unfold rockRidge at hrr
  unfold DirRecord.listedName isoRecordNameCopy
  rw [hrr]
  rfl

theorem rockRidgeLoop_length {entry : Nat → U8} {recLen outSize fuel off : Nat}
    {out rr : List U8} (hout : out.length ≤ outSize - 1)
    (h : rockRidgeLoop entry recLen outSize fuel off out = some rr) : rr.length ≤ outSize - 1 := by
  induction fuel generalizing off out with
  | zero => cases h
  | succ fuel ih =>
      rw [rockRidgeLoop] at h
      split at h
      · cases h
      dsimp only at h
      split at h
      · cases h
      split at h
      · split at h
        · cases h
        have hgrown : (out ++ ((List.range ((entry (off + 2)).toNat - 5)).map fun i =>
            asciiLower (entry (off + 5 + i))).take (outSize - 1 - out.length)).length ≤
              outSize - 1 := by
          rw [List.length_append, List.length_take]
          omega
        split at h
        · rw [← Option.some.inj h]
          exact hgrown
        · exact ih hgrown h
      · exact ih hout h

theorem listedName_length (r : DirRecord) : r.listedName.length < direntNameSize := by
  have hsize : direntNameSize = 64 := rfl
  cases hrr : rockRidge r with
  | some rr =>
      rw [listedName_rockRidge hrr]
      have hle := length_cstrOf_le rr
      unfold rockRidge isoTryReadRockRidgeName at hrr
      dsimp only at hrr
      split at hrr
      · cases hrr
      · have := rockRidgeLoop_length (Nat.zero_le _) hrr
        omega
  | none =>
      rw [listedName_identifier hrr]
      have hle := length_cstrOf_le (((identifier r).take (direntNameSize - 1)).map asciiLower)
      rw [List.length_map, List.length_take] at hle
      omega

theorem zero_not_mem_listedName (r : DirRecord) : 0 ∉ r.listedName := by
  cases hrr : rockRidge r with
  | some rr =>
      rw [listedName_rockRidge hrr]
      exact zero_not_mem_cstrOf rr
  | none =>
      rw [listedName_identifier hrr]
      exact zero_not_mem_cstrOf _

theorem plainName_iff (hrr : rockRidge r = none) :
    plainName r = true ↔ (identifier r).length < direntNameSize ∧ 0 ∉ identifier r := by
  unfold plainName
  rw [hrr, Option.isSome_none, Bool.false_or, Bool.and_eq_true, decide_eq_true_eq,
    List.all_eq_true]
  simp only [decide_eq_true_eq]
  exact and_congr_right fun _ => ⟨fun h hmem => h 0 hmem rfl, fun h c hc hzero => h (hzero ▸ hc)⟩

theorem listedName_plain (hrr : rockRidge r = none) (hplain : plainName r = true) :
    r.listedName = (identifier r).map asciiLower := by
  obtain ⟨hlength, hzero⟩ := (plainName_iff hrr).mp hplain
  have htake : (identifier r).take (direntNameSize - 1) = identifier r :=
    List.take_of_length_le (Nat.le_sub_one_of_lt hlength)
  rw [listedName_identifier hrr, htake, cstrOf_of_not_mem]
  rwa [zero_mem_map_asciiLower]

theorem answers_listed (hdot : r.isDot = false) (hlength : name.length < direntNameSize)
    (hzero : 0 ∉ name) :
    r.answers name = (plainName r && namesMatchCasefold r.listedName name) := by
  unfold DirRecord.answers isoRecordNameMatches
  rw [hdot, Bool.not_false, Bool.true_and]
  cases hrr : rockRidge r with
  | some rr =>
      have htry : isoTryReadRockRidgeName r.entry r.recLen r.nameLen direntNameSize = some rr := hrr
      have hplain : plainName r = true := by
        unfold plainName
        rw [hrr]
        rfl
      rw [htry, hplain, listedName_rockRidge hrr, Bool.true_and]
  | none =>
      have htry : isoTryReadRockRidgeName r.entry r.recLen r.nameLen direntNameSize = none := hrr
      rw [htry]
      change nameMatchesLoop (identifier r) name = _
      rw [nameMatchesLoop_eq, Bool.eq_iff_iff, Bool.and_eq_true, namesMatchCasefold_iff,
        namesMatchCasefold_iff]
      constructor
      · intro hmatch
        -- a name that fits the buffer and has no NUL only matches such an identifier
        have hplain : plainName r = true := by
          have hlen := congrArg List.length hmatch
          rw [List.length_map, List.length_map] at hlen
          have hnot : 0 ∉ identifier r := by
            rw [← zero_mem_map_asciiLower, hmatch, zero_mem_map_asciiLower]
            exact hzero
          exact (plainName_iff hrr).mpr ⟨by omega, hnot⟩
        refine ⟨hplain, ?_⟩
        rw [listedName_plain hrr hplain, map_asciiLower_idem, hmatch]
      · rintro ⟨hplain, hmatch⟩
        rwa [listedName_plain hrr hplain, map_asciiLower_idem] at hmatch

/-! ## The records of a directory -/

/-- The records that a scan meets, without the self and parent records; `none` for a scan
that fails. -/
def recordsFrom (read : Disc) (dir : IsoDirLoc) : Nat → U32 → Option (List DirRecord)
  | 0, _ => none
  | fuel + 1, offset =>
    match scanNext read dir offset with
    | .done => some []
    | .failed => none
    | .skip next => recordsFrom read dir fuel next
    | .record r next =>
      (recordsFrom read dir fuel next).map fun records =>
        if r.isDot then records else r :: records

def dirRecords (read : Disc) (dir : IsoDirLoc) : Option (List DirRecord) :=
  recordsFrom read dir scanFuel 0

theorem isDot_of_mem_records (h : recordsFrom read dir fuel offset = some records)
    (hr : r ∈ records) : r.isDot = false := by
  induction fuel generalizing offset records with
  | zero => cases h
  | succ fuel ih =>
      rw [recordsFrom] at h
      split at h
      · cases h
        cases hr
      · cases h
      · exact ih h hr
      · obtain ⟨rest, hrest, rfl⟩ := Option.map_eq_some_iff.mp h
        split at hr
        · exact ih hrest hr
        rename_i hdot
        rcases List.mem_cons.mp hr with rfl | hr
        · simpa using hdot
        · exact ih hrest hr

theorem listDirLoop_records (h : recordsFrom read dir fuel offset = some records) :
    listDirLoop read dir fuel offset entries =
      some (true, entries ++ records.map DirRecord.listed) := by
  induction fuel generalizing offset records entries with
  | zero => cases h
  | succ fuel ih =>
      rw [recordsFrom] at h
      rw [listDirLoop_succ]
      cases hnext : scanNext read dir offset with
      | done =>
          rw [hnext] at h
          cases h
          rw [List.map_nil, List.append_nil]
      | failed =>
          rw [hnext] at h
          cases h
      | skip next =>
          rw [hnext] at h
          exact ih h
      | record r next =>
          rw [hnext] at h
          obtain ⟨rest, hrest, rfl⟩ := Option.map_eq_some_iff.mp h
          dsimp only
          rw [ih hrest]
          split
          · rfl
          · rw [List.map_cons, List.append_assoc, List.singleton_append]

theorem listDirLoop_fails (h : recordsFrom read dir fuel offset = none)
    (out : List FsDirEntry) : listDirLoop read dir fuel offset entries ≠ some (true, out) := by
  induction fuel generalizing offset entries with
  | zero => exact nofun
  | succ fuel ih =>
      rw [recordsFrom] at h
      rw [listDirLoop_succ]
      cases hnext : scanNext read dir offset with
      | done =>
          rw [hnext] at h
          cases h
      | failed => exact nofun
      | skip next =>
          rw [hnext] at h
          exact ih h
      | record r next =>
          rw [hnext] at h
          exact ih (Option.map_eq_none_iff.mp h)

theorem findChildLoop_records (h : recordsFrom read dir fuel offset = some records) :
    findChildLoop read dir name fuel offset =
      some ((records.find? fun r => r.answers name).map DirRecord.loc) := by
  induction fuel generalizing offset records with
  | zero => cases h
  | succ fuel ih =>
      rw [recordsFrom] at h
      rw [findChildLoop_succ]
      cases hnext : scanNext read dir offset with
      | done =>
          rw [hnext] at h
          cases h
          rfl
      | failed =>
          rw [hnext] at h
          cases h
      | skip next =>
          rw [hnext] at h
          exact ih h
      | record r next =>
          rw [hnext] at h
          obtain ⟨rest, hrest, rfl⟩ := Option.map_eq_some_iff.mp h
          dsimp only
          rw [ih hrest]
          by_cases hdot : r.isDot = true
          · -- a search never stops at the self and parent records
            have hpass : r.answers name = false := by
              unfold DirRecord.answers
              rw [hdot]
              rfl
            rw [if_pos hdot, hpass, if_neg Bool.false_ne_true]
          · rw [if_neg hdot, List.find?_cons]
            cases r.answers name <;> rfl

theorem isoListDirEntries_iff : isoListDirEntries read dir maxEntries = some (some entries) ↔
    ∃ records, dirRecords read dir = some records ∧
      entries = (records.map DirRecord.listed).take maxEntries := by
  unfold isoListDirEntries isoListDir dirRecords
  cases hrecords : recordsFrom read dir scanFuel 0 with
  | some records =>
      rw [listDirLoop_records hrecords]
      constructor
      · intro h
        cases h
        exact ⟨records, rfl, rfl⟩
      · rintro ⟨_, hsome, rfl⟩
        cases hsome
        rfl
  | none =>
      constructor
      · intro h
        obtain ⟨⟨ok, out⟩, hloop, hout⟩ := Option.map_eq_some_iff.mp h
        dsimp only at hout
        split at hout
        · rename_i hok
          rw [hok] at hloop
          exact absurd hloop (listDirLoop_fails hrecords out)
        · cases hout
      · rintro ⟨_, hnone, -⟩
        cases hnone

theorem isoFindChild_records (h : dirRecords read dir = some records) :
    isoFindChild read dir name =
      some ((records.find? fun r => r.answers name).map DirRecord.loc) :=
  findChildLoop_records h

/-! ## Opening what was listed -/

/-- The first record in scan order that is listed as `name` up to case. -/
def firstNamed (records : List DirRecord) (name : CStr) : Option DirRecord :=
  records.find? fun r => namesMatchCasefold r.listedName name

/-- The first of those with a plain name. -/
def firstPlain (records : List DirRecord) (name : CStr) : Option DirRecord :=
  records.find? fun r => plainName r && namesMatchCasefold r.listedName name

/-- Every listed name finds the first record that is listed under it. -/
def OpensListed (read : Disc) (dir : IsoDirLoc) (maxEntries : Nat) : Prop :=
  ∀ records entries, dirRecords read dir = some records →
    isoListDirEntries read dir maxEntries = some (some entries) →
      ∀ e ∈ entries, ∃ r child, firstNamed records e.name = some r ∧
        isoFindChild read dir e.name = some (some child) ∧ child = r.loc ∧
          decide (child.flags &&& 0x02 ≠ 0) = r.listed.isDir

theorem find_listed (hrecords : dirRecords read dir = some records) (r : DirRecord) :
    isoFindChild read dir r.listedName =
      some ((firstPlain records r.listedName).map DirRecord.loc) := by
  rw [isoFindChild_records hrecords]
  unfold firstPlain
  congr 2
  apply List.find?_congr
  intro r' hr'
  exact answers_listed (isDot_of_mem_records hrecords hr') (listedName_length r)
    (zero_not_mem_listedName r)

theorem firstNamed_isSome (hr : r ∈ records) : (firstNamed records r.listedName).isSome := by
  unfold firstNamed
  rw [List.find?_isSome]
  exact ⟨r, hr, (namesMatchCasefold_iff _ _).mpr rfl⟩

/-- Every listed name can be opened exactly if, for each record the listing shows, the first
record with its listed name is found in the place of the first one whose name is plain. -/
theorem opensListed_iff (read : Disc) (dir : IsoDirLoc) (maxEntries : Nat) :
    OpensListed read dir maxEntries ↔
      ∀ records, dirRecords read dir = some records → ∀ r ∈ records.take maxEntries,
        (firstPlain records r.listedName).map DirRecord.loc =
          (firstNamed records r.listedName).map DirRecord.loc := by
  constructor
  · intro hopens records hrecords r hr
    obtain ⟨first, child, hfirst, hfind, rfl, -⟩ :=
      hopens records _ hrecords (isoListDirEntries_iff.mpr ⟨records, hrecords, rfl⟩) r.listed
        (by rw [← List.map_take]; exact List.mem_map_of_mem hr)
    change firstNamed records r.listedName = some first at hfirst
    change isoFindChild read dir r.listedName = _ at hfind
    rw [find_listed hrecords] at hfind
    rw [hfirst, Option.some.inj hfind]
    rfl
  · intro hplain records entries hrecords hentries e he
    obtain ⟨records', hrecords', rfl⟩ := isoListDirEntries_iff.mp hentries
    rw [hrecords] at hrecords'
    cases hrecords'
    rw [← List.map_take] at he
    obtain ⟨r, hr, rfl⟩ := List.mem_map.mp he
    obtain ⟨first, hfirst⟩ := Option.isSome_iff_exists.mp (firstNamed_isSome (List.mem_of_mem_take hr))
    have hsame := hplain records hrecords r hr
    rw [hfirst, Option.map_some] at hsame
    refine ⟨first, first.loc, hfirst, ?_, rfl, rfl⟩
    change isoFindChild read dir r.listedName = _
    rw [find_listed hrecords, hsame]

/-- A directory sector with one record, whose identifier is 64 times the letter A. -/
def longNameDisc : Disc := fun _ =>
  some fun i => if i = 0 then 98 else if i = 32 then 64
    else if 33 ≤ i ∧ i < 97 then chr 'A' else 0

def longNameDir : IsoDirLoc := ⟨20, 2048, 2⟩

/-- The listing shows 63 letters, and a search for them fails. -/
theorem not_opensListed_longName : ¬OpensListed longNameDisc longNameDir 1 := by
  let r : DirRecord := ⟨fun i => if 0 + i = 0 then 98 else if 0 + i = 32 then 64
    else if 33 ≤ 0 + i ∧ 0 + i < 97 then chr 'A' else 0, 98⟩
  have hrecord : scanNext longNameDisc longNameDir 0 = .record r 98 := rfl
  have hskip : scanNext longNameDisc longNameDir 98 = .skip 2048 := rfl
  have hdone : scanNext longNameDisc longNameDir 2048 = .done := rfl
  have hrecords : dirRecords longNameDisc longNameDir = some [r] := by
    change recordsFrom _ _ (4294967294 + 1 + 1 + 1) 0 = _
    rw [recordsFrom, hrecord]
    dsimp only
    rw [recordsFrom, hskip]
    dsimp only
    rw [recordsFrom, hdone]
    rfl
  rw [opensListed_iff]
  intro hplain
  have hsame := hplain [r] hrecords r List.mem_cons_self
  have hlong : plainName r = false := by decide +kernel
  revert hsame
  unfold firstPlain firstNamed
  rw [List.find?_cons, List.find?_cons, hlong, (namesMatchCasefold_iff _ _).mpr rfl]
  exact nofun

end SlopOS.Proofs.DiscNames
