import SlopOS.Proofs.RecordAccess
/-!
# Staying inside a record

A record says how long it is, and its identifier and each system-use entry say so again.  The
entries are held against the length of the record.  The length of the identifier is not: it is read
up to a `;` or to the length it claims, wherever the record and the sector end.
-/

namespace SlopOS.Proofs.RecordBounds

open SlopOS.Support SlopOS.Support.Monitor SlopOS.Kernel
open SlopOS.Proofs.DiscScan SlopOS.Proofs.DiscNames SlopOS.Proofs.RecordAccess

/-! ## Name buffers -/

/-- What is known of a name buffer: the bytes that have been stored in it. -/
abbrev NameBuffer := Nat → Option U8

def Terminated (size : Nat) (buf : NameBuffer) : Prop :=
  ∃ k < size, buf k = some 0 ∧ ∀ i < k, (buf i).isSome

def Holds (out : List U8) (buf : NameBuffer) : Prop := ∀ i < out.length, buf i = out[i]?

/-- Looks stay in the record and stores in the buffer; a buffer that is read has an end. -/
def recordMonitor (recLen size : Nat) : Monitor NameBuffer Access where
  next buf e :=
    match e with
    | .look _ => buf
    | .store i c => Function.update buf i (some c)
    | .use => buf
  allows buf e :=
    match e with
    | .look i => i < recLen
    | .store i _ => i < size
    | .use => Terminated size buf

def freshBuffer : NameBuffer := fun _ => none

/-- The bytes of a record that a scan looks at lie in the record and in the sector, the bytes of
names in their buffer, and every buffer that is read as a string has an end. -/
structure VisitSafe (v : Visit) : Prop where
  inRecord : ∀ i, .look i ∈ v.log →
    v.secOff ≤ v.secOff + i ∧ v.secOff + i < v.secOff + v.r.recLen
  inSector : ∀ i, .look i ∈ v.log → v.secOff + i < isoSectorSize
  inBuffer : ∀ i c, .store i c ∈ v.log → i < direntNameSize
  ended : ∀ front rest, v.log = front ++ .use :: rest →
    Terminated direntNameSize ((recordMonitor v.r.recLen direntNameSize).after freshBuffer front)

/-- The identifier ends in the record: its length fits, or it has a `;` before the end. -/
def IdentifierEnds (r : DirRecord) : Prop :=
  33 + r.nameLen ≤ r.recLen ∨ ∃ k < r.nameLen, 33 + k < r.recLen ∧ r.entry (33 + k) = chr ';'

variable {entry : Nat → U8} {recLen size outSize nameLen off n i k fuel : Nat} {out : List U8}
variable {r : DirRecord} {name component : CStr} {P : NameBuffer → Prop} {α : Type}
variable {read : Disc} {dir : IsoDirLoc} {offset next : U32} {v : Visit} {scan : Scan}

theorem Holds.nil (buf : NameBuffer) : Holds [] buf := fun i hi => absurd hi (Nat.not_lt_zero i)

theorem Holds.concat {buf : NameBuffer} (h : Holds out buf) (c : U8) :
    Holds (out ++ [c]) (Function.update buf out.length (some c)) := by
  intro i hi
  rw [List.length_append, List.length_singleton] at hi
  by_cases hlast : i = out.length
  · rw [hlast, Function.update_self, List.getElem?_concat_length]
  · have hlt : i < out.length := by omega
    rw [Function.update_of_ne hlast, List.getElem?_append_left hlt]
    exact h i hlt

theorem Holds.terminated {buf : NameBuffer} (h : Holds out buf) (hsize : out.length < size) :
    Terminated size (Function.update buf out.length (some 0)) := by
  refine ⟨out.length, hsize, Function.update_self .., fun i hi => ?_⟩
  rw [Function.update_of_ne (Nat.ne_of_lt hi), h i hi, List.getElem?_eq_getElem hi]
  rfl

/-! ## Rules -/

section Rules

variable {f : U8 → Traced Access α} {g : Unit → Traced Access α} {Q : α → NameBuffer → Prop}
variable {P' : NameBuffer → Prop}

theorem look_bind (hi : i < recLen) (hf : (recordMonitor recLen size).Triple P (f (entry i)) Q) :
    (recordMonitor recLen size).Triple P (look entry i >>= f) Q :=
  Triple.event_bind (fun _ hs => ⟨hi, hs⟩) hf

theorem store_bind {c : U8} (hi : i < size)
    (hstore : ∀ buf, P buf → P' (Function.update buf i (some c)))
    (hg : (recordMonitor recLen size).Triple P' (g ()) Q) :
    (recordMonitor recLen size).Triple P (store i c >>= g) Q :=
  Triple.event_bind (fun buf hs => ⟨hi, hstore buf hs⟩) hg

theorem use_bind (hP : ∀ buf, P buf → Terminated size buf)
    (hg : (recordMonitor recLen size).Triple P (g ()) Q) :
    (recordMonitor recLen size).Triple P (use >>= g) Q :=
  Triple.event_bind (fun buf hs => ⟨hP buf hs, hs⟩) hg

end Rules

/-! ## Rock Ridge names -/

theorem copyEntryName_triple (hin : off + (i + n) ≤ recLen) (hsize : out.length < size) :
    (recordMonitor recLen size).Triple (Holds out) (copyEntryName entry off size n i out)
      fun out' buf => out'.length < size ∧ Holds out' buf := by
  induction n generalizing i out with
  | zero => exact Triple.ret fun buf hbuf => ⟨hsize, hbuf⟩
  | succ n ih =>
      rw [copyEntryName]
      split
      · exact Triple.ret fun buf hbuf => ⟨hsize, hbuf⟩
      · rename_i hroom
        have hgrown : (out ++ [asciiLower (entry (off + i))]).length < size := by
          rw [List.length_append, List.length_singleton]
          omega
        apply look_bind (by omega)
        apply store_bind hsize fun buf hbuf => hbuf.concat _
        exact ih (by omega) hgrown

theorem isNameEntry_triple (entryLen : Nat) (hin : off + 1 < recLen) :
    (recordMonitor recLen size).Triple P (isNameEntry entry off entryLen) fun _ => P := by
  apply look_bind (by omega)
  split
  · exact Triple.ret fun _ hbuf => hbuf
  · apply look_bind hin
    exact Triple.ret fun _ hbuf => hbuf

/-- The bytes of every entry are held against the length of the record. -/
theorem rockRidgeTraced_triple (hsize : out.length < size) :
    (recordMonitor recLen size).Triple (Holds out) (rockRidgeTraced entry recLen size fuel off out)
      fun rr buf => ∀ rrName, rr = some rrName → Terminated size buf := by
  have hnone : ∀ {P : NameBuffer → Prop}, (recordMonitor recLen size).Triple P
      (pure (none : Option (List U8))) fun rr buf => ∀ rrName, rr = some rrName →
        Terminated size buf := by
    intro P
    exact Triple.ret fun _ _ rrName h => absurd h.symm (Option.some_ne_none rrName)
  induction fuel generalizing off out with
  | zero => exact hnone
  | succ fuel ih =>
      rw [rockRidgeTraced]
      split
      · exact hnone
      rename_i hhead
      apply look_bind (by omega)
      split
      · exact hnone
      rename_i hentry
      rw [not_or] at hentry
      apply Triple.bind (isNameEntry_triple _ (by omega)).out
      intro isName
      apply Triple.of_fact
      intro hisName
      rw [isNameEntry_out] at hisName
      cases isName with
      | false => exact ih hsize
      | true =>
          obtain ⟨-, -, hlen⟩ := of_decide_eq_true hisName.symm
          rw [if_neg (by decide)]
          apply look_bind (by omega)
          split
          · exact hnone
          apply Triple.bind (copyEntryName_triple (by omega) hsize)
          intro out'
          apply Triple.of_fact
          intro hsize'
          split
          · apply store_bind hsize' fun buf hbuf => hbuf.terminated hsize'
            exact Triple.ret fun _ hbuf _ _ => hbuf
          · exact ih hsize'

theorem isoTryReadRockRidgeName_triple (hsize : 0 < size) :
    (recordMonitor recLen size).Triple P (isoTryReadRockRidgeNameTraced entry recLen nameLen size)
      fun rr buf => ∀ rrName, rr = some rrName → Terminated size buf := by
  unfold isoTryReadRockRidgeNameTraced
  dsimp only
  split
  · exact Triple.ret fun _ _ rrName h => absurd h.symm (Option.some_ne_none rrName)
  · exact (rockRidgeTraced_triple hsize).weaken (fun buf _ => Holds.nil buf) fun _ _ h => h

/-! ## Identifiers -/

theorem effectiveLenLoop_triple (hk : 33 + k ≤ recLen)
    (hends : ∀ j < n, (∀ l < j, entry (33 + (k + l)) ≠ chr ';') → 33 + (k + j) < recLen) :
    (recordMonitor recLen size).Triple P (effectiveLenLoop entry n k)
      fun len buf => 33 + len ≤ recLen ∧ P buf := by
  induction n generalizing k with
  | zero => exact Triple.ret fun _ hbuf => ⟨hk, hbuf⟩
  | succ n ih =>
      have hfirst : 33 + k < recLen := hends 0 (Nat.succ_pos n) fun l hl => absurd hl (Nat.not_lt_zero l)
      apply look_bind hfirst
      split
      · exact Triple.ret fun _ hbuf => ⟨hk, hbuf⟩
      · rename_i hplain
        apply ih hfirst
        intro j hj hbefore
        have hnext := hends (j + 1) (Nat.succ_lt_succ hj)
        rw [Nat.add_assoc, Nat.add_comm 1 j]
        apply hnext
        intro l hl
        cases l with
        | zero => exact hplain
        | succ l =>
            have hl' := hbefore l (by omega)
            rwa [Nat.add_assoc, Nat.add_comm 1 l] at hl'

/-- All looks of the two loops over the identifier lie before the length they have found. -/
theorem isoEffectiveLen_triple (hrec : 33 ≤ recLen)
    (hends : ∀ j < nameLen, (∀ l < j, entry (33 + l) ≠ chr ';') → 33 + j < recLen) :
    (recordMonitor recLen size).Triple P (isoEffectiveLen entry nameLen)
      fun len buf => 33 + len ≤ recLen ∧ P buf := by
  have hloop : (recordMonitor recLen size).Triple P (effectiveLenLoop entry nameLen 0)
      fun len buf => 33 + len ≤ recLen ∧ P buf := by
    apply effectiveLenLoop_triple hrec
    simpa only [Nat.zero_add] using hends
  apply Triple.bind hloop
  intro len
  apply Triple.of_fact
  intro hlen
  split
  · exact Triple.ret fun _ hbuf => ⟨hrec, hbuf⟩
  · apply look_bind (by omega)
    apply Triple.ret
    intro buf hbuf
    split
    · exact ⟨by omega, hbuf⟩
    · exact ⟨hlen, hbuf⟩

theorem nameMatchesTraced_triple (hin : 33 + (i + n) ≤ recLen) :
    (recordMonitor recLen size).Triple P (nameMatchesTraced entry n i component) fun _ => P := by
  induction n generalizing i component with
  | zero => exact Triple.ret fun _ hbuf => hbuf
  | succ n ih =>
      rw [nameMatchesTraced]
      apply look_bind (by omega)
      cases component with
      | nil => exact Triple.ret fun _ hbuf => hbuf
      | cons b bs =>
          dsimp only
          split
          · exact ih (by omega)
          · exact Triple.ret fun _ hbuf => hbuf

theorem nameCopyLoop_triple (hin : 33 + (i + n) ≤ recLen) (hsize : out.length < size) :
    (recordMonitor recLen size).Triple (Holds out) (nameCopyLoop entry size n i out)
      fun out' buf => out'.length < size ∧ Holds out' buf := by
  induction n generalizing i out with
  | zero => exact Triple.ret fun buf hbuf => ⟨hsize, hbuf⟩
  | succ n ih =>
      rw [nameCopyLoop]
      apply look_bind (by omega)
      split
      · exact Triple.ret fun buf hbuf => ⟨hsize, hbuf⟩
      · rename_i hroom
        have hgrown : (out ++ [asciiLower (entry (33 + i))]).length < size := by
          rw [List.length_append, List.length_singleton]
          omega
        apply store_bind hsize fun buf hbuf => hbuf.concat _
        exact ih (by omega) hgrown

/-! ## Records -/

/-- The first `;`, or the length, comes before the end of the record. -/
theorem IdentifierEnds.bound (h : IdentifierEnds r) :
    ∀ j < r.nameLen, (∀ l < j, r.entry (33 + l) ≠ chr ';') → 33 + j < r.recLen := by
  intro j hj hbefore
  rcases h with hfits | ⟨k, -, hk, hsemi⟩
  · omega
  · have hle : j ≤ k := by
      by_contra hlt
      exact hbefore k (by omega) hsemi
    omega

section Record

variable (hrec : 34 ≤ r.recLen)
include hrec

theorem isDotTraced_triple :
    (recordMonitor r.recLen size).Triple P (isDotTraced r) fun _ => P := by
  apply look_bind (by omega)
  apply look_bind (by omega)
  split
  · apply look_bind (by omega)
    exact Triple.ret fun _ hbuf => hbuf
  · exact Triple.ret fun _ hbuf => hbuf

variable (hends : IdentifierEnds r)
include hends

theorem isoRecordNameMatchesTraced_triple :
    (recordMonitor r.recLen direntNameSize).Triple P (isoRecordNameMatchesTraced r component)
      fun _ _ => True := by
  apply Triple.bind (isoTryReadRockRidgeName_triple (by decide))
  intro rr
  cases rr with
  | some rrName =>
      apply use_bind fun buf hbuf => hbuf rrName rfl
      exact Triple.ret fun _ _ => trivial
  | none =>
      apply Triple.bind (isoEffectiveLen_triple (by omega) hends.bound)
      intro len
      apply Triple.of_fact
      intro hlen
      exact (nameMatchesTraced_triple (by omega)).weaken (fun _ h => h) fun _ _ _ => trivial

theorem isoRecordNameCopyTraced_triple :
    (recordMonitor r.recLen direntNameSize).Triple P (isoRecordNameCopyTraced r)
      fun _ => Terminated direntNameSize := by
  apply Triple.bind (isoTryReadRockRidgeName_triple (by decide))
  intro rr
  cases rr with
  | some rrName => exact Triple.ret fun buf hbuf => hbuf rrName rfl
  | none =>
      have hcopy : (recordMonitor r.recLen direntNameSize).Triple (fun _ => True)
          (isoNameCopyTraced r.entry r.nameLen direntNameSize)
          fun _ => Terminated direntNameSize := by
        apply Triple.bind (isoEffectiveLen_triple (by omega) hends.bound)
        intro len
        apply Triple.of_fact
        intro hlen
        have hloop : (recordMonitor r.recLen direntNameSize).Triple (Holds [])
            (nameCopyLoop r.entry direntNameSize len 0 [])
            fun out buf => out.length < direntNameSize ∧ Holds out buf :=
          nameCopyLoop_triple (by omega) (by decide)
        apply Triple.bind (hloop.weaken (fun buf _ => Holds.nil buf) fun _ _ h => h)
        intro out
        apply Triple.of_fact
        intro hsize
        apply store_bind hsize fun buf hbuf => hbuf.terminated hsize
        exact Triple.ret fun _ hbuf => hbuf
      apply Triple.bind (hcopy.weaken (fun _ _ => trivial) fun _ _ h => h)
      intro out
      exact Triple.ret fun _ hbuf => hbuf

theorem findChildRecord_triple :
    (recordMonitor r.recLen direntNameSize).Triple P (findChildRecord r name) fun _ _ => True := by
  have hu32 : ∀ {Q : NameBuffer → Prop} {i : Nat} {β : Type} {f : U32 → Traced Access β}
      {S : β → NameBuffer → Prop}, i + 3 < r.recLen →
      (∀ u, (recordMonitor r.recLen direntNameSize).Triple Q (f u) S) →
      (recordMonitor r.recLen direntNameSize).Triple Q (lookU32 r.entry i >>= f) S := by
    intro Q i β f S hi hf
    apply Triple.bind (R := fun _ => Q) _ hf
    apply look_bind (by omega)
    apply look_bind (by omega)
    apply look_bind (by omega)
    apply look_bind hi
    exact Triple.ret fun _ hbuf => hbuf
  apply Triple.bind (isDotTraced_triple hrec)
  intro isDot
  split
  · exact Triple.ret fun _ _ => trivial
  apply Triple.bind (isoRecordNameMatchesTraced_triple hrec hends)
  intro found
  split
  · exact Triple.ret fun _ _ => trivial
  apply hu32 (by omega)
  intro extentLba
  apply hu32 (by omega)
  intro fileSize
  apply look_bind (by omega)
  exact Triple.ret fun _ _ => trivial

end Record

theorem listDirRecord_triple (hrec : 34 ≤ r.recLen) (room : Bool)
    (hends : room = true → IdentifierEnds r) :
    (recordMonitor r.recLen direntNameSize).Triple P (listDirRecord r room) fun _ _ => True := by
  apply Triple.bind (isDotTraced_triple hrec)
  intro isDot
  split
  · exact Triple.ret fun _ _ => trivial
  rename_i hroom
  have hwanted : room = true := by
    cases room with
    | true => rfl
    | false => exact absurd (Bool.or_true isDot) hroom
  apply Triple.bind (isoRecordNameCopyTraced_triple hrec (hends hwanted))
  intro copied
  apply look_bind (by omega)
  apply use_bind fun buf hbuf => hbuf
  exact Triple.ret fun _ _ => trivial

/-! ## Identifiers that do not end -/

theorem mem_effectiveLenLoop {j : Nat} (hj : j < n)
    (hbefore : ∀ l < j, entry (33 + (k + l)) ≠ chr ';') :
    .look (33 + (k + j)) ∈ (effectiveLenLoop entry n k).log := by
  induction n generalizing k j with
  | zero => exact absurd hj (Nat.not_lt_zero j)
  | succ n ih =>
      rw [effectiveLenLoop, Traced.log_bind, log_look, out_look]
      cases j with
      | zero => exact List.mem_cons_self
      | succ j =>
          have hplain : entry (33 + k) ≠ chr ';' := hbefore 0 (Nat.succ_pos j)
          rw [if_neg hplain]
          apply List.mem_append_right
          have hshift : 33 + (k + (j + 1)) = 33 + (k + 1 + j) := by omega
          rw [hshift]
          apply ih (by omega)
          intro l hl
          have hl' := hbefore (l + 1) (by omega)
          rwa [Nat.add_comm l 1, ← Nat.add_assoc k 1 l] at hl'

theorem look_behind (hrec : 34 ≤ r.recLen) (hends : ¬IdentifierEnds r) :
    .look r.recLen ∈ (isoEffectiveLen r.entry r.nameLen).log := by
  unfold IdentifierEnds at hends
  rw [not_or] at hends
  obtain ⟨hlong, hplain⟩ := hends
  have hmem : .look (33 + (0 + (r.recLen - 33))) ∈
      (effectiveLenLoop r.entry r.nameLen 0).log := by
    apply mem_effectiveLenLoop (by omega)
    intro l hl hsemi
    rw [Nat.zero_add] at hsemi
    exact hplain ⟨l, by omega, by omega, hsemi⟩
  have hbehind : 33 + (0 + (r.recLen - 33)) = r.recLen := by omega
  rw [hbehind] at hmem
  exact List.mem_append_left _ hmem

/-- There is no room for a Rock Ridge name behind such an identifier. -/
theorem noRockRidge (hends : ¬IdentifierEnds r) :
    isoTryReadRockRidgeNameTraced r.entry r.recLen r.nameLen direntNameSize = pure none := by
  unfold IdentifierEnds at hends
  rw [not_or] at hends
  unfold isoTryReadRockRidgeNameTraced isoSystemUseOffset
  dsimp only
  rw [if_pos (by split <;> omega)]

theorem notDot (hrec : 34 ≤ r.recLen) (hends : ¬IdentifierEnds r) : r.isDot = false := by
  unfold IdentifierEnds at hends
  rw [not_or] at hends
  unfold DirRecord.isDot isDotRecord
  rw [decide_eq_false (by omega)]
  rfl

theorem findChildRecord_behind (hrec : 34 ≤ r.recLen) (hends : ¬IdentifierEnds r) :
    .look r.recLen ∈ (findChildRecord r name).log := by
  have hmatch : .look r.recLen ∈ (isoRecordNameMatchesTraced r name).log := by
    rw [isoRecordNameMatchesTraced, noRockRidge hends, Traced.log_bind]
    apply List.mem_append_right
    exact List.mem_append_left _ (look_behind hrec hends)
  rw [findChildRecord, Traced.log_bind, isDotTraced_out, notDot hrec hends,
    if_neg Bool.false_ne_true, Traced.log_bind]
  exact List.mem_append_right _ (List.mem_append_left _ hmatch)

theorem listDirRecord_behind (hrec : 34 ≤ r.recLen) (hends : ¬IdentifierEnds r) :
    .look r.recLen ∈ (listDirRecord r true).log := by
  have hcopy : .look r.recLen ∈ (isoRecordNameCopyTraced r).log := by
    rw [isoRecordNameCopyTraced, noRockRidge hends, Traced.log_bind]
    apply List.mem_append_right
    exact List.mem_append_left _ (List.mem_append_left _ (look_behind hrec hends))
  rw [listDirRecord, Traced.log_bind, isDotTraced_out, notDot hrec hends,
    if_neg (by decide), Traced.log_bind]
  exact List.mem_append_right _ (List.mem_append_left _ hcopy)

/-! ## Scans -/

/-- What a scan has made sure of before it works on a record. -/
structure Visited (v : Visit) : Prop where
  long : 34 ≤ v.r.recLen
  fits : v.secOff + v.r.recLen ≤ isoSectorSize

theorem visited_of_scanNext {wanted : Bool} {log : List Access}
    (h : scanNext read dir offset = .record r next) :
    Visited ⟨r, (offset % 2048).toNat, wanted, log⟩ := by
  unfold scanNext at h
  split at h
  · cases h
  split at h
  · cases h
  dsimp only at h
  split at h
  · cases h
  split at h
  · cases h
  rename_i hbounds
  rw [not_or] at hbounds
  cases h
  exact ⟨by dsimp only; omega, by dsimp only; omega⟩

def Works (v : Visit) : Prop :=
  (∃ name, v.wanted = true ∧ v.log = (findChildRecord v.r name).log) ∨
    v.log = (listDirRecord v.r v.wanted).log

theorem findChildVisits_works (hv : v ∈ findChildVisits read dir name n offset) :
    Visited v ∧ Works v := by
  induction n generalizing offset with
  | zero => cases hv
  | succ n ih =>
      rw [findChildVisits] at hv
      cases hnext : scanNext read dir offset with
      | done =>
          rw [hnext] at hv
          cases hv
      | failed =>
          rw [hnext] at hv
          cases hv
      | skip next =>
          rw [hnext] at hv
          exact ih hv
      | record r next =>
          rw [hnext] at hv
          rcases List.mem_cons.mp hv with rfl | hrest
          · exact ⟨visited_of_scanNext hnext, Or.inl ⟨name, rfl, rfl⟩⟩
          · split at hrest
            · cases hrest
            · exact ih hrest

theorem listDirVisits_works {limit : Option Nat} {count : Nat}
    (hv : v ∈ listDirVisits read dir limit n offset count) : Visited v ∧ Works v := by
  induction n generalizing offset count with
  | zero => cases hv
  | succ n ih =>
      rw [listDirVisits] at hv
      cases hnext : scanNext read dir offset with
      | done =>
          rw [hnext] at hv
          cases hv
      | failed =>
          rw [hnext] at hv
          cases hv
      | skip next =>
          rw [hnext] at hv
          exact ih hv
      | record r next =>
          rw [hnext] at hv
          rcases List.mem_cons.mp hv with rfl | hrest
          · exact ⟨visited_of_scanNext hnext, Or.inr rfl⟩
          · exact ih hrest

theorem visits_works (hv : v ∈ visits read dir n scan) : Visited v ∧ Works v := by
  cases scan with
  | findChild name => exact findChildVisits_works hv
  | listDir => exact listDirVisits_works hv
  | listDirEntries maxEntries => exact listDirVisits_works hv

theorem visitSafe_of_accepts (hvisited : Visited v)
    (h : (recordMonitor v.r.recLen direntNameSize).Accepts freshBuffer v.log) : VisitSafe v := by
  have hlook : ∀ i, .look i ∈ v.log → i < v.r.recLen := by
    intro i hi
    obtain ⟨_, hallows⟩ := h.of_mem hi
    exact hallows
  have hfits := hvisited.fits
  constructor
  case inRecord =>
    intro i hi
    have hlt := hlook i hi
    omega
  case inSector =>
    intro i hi
    have hlt := hlook i hi
    omega
  case inBuffer =>
    intro i c hi
    obtain ⟨_, hallows⟩ := h.of_mem hi
    exact hallows
  case ended =>
    intro front rest hlog
    rw [hlog] at h
    exact h.allowed

/-- The work on a record is safe exactly if its name is not wanted or its identifier ends in the
record. -/
theorem visitSafe_iff (hv : v ∈ visits read dir n scan) :
    VisitSafe v ↔ (v.wanted = true → IdentifierEnds v.r) := by
  obtain ⟨hvisited, hworks⟩ := visits_works hv
  constructor
  · intro hsafe hwanted
    by_contra hends
    have hbehind : .look v.r.recLen ∈ v.log := by
      rcases hworks with ⟨name, -, hlog⟩ | hlog
      · rw [hlog]
        exact findChildRecord_behind hvisited.long hends
      · rw [hlog, hwanted]
        exact listDirRecord_behind hvisited.long hends
    have hlt := (hsafe.inRecord _ hbehind).2
    omega
  · intro hends
    apply visitSafe_of_accepts hvisited
    rcases hworks with ⟨name, hwanted, hlog⟩ | hlog
    · rw [hlog]
      exact (findChildRecord_triple hvisited.long (hends hwanted) (P := fun _ => True) _ trivial).1
    · rw [hlog]
      exact (listDirRecord_triple hvisited.long v.wanted hends (P := fun _ => True) _ trivial).1

/-! ## Fixed sectors -/

/-- Fifteen records of 128 bytes, one of 94, and a last one of 34 bytes whose identifier claims
to be 255 bytes long. -/
def lateNameDisc : Disc := fun _ =>
  some fun i => if i % 128 = 0 ∧ i < 1920 then 128 else if i = 1920 then 94
    else if i = 2014 then 34 else if i = 2046 then 255 else 0

def lateNameDir : IsoDirLoc := ⟨20, 2048, 2⟩

def namedDisc : Disc := fun _ =>
  some fun i => if i = 0 then 36 else if i = 32 then 2 else if i = 33 then chr 'A'
    else if i = 34 then chr 'B' else 0

theorem visitSafe_demo : ∃ v ∈ visits namedDisc lateNameDir 1 .listDir,
    v.wanted = true ∧ v.r.recLen = 36 ∧ v.r.nameLen = 2 ∧ .store 1 (chr 'b') ∈ v.log ∧
      VisitSafe v := by
  have hview : ((visits namedDisc lateNameDir 1 .listDir)[0]?).map (fun v =>
      (v.wanted, v.r.recLen, v.r.nameLen, decide (.store 1 (chr 'b') ∈ v.log))) =
      some (true, 36, 2, true) := by
    decide +kernel
  obtain ⟨v, hget, hv⟩ := Option.map_eq_some_iff.mp hview
  simp only [Prod.mk.injEq, decide_eq_true_eq] at hv
  obtain ⟨hwanted, hrec, hname, hstore⟩ := hv
  have hmem := List.mem_of_getElem? hget
  refine ⟨v, hmem, hwanted, hrec, hname, hstore, (visitSafe_iff hmem).mpr fun _ => Or.inl ?_⟩
  rw [hname, hrec]
  decide

/-- The identifier of the last record is looked for behind the sector. -/
theorem not_visitSafe_late : ∃ v ∈ visits lateNameDisc lateNameDir 17 (.findChild (cstr "x")),
    v.secOff = 2014 ∧ v.r.recLen = 34 ∧ .look 34 ∈ v.log ∧ v.secOff + 34 = isoSectorSize ∧
      ¬VisitSafe v := by
  have hview : ((visits lateNameDisc lateNameDir 17 (.findChild (cstr "x")))[16]?).map (fun v =>
      (v.secOff, v.r.recLen, decide (.look 34 ∈ v.log))) = some (2014, 34, true) := by
    decide +kernel
  obtain ⟨v, hget, hv⟩ := Option.map_eq_some_iff.mp hview
  simp only [Prod.mk.injEq, decide_eq_true_eq] at hv
  obtain ⟨hoff, hlen, hlook⟩ := hv
  refine ⟨v, List.mem_of_getElem? hget, hoff, hlen, hlook, by rw [hoff]; rfl, fun hsafe => ?_⟩
  have hlt := (hsafe.inRecord 34 hlook).2
  omega

end SlopOS.Proofs.RecordBounds
