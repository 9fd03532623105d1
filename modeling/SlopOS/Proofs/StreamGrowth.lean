import SlopOS.Proofs.MemStreams
import SlopOS.Support.Turns
/-!
# Growing the buffer of a memory stream

The capacities are powers of two, so doubling never gets beyond `2 ^ 31`: a request for more than
that is one that never returns, and a request that wraps is served for what the wrapping has left
of it.
-/

namespace SlopOS.Proofs.StreamGrowth

open SlopOS.Kernel SlopOS.User SlopOS.Support SlopOS.Support.Turns
open SlopOS.Proofs.ArenaBlocks SlopOS.Proofs.MemStreams

/-! ## The loop without a bound -/

/-- `while (capacity < needed) capacity *= 2` -/
def doubling (needed capacity : U32) : U32 ⊕ U32 :=
  if capacity < needed then .inl (capacity * 2) else .inr capacity

variable {needed capacity r : U32} {n : Nat}

theorem doubling_again (h : capacity < needed) : doubling needed capacity = .inl (capacity * 2) :=
  if_pos h

theorem doubling_done (h : ¬capacity < needed) : doubling needed capacity = .inr capacity :=
  if_neg h

theorem growCapacity_eq_within (needed : U32) (fuel : Nat) (capacity : U32) :
    User.growCapacity needed fuel capacity = within (doubling needed) fuel capacity := by
  induction fuel generalizing capacity with
  | zero => rfl
  | succ fuel ih =>
      rw [User.growCapacity]
      by_cases h : capacity < needed
      · rw [if_pos h, within_again (doubling_again h), ih]
      · rw [if_neg h, within_done (doubling_done h)]

theorem ends_doubling_le {j : Nat} (hj : j ≤ 32) (hdvd : 2 ^ j ∣ capacity.toNat)
    (h : Ends (doubling needed) capacity n r) : n + j ≤ 33 := by
  induction h generalizing j with
  | done _ => omega
  | @again capacity next n r hturn hrest ih =>
      have hlt : capacity < needed := by
        by_contra hle
        rw [doubling_done hle] at hturn
        cases hturn
      rw [doubling_again hlt] at hturn
      obtain rfl := Sum.inl.inj hturn
      rcases Nat.lt_or_ge j 32 with hlow | hhigh
      · have hnext : 2 ^ (j + 1) ∣ (capacity * 2).toNat := by
          rw [BitVec.toNat_mul, Nat.pow_succ]
          exact (Nat.dvd_mod_iff (Nat.pow_dvd_pow 2 hlow)).mpr (Nat.mul_dvd_mul_right hdvd 2)
        have hle := ih hlow hnext
        omega
      · obtain rfl := Nat.le_antisymm hj hhigh
        have hzero : capacity = 0 :=
          BitVec.eq_of_toNat_eq (Nat.eq_zero_of_dvd_of_lt hdvd capacity.isLt)
        rw [hzero] at hlt hrest
        refine absurd hrest (not_ends (I := fun c => c = 0) (fun c hc => ?_) rfl)
        rw [hc]
        exact ⟨0, doubling_again hlt, rfl⟩

/-- The turns that the model allows are enough. -/
theorem growCapacity_iff : User.growCapacity needed growTurns capacity = some r ↔
    ∃ n, Ends (doubling needed) capacity n r := by
  rw [growCapacity_eq_within, within_eq_some]
  constructor
  · rintro ⟨n, -, hends⟩
    exact ⟨n, hends⟩
  · rintro ⟨n, hends⟩
    exact ⟨n, ends_doubling_le (Nat.zero_le 32) (Nat.one_dvd _) hends, hends⟩

/-- No power of two is above `2 ^ 31`. -/
theorem not_ends_doubling (hneeded : 2 ^ 31 < needed.toNat) (k : Nat) :
    ¬Ends (doubling needed) (BitVec.ofNat 32 (2 ^ k)) n r := by
  apply not_ends (I := fun c => ∃ k, c = BitVec.ofNat 32 (2 ^ k)) ?_ ⟨k, rfl⟩
  rintro _ ⟨k, rfl⟩
  have hsmall := toNat_two_pow_le k
  exact ⟨_, doubling_again (BitVec.lt_def.mpr (by omega)), k + 1, double_two_pow k⟩

theorem growCapacity_never (hneeded : 2 ^ 31 < needed.toNat) (k : Nat) :
    User.growCapacity needed growTurns (BitVec.ofNat 32 (2 ^ k)) = none := by
  rw [Option.eq_none_iff_forall_ne_some]
  intro r hr
  obtain ⟨n, hends⟩ := growCapacity_iff.mp hr
  exact not_ends_doubling hneeded k hends

/-! ## Requests -/

/-- What `slop_fputc` and `slop_fwrite` ask for, or just so many bytes. -/
inductive Request
  | fputc
  | fwrite (size nmemb : U32)
  | bytes (n : U32)

def Request.passed (fp : SlopFile) : Request → U32
  | .fputc => fp.pos + 2
  | .fwrite size nmemb => fp.pos + size * nmemb + 1
  | .bytes n => n

/-- The bytes that there must be room for. -/
def Request.exact (fp : SlopFile) : Request → Nat
  | .fputc => fp.pos.toNat + 2
  | .fwrite size nmemb => fp.pos.toNat + size.toNat * nmemb.toNat + 1
  | .bytes n => n.toNat

/-- The call returns, and if it returns 1 then with all the room. -/
def Served (a : SlopAlloc) (fp : SlopFile) (req : Request) : Prop :=
  ∃ d, slopEnsureMemCapacity a fp (req.passed fp) = some d ∧
    (d.value = true → req.exact fp ≤ d.file.capacity.toNat)

/-- There is no place for another `n` bytes, and the buffer is no block of that size. -/
def NoRoom (a : SlopAlloc) (fp : SlopFile) (n : Nat) : Prop :=
  32768 < exactEnd a (BitVec.ofNat 32 n) ∧ ∀ p, fp.mem = some p → (a.hdrSize p).toNat < n

/-- Doubling from 256, or from any power of two in between, ends here. -/
def grownSize (n : Nat) : Nat := 2 ^ max 8 (Nat.clog 2 n)

/-- At most `2 ^ 31` bytes; or a request of which the wrapping leaves something that the buffer is
too small for and that is refused. -/
def Servable (a : SlopAlloc) (fp : SlopFile) (n : Nat) : Prop :=
  n ≤ 2 ^ 31 ∨ 2 ^ 32 ≤ n ∧ fp.capacity.toNat < n % 2 ^ 32 ∧ n % 2 ^ 32 ≤ 2 ^ 31 ∧
    NoRoom a fp (grownSize (n % 2 ^ 32))

variable {a a' : SlopAlloc} {fp : SlopFile} {st : MemStream} {req : Request}

theorem toNat_passed (fp : SlopFile) (req : Request) :
    (req.passed fp).toNat = req.exact fp % 2 ^ 32 := by
  cases req with
  | fputc => exact BitVec.toNat_add _ _
  | fwrite size nmemb =>
      change (fp.pos + size * nmemb + 1).toNat = _
      rw [BitVec.toNat_add, BitVec.toNat_add, BitVec.toNat_mul]
      change ((fp.pos.toNat + size.toNat * nmemb.toNat % 2 ^ 32) % 2 ^ 32 + 1) % 2 ^ 32 =
        (fp.pos.toNat + size.toNat * nmemb.toNat + 1) % 2 ^ 32
      omega
  | bytes n => exact (Nat.mod_eq_of_lt n.isLt).symm

/-! ## The call on a stream whose capacity is a power of two -/

/-- There is no buffer yet, or its capacity is a power of two, at least 256. -/
def CapacityOk (fp : SlopFile) : Prop :=
  fp.capacity = 0 ∨ ∃ k, 8 ≤ k ∧ k ≤ 31 ∧ fp.capacity = BitVec.ofNat 32 (2 ^ k)

theorem CapacityOk.le (h : CapacityOk fp) : fp.capacity.toNat ≤ 2 ^ 31 := by
  rcases h with hzero | ⟨k, -, hk, hpow⟩
  · rw [hzero]
    decide
  · rw [hpow, toNat_two_pow hk]
    exact Nat.pow_le_pow_right (by decide) hk

theorem CapacityOk.start (h : CapacityOk fp) (hlt : fp.capacity < needed) : ∃ k, k ≤ 31 ∧
    (if fp.capacity ≠ 0 then fp.capacity else 256) = BitVec.ofNat 32 (2 ^ k) ∧
      max k (Nat.clog 2 needed.toNat) = max 8 (Nat.clog 2 needed.toNat) := by
  by_cases hzero : fp.capacity = 0
  · rw [if_neg (not_not.mpr hzero)]
    exact ⟨8, by decide, rfl, rfl⟩
  · obtain ⟨k, hlow, hk, hpow⟩ := h.resolve_left hzero
    rw [if_pos hzero]
    refine ⟨k, hk, hpow, ?_⟩
    have hless : 2 ^ k < needed.toNat := by
      rw [← toNat_two_pow hk, ← hpow]
      exact BitVec.lt_def.mp hlt
    have hclog := (Nat.lt_clog_iff_pow_lt (by decide)).mpr hless
    omega

theorem ensure_enough (h : needed ≤ fp.capacity) :
    slopEnsureMemCapacity a fp needed = some ⟨true, a, fp, []⟩ := if_pos h

theorem ensure_never (h : CapacityOk fp) (hhuge : 2 ^ 31 < needed.toNat) :
    slopEnsureMemCapacity a fp needed = none := by
  have hle := h.le
  have hlt : fp.capacity < needed := BitVec.lt_def.mpr (by omega)
  obtain ⟨k, hk, hstart, -⟩ := h.start hlt
  unfold slopEnsureMemCapacity
  rw [if_neg (BitVec.not_le.mpr hlt), hstart, growCapacity_never hhuge]

theorem grownSize_le (hneeded : needed.toNat ≤ 2 ^ 31) :
    max 8 (Nat.clog 2 needed.toNat) ≤ 31 :=
  max_le (by decide) (Nat.clog_le_of_le_pow hneeded)

theorem le_grownSize (n : Nat) : n ≤ grownSize n :=
  (Nat.le_pow_clog (by decide) n).trans (Nat.pow_le_pow_right (by decide) (le_max_right _ _))

theorem ensure_grows (h : CapacityOk fp) (hlt : fp.capacity < needed)
    (hneeded : needed.toNat ≤ 2 ^ 31) : slopEnsureMemCapacity a fp needed =
      match slopRealloc a fp.mem (BitVec.ofNat 32 (grownSize needed.toNat)) with
      | (none, a) => some ⟨false, a, fp, []⟩
      | (some newMem, a) =>
        let capacity : U32 := BitVec.ofNat 32 (grownSize needed.toNat)
        let fill := (capacity - fp.capacity).toNat
        some ⟨true, a.put (some newMem) fp.capacity fill fun _ => 0,
          { fp with mem := some newMem, capacity := capacity },
          [⟨some newMem, fp.capacity, fill⟩]⟩ := by
  obtain ⟨k, hk, hstart, hmax⟩ := h.start hlt
  have hgrow : User.growCapacity needed growTurns (if fp.capacity ≠ 0 then fp.capacity else 256) =
      some (BitVec.ofNat 32 (grownSize needed.toNat)) := by
    unfold grownSize
    rw [hstart, growCapacity_two_pow hneeded hk (show 32 ≤ growTurns + k by unfold growTurns; omega),
      hmax]
  unfold slopEnsureMemCapacity
  rw [if_neg (BitVec.not_le.mpr hlt)]
  cases hrealloc : slopRealloc a fp.mem (BitVec.ofNat 32 (grownSize needed.toNat)) with
  | mk new b => cases new <;> simp only [hgrow, hrealloc]

theorem slopRealloc_none_iff (hused : a.used.toNat ≤ 32768) {n : Nat} (hpos : 0 < n)
    (hn : n ≤ 2 ^ 31) :
    (slopRealloc a fp.mem (BitVec.ofNat 32 n)).1 = none ↔ NoRoom a fp n := by
  have hsize : (BitVec.ofNat 32 n).toNat = n := by
    rw [BitVec.toNat_ofNat]
    exact Nat.mod_eq_of_lt (by omega)
  have hne : BitVec.ofNat 32 n ≠ 0 := by
    intro hzero
    rw [hzero] at hsize
    change 0 = n at hsize
    omega
  have hmalloc : (slopMalloc a (BitVec.ofNat 32 n)).1 = none ↔
      32768 < exactEnd a (BitVec.ofNat 32 n) := by
    have hfits := fits_of_le hused (hsize.le.trans hn)
    have hexact : exactEnd a (BitVec.ofNat 32 n) < 2 ^ 32 := by
      have hstart := nextStart_lt hused
      have htotal : Alignment.roundUp (4 + (BitVec.ofNat 32 n).toNat) 8 <
          4 + (BitVec.ofNat 32 n).toNat + 8 := Alignment.roundUp_lt (by decide)
      unfold exactEnd
      omega
    rcases slopMalloc_cases (BitVec.ofNat 32 n) hused with ⟨hrefused, hnone⟩ | ⟨p, b, hsome, hm⟩
    · rw [hnone]
      have hover := hrefused.resolve_left hne
      rw [Nat.mod_eq_of_lt hexact] at hover
      exact iff_of_true rfl hover
    · rw [hsome]
      have hle := (hm.exact hused hfits).1
      exact iff_of_false (Option.some_ne_none p) (Nat.not_lt.mpr hle)
  unfold NoRoom
  cases hmem : fp.mem with
  | none =>
      rw [show slopRealloc a none (BitVec.ofNat 32 n) = slopMalloc a (BitVec.ofNat 32 n) from rfl,
        hmalloc]
      exact ⟨fun hover => ⟨hover, nofun⟩, And.left⟩
  | some p =>
      have hin : BitVec.ofNat 32 n ≤ a.hdrSize p ↔ ¬(a.hdrSize p).toNat < n := by
        rw [BitVec.le_def, hsize, Nat.not_lt]
      unfold slopRealloc
      dsimp only
      rw [if_neg hne]
      by_cases hplace : BitVec.ofNat 32 n ≤ a.hdrSize p
      · rw [if_pos hplace]
        refine iff_of_false (Option.some_ne_none p) fun h => ?_
        exact hin.mp hplace (h.2 p rfl)
      · rw [if_neg hplace]
        have hsmall : (a.hdrSize p).toNat < n := not_not.mp (mt hin.mpr hplace)
        rw [← and_iff_left (a := 32768 < exactEnd a (BitVec.ofNat 32 n))
          (fun q hq => Option.some.inj hq ▸ hsmall : ∀ q, some p = some q → (a.hdrSize q).toNat < n)]
          at hmalloc
        rw [← hmalloc]
        cases slopMalloc a (BitVec.ofNat 32 n) with
        | mk new b => cases new <;> exact Iff.rfl

theorem served_iff (h : CapacityOk fp) (hused : a.used.toNat ≤ 32768) :
    Served a fp req ↔ Servable a fp (req.exact fp) := by
  have hneeded := toNat_passed fp req
  have hlt := (req.passed fp).isLt
  have hcap := h.le
  unfold Served Servable
  rw [← hneeded]
  by_cases henough : req.passed fp ≤ fp.capacity
  · -- answered at once
    have hle := BitVec.le_def.mp henough
    rw [ensure_enough henough]
    constructor
    · rintro ⟨d, hd, hserved⟩
      obtain rfl := Option.some.inj hd
      have hexact : req.exact fp ≤ fp.capacity.toNat := hserved rfl
      exact Or.inl (by omega)
    · rintro (hsmall | ⟨-, hless, -⟩)
      · exact ⟨_, rfl, fun _ => by change req.exact fp ≤ fp.capacity.toNat; omega⟩
      · omega
  have hmore : fp.capacity < req.passed fp := BitVec.not_le.mp henough
  have hless := BitVec.lt_def.mp hmore
  by_cases hhuge : 2 ^ 31 < (req.passed fp).toNat
  · rw [ensure_never h hhuge]
    refine iff_of_false (fun hnone => ?_) fun hserv => ?_
    · obtain ⟨d, hd, -⟩ := hnone
      cases hd
    · rcases hserv with hsmall | ⟨-, -, hle, -⟩ <;> omega
  have hle := Nat.le_of_not_lt hhuge
  have hbound : grownSize (req.passed fp).toNat ≤ 2 ^ 31 :=
    Nat.pow_le_pow_right (by decide) (grownSize_le hle)
  have hreach := le_grownSize (req.passed fp).toNat
  have hgrown : (BitVec.ofNat 32 (grownSize (req.passed fp).toNat)).toNat =
      grownSize (req.passed fp).toNat := toNat_two_pow (grownSize_le hle)
  have hnone : (slopRealloc a fp.mem (BitVec.ofNat 32 (grownSize (req.passed fp).toNat))).1 = none ↔
      NoRoom a fp (grownSize (req.passed fp).toNat) :=
    slopRealloc_none_iff hused (by omega) hbound
  rw [ensure_grows h hmore hle, ← hnone]
  cases slopRealloc a fp.mem (BitVec.ofNat 32 (grownSize (req.passed fp).toNat)) with
  | mk new b =>
      cases new with
      | none =>
          refine iff_of_true ⟨_, rfl, nofun⟩ ?_
          by_cases hwraps : 2 ^ 32 ≤ req.exact fp
          · exact Or.inr ⟨hwraps, hless, hle, rfl⟩
          · exact Or.inl (by omega)
      | some q =>
          constructor
          · rintro ⟨d, hd, hserved⟩
            obtain rfl := Option.some.inj hd
            have hexact : req.exact fp ≤ _ := hserved rfl
            change req.exact fp ≤ (BitVec.ofNat 32 (grownSize (req.passed fp).toNat)).toNat at hexact
            exact Or.inl (by omega)
          · rintro (hsmall | ⟨-, -, -, hrefused⟩)
            · refine ⟨_, rfl, fun _ => ?_⟩
              change req.exact fp ≤ (BitVec.ofNat 32 (grownSize (req.passed fp).toNat)).toNat
              omega
            · cases hrefused

/-! ## Runs of the library -/

/-- The allocator, and the memory streams in the order of their making. -/
structure LibState where
  alloc : SlopAlloc
  files : List SlopFile

/-- The calls of a program, and its stores to the arena, which leave the `SLOP_FILE`s alone. -/
inductive LibEvent
  | tmpfile
  | file (i : Nat) (op : StreamOp)
  | malloc (size : U32)
  | realloc (ptr : Option U32) (size : U32)
  | store (address : U32) (byte : U8)

def libInit : LibState := ⟨slopAllocInit, []⟩

/-- A call that does not return is no step. -/
def libStep (s : LibState) : LibEvent → Option LibState
  | .tmpfile =>
    let made := slopTmpfile s.alloc
    some ⟨made.2, s.files ++ made.1.toList⟩
  | .file i op =>
    s.files[i]?.bind fun fp =>
      (call ⟨s.alloc, fp⟩ op).map fun d => ⟨d.alloc, s.files.set i d.file⟩
  | .malloc size => some ⟨(slopMalloc s.alloc size).2, s.files⟩
  | .realloc ptr size => some ⟨(slopRealloc s.alloc ptr size).2, s.files⟩
  | .store address byte =>
    some ⟨{ s.alloc with arena := Function.update s.alloc.arena address byte }, s.files⟩

structure LibOk (s : LibState) : Prop where
  used_max : s.alloc.used.toNat ≤ 32768
  files : ∀ fp ∈ s.files, CapacityOk fp

def Kept (a : SlopAlloc) (fp : SlopFile) : Prop := a.used.toNat ≤ 32768 ∧ CapacityOk fp

theorem used_put (a : SlopAlloc) (mem : Option U32) (offset : U32) (n : Nat) (f : Nat → U8) :
    (a.put mem offset n f).used = a.used := by
  cases mem <;> rfl

theorem Kept.putBytes (h : Kept a fp) (n : U32) (src : Nat → U8) :
    Kept (putBytes a fp n src).alloc (putBytes a fp n src).file := by
  refine ⟨?_, h.2⟩
  unfold User.putBytes
  rw [used_put, used_put]
  exact h.1

theorem Kept.ensure (h : Kept a fp) {d : StdioDone Bool}
    (hd : slopEnsureMemCapacity a fp needed = some d) : Kept d.alloc d.file := by
  by_cases henough : needed ≤ fp.capacity
  · rw [ensure_enough henough] at hd
    rw [← Option.some.inj hd]
    exact h
  by_cases hhuge : 2 ^ 31 < needed.toNat
  · rw [ensure_never h.2 hhuge] at hd
    cases hd
  have hle := Nat.le_of_not_lt hhuge
  have hused := used_le_slopRealloc fp.mem (BitVec.ofNat 32 (grownSize needed.toNat)) h.1
  rw [ensure_grows h.2 (BitVec.not_le.mp henough) hle] at hd
  cases hnew : slopRealloc a fp.mem (BitVec.ofNat 32 (grownSize needed.toNat)) with
  | mk new b =>
      rw [hnew] at hd hused
      cases new with
      | none =>
          rw [← Option.some.inj hd]
          exact ⟨hused, h.2⟩
      | some q =>
          rw [← Option.some.inj hd]
          refine ⟨?_, Or.inr ⟨_, le_max_left _ _, grownSize_le hle, rfl⟩⟩
          change (b.put (some q) _ _ _).used.toNat ≤ 32768
          rw [used_put]
          exact hused

theorem Kept.fputc (h : Kept a fp) {ch : Int} {d : StdioDone Int}
    (hd : slopFputc a ch fp = some d) : Kept d.alloc d.file := by
  unfold slopFputc at hd
  dsimp only at hd
  split at hd
  · cases hd
  · next hroom =>
      rw [← Option.some.inj hd]
      exact h.ensure hroom
  · next hroom =>
      rw [← Option.some.inj hd]
      exact (h.ensure hroom).putBytes ..

theorem Kept.fwrite (h : Kept a fp) {ptr : Option (Nat → U8)} {size nmemb : U32}
    {d : StdioDone U32} (hd : slopFwrite a ptr size nmemb fp = some d) : Kept d.alloc d.file := by
  unfold slopFwrite at hd
  split at hd
  · rw [← Option.some.inj hd]
    exact h
  split at hd
  · rw [← Option.some.inj hd]
    exact h
  dsimp only at hd
  split at hd
  · cases hd
  · next hroom =>
      rw [← Option.some.inj hd]
      exact h.ensure hroom
  · next hroom =>
      rw [← Option.some.inj hd]
      exact (h.ensure hroom).putBytes ..

theorem kept_fseek (h : Kept a fp) (offset : U32) (whence : Int) :
    Kept a (slopFseek fp offset whence).2 := by
  unfold slopFseek
  dsimp only
  split_ifs <;> exact h

theorem Kept.call (h : Kept a fp) {op : StreamOp} {d : StdioDone Response}
    (hd : MemStreams.call ⟨a, fp⟩ op = some d) : Kept d.alloc d.file := by
  cases op with
  | fputc ch =>
      obtain ⟨d', hd', rfl⟩ := Option.map_eq_some_iff.mp hd
      exact h.fputc hd'
  | fgetc =>
      rw [← Option.some.inj hd]
      unfold slopFgetc
      split <;> exact h
  | fwrite ptr size nmemb =>
      obtain ⟨d', hd', rfl⟩ := Option.map_eq_some_iff.mp hd
      exact h.fwrite hd'
  | fread ptr size nmemb =>
      rw [← Option.some.inj hd]
      unfold slopFread
      split <;> exact h
  | fseek offset whence =>
      rw [← Option.some.inj hd]
      exact kept_fseek h offset whence
  | ftell =>
      rw [← Option.some.inj hd]
      exact h

variable {s s' : LibState} {e : LibEvent} {es : List LibEvent}

theorem libStep_ok (h : LibOk s) (hstep : libStep s e = some s') : LibOk s' := by
  cases e with
  | tmpfile =>
      rw [← Option.some.inj hstep]
      have hused := used_le_slopMalloc slopFileSize h.used_max
      unfold slopTmpfile
      cases hnew : slopMalloc s.alloc slopFileSize with
      | mk new b =>
          rw [hnew] at hused
          cases new with
          | none => exact ⟨hused, fun fp hfp => h.files fp (by simpa using hfp)⟩
          | some p =>
              refine ⟨hused, fun fp hfp => ?_⟩
              rcases List.mem_append.mp hfp with hold | hmade
              · exact h.files fp hold
              · rw [List.mem_singleton.mp hmade]
                exact Or.inl rfl
  | file i op =>
      obtain ⟨fp, hfp, hcall⟩ := Option.bind_eq_some_iff.mp hstep
      obtain ⟨d, hd, rfl⟩ := Option.map_eq_some_iff.mp hcall
      have hkept := Kept.call ⟨h.used_max, h.files fp (List.mem_of_getElem? hfp)⟩ hd
      refine ⟨hkept.1, fun fp' hfp' => ?_⟩
      rcases List.mem_or_eq_of_mem_set hfp' with hold | rfl
      · exact h.files fp' hold
      · exact hkept.2
  | malloc size =>
      rw [← Option.some.inj hstep]
      exact ⟨used_le_slopMalloc size h.used_max, h.files⟩
  | realloc ptr size =>
      rw [← Option.some.inj hstep]
      exact ⟨used_le_slopRealloc ptr size h.used_max, h.files⟩
  | store address byte =>
      rw [← Option.some.inj hstep]
      exact ⟨h.used_max, h.files⟩

theorem libOk_run (hrun : Runs.run libStep libInit es = some s) : LibOk s :=
  Runs.invariant (fun _ _ _ _ => libStep_ok) (Runs.AllSteps.trivial libInit es) hrun
    ⟨by decide, fun _ hfp => absurd hfp List.not_mem_nil⟩

/-- In every state of the library, the requests that return, and with room if they return 1. -/
theorem served_run_iff (hrun : Runs.run libStep libInit es = some s) (hfp : fp ∈ s.files)
    (req : Request) : Served s.alloc fp req ↔ Servable s.alloc fp (req.exact fp) :=
  served_iff ((libOk_run hrun).files fp hfp) (libOk_run hrun).used_max

/-- A stream with one byte. -/
theorem served_demo : ∃ s fp, Runs.run libStep libInit [.tmpfile, .file 0 (.fputc 65)] = some s ∧
    fp ∈ s.files ∧ fp.capacity = 256 ∧ Served s.alloc fp (.fwrite 1 300) := by
  have hview : (Runs.run libStep libInit [.tmpfile, .file 0 (.fputc 65)]).map
      (fun s => s.files.map fun fp => (fp.pos, fp.capacity)) = some [(1, 256)] := by decide +kernel
  obtain ⟨s, hrun, hfiles⟩ := Option.map_eq_some_iff.mp hview
  obtain ⟨fp, hfp, hsame⟩ : ∃ fp ∈ s.files, (fp.pos, fp.capacity) = (1, 256) :=
    List.mem_map.mp (hfiles ▸ List.mem_singleton_self _)
  obtain ⟨hpos, hcap⟩ := Prod.mk.inj hsame
  refine ⟨s, fp, hrun, hfp, hcap, (served_run_iff hrun hfp _).mpr (Or.inl ?_)⟩
  change fp.pos.toNat + 300 + 1 ≤ 2 ^ 31
  rw [hpos]
  decide

/-- A byte behind the last position that can be sought never gets written; a length that wraps is
granted without a buffer. -/
theorem not_served : (∃ s fp, Runs.run libStep libInit
      [.tmpfile, .file 0 (.fseek 0x7FFFFFFF 0)] = some s ∧ fp ∈ s.files ∧
        slopEnsureMemCapacity s.alloc fp (fp.pos + 2) = none ∧ ¬Served s.alloc fp .fputc) ∧
    ∃ s fp, Runs.run libStep libInit [.tmpfile] = some s ∧ fp ∈ s.files ∧
      fp.capacity = 0 ∧ ¬Served s.alloc fp (.fwrite 1 0xFFFFFFFF) := by
  constructor
  · have hview : (Runs.run libStep libInit [.tmpfile, .file 0 (.fseek 0x7FFFFFFF 0)]).map
        (fun s => s.files.map fun fp => (slopEnsureMemCapacity s.alloc fp (fp.pos + 2)).isNone) =
          some [true] := by decide +kernel
    obtain ⟨s, hrun, hfiles⟩ := Option.map_eq_some_iff.mp hview
    obtain ⟨fp, hfp, hnone⟩ : ∃ fp ∈ s.files,
        (slopEnsureMemCapacity s.alloc fp (fp.pos + 2)).isNone = true :=
      List.mem_map.mp (hfiles ▸ List.mem_singleton_self _)
    have hnever := Option.isNone_iff_eq_none.mp hnone
    refine ⟨s, fp, hrun, hfp, hnever, ?_⟩
    rintro ⟨d, hd, -⟩
    rw [show slopEnsureMemCapacity s.alloc fp (Request.passed fp .fputc) = none from hnever] at hd
    cases hd
  · have hview : (Runs.run libStep libInit [.tmpfile]).map
        (fun s => s.files.map fun fp => (fp.pos, fp.capacity)) = some [(0, 0)] := by decide +kernel
    obtain ⟨s, hrun, hfiles⟩ := Option.map_eq_some_iff.mp hview
    obtain ⟨fp, hfp, hsame⟩ : ∃ fp ∈ s.files, (fp.pos, fp.capacity) = (0, 0) :=
      List.mem_map.mp (hfiles ▸ List.mem_singleton_self _)
    obtain ⟨hpos, hcap⟩ := Prod.mk.inj hsame
    refine ⟨s, fp, hrun, hfp, hcap, ?_⟩
    rintro ⟨d, hd, hserved⟩
    have hpassed : Request.passed fp (.fwrite 1 0xFFFFFFFF) = 0 := by
      change fp.pos + 1 * 0xFFFFFFFF + 1 = 0
      rw [hpos]
      decide
    rw [hpassed, ensure_enough (BitVec.le_def.mpr (Nat.zero_le _))] at hd
    obtain rfl := Option.some.inj hd
    have hexact : fp.pos.toNat + 1 * 0xFFFFFFFF + 1 ≤ fp.capacity.toNat := hserved rfl
    have hlt := fp.capacity.isLt
    omega

end SlopOS.Proofs.StreamGrowth
