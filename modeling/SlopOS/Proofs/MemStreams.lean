import SlopOS.User.SlopStdio
import SlopOS.Proofs.ArenaBlocks
import SlopOS.Support.Streams
import Mathlib.Data.Nat.Log
/-!
# Memory streams are byte arrays with a position

A stream of `slop_tmpfile` under any calls.  `contentsOf` reads the abstract
stream off the arena; the bytes between the size and the capacity are kept zero,
which is what a write behind the end relies on.  A call does what the abstract
stream does, which refuses a write exactly where the buffer is too small and
`slop_realloc` has no larger one.
-/

namespace SlopOS.Proofs.MemStreams

open SlopOS.Kernel SlopOS.User SlopOS.Support SlopOS.Proofs.ArenaBlocks

structure MemStream where
  alloc : SlopAlloc
  file : SlopFile

inductive StreamOp
  | fputc (ch : Int)
  | fgetc
  | fwrite (ptr : Option (Nat → U8)) (size nmemb : U32)
  | fread (ptr : Option Unit) (size nmemb : U32)
  | fseek (offset : U32) (whence : Int)
  | ftell

/-- What a call gives back: its result and the bytes it stored for the caller. -/
structure Response where
  value : Int
  data : Bytes
deriving DecidableEq

def respond {ρ : Type} (d : StdioDone ρ) (value : ρ → Int) (data : ρ → Bytes) :
    StdioDone Response :=
  ⟨⟨value d.value, data d.value⟩, d.alloc, d.file, d.accesses⟩

/-- A call on the stream; `none` is one that never returns. -/
def call (st : MemStream) : StreamOp → Option (StdioDone Response)
  | .fputc ch => (slopFputc st.alloc ch st.file).map fun d => respond d id fun _ => []
  | .fgetc => some (respond (slopFgetc st.alloc st.file) id fun _ => [])
  | .fwrite ptr size nmemb =>
    (slopFwrite st.alloc ptr size nmemb st.file).map fun d => respond d (·.toNat) fun _ => []
  | .fread ptr size nmemb =>
    some (respond (slopFread st.alloc ptr size nmemb st.file) (·.1.toNat) (·.2))
  | .fseek offset whence =>
    some ⟨⟨(slopFseek st.file offset whence).1, []⟩, st.alloc,
      (slopFseek st.file offset whence).2, []⟩
  | .ftell => some ⟨⟨slopFtell st.file, []⟩, st.alloc, st.file, []⟩

def streamStep (st : MemStream) (op : StreamOp) : Option MemStream :=
  (call st op).map fun d => ⟨d.alloc, d.file⟩

/-! ## The abstract stream -/

structure ByteStream where
  contents : Stream U8
  eof : Bool
  err : Bool

namespace ByteStream

def put (s : ByteStream) (refused : Bool) (bytes : Bytes) (value failed : Int) :
    Response × ByteStream :=
  if refused then (⟨failed, []⟩, { s with err := true })
  else (⟨value, []⟩, { s with contents := s.contents.write 0 bytes })

def get (s : ByteStream) (n : Nat) : ByteStream where
  contents := s.contents.afterRead n
  eof := s.eof || decide ((s.contents.read n).length < n)
  err := s.err

/-- To `base + offset`, if that is a position. -/
def seek (s : ByteStream) (base offset : Int) : Response × ByteStream :=
  if 0 ≤ base + offset ∧ base + offset < 2 ^ 31 then
    (⟨0, []⟩, { s with
      contents := ⟨s.contents.elems, (base + offset).toNat⟩
      eof := false })
  else (⟨-1, []⟩, { s with err := true })

def call (s : ByteStream) (refused : Bool) : StreamOp → Response × ByteStream
  | .fputc ch => s.put refused [BitVec.ofInt 8 ch] (BitVec.ofInt 8 ch).toNat (-1)
  | .fgetc =>
    match s.contents.elems[s.contents.pos]? with
    | none => (⟨-1, []⟩, { s with eof := true })
    | some byte => (⟨byte.toNat, []⟩, { s with contents := s.contents.afterRead 1 })
  | .fwrite ptr size nmemb =>
    match ptr with
    | none => (⟨0, []⟩, s)
    | some src =>
      if size.toNat * nmemb.toNat = 0 then (⟨0, []⟩, s)
      else s.put refused ((List.range (size.toNat * nmemb.toNat)).map src) nmemb.toNat 0
  | .fread ptr size nmemb =>
    if ptr = none ∨ size.toNat * nmemb.toNat = 0 then (⟨0, []⟩, s)
    else
      let given := s.contents.read (size.toNat * nmemb.toNat)
      (⟨(given.length / size.toNat : Nat), given⟩, s.get (size.toNat * nmemb.toNat))
  | .fseek offset whence =>
    if whence = 0 then s.seek 0 offset.toInt
    else if whence = 1 then s.seek s.contents.pos offset.toInt
    else if whence = 2 then s.seek s.contents.elems.length offset.toInt
    else (⟨-1, []⟩, { s with err := true })
  | .ftell => (⟨s.contents.pos, []⟩, s)

end ByteStream

/-! ## What holds of a call -/

/-- The bytes of the stream, from the arena. -/
def fileBytes (st : MemStream) : Bytes := st.alloc.get st.file.mem 0 st.file.size.toNat

def contentsOf (st : MemStream) : ByteStream where
  contents := ⟨fileBytes st, st.file.pos.toNat⟩
  eof := st.file.eof
  err := st.file.err

/-- An access by the stream's pointer to bytes below its capacity. -/
def Inside (fp : SlopFile) (acc : Access) : Prop :=
  acc.len ≠ 0 → acc.mem = fp.mem ∧ fp.mem ≠ none ∧ acc.offset.toNat + acc.len ≤ fp.capacity.toNat

/-- The buffer is a block that the allocator has handed out, of the size of the capacity. -/
def Buffered (st : MemStream) : Prop :=
  ∀ p, st.file.mem = some p → st.alloc.hdrSize p = st.file.capacity ∧
    p.toNat + st.file.capacity.toNat ≤ st.alloc.used.toNat ∧ st.alloc.used.toNat ≤ 32768

/-- The capacity that a write asks for: its bytes behind the position, and a NUL. -/
def room (st : MemStream) : StreamOp → Nat
  | .fputc _ => st.file.pos.toNat + 1 + 1
  | .fwrite (some _) size nmemb => st.file.pos.toNat + size.toNat * nmemb.toNat + 1
  | _ => 0

/-- The capacity is doubled until it is enough, from 256 if there is none. -/
def asked (st : MemStream) (needed : U32) : Option U32 :=
  User.growCapacity needed growTurns (if st.file.capacity ≠ 0 then st.file.capacity else 256)

/-- The buffer is too small, and `slop_realloc` gives nothing for the capacity asked for. -/
def unserved (st : MemStream) (needed : Nat) : Bool :=
  decide (st.file.capacity.toNat < needed) &&
    (asked st (BitVec.ofNat 32 needed)).any fun capacity =>
      (slopRealloc st.alloc st.file.mem capacity).1.isNone

/-- The call returns and does what the abstract stream does, which refuses a write exactly where
no buffer is to be had for it; every access is to the buffer. -/
def CallRefines (st : MemStream) (op : StreamOp) : Prop :=
  ∃ d, call st op = some d ∧
    (contentsOf st).call (unserved st (room st op)) op =
      (d.value, contentsOf ⟨d.alloc, d.file⟩) ∧
    (∀ acc ∈ d.accesses, Inside d.file acc) ∧ Buffered ⟨d.alloc, d.file⟩

/-- The sizes that the call computes do not wrap, and doubling reaches the room it needs. -/
def SizesFit (st : MemStream) : StreamOp → Prop
  | .fread (some _) size nmemb => size.toNat * nmemb.toNat < 2 ^ 32
  | op => room st op ≤ 2 ^ 31

instance (st : MemStream) : (op : StreamOp) → Decidable (SizesFit st op)
  | .fread (some _) size nmemb => inferInstanceAs (Decidable (size.toNat * nmemb.toNat < 2 ^ 32))
  | .fread none size nmemb => inferInstanceAs (Decidable (room st (.fread none size nmemb) ≤ 2 ^ 31))
  | .fputc ch => inferInstanceAs (Decidable (room st (.fputc ch) ≤ 2 ^ 31))
  | .fgetc => inferInstanceAs (Decidable (room st .fgetc ≤ 2 ^ 31))
  | .fwrite ptr size nmemb =>
    inferInstanceAs (Decidable (room st (.fwrite ptr size nmemb) ≤ 2 ^ 31))
  | .fseek offset whence => inferInstanceAs (Decidable (room st (.fseek offset whence) ≤ 2 ^ 31))
  | .ftell => inferInstanceAs (Decidable (room st .ftell ≤ 2 ^ 31))

/-! ## The doubling loop -/

theorem toNat_two_pow {k : Nat} (hk : k ≤ 31) : (BitVec.ofNat 32 (2 ^ k)).toNat = 2 ^ k := by
  have hlt : 2 ^ k < 2 ^ 32 := Nat.pow_lt_pow_right (by decide) (by omega)
  rw [BitVec.toNat_ofNat]
  exact Nat.mod_eq_of_lt hlt

theorem double_two_pow (k : Nat) :
    BitVec.ofNat 32 (2 ^ k) * 2 = BitVec.ofNat 32 (2 ^ (k + 1)) := by
  apply BitVec.eq_of_toNat_eq
  rw [BitVec.toNat_mul, BitVec.toNat_ofNat, BitVec.toNat_ofNat, Nat.pow_succ]
  exact Nat.mod_mul_mod _ _ _

/-- From a power of two the loop goes to the least one that is large enough. -/
theorem growCapacity_two_pow {needed : U32} (hneeded : needed.toNat ≤ 2 ^ 31) {fuel k : Nat}
    (hk : k ≤ 31) (hfuel : 32 ≤ fuel + k) :
    User.growCapacity needed fuel (BitVec.ofNat 32 (2 ^ k)) =
      some (BitVec.ofNat 32 (2 ^ max k (Nat.clog 2 needed.toNat))) := by
  induction fuel generalizing k with
  | zero => omega
  | succ fuel ih =>
      rw [User.growCapacity]
      by_cases hlt : BitVec.ofNat 32 (2 ^ k) < needed
      · rw [if_pos hlt, double_two_pow]
        have hpow : 2 ^ k < needed.toNat := by
          rw [← toNat_two_pow hk]
          exact BitVec.lt_def.mp hlt
        have hmore := (Nat.lt_clog_iff_pow_lt (by decide)).mpr hpow
        have hmax := Nat.clog_le_of_le_pow hneeded
        rw [ih (by omega) (by omega)]
        congr 3
        omega
      · rw [if_neg hlt]
        have hpow : needed.toNat ≤ 2 ^ k := by
          rw [← toNat_two_pow hk]
          exact Nat.le_of_not_lt fun h => hlt (BitVec.lt_def.mpr h)
        rw [max_eq_left (Nat.clog_le_of_le_pow hpow)]

theorem toNat_two_pow_le (k : Nat) : (BitVec.ofNat 32 (2 ^ k)).toNat ≤ 2 ^ 31 := by
  rcases Nat.lt_or_ge k 32 with hlow | hhigh
  · rw [toNat_two_pow (by omega)]
    exact Nat.pow_le_pow_right (by decide) (by omega)
  · rw [BitVec.toNat_ofNat, Nat.mod_eq_zero_of_dvd (Nat.pow_dvd_pow 2 hhigh)]
    exact Nat.zero_le _

/-! ## The invariant -/

def buffer (fp : SlopFile) : List Block :=
  match fp.mem with
  | none => []
  | some p => [⟨p.toNat, fp.capacity.toNat⟩]

/-- The size is below the capacity, a power of two, and between the two all bytes are zero. -/
structure Tail (st : MemStream) (p : U32) : Prop where
  pow : ∃ k ≤ 31, st.file.capacity = BitVec.ofNat 32 (2 ^ k)
  size_lt : st.file.size.toNat < st.file.capacity.toNat
  zero : ∀ i, st.file.size.toNat ≤ i → i < st.file.capacity.toNat →
    st.alloc.arena (p + BitVec.ofNat 32 i) = 0

structure StreamOk (st : MemStream) : Prop where
  arena : ArenaOk ⟨st.alloc, buffer st.file⟩
  pos_lt : st.file.pos.toNat < 2 ^ 31
  empty : st.file.mem = none → st.file.capacity = 0 ∧ st.file.size = 0
  tail : ∀ p, st.file.mem = some p → Tail st p

variable {st : MemStream} {p : U32}

theorem StreamOk.stop_le (hok : StreamOk st) (hmem : st.file.mem = some p) :
    4 ≤ p.toNat ∧ p.toNat + st.file.capacity.toNat ≤ st.alloc.used.toNat ∧
      st.alloc.used.toNat ≤ 32768 := by
  have harena := hok.arena
  unfold buffer at harena
  rw [hmem] at harena
  have hstop := harena.stop_le List.mem_cons_self
  exact ⟨hstop.1, hstop.2, harena.used_max⟩

theorem StreamOk.buffered (hok : StreamOk st) : Buffered st := by
  intro p hmem
  refine ⟨?_, (hok.stop_le hmem).2⟩
  have harena := hok.arena
  unfold buffer at harena
  rw [hmem] at harena
  rw [harena.hdrSize List.mem_cons_self rfl]
  show BitVec.ofNat 32 st.file.capacity.toNat = _
  rw [BitVec.ofNat_toNat, BitVec.setWidth_eq]

theorem StreamOk.size_le (hok : StreamOk st) :
    st.file.size.toNat ≤ st.file.capacity.toNat ∧ st.file.size.toNat < 32768 := by
  cases hmem : st.file.mem with
  | none =>
      obtain ⟨hcap, hsize⟩ := hok.empty hmem
      rw [hcap, hsize]
      exact ⟨Nat.le_refl _, by decide⟩
  | some p =>
      have hlt := (hok.tail p hmem).size_lt
      have hstop := hok.stop_le hmem
      omega

theorem length_fileBytes (st : MemStream) : (fileBytes st).length = st.file.size.toNat := by
  unfold fileBytes SlopAlloc.get
  split
  · exact List.length_replicate
  · exact ByteMem.length_load _ _ _

theorem getElem?_fileBytes (hmem : st.file.mem = some p) {i : Nat}
    (hi : i < st.file.size.toNat) :
    (fileBytes st)[i]? = some (st.alloc.arena (p + BitVec.ofNat 32 i)) := by
  unfold fileBytes SlopAlloc.get
  rw [hmem]
  have hbase : p + (0 : U32) = p := BitVec.add_zero p
  show (ByteMem.load st.alloc.arena (p + 0) st.file.size.toNat)[i]? = _
  rw [hbase, ByteMem.load, List.getElem?_map, List.getElem?_range hi]
  rfl

theorem fileBytes_congr {st' : MemStream} {q : U32} (hsize : st'.file.size = st.file.size)
    (hmem' : st'.file.mem = some q)
    (hbytes : ∀ i < st.file.size.toNat, ∃ p, st.file.mem = some p ∧
      st'.alloc.arena (q + BitVec.ofNat 32 i) = st.alloc.arena (p + BitVec.ofNat 32 i)) :
    fileBytes st' = fileBytes st := by
  apply List.ext_getElem?
  intro i
  by_cases hi : i < st.file.size.toNat
  · obtain ⟨p, hmem, hbyte⟩ := hbytes i hi
    rw [getElem?_fileBytes hmem hi, getElem?_fileBytes hmem' (hsize ▸ hi), hbyte]
  · have hlen := length_fileBytes st
    have hlen' := length_fileBytes st'
    rw [hsize] at hlen'
    rw [List.getElem?_eq_none (by omega), List.getElem?_eq_none (by omega)]

/-! ## Making room -/

/-- A larger buffer `q`, with the bytes of the old one copied into it. -/
structure Grown (st : MemStream) (capacity q : U32) (a : SlopAlloc) : Prop where
  arena : ∀ arena : ByteMem.Mem, (∀ x : U32, x.toNat < q.toNat → arena x = a.arena x) →
    ArenaOk ⟨⟨arena, a.used⟩, [⟨q.toNat, capacity.toNat⟩]⟩
  bytes : ∀ p, st.file.mem = some p → ∀ i < st.file.capacity.toNat,
    a.arena (q + BitVec.ofNat 32 i) = st.alloc.arena (p + BitVec.ofNat 32 i)

theorem fits_of_le {a : SlopAlloc} {size : U32} (hused : a.used.toNat ≤ 32768)
    (hsize : size.toNat ≤ 2 ^ 31) : Fits a size := by
  have hstart := nextStart_lt hused
  have htotal : Alignment.roundUp (4 + size.toNat) 8 < 4 + size.toNat + 8 :=
    Alignment.roundUp_lt (by decide)
  left
  unfold exactEnd
  omega

theorem realloc_grows (hok : StreamOk st) (capacity : U32) (htop : capacity.toNat ≤ 2 ^ 31)
    (hlarger : st.file.capacity.toNat < capacity.toNat) :
    slopRealloc st.alloc st.file.mem capacity = (none, st.alloc) ∨
      ∃ q a, slopRealloc st.alloc st.file.mem capacity = (some q, a) ∧ Grown st capacity q a := by
  have harena := hok.arena
  have hmax : st.alloc.used.toNat ≤ 32768 := harena.used_max
  have hfits := fits_of_le hmax htop
  cases hmem : st.file.mem with
  | none =>
      show slopMalloc st.alloc capacity = _ ∨ ∃ q a, slopMalloc st.alloc capacity = _ ∧ _
      rcases slopMalloc_cases capacity hmax with ⟨-, hnone⟩ | ⟨q, a, hsome, hm⟩
      · exact Or.inl hnone
      · refine Or.inr ⟨q, a, hsome, fun arena hkept => ?_, fun p hp => ?_⟩
        · exact (harena.malloced hm hfits hkept).head
        · rw [hmem] at hp
          cases hp
  | some p =>
      unfold buffer at harena
      rw [hmem] at harena
      have hstop := hok.stop_le hmem
      rcases slopRealloc_cases harena List.mem_cons_self rfl capacity with
        ⟨-, hnone⟩ | ⟨hin, -⟩ | ⟨q, a, -, hm, -, hmoved⟩
      · exact Or.inl hnone
      · have hle : capacity.toNat ≤ st.file.capacity.toNat := hin
        omega
      · have hexact := hm.exact hmax hfits
        have hend := hm.stop_le
        refine Or.inr ⟨q, _, hmoved hfits, fun arena hkept => ?_, fun p' hp i hi => ?_⟩
        · apply (harena.malloced hm hfits (fun x hx => ?_)).head
          rw [hkept x hx]
          exact copied_below (by show q.toNat + st.file.capacity.toNat ≤ 2 ^ 32; omega) x hx
        · rw [hmem] at hp
          obtain rfl := Option.some.inj hp
          exact copied_at (by show st.file.capacity.toNat ≤ 2 ^ 32; omega) hi

/-- What making room does to a stream: nothing but a larger buffer. -/
structure RoomMade (st : MemStream) (needed : Nat) (d : StdioDone Bool) : Prop where
  ok : StreamOk ⟨d.alloc, d.file⟩
  contents : contentsOf ⟨d.alloc, d.file⟩ = contentsOf st
  pos : d.file.pos = st.file.pos
  size : d.file.size = st.file.size
  enough : d.value = true → needed ≤ d.file.capacity.toNat
  refused : unserved st needed = !d.value
  inside : ∀ acc ∈ d.accesses, Inside d.file acc

/-- The stream in its larger buffer, with zeros behind the bytes that were copied. -/
def grown (st : MemStream) (capacity q : U32) (a : SlopAlloc) : MemStream where
  alloc := a.put (some q) st.file.capacity (capacity - st.file.capacity).toNat fun _ => 0
  file := { st.file with mem := some q, capacity := capacity }

section Grown

variable {capacity q : U32} {a : SlopAlloc}

theorem Grown.stop_le (hg : Grown st capacity q a) : q.toNat + capacity.toNat ≤ 32768 := by
  have harena := hg.arena a.arena fun _ _ => rfl
  have hself : q.toNat + capacity.toNat ≤ a.used.toNat := (harena.stop_le List.mem_cons_self).2
  exact Nat.le_trans hself harena.used_max

theorem arena_grown (st : MemStream) (capacity q : U32) (a : SlopAlloc) :
    (grown st capacity q a).alloc.arena = ByteMem.store a.arena (q + st.file.capacity)
      (capacity - st.file.capacity).toNat fun _ => 0 := rfl

/-- Up to the old capacity the bytes are the copied ones, behind it they are zero. -/
theorem grown_byte (hg : Grown st capacity q a) (hlarger : st.file.capacity.toNat < capacity.toNat)
    {i : Nat} (hi : i < capacity.toNat) :
    (grown st capacity q a).alloc.arena (q + BitVec.ofNat 32 i) =
      if st.file.capacity.toNat ≤ i then 0 else a.arena (q + BitVec.ofNat 32 i) := by
  have hstop := hg.stop_le
  have hfill : (capacity - st.file.capacity).toNat = capacity.toNat - st.file.capacity.toNat := by
    bv_omega
  rw [arena_grown, ByteMem.store_offset_apply (by omega) (by omega)]
  by_cases hold : st.file.capacity.toNat ≤ i
  · rw [if_pos (by omega), if_pos hold]
  · rw [if_neg (by omega), if_neg hold]

theorem grown_ok (hok : StreamOk st) (hg : Grown st capacity q a)
    (hlarger : st.file.capacity.toNat < capacity.toNat)
    (hpow : ∃ k ≤ 31, capacity = BitVec.ofNat 32 (2 ^ k)) : StreamOk (grown st capacity q a) := by
  have hsize := hok.size_le
  have hstop := hg.stop_le
  refine ⟨hg.arena _ fun x hx => ?_, hok.pos_lt, nofun, fun p hp => ?_⟩
  · have hfill : st.file.capacity.toNat + (capacity - st.file.capacity).toNat ≤ capacity.toNat := by
      bv_omega
    exact ByteMem.store_offset_outside hfill (by omega) fun hin => absurd hin.1 (Nat.not_le.mpr hx)
  obtain rfl := Option.some.inj hp
  refine ⟨hpow, ?_, fun i hge hlt => ?_⟩
  · show st.file.size.toNat < capacity.toNat
    omega
  rw [grown_byte hg hlarger hlt]
  split
  · rfl
  rename_i hlow
  have hi : i < st.file.capacity.toNat := Nat.not_le.mp hlow
  cases hmem : st.file.mem with
  | none =>
      rw [(hok.empty hmem).1] at hi
      exact absurd hi (Nat.not_lt_zero i)
  | some p =>
      rw [hg.bytes p hmem i hi]
      exact (hok.tail p hmem).zero i hge hi

theorem contentsOf_grown (hok : StreamOk st) (hg : Grown st capacity q a)
    (hlarger : st.file.capacity.toNat < capacity.toNat) :
    contentsOf (grown st capacity q a) = contentsOf st := by
  have hsize := hok.size_le
  have hbytes : fileBytes (grown st capacity q a) = fileBytes st := by
    apply fileBytes_congr (show (grown st capacity q a).file.size = st.file.size from rfl)
      (show (grown st capacity q a).file.mem = some q from rfl)
    intro i hi
    cases hmem : st.file.mem with
    | none =>
        rw [(hok.empty hmem).2] at hi
        exact absurd hi (Nat.not_lt_zero i)
    | some p =>
        refine ⟨p, rfl, ?_⟩
        rw [grown_byte hg hlarger (by omega), if_neg (by omega), hg.bytes p hmem i (by omega)]
  unfold contentsOf
  rw [hbytes]
  rfl

end Grown

theorem ensure_larger (hok : StreamOk st) {needed capacity : U32} {k : Nat} (hk : k ≤ 31)
    (hcapacity : capacity = BitVec.ofNat 32 (2 ^ k)) (hneeded : needed.toNat ≤ capacity.toNat)
    (hlarger : st.file.capacity.toNat < needed.toNat) {q : U32} {a : SlopAlloc}
    (hserved : unserved st needed.toNat = false) (hg : Grown st capacity q a) :
    RoomMade st needed.toNat
      { value := true
        alloc := a.put (some q) st.file.capacity (capacity - st.file.capacity).toNat fun _ => 0
        file := { st.file with mem := some q, capacity := capacity }
        accesses := [⟨some q, st.file.capacity, (capacity - st.file.capacity).toNat⟩] } := by
  have hmore : st.file.capacity.toNat < capacity.toNat := Nat.lt_of_lt_of_le hlarger hneeded
  refine ⟨grown_ok hok hg hmore ⟨k, hk, hcapacity⟩, contentsOf_grown hok hg hmore, rfl, rfl,
    fun _ => hneeded, hserved, fun acc hacc => ?_⟩
  rw [List.mem_singleton.mp hacc]
  refine fun _ => ⟨rfl, nofun, ?_⟩
  show st.file.capacity.toNat + (capacity - st.file.capacity).toNat ≤ capacity.toNat
  bv_omega

theorem unserved_of_room {needed : Nat} (h : needed ≤ st.file.capacity.toNat) :
    unserved st needed = false := by
  unfold unserved
  rw [decide_eq_false (Nat.not_lt.mpr h), Bool.false_and]

/-- A buffer that is too small is refused exactly if there is no larger one. -/
theorem unserved_eq {needed capacity : U32} (hlarger : st.file.capacity.toNat < needed.toNat)
    (hasked : asked st needed = some capacity) :
    unserved st needed.toNat = (slopRealloc st.alloc st.file.mem capacity).1.isNone := by
  unfold unserved
  rw [decide_eq_true hlarger, BitVec.ofNat_toNat, BitVec.setWidth_eq, hasked]
  rfl

theorem ensure_spec (hok : StreamOk st) (needed : U32) (hneeded : needed.toNat ≤ 2 ^ 31) :
    ∃ d, slopEnsureMemCapacity st.alloc st.file needed = some d ∧ RoomMade st needed.toNat d := by
  unfold slopEnsureMemCapacity
  by_cases hroom : needed ≤ st.file.capacity
  · rw [if_pos hroom]
    have hle := BitVec.le_def.mp hroom
    exact ⟨_, rfl, hok, rfl, rfl, rfl, fun _ => hle, unserved_of_room hle,
      fun _ hacc => absurd hacc List.not_mem_nil⟩
  rw [if_neg hroom]
  have hlarger : st.file.capacity.toNat < needed.toNat :=
    Nat.lt_of_not_le fun h => hroom (BitVec.le_def.mpr h)
  -- the loop starts at a power of two
  obtain ⟨k₀, hk₀, hstart⟩ : ∃ k ≤ 31,
      (if st.file.capacity ≠ 0 then st.file.capacity else 256) = BitVec.ofNat 32 (2 ^ k) := by
    by_cases hzero : st.file.capacity = 0
    · rw [if_neg (not_not.mpr hzero)]
      exact ⟨8, by decide, rfl⟩
    · rw [if_pos hzero]
      cases hmem : st.file.mem with
      | none => exact absurd (hok.empty hmem).1 hzero
      | some p => exact (hok.tail p hmem).pow
  obtain ⟨k, hk, hgrow, hreach⟩ : ∃ k ≤ 31, User.growCapacity needed growTurns
      (BitVec.ofNat 32 (2 ^ k₀)) = some (BitVec.ofNat 32 (2 ^ k)) ∧ needed.toNat ≤ 2 ^ k := by
    refine ⟨_, max_le hk₀ (Nat.clog_le_of_le_pow hneeded), growCapacity_two_pow hneeded hk₀ ?_, ?_⟩
    · unfold growTurns
      omega
    · exact (Nat.le_pow_clog (by decide) _).trans
        (Nat.pow_le_pow_right (by decide) (le_max_right _ _))
  have hasked : asked st needed = some (BitVec.ofNat 32 (2 ^ k)) := by
    unfold asked
    rw [hstart, hgrow]
  rw [hstart, hgrow]
  dsimp only
  have hpow := toNat_two_pow hk
  have hle : 2 ^ k ≤ 2 ^ 31 := Nat.pow_le_pow_right (by decide) hk
  rcases realloc_grows hok (BitVec.ofNat 32 (2 ^ k)) (by omega) (by omega) with
    hnone | ⟨q, a, hsome, hg⟩
  · have hrefused := unserved_eq hlarger hasked
    rw [hnone] at hrefused ⊢
    exact ⟨_, rfl, hok, rfl, rfl, rfl, nofun, hrefused,
      fun _ hacc => absurd hacc List.not_mem_nil⟩
  · have hserved := unserved_eq hlarger hasked
    rw [hsome] at hserved ⊢
    exact ⟨_, rfl, ensure_larger hok hk rfl (by omega) hlarger hserved hg⟩

/-! ## Writing -/

structure BytesPut (st : MemStream) (bytes : Bytes) (d : StdioDone Unit) : Prop where
  ok : StreamOk ⟨d.alloc, d.file⟩
  contents : contentsOf ⟨d.alloc, d.file⟩ =
    { contentsOf st with contents := (contentsOf st).contents.write 0 bytes }
  inside : ∀ acc ∈ d.accesses, Inside d.file acc

/-- The stream behind `n` bytes from the position on and a NUL behind the last byte. -/
def afterPut (st : MemStream) (p n : U32) (src : Nat → U8) : MemStream :=
  let size := if st.file.size < st.file.pos + n then st.file.pos + n else st.file.size
  { alloc := (st.alloc.put (some p) st.file.pos n.toNat src).put (some p) size 1 fun _ => 0
    file := { st.file with pos := st.file.pos + n, size := size, mem := some p } }

theorem putBytes_eq (hmem : st.file.mem = some p) (n : U32) (src : Nat → U8) :
    putBytes st.alloc st.file n src = ⟨(), (afterPut st p n src).alloc, (afterPut st p n src).file,
      [⟨some p, st.file.pos, n.toNat⟩, ⟨some p, (afterPut st p n src).file.size, 1⟩]⟩ := by
  unfold putBytes
  rw [hmem]
  rfl

section AfterPut

theorem arena_afterPut (st : MemStream) (p n : U32) (src : Nat → U8) :
    (afterPut st p n src).alloc.arena =
      ByteMem.store (ByteMem.store st.alloc.arena (p + st.file.pos) n.toNat src)
        (p + (afterPut st p n src).file.size) 1 fun _ => 0 := rfl

variable {n : U32} {src : Nat → U8}

theorem pos_afterPut (p : U32) (src : Nat → U8) (h : st.file.pos.toNat + n.toNat < 2 ^ 32) :
    (afterPut st p n src).file.pos.toNat = st.file.pos.toNat + n.toNat :=
  BitVec.toNat_add_of_lt h

theorem size_afterPut (p : U32) (src : Nat → U8) (h : st.file.pos.toNat + n.toNat < 2 ^ 32) :
    (afterPut st p n src).file.size.toNat =
      max st.file.size.toNat (st.file.pos.toNat + n.toNat) := by
  rw [← BitVec.toNat_add_of_lt h]
  exact ByteMem.toNat_larger _ _

variable (hok : StreamOk st) (hmem : st.file.mem = some p)
variable (hroom : st.file.pos.toNat + n.toNat + 1 ≤ st.file.capacity.toNat)

include hok hmem hroom

theorem byte_afterPut {i : Nat} (hi : i < st.file.capacity.toNat) :
    (afterPut st p n src).alloc.arena (p + BitVec.ofNat 32 i) =
      if st.file.pos.toNat ≤ i ∧ i < st.file.pos.toNat + n.toNat then src (i - st.file.pos.toNat)
      else st.alloc.arena (p + BitVec.ofNat 32 i) := by
  have hstop := hok.stop_le hmem
  have htail := hok.tail p hmem
  have hlt := htail.size_lt
  have hsize := size_afterPut p src (show st.file.pos.toNat + n.toNat < 2 ^ 32 by omega)
  rw [arena_afterPut, ByteMem.store_offset_apply (by omega) (by omega),
    ByteMem.store_offset_apply (by omega) (by omega)]
  by_cases hnul : (afterPut st p n src).file.size.toNat ≤ i ∧
      i < (afterPut st p n src).file.size.toNat + 1
  · rw [if_pos hnul, if_neg (by omega), htail.zero i (by omega) hi]
  · rw [if_neg hnul]

theorem afterPut_ok : StreamOk (afterPut st p n src) := by
  have hstop := hok.stop_le hmem
  have htail := hok.tail p hmem
  have hlt := htail.size_lt
  have hpos := pos_afterPut p src (show st.file.pos.toNat + n.toNat < 2 ^ 32 by omega)
  have hsize := size_afterPut p src (show st.file.pos.toNat + n.toNat < 2 ^ 32 by omega)
  refine ⟨?_, by omega, nofun, fun p' hp' => ?_⟩
  · have harena := hok.arena
    unfold buffer at harena
    rw [hmem] at harena
    apply harena.rewritten List.mem_cons_self
    intro x hx
    have hx' : x.toNat < p.toNat ∨ p.toNat + st.file.capacity.toNat ≤ x.toNat := hx
    have hout : ¬ByteMem.InRange p st.file.capacity.toNat x := by
      unfold ByteMem.InRange
      omega
    show (afterPut st p n src).alloc.arena x = st.alloc.arena x
    rw [arena_afterPut, ByteMem.store_offset_outside (by omega) (by omega) hout,
      ByteMem.store_offset_outside (by omega) (by omega) hout]
  · obtain rfl := Option.some.inj hp'
    refine ⟨htail.pow, ?_, fun i hge hi => ?_⟩
    · show (afterPut st p n src).file.size.toNat < st.file.capacity.toNat
      omega
    · rw [byte_afterPut hok hmem hroom hi, if_neg (by omega)]
      exact htail.zero i (by omega) hi

theorem fileBytes_afterPut (hn : 0 < n.toNat) : fileBytes (afterPut st p n src) =
    ((contentsOf st).contents.write 0 ((List.range n.toNat).map src)).elems := by
  have hstop := hok.stop_le hmem
  have htail := hok.tail p hmem
  have hlt := htail.size_lt
  have hsize := size_afterPut p src (show st.file.pos.toNat + n.toNat < 2 ^ 32 by omega)
  have hlen := length_fileBytes st
  have hlen' := length_fileBytes (afterPut st p n src)
  have hsrc : ((List.range n.toNat).map src).length = n.toNat := by
    rw [List.length_map, List.length_range]
  apply Stream.eq_write
  · show _ = max (fileBytes st).length (st.file.pos.toNat + _)
    rw [hlen, hlen', hsrc, hsize]
  intro i hi
  rw [hlen'] at hi
  rw [getElem?_fileBytes (show (afterPut st p n src).file.mem = some p from rfl) hi,
    byte_afterPut hok hmem hroom (by omega)]
  show _ = if st.file.pos.toNat ≤ i ∧ i < st.file.pos.toNat + ((List.range n.toNat).map src).length
    then ((List.range n.toNat).map src)[i - st.file.pos.toNat]?
    else if i < (fileBytes st).length then (fileBytes st)[i]? else some 0
  rw [hsrc, hlen]
  by_cases hin : st.file.pos.toNat ≤ i ∧ i < st.file.pos.toNat + n.toNat
  · have hindex : i - st.file.pos.toNat < n.toNat := by omega
    rw [if_pos hin, if_pos hin, List.getElem?_map, List.getElem?_range hindex]
    rfl
  rw [if_neg hin, if_neg hin]
  by_cases hold : i < st.file.size.toNat
  · rw [if_pos hold, getElem?_fileBytes hmem hold]
  · rw [if_neg hold, htail.zero i (by omega) (by omega)]

end AfterPut

theorem putBytes_spec (hok : StreamOk st) (n : U32) (src : Nat → U8) (hn : 0 < n.toNat)
    (hroom : st.file.pos.toNat + n.toNat + 1 ≤ st.file.capacity.toNat) :
    BytesPut st ((List.range n.toNat).map src) (putBytes st.alloc st.file n src) := by
  obtain ⟨p, hmem⟩ : ∃ p, st.file.mem = some p := by
    cases hmem : st.file.mem with
    | some p => exact ⟨p, rfl⟩
    | none =>
        rw [(hok.empty hmem).1] at hroom
        exact absurd hroom (Nat.not_succ_le_zero _)
  have hstop := hok.stop_le hmem
  have hsize := (hok.tail p hmem).size_lt
  rw [putBytes_eq hmem]
  refine ⟨afterPut_ok hok hmem hroom, ?_, ?_⟩
  · have hcursor : (contentsOf (afterPut st p n src)).contents =
        (contentsOf st).contents.write 0 ((List.range n.toNat).map src) := by
      apply Stream.ext (fileBytes_afterPut hok hmem hroom hn)
      show (afterPut st p n src).file.pos.toNat = st.file.pos.toNat + _
      rw [pos_afterPut _ _ (by omega), List.length_map, List.length_range]
    show (⟨(contentsOf (afterPut st p n src)).contents, st.file.eof, st.file.err⟩ : ByteStream) = _
    rw [hcursor]
    rfl
  · intro acc hacc
    rcases List.mem_cons.mp hacc with rfl | hacc
    · refine fun _ => ⟨rfl, nofun, ?_⟩
      show st.file.pos.toNat + n.toNat ≤ st.file.capacity.toNat
      omega
    · rw [List.mem_singleton.mp hacc]
      refine fun _ => ⟨rfl, nofun, ?_⟩
      show (afterPut st p n src).file.size.toNat + 1 ≤ st.file.capacity.toNat
      rw [size_afterPut _ _ (by omega)]
      omega

/-! ## The calls -/

/-- What a call did, and that the invariant holds after it. -/
structure CallDone (st : MemStream) (op : StreamOp) (d : StdioDone Response) : Prop where
  returns : call st op = some d
  abstract : (contentsOf st).call (unserved st (room st op)) op =
    (d.value, contentsOf ⟨d.alloc, d.file⟩)
  inside : ∀ acc ∈ d.accesses, Inside d.file acc
  ok : StreamOk ⟨d.alloc, d.file⟩

theorem StreamOk.flags (hok : StreamOk st) (eof err : Bool) :
    StreamOk ⟨st.alloc, { st.file with eof := eof, err := err }⟩ where
  arena := hok.arena
  pos_lt := hok.pos_lt
  empty := hok.empty
  tail p hmem :=
    { pow := (hok.tail p hmem).pow
      size_lt := (hok.tail p hmem).size_lt
      zero := (hok.tail p hmem).zero }

theorem StreamOk.moved (hok : StreamOk st) {pos : U32} (hpos : pos.toNat < 2 ^ 31) :
    StreamOk ⟨st.alloc, { st.file with pos := pos }⟩ where
  arena := hok.arena
  pos_lt := hpos
  empty := hok.empty
  tail p hmem :=
    { pow := (hok.tail p hmem).pow
      size_lt := (hok.tail p hmem).size_lt
      zero := (hok.tail p hmem).zero }

theorem room_for (hok : StreamOk st) (n : U32) (src : Nat → U8) (hn : 0 < n.toNat)
    (hfits : st.file.pos.toNat + n.toNat + 1 ≤ 2 ^ 31) :
    ∃ d, slopEnsureMemCapacity st.alloc st.file (st.file.pos + n + 1) = some d ∧
      RoomMade st (st.file.pos.toNat + n.toNat + 1) d ∧
      (d.value = true → BytesPut ⟨d.alloc, d.file⟩ ((List.range n.toNat).map src)
        (putBytes d.alloc d.file n src)) := by
  have hneeded : (st.file.pos + n + 1).toNat = st.file.pos.toNat + n.toNat + 1 := by
    bv_omega
  obtain ⟨d, hd, hroom⟩ := ensure_spec hok (st.file.pos + n + 1) (by omega)
  rw [hneeded] at hroom
  refine ⟨d, hd, hroom, fun hvalue => putBytes_spec hroom.ok n src hn ?_⟩
  show d.file.pos.toNat + n.toNat + 1 ≤ d.file.capacity.toNat
  rw [hroom.pos]
  exact hroom.enough hvalue

theorem put_done {op : StreamOp} {n : U32} {src : Nat → U8} {room : StdioDone Bool}
    (value failed : Int) (hroom : RoomMade st (MemStreams.room st op) room)
    (hput : room.value = true → BytesPut ⟨room.alloc, room.file⟩ ((List.range n.toNat).map src)
      (putBytes room.alloc room.file n src))
    (hcall : call st op = some (if room.value = true then
      ⟨⟨value, []⟩, (putBytes room.alloc room.file n src).alloc,
        (putBytes room.alloc room.file n src).file,
        room.accesses ++ (putBytes room.alloc room.file n src).accesses⟩
      else ⟨⟨failed, []⟩, room.alloc, { room.file with err := true }, room.accesses⟩))
    (habstract : ∀ refused, (contentsOf st).call refused op =
      (contentsOf st).put refused ((List.range n.toNat).map src) value failed) :
    ∃ d, CallDone st op d := by
  have hrefused := hroom.refused
  cases hvalue : room.value with
  | false =>
      rw [hvalue] at hcall hrefused
      refine ⟨_, hcall, ?_, ?_, hroom.ok.flags _ _⟩
      · rw [habstract, hrefused]
        have hsame : contentsOf ⟨room.alloc, { room.file with err := true }⟩ =
            { contentsOf ⟨room.alloc, room.file⟩ with err := true } := rfl
        show (_, _) = (_, contentsOf ⟨room.alloc, { room.file with err := true }⟩)
        rw [hsame, hroom.contents]
        rfl
      · exact hroom.inside
  | true =>
      rw [hvalue] at hcall hrefused
      have hbytes := hput hvalue
      refine ⟨_, hcall, ?_, ?_, hbytes.ok⟩
      · rw [habstract, hrefused]
        have hcontents := hbytes.contents
        rw [hroom.contents] at hcontents
        exact congrArg (fun s => ((⟨value, []⟩ : Response), s)) hcontents.symm
      · intro acc hacc
        rcases List.mem_append.mp hacc with hacc | hacc
        · exact hroom.inside acc hacc
        · exact hbytes.inside acc hacc

theorem fputc_done (hok : StreamOk st) (ch : Int) (hfits : room st (.fputc ch) ≤ 2 ^ 31) :
    ∃ d, CallDone st (.fputc ch) d := by
  obtain ⟨d, hd, hroom, hput⟩ :=
    room_for hok 1 (fun _ => BitVec.ofInt 8 ch) (by decide) hfits
  have hneeded : st.file.pos + 2 = st.file.pos + 1 + 1 := by
    rw [BitVec.add_assoc]
    rfl
  apply put_done (BitVec.ofInt 8 ch).toNat (-1) hroom hput
  · unfold call slopFputc
    rw [hneeded, hd]
    cases d with
    | mk value a fp accesses => cases value <;> rfl
  · exact fun _ => rfl

theorem fwrite_done (hok : StreamOk st) (ptr : Option (Nat → U8)) (size nmemb : U32)
    (hfits : room st (.fwrite ptr size nmemb) ≤ 2 ^ 31) :
    ∃ d, CallDone st (.fwrite ptr size nmemb) d := by
  cases ptr with
  | none =>
      exact ⟨_, rfl, rfl, fun _ hacc => absurd hacc List.not_mem_nil, hok⟩
  | some src =>
      by_cases hzero : size = 0 ∨ nmemb = 0
      · have hnone : size.toNat * nmemb.toNat = 0 := by
          rcases hzero with rfl | rfl
          · exact Nat.zero_mul _
          · exact Nat.mul_zero _
        refine ⟨⟨⟨0, []⟩, st.alloc, st.file, []⟩, ?_, ?_, fun _ hacc => absurd hacc List.not_mem_nil, hok⟩
        · rw [call, slopFwrite, if_pos hzero]
          rfl
        · rw [ByteStream.call, if_pos hnone]
      have hfits' : st.file.pos.toNat + size.toNat * nmemb.toNat + 1 ≤ 2 ^ 31 := hfits
      have htotal : (size * nmemb).toNat = size.toNat * nmemb.toNat := by
        rw [BitVec.toNat_mul]
        exact Nat.mod_eq_of_lt (by omega)
      have hpos : 0 < size.toNat * nmemb.toNat := by
        rw [not_or] at hzero
        apply Nat.mul_pos
        · exact Nat.pos_of_ne_zero fun h => hzero.1 (BitVec.eq_of_toNat_eq h)
        · exact Nat.pos_of_ne_zero fun h => hzero.2 (BitVec.eq_of_toNat_eq h)
      obtain ⟨d, hd, hroom, hput⟩ := room_for hok (size * nmemb) src (by omega) (by omega)
      rw [htotal] at hroom
      apply put_done nmemb.toNat 0 hroom hput
      · rw [call, slopFwrite, if_neg hzero]
        dsimp only
        rw [hd]
        cases d with
        | mk value a fp accesses => cases value <;> rfl
      · intro refused
        rw [ByteStream.call, if_neg (by omega), htotal]

theorem fgetc_done (hok : StreamOk st) : ∃ d, CallDone st .fgetc d := by
  have hlen := length_fileBytes st
  by_cases hend : st.file.size ≤ st.file.pos
  · refine ⟨⟨⟨-1, []⟩, st.alloc, { st.file with eof := true }, []⟩, ?_, ?_,
      fun _ hacc => absurd hacc List.not_mem_nil, hok.flags _ _⟩
    · rw [call, slopFgetc, if_pos hend]
      rfl
    · have hle := BitVec.le_def.mp hend
      have hnone : (contentsOf st).contents.elems[(contentsOf st).contents.pos]? = none :=
        List.getElem?_eq_none (by rw [← hlen] at hle; exact hle)
      rw [ByteStream.call, hnone]
      rfl
  have hlt : st.file.pos.toNat < st.file.size.toNat :=
    Nat.lt_of_not_le fun h => hend (BitVec.le_def.mpr h)
  have hsize := hok.size_le
  have hpos : (st.file.pos + 1).toNat = st.file.pos.toNat + 1 := by bv_omega
  cases hmem : st.file.mem with
  | none =>
      rw [(hok.empty hmem).2] at hlt
      exact absurd hlt (Nat.not_lt_zero _)
  | some p =>
      have hbyte := getElem?_fileBytes hmem hlt
      have hself : BitVec.ofNat 32 st.file.pos.toNat = st.file.pos := ptr_eq rfl
      rw [hself] at hbyte
      have hread : ((contentsOf st).contents.read 1).length = 1 := by
        rw [Stream.length_read]
        show min 1 ((fileBytes st).length - st.file.pos.toNat) = 1
        omega
      have hget : (st.alloc.get st.file.mem st.file.pos 1).getD 0 0 =
          st.alloc.arena (p + st.file.pos) := by
        rw [hmem]
        show st.alloc.arena (p + st.file.pos + BitVec.ofNat 32 0) = _
        rw [BitVec.add_zero]
      refine ⟨⟨⟨(st.alloc.arena (p + st.file.pos)).toNat, []⟩, st.alloc,
        { st.file with pos := st.file.pos + 1 }, [⟨st.file.mem, st.file.pos, 1⟩]⟩, ?_, ?_,
        fun acc hacc => ?_, hok.moved (by omega)⟩
      · rw [call, slopFgetc, if_neg hend, hget]
        rfl
      · have hsome : (contentsOf st).contents.elems[(contentsOf st).contents.pos]? =
            some (st.alloc.arena (p + st.file.pos)) := hbyte
        rw [ByteStream.call, hsome]
        have hafter : (contentsOf st).contents.afterRead 1 =
            ⟨fileBytes st, (st.file.pos + 1).toNat⟩ := by
          apply Stream.ext
          · rfl
          · show st.file.pos.toNat + ((contentsOf st).contents.read 1).length = _
            rw [hread, hpos]
        dsimp only
        rw [hafter]
        rfl
      · rw [List.mem_singleton.mp hacc]
        refine fun _ => ⟨rfl, ?_, ?_⟩
        · show st.file.mem ≠ none
          rw [hmem]
          exact Option.some_ne_none p
        · show st.file.pos.toNat + 1 ≤ st.file.capacity.toNat
          omega

theorem get_eq_read (hok : StreamOk st) {n : Nat}
    (hn : n ≤ st.file.size.toNat - st.file.pos.toNat) :
    st.alloc.get st.file.mem st.file.pos n = (contentsOf st).contents.read n := by
  have hlen := length_fileBytes st
  cases hmem : st.file.mem with
  | none =>
      have hzero : n = 0 := by
        have hsize : st.file.size.toNat = 0 := by
          rw [(hok.empty hmem).2]
          rfl
        omega
      rw [hzero]
      rfl
  | some p =>
      apply List.ext_getElem?
      intro i
      show (ByteMem.load st.alloc.arena (p + st.file.pos) n)[i]? =
        (((fileBytes st).drop st.file.pos.toNat).take n)[i]?
      by_cases hi : i < n
      · have haddr : p + st.file.pos + BitVec.ofNat 32 i =
            p + BitVec.ofNat 32 (st.file.pos.toNat + i) := by
          rw [BitVec.add_assoc, ← BitVec.ofNat_add_ofNat, ptr_eq rfl]
        rw [ByteMem.load, List.getElem?_map, List.getElem?_range hi, List.getElem?_take_of_lt hi,
          List.getElem?_drop, getElem?_fileBytes hmem (by omega), Option.map_some, haddr]
      · rw [List.getElem?_eq_none (by rw [ByteMem.length_load]; omega),
          List.getElem?_eq_none (by rw [List.length_take]; omega)]

/-- What a read of `want` bytes takes. -/
def taken (fp : SlopFile) (want : U32) : U32 :=
  let available := if fp.pos < fp.size then fp.size - fp.pos else 0
  if want < available then want else available

theorem toNat_taken (fp : SlopFile) (want : U32) :
    (taken fp want).toNat = min want.toNat (fp.size.toNat - fp.pos.toNat) := by
  unfold taken
  by_cases hlt : fp.pos < fp.size
  · rw [if_pos hlt]
    have havailable : (fp.size - fp.pos).toNat = fp.size.toNat - fp.pos.toNat := by
      bv_omega
    by_cases hwant : want < fp.size - fp.pos
    · have h := BitVec.lt_def.mp hwant
      rw [if_pos hwant]
      omega
    · have h : ¬want.toNat < (fp.size - fp.pos).toNat := fun h => hwant (BitVec.lt_def.mpr h)
      rw [if_neg hwant]
      omega
  · have h : ¬fp.pos.toNat < fp.size.toNat := fun h => hlt (BitVec.lt_def.mpr h)
    have hnone : ¬want < 0 := fun h => Nat.not_lt_zero _ (BitVec.lt_def.mp h)
    rw [if_neg hlt, if_neg hnone]
    show 0 = _
    omega

def behind (fp : SlopFile) (want : U32) : SlopFile :=
  { fp with
    pos := fp.pos + taken fp want
    eof := fp.eof || decide (taken fp want < want) }

theorem length_read_taken (st : MemStream) (want : U32) :
    ((contentsOf st).contents.read want.toNat).length = (taken st.file want).toNat := by
  rw [Stream.length_read, toNat_taken]
  show min _ ((fileBytes st).length - st.file.pos.toNat) = _
  rw [length_fileBytes]

theorem toNat_behind (hok : StreamOk st) (want : U32) :
    (behind st.file want).pos.toNat = st.file.pos.toNat + (taken st.file want).toNat := by
  have hpos := hok.pos_lt
  have hsize := hok.size_le
  have htaken := toNat_taken st.file want
  apply BitVec.toNat_add_of_lt
  omega

theorem get_taken (hok : StreamOk st) (want : U32) :
    st.alloc.get st.file.mem st.file.pos (taken st.file want).toNat =
      (contentsOf st).contents.read want.toNat := by
  have htaken := toNat_taken st.file want
  rw [get_eq_read hok (by omega), ← length_read_taken]
  exact Stream.read_length _ _

theorem afterRead_behind (hok : StreamOk st) (want : U32) :
    (contentsOf st).contents.afterRead want.toNat =
      ⟨fileBytes st, (behind st.file want).pos.toNat⟩ := by
  apply Stream.ext
  · rfl
  · rw [toNat_behind hok, ← length_read_taken]
    rfl

theorem behind_ok (hok : StreamOk st) (want : U32) : StreamOk ⟨st.alloc, behind st.file want⟩ := by
  have hpos := hok.pos_lt
  have hsize := hok.size_le
  have htaken := toNat_taken st.file want
  have hbehind := toNat_behind hok want
  exact (@StreamOk.moved st hok (behind st.file want).pos (by omega)).flags _ st.file.err

theorem inside_taken (hok : StreamOk st) (want : U32) :
    Inside (behind st.file want) ⟨st.file.mem, st.file.pos, (taken st.file want).toNat⟩ := by
  intro hne
  have hne' : (taken st.file want).toNat ≠ 0 := hne
  have hsize := hok.size_le
  have htaken := toNat_taken st.file want
  refine ⟨rfl, fun hmem => ?_, ?_⟩
  · have hzero : st.file.size.toNat = 0 := by
      rw [(hok.empty hmem).2]
      rfl
    omega
  · show st.file.pos.toNat + (taken st.file want).toNat ≤ st.file.capacity.toNat
    omega

theorem fread_done (hok : StreamOk st) (ptr : Option Unit) (size nmemb : U32)
    (hfits : SizesFit st (.fread ptr size nmemb)) :
    ∃ d, CallDone st (.fread ptr size nmemb) d := by
  by_cases hskip : ptr = none ∨ size = 0 ∨ nmemb = 0
  · have hnone : ptr = none ∨ size.toNat * nmemb.toNat = 0 := by
      rcases hskip with hptr | rfl | rfl
      · exact Or.inl hptr
      · exact Or.inr (Nat.zero_mul _)
      · exact Or.inr (Nat.mul_zero _)
    refine ⟨⟨⟨0, []⟩, st.alloc, st.file, []⟩, ?_, ?_,
      fun _ hacc => absurd hacc List.not_mem_nil, hok⟩
    · rw [call, slopFread, if_pos hskip]
      rfl
    · rw [ByteStream.call, if_pos hnone]
  cases ptr with
  | none => exact absurd (Or.inl rfl) hskip
  | some u =>
      rw [not_or, not_or] at hskip
      have hexact : size.toNat * nmemb.toNat < 2 ^ 32 := hfits
      have hwant : (size * nmemb).toNat = size.toNat * nmemb.toNat := by
        rw [BitVec.toNat_mul]
        exact Nat.mod_eq_of_lt hexact
      have hsome : 0 < size.toNat * nmemb.toNat := by
        apply Nat.mul_pos
        · exact Nat.pos_of_ne_zero fun h => hskip.2.1 (BitVec.eq_of_toNat_eq h)
        · exact Nat.pos_of_ne_zero fun h => hskip.2.2 (BitVec.eq_of_toNat_eq h)
      have heof : decide (taken st.file (size * nmemb) < size * nmemb) = decide
          (((contentsOf st).contents.read (size * nmemb).toNat).length <
            (size * nmemb).toNat) := by
        rw [length_read_taken]
        exact decide_eq_decide.mpr BitVec.lt_def
      refine ⟨⟨⟨(taken st.file (size * nmemb) / size).toNat,
          st.alloc.get st.file.mem st.file.pos (taken st.file (size * nmemb)).toNat⟩, st.alloc,
        behind st.file (size * nmemb),
        [⟨st.file.mem, st.file.pos, (taken st.file (size * nmemb)).toNat⟩]⟩,
        ?_, ?_, fun acc hacc => ?_, behind_ok hok _⟩
      · rw [call, slopFread, if_neg (by rw [not_or, not_or]; exact hskip)]
        rfl
      · rw [ByteStream.call, if_neg (by rw [not_or]; exact ⟨hskip.1, by omega⟩), ← hwant,
          get_taken hok, BitVec.toNat_udiv, ← length_read_taken]
        dsimp only [ByteStream.get]
        rw [← heof, afterRead_behind hok]
        rfl
      · rw [List.mem_singleton.mp hacc]
        exact inside_taken hok _

theorem seek_done (hok : StreamOk st) (offset : U32) (whence : Int) {base : U32}
    (hbase : base.toNat < 2 ^ 31)
    (hcall : slopFseek st.file offset whence =
      if toInt (base + offset) < 0 then (-1, { st.file with err := true })
      else (0, { st.file with pos := base + offset, eof := false }))
    (habstract : ∀ refused, (contentsOf st).call refused (.fseek offset whence) =
      (contentsOf st).seek base.toNat offset.toInt) :
    ∃ d, CallDone st (.fseek offset whence) d := by
  have hoffset := BitVec.toInt_eq_toNat_cond offset
  have hpos := BitVec.toInt_eq_toNat_cond (base + offset)
  have hsum := BitVec.toNat_add base offset
  have hlt := offset.isLt
  by_cases hneg : toInt (base + offset) < 0
  · rw [if_pos hneg] at hcall
    refine ⟨⟨⟨-1, []⟩, st.alloc, { st.file with err := true }, []⟩, ?_, ?_,
      fun _ hacc => absurd hacc List.not_mem_nil, hok.flags _ _⟩
    · rw [call, hcall]
    · have hout : ¬(0 ≤ (base.toNat : Int) + offset.toInt ∧
          (base.toNat : Int) + offset.toInt < 2 ^ 31) := by
        unfold toInt at hneg
        omega
      rw [habstract, ByteStream.seek, if_neg hout]
      rfl
  · rw [if_neg hneg] at hcall
    have hin : (base.toNat : Int) + offset.toInt = (base + offset).toNat ∧
        (base + offset).toNat < 2 ^ 31 := by
      unfold toInt at hneg
      omega
    refine ⟨⟨⟨0, []⟩, st.alloc, { st.file with pos := base + offset, eof := false }, []⟩,
      ?_, ?_, fun _ hacc => absurd hacc List.not_mem_nil,
      (hok.moved hin.2).flags _ _⟩
    · rw [call, hcall]
    · rw [habstract, ByteStream.seek, if_pos (by omega), hin.1]
      rfl

theorem fseek_done (hok : StreamOk st) (offset : U32) (whence : Int) :
    ∃ d, CallDone st (.fseek offset whence) d := by
  have hlen := length_fileBytes st
  have hsize := hok.size_le
  by_cases hset : whence = 0
  · rw [hset]
    exact @seek_done _ hok offset 0 0 (by decide) rfl fun _ => rfl
  by_cases hcur : whence = 1
  · rw [hcur]
    exact seek_done hok offset 1 hok.pos_lt rfl fun _ => rfl
  by_cases hfrom : whence = 2
  · rw [hfrom]
    apply @seek_done _ hok offset 2 st.file.size (by omega) rfl
    intro refused
    show (contentsOf st).seek ((fileBytes st).length : Nat) offset.toInt = _
    rw [hlen]
  · refine ⟨⟨⟨-1, []⟩, st.alloc, { st.file with err := true }, []⟩, ?_, ?_,
      fun _ hacc => absurd hacc List.not_mem_nil, hok.flags _ _⟩
    · rw [call, slopFseek, if_neg hset, if_neg hcur, if_neg hfrom]
    · rw [ByteStream.call, if_neg hset, if_neg hcur, if_neg hfrom]
      rfl

theorem ftell_done (hok : StreamOk st) : ∃ d, CallDone st .ftell d := by
  refine ⟨⟨⟨slopFtell st.file, []⟩, st.alloc, st.file, []⟩, rfl, ?_,
    fun _ hacc => absurd hacc List.not_mem_nil, hok⟩
  have hpos : slopFtell st.file = st.file.pos.toNat := by
    have hlt := hok.pos_lt
    have hcond := BitVec.toInt_eq_toNat_cond st.file.pos
    unfold slopFtell toInt
    omega
  rw [hpos]
  rfl

/-! ## Runs -/

theorem call_done {op : StreamOp} (hok : StreamOk st) (hfits : SizesFit st op) :
    ∃ d, CallDone st op d := by
  cases op with
  | fputc ch => exact fputc_done hok ch hfits
  | fgetc => exact ⟨_, (fgetc_done hok).choose_spec⟩
  | fwrite ptr size nmemb => exact fwrite_done hok ptr size nmemb hfits
  | fread ptr size nmemb => exact ⟨_, (fread_done hok ptr size nmemb hfits).choose_spec⟩
  | fseek offset whence => exact ⟨_, (fseek_done hok offset whence).choose_spec⟩
  | ftell => exact ⟨_, (ftell_done hok).choose_spec⟩

theorem callRefines {op : StreamOp} (hok : StreamOk st) (hfits : SizesFit st op) :
    CallRefines st op := by
  obtain ⟨d, hdone⟩ := call_done hok hfits
  exact ⟨d, hdone.returns, hdone.abstract, hdone.inside, hdone.ok.buffered⟩

theorem streamStep_ok {op : StreamOp} {st' : MemStream} (hok : StreamOk st)
    (hfits : SizesFit st op) (hstep : streamStep st op = some st') : StreamOk st' := by
  obtain ⟨d, hdone⟩ := call_done hok hfits
  rw [streamStep, hdone.returns] at hstep
  rw [← Option.some.inj hstep]
  exact hdone.ok

theorem used_le_slopMalloc {a : SlopAlloc} (size : U32) (hused : a.used.toNat ≤ 32768) :
    (slopMalloc a size).2.used.toNat ≤ 32768 := by
  rcases slopMalloc_cases size hused with ⟨-, hnone⟩ | ⟨ptr, a', hsome, hm⟩
  · rw [hnone]
    exact hused
  · rw [hsome]
    show a'.used.toNat ≤ 32768
    rw [hm.used]
    exact hm.passed

theorem used_le_slopRealloc {a : SlopAlloc} (ptr : Option U32) (size : U32)
    (hused : a.used.toNat ≤ 32768) : (slopRealloc a ptr size).2.used.toNat ≤ 32768 := by
  have hmalloc := used_le_slopMalloc size hused
  unfold slopRealloc
  cases ptr with
  | none => exact hmalloc
  | some ptr =>
      dsimp only
      split_ifs
      · exact hused
      · exact hused
      · cases hm : slopMalloc a size with
        | mk new a' =>
            rw [hm] at hmalloc
            cases new <;> exact hmalloc

theorem alloc_given (r : ArenaRun) (size : U32) (res : Option U32 × SlopAlloc) :
    (r.given size res).alloc = res.2 := by
  cases res with
  | mk new a => cases new <;> rfl

theorem used_le_run {es : List ArenaEvent} {r : ArenaRun}
    (hrun : Runs.run arenaStep arenaInit es = some r) : r.alloc.used.toNat ≤ 32768 := by
  apply Runs.invariant (I := fun r => r.alloc.used.toNat ≤ 32768) _
    (Runs.AllSteps.trivial arenaInit es) hrun (by decide)
  intro r e r' _ hused hstep
  cases e with
  | malloc size =>
      rw [← Option.some.inj hstep, alloc_given]
      exact used_le_slopMalloc size hused
  | store ptr offset byte =>
      rw [arenaStep] at hstep
      split_ifs at hstep
      rw [← Option.some.inj hstep]
      exact hused
  | realloc ptr size =>
      have hrealloc := used_le_slopRealloc ptr size hused
      cases ptr with
      | none =>
          rw [← Option.some.inj hstep, alloc_given]
          exact hrealloc
      | some ptr =>
          rw [arenaStep] at hstep
          split_ifs at hstep
          · rw [← Option.some.inj hstep]
            exact hrealloc
          · rw [← Option.some.inj hstep, alloc_given]
            exact hrealloc

theorem slopTmpfile_ok {a a' : SlopAlloc} {fp : SlopFile} (hused : a.used.toNat ≤ 32768)
    (h : slopTmpfile a = (some fp, a')) :
    StreamOk ⟨a', fp⟩ ∧ contentsOf ⟨a', fp⟩ = ⟨⟨[], 0⟩, false, false⟩ := by
  have hmax := used_le_slopMalloc slopFileSize hused
  unfold slopTmpfile at h
  cases hm : slopMalloc a slopFileSize with
  | mk new b =>
      rw [hm] at h hmax
      cases new with
      | none => cases h
      | some ptr =>
          obtain ⟨hfp, rfl⟩ := Prod.mk.inj h
          rw [← Option.some.inj hfp]
          refine ⟨⟨⟨hmax, Packed.nil, ?_, ?_⟩, Nat.two_pow_pos 31, fun _ => ⟨rfl, rfl⟩, nofun⟩, rfl⟩
          · exact fun b hb => absurd hb List.not_mem_nil
          · exact fun b hb => absurd hb List.not_mem_nil

/-- From whatever state of the arena the stream is made in, while the sizes that its calls compute
do not wrap it is the abstract stream. -/
theorem calls_refine {es : List ArenaEvent} {r : ArenaRun}
    (hrun : Runs.run arenaStep arenaInit es = some r) {a : SlopAlloc} {fp : SlopFile}
    (hopen : slopTmpfile r.alloc = (some fp, a)) {ops : List StreamOp}
    (hfits : Runs.AllSteps streamStep SizesFit ⟨a, fp⟩ ops) :
    contentsOf ⟨a, fp⟩ = ⟨⟨[], 0⟩, false, false⟩ ∧
      Runs.AllSteps streamStep CallRefines ⟨a, fp⟩ ops := by
  obtain ⟨hok, hempty⟩ := slopTmpfile_ok (used_le_run hrun) hopen
  refine ⟨hempty, Runs.AllSteps.of_invariant (I := StreamOk) ?_ ?_ hfits hok⟩
  · exact fun st op st' hfits hok hstep => streamStep_ok hok hfits hstep
  · exact fun st op hfits hok => callRefines hok hfits

/-- The stream of a program whose first call into the library is `slop_tmpfile`. -/
def firstStream : MemStream :=
  ⟨(slopTmpfile slopAllocInit).2, ⟨false, false, 0, 0, 0, none⟩⟩

theorem calls_refine_first :
    contentsOf firstStream = ⟨⟨[], 0⟩, false, false⟩ ∧
      Runs.AllSteps streamStep CallRefines firstStream
        [.fputc 65, .fseek 300 0, .fwrite (some fun _ => 66) 2 3, .fread (some ()) 1 5] :=
  @calls_refine [] arenaInit rfl _ _ rfl _ (by decide +kernel)

theorem refused_of_huge {src : Nat → U8} {size nmemb : U32}
    (hhuge : 2 ^ 32 ≤ size.toNat * nmemb.toNat) (h : CallRefines st (.fwrite (some src) size nmemb)) :
    (call st (.fwrite (some src) size nmemb)).map (·.value) = some ⟨0, []⟩ := by
  obtain ⟨d, hcall, habstract, -⟩ := h
  rw [hcall]
  rw [ByteStream.call, if_neg (by omega)] at habstract
  cases hrefused : unserved st (room st (.fwrite (some src) size nmemb)) with
  | true =>
      rw [hrefused] at habstract
      exact congrArg some (congrArg Prod.fst habstract).symm
  | false =>
      rw [hrefused] at habstract
      have hcontents : (contentsOf st).contents.write 0
          ((List.range (size.toNat * nmemb.toNat)).map src) =
            (contentsOf ⟨d.alloc, d.file⟩).contents :=
        congrArg (fun r => (Prod.snd r).contents) habstract
      have hlen := Stream.length_write (contentsOf st).contents 0
        ((List.range (size.toNat * nmemb.toNat)).map src)
      rw [hcontents, List.length_map, List.length_range] at hlen
      have hfile : (contentsOf ⟨d.alloc, d.file⟩).contents.elems.length = d.file.size.toNat :=
        length_fileBytes _
      have hlt := d.file.size.isLt
      omega

/-- `0x10000 * 0x10000` is 0: nothing is written, and all items are reported. -/
theorem not_calls_refine_huge :
    ¬Runs.AllSteps streamStep CallRefines firstStream
      [.fwrite (some fun _ => 65) 0x10000 0x10000] := by
  intro h
  have hvalue := refused_of_huge (by decide) h.1
  revert hvalue
  decide +kernel

end SlopOS.Proofs.MemStreams
