import SlopOS.User.SlopAlloc
import SlopOS.Support.Alignment
import SlopOS.Support.Blocks
import SlopOS.Support.ByteCopy
import SlopOS.Support.Runs
/-!
# The blocks of the library's arena

Runs of `slop_malloc` and `slop_realloc`, with stores of the program into the
blocks it was given between them.  A block and the header in front of it are a
chunk; as long as no sum of the bound test wraps, the chunks are those of a bump
allocator.
-/

namespace SlopOS.Proofs.ArenaBlocks

open SlopOS.Kernel SlopOS.User SlopOS.Support SlopOS.Support.Alignment

/-! ## `slop_malloc` in exact arithmetic -/

def nextStart (a : SlopAlloc) : Nat := roundUp a.used.toNat 8

/-- `start + total` without wrapping. -/
def exactEnd (a : SlopAlloc) (size : U32) : Nat := nextStart a + roundUp (4 + size.toNat) 8

theorem toNat_slopAlignUp (n : Nat) :
    (slopAlignUp (BitVec.ofNat 32 n)).toNat = roundUp n 8 % 2 ^ 32 := by
  have hmask : (slopAlignUp (BitVec.ofNat 32 n)).toNat =
      (BitVec.ofNat 32 n + 7).toNat / 2 ^ 3 * 2 ^ 3 := toNat_and_not_mask _ 3
  have hsum : (BitVec.ofNat 32 n + 7).toNat = (n + 7) % 2 ^ 32 := by
    rw [BitVec.toNat_add, BitVec.toNat_ofNat]
    show (n % 2 ^ 32 + 7) % 2 ^ 32 = (n + 7) % 2 ^ 32
    omega
  rw [hmask, hsum]
  show (n + 7) % 2 ^ 32 / 8 * 8 = (n + 7) / 8 * 8 % 2 ^ 32
  omega

theorem toNat_total (size : U32) :
    (slopAlignUp (slopAllocHdrSize + size)).toNat = roundUp (4 + size.toNat) 8 % 2 ^ 32 := by
  have hsum : slopAllocHdrSize + size = BitVec.ofNat 32 (4 + size.toNat) := by
    apply BitVec.eq_of_toNat_eq
    rw [BitVec.toNat_add, BitVec.toNat_ofNat]
    rfl
  rw [hsum, toNat_slopAlignUp]

theorem nextStart_lt {a : SlopAlloc} (hused : a.used.toNat ≤ 32768) : nextStart a ≤ 32768 :=
  roundUp_le (by decide) (by decide) hused

theorem toNat_start {a : SlopAlloc} (hused : a.used.toNat ≤ 32768) :
    (slopAlignUp a.used).toNat = nextStart a := by
  have hlt := nextStart_lt hused
  have hself : a.used = BitVec.ofNat 32 a.used.toNat := by
    rw [BitVec.ofNat_toNat, BitVec.setWidth_eq]
  rw [hself, toNat_slopAlignUp]
  exact Nat.mod_eq_of_lt (by unfold nextStart at hlt; omega)

theorem toNat_end {a : SlopAlloc} (size : U32) (hused : a.used.toNat ≤ 32768) :
    (slopAlignUp a.used + slopAlignUp (slopAllocHdrSize + size)).toNat =
      exactEnd a size % 2 ^ 32 := by
  rw [BitVec.toNat_add, toNat_start hused, toNat_total]
  unfold exactEnd
  omega

/-- A non-null result: where the block is, and that the sum passed the bound test. -/
structure Malloced (a : SlopAlloc) (size ptr : U32) (a' : SlopAlloc) : Prop where
  size_pos : 0 < size.toNat
  ptr : ptr.toNat = nextStart a + 4
  passed : exactEnd a size % 2 ^ 32 ≤ 32768
  used : a'.used.toNat = exactEnd a size % 2 ^ 32
  arena : a'.arena = ByteMem.storeWord a.arena (BitVec.ofNat 32 (nextStart a)) size

def Refused (a : SlopAlloc) (size : U32) : Prop :=
  size = 0 ∨ 32768 < exactEnd a size % 2 ^ 32

theorem slopMalloc_cases {a : SlopAlloc} (size : U32) (hused : a.used.toNat ≤ 32768) :
    (Refused a size ∧ slopMalloc a size = (none, a)) ∨
      ∃ ptr a', slopMalloc a size = (some ptr, a') ∧ Malloced a size ptr a' := by
  unfold slopMalloc
  by_cases hsize : size = 0
  · rw [if_pos hsize]
    exact Or.inl ⟨Or.inl hsize, rfl⟩
  rw [if_neg hsize]
  dsimp only
  have hend := toNat_end size hused
  by_cases hbound : slopAllocArenaSize < slopAlignUp a.used +
      slopAlignUp (slopAllocHdrSize + size)
  · rw [if_pos hbound]
    refine Or.inl ⟨Or.inr ?_, rfl⟩
    rw [← hend]
    exact BitVec.lt_def.mp hbound
  rw [if_neg hbound]
  have hstart := toNat_start hused
  have hlt := nextStart_lt hused
  refine Or.inr ⟨_, _, rfl, ?_⟩
  have hpassed : exactEnd a size % 2 ^ 32 ≤ 32768 := by
    rw [← hend]
    exact Nat.le_of_not_lt fun h => hbound (BitVec.lt_def.mpr h)
  have hself : slopAlignUp a.used = BitVec.ofNat 32 (nextStart a) := by
    apply BitVec.eq_of_toNat_eq
    rw [hstart, BitVec.toNat_ofNat]
    exact (Nat.mod_eq_of_lt (by omega)).symm
  exact
    { size_pos := by bv_omega
      ptr := by
        rw [BitVec.toNat_add, hstart]
        exact Nat.mod_eq_of_lt (by show nextStart a + 4 < 2 ^ 32; omega)
      passed := hpassed
      used := hend
      arena := by rw [hself] }

/-- The exact sum does not wrap into the arena: either it does not wrap, or what is left of it
is refused all the same. -/
def Fits (a : SlopAlloc) (size : U32) : Prop :=
  exactEnd a size < 2 ^ 32 ∨ 2 ^ 32 + 32768 < exactEnd a size

instance (a : SlopAlloc) (size : U32) : Decidable (Fits a size) :=
  inferInstanceAs (Decidable (_ ∨ _))

theorem exactEnd_lt {a : SlopAlloc} (size : U32) (hused : a.used.toNat ≤ 32768) :
    exactEnd a size < 2 ^ 33 := by
  have hstart := nextStart_lt hused
  have htotal : roundUp (4 + size.toNat) 8 < 4 + size.toNat + 8 := roundUp_lt (by decide)
  have hsize := size.isLt
  unfold exactEnd
  omega

theorem Malloced.exact {a a' : SlopAlloc} {size ptr : U32} (h : Malloced a size ptr a')
    (hused : a.used.toNat ≤ 32768) (hfits : Fits a size) :
    exactEnd a size ≤ 32768 ∧ a'.used.toNat = exactEnd a size := by
  have hpassed := h.passed
  have hlt := exactEnd_lt size hused
  have hle : exactEnd a size ≤ 32768 := by
    rcases hfits with hfits | hfits <;> omega
  refine ⟨hle, ?_⟩
  rw [h.used]
  exact Nat.mod_eq_of_lt (by omega)

theorem Malloced.stop_le {a a' : SlopAlloc} {size ptr : U32} (h : Malloced a size ptr a') :
    ptr.toNat + size.toNat ≤ exactEnd a size := by
  have hround : 4 + size.toNat ≤ roundUp (4 + size.toNat) 8 := le_roundUp (by decide)
  rw [h.ptr]
  unfold exactEnd
  omega

/-! ## The copy loop -/

theorem slopMemcpy_eq_copyUp {m : ByteMem.Mem} {dst src : U32} {n : Nat} :
    slopMemcpy m dst src n = ByteMem.copyUp m dst (ByteMem.sourceAt src) n := by
  induction n with
  | zero => rfl
  | succ n ih =>
      rw [slopMemcpy, ByteMem.copyUp, ih]
      rfl

theorem slopMemcpy_eq {m : ByteMem.Mem} {dst src : U32} {n : Nat}
    (happart : src.toNat + n ≤ dst.toNat) (htop : dst.toNat + n ≤ 2 ^ 32) :
    slopMemcpy m dst src n = ByteMem.store m dst n fun j => m (src + BitVec.ofNat 32 j) := by
  rw [slopMemcpy_eq_copyUp, ByteMem.copyUp_eq_store (by omega)]
  · rfl
  · intro i hi
    apply ByteMem.unstored_sourceAt
    intro j hj
    bv_omega

/-! ## Calls of a program -/

/-- What a program does with the allocator and with the blocks it holds. -/
inductive ArenaEvent
  | malloc (size : U32)
  | realloc (ptr : Option U32) (size : U32)
  | store (ptr : U32) (offset : Nat) (byte : U8)

/-- The allocator, and the blocks it has handed out, the latest first. -/
structure ArenaRun where
  alloc : SlopAlloc
  blocks : List Block

def Holds (r : ArenaRun) (ptr : U32) : Prop := ∃ b ∈ r.blocks, b.base = ptr.toNat

instance (r : ArenaRun) (ptr : U32) : Decidable (Holds r ptr) :=
  inferInstanceAs (Decidable (∃ b ∈ r.blocks, _))

def ArenaRun.given (r : ArenaRun) (size : U32) : Option U32 × SlopAlloc → ArenaRun
  | (none, a) => ⟨a, r.blocks⟩
  | (some ptr, a) => ⟨a, ⟨ptr.toNat, size.toNat⟩ :: r.blocks⟩

/-- A pointer that was not returned before is not passed to `slop_realloc`, and stores stay in
the blocks.  A block that `slop_realloc` returned in place is no new one. -/
def arenaStep (r : ArenaRun) : ArenaEvent → Option ArenaRun
  | .malloc size => some (r.given size (slopMalloc r.alloc size))
  | .realloc none size => some (r.given size (slopRealloc r.alloc none size))
  | .realloc (some ptr) size =>
    if Holds r ptr then
      if (slopRealloc r.alloc (some ptr) size).1 = some ptr then
        some ⟨(slopRealloc r.alloc (some ptr) size).2, r.blocks⟩
      else some (r.given size (slopRealloc r.alloc (some ptr) size))
    else none
  | .store ptr offset byte =>
    if ∃ b ∈ r.blocks, b.base = ptr.toNat ∧ offset < b.size then
      some ⟨{ r.alloc with
        arena := Function.update r.alloc.arena (ptr + BitVec.ofNat 32 offset) byte }, r.blocks⟩
    else none

/-- The non-null pointer that a call returns, with the size asked for. -/
def result (r : ArenaRun) : ArenaEvent → Option (U32 × U32)
  | .malloc size => (slopMalloc r.alloc size).1.map fun ptr => (ptr, size)
  | .realloc ptr size => (slopRealloc r.alloc ptr size).1.map fun ptr => (ptr, size)
  | .store _ _ _ => none

/-- The call is a `slop_realloc` that returned the block `b` in place. -/
def InPlace (e : ArenaEvent) (ptr size : U32) (b : Block) : Prop :=
  e = .realloc (some ptr) size ∧ b.base = ptr.toNat ∧ size.toNat ≤ b.size

def header (b : Block) : Block := ⟨b.base - 4, 4⟩

structure CallOk (r : ArenaRun) (e : ArenaEvent) (r' : ArenaRun) : Prop where
  used_le : r.alloc.used.toNat ≤ r'.alloc.used.toNat
  used_max : r'.alloc.used.toNat ≤ 32768
  block : ∀ ptr size, result r e = some (ptr, size) →
    (Block.mk ptr.toNat size.toNat).Within 0 32768 ∧
      ∀ b ∈ r.blocks, (Block.mk ptr.toNat size.toNat).Apart b ∨ InPlace e ptr size b
  headers : ∀ b ∈ r'.blocks, 4 ≤ b.base ∧ ∀ c ∈ r'.blocks, (header b).Apart c
  kept : ∀ ptr size newPtr, e = .realloc (some ptr) size → result r e = some (newPtr, size) →
    ∀ b ∈ r.blocks, b.base = ptr.toNat → ∀ j < min b.size size.toNat,
      r'.alloc.arena (newPtr + BitVec.ofNat 32 j) = r.alloc.arena (ptr + BitVec.ofNat 32 j)

def CallSafe (r : ArenaRun) (e : ArenaEvent) : Prop := ∀ r', arenaStep r e = some r' → CallOk r e r'

/-- A request that reaches `slop_malloc` does not wrap into the arena. -/
def RequestFits (r : ArenaRun) : ArenaEvent → Prop
  | .malloc size => Fits r.alloc size
  | .realloc none size => Fits r.alloc size
  | .realloc (some ptr) size => Holds r ptr → size ≤ r.alloc.hdrSize ptr ∨ Fits r.alloc size
  | .store _ _ _ => True

instance (r : ArenaRun) : ∀ e, Decidable (RequestFits r e)
  | .malloc size => inferInstanceAs (Decidable (Fits r.alloc size))
  | .realloc none size => inferInstanceAs (Decidable (Fits r.alloc size))
  | .realloc (some ptr) size => inferInstanceAs
    (Decidable (Holds r ptr → size ≤ r.alloc.hdrSize ptr ∨ Fits r.alloc size))
  | .store _ _ _ => inferInstanceAs (Decidable True)

/-- The library before its first call. -/
def arenaInit : ArenaRun := ⟨slopAllocInit, []⟩

/-! ## The invariant -/

def chunk (b : Block) : Block := ⟨b.base - 4, b.size + 4⟩

structure ArenaOk (r : ArenaRun) : Prop where
  used_max : r.alloc.used.toNat ≤ 32768
  packed : Packed 0 r.alloc.used.toNat (r.blocks.map chunk)
  bases : ∀ b ∈ r.blocks, 4 ≤ b.base
  hdr : ∀ b ∈ r.blocks, ByteMem.loadWord r.alloc.arena (BitVec.ofNat 32 (b.base - 4)) =
    BitVec.ofNat 32 b.size

variable {r : ArenaRun} {b c : Block}

theorem ArenaOk.stop_le (hok : ArenaOk r) (hb : b ∈ r.blocks) :
    4 ≤ b.base ∧ b.base + b.size ≤ r.alloc.used.toNat := by
  have hbase := hok.bases b hb
  have hstop : b.base - 4 + (b.size + 4) ≤ r.alloc.used.toNat :=
    (hok.packed.within (chunk b) (List.mem_map_of_mem hb)).2
  omega

theorem ArenaOk.apart (hok : ArenaOk r) (hb : b ∈ r.blocks) (hc : c ∈ r.blocks) :
    b = c ∨ (chunk b).Apart (chunk c) := by
  by_cases hne : chunk b = chunk c
  · have hbases := (hok.bases b hb)
    have hcbase := (hok.bases c hc)
    have hbase : b.base - 4 = c.base - 4 := congrArg Block.base hne
    have hsize : b.size + 4 = c.size + 4 := congrArg Block.size hne
    cases b
    cases c
    simp only at *
    left
    congr 1 <;> omega
  · exact Or.inr (hok.packed.apart_of_ne (List.mem_map_of_mem hb) (List.mem_map_of_mem hc) hne)

theorem ArenaOk.header_apart (hok : ArenaOk r) (hb : b ∈ r.blocks) (hc : c ∈ r.blocks) :
    (header b).Apart c := by
  have hbase := hok.bases b hb
  have hcbase := hok.bases c hc
  rcases hok.apart hb hc with rfl | hapart
  · left
    show b.base - 4 + 4 ≤ b.base
    omega
  · unfold chunk Block.Apart Block.stop at hapart
    unfold header Block.Apart Block.stop
    dsimp only at hapart ⊢
    omega

theorem hdr_congr {m m' : ByteMem.Mem} {n : Nat} (hn : n + 4 ≤ 2 ^ 32)
    (h : ∀ x : U32, n ≤ x.toNat → x.toNat < n + 4 → m' x = m x) :
    ByteMem.loadWord m' (BitVec.ofNat 32 n) = ByteMem.loadWord m (BitVec.ofNat 32 n) := by
  apply ByteMem.loadWord_congr
  intro j hj
  have haddr : (BitVec.ofNat 32 n + BitVec.ofNat 32 j).toNat = n + j := by
    rw [BitVec.toNat_add, BitVec.toNat_ofNat, BitVec.toNat_ofNat]
    omega
  exact h _ (by omega) (by omega)

theorem ArenaOk.rewritten (hok : ArenaOk r) (hb : b ∈ r.blocks) {arena : ByteMem.Mem}
    (hkept : ∀ x : U32, x.toNat < b.base ∨ b.base + b.size ≤ x.toNat →
      arena x = r.alloc.arena x) : ArenaOk ⟨⟨arena, r.alloc.used⟩, r.blocks⟩ where
  used_max := hok.used_max
  packed := hok.packed
  bases := hok.bases
  hdr c hc := by
    have hmax := hok.used_max
    have hcstop := hok.stop_le hc
    rw [← hok.hdr c hc]
    apply hdr_congr (by omega)
    intro x hlow hhigh
    apply hkept
    -- the header of `c` lies outside every block
    have hapart := hok.header_apart hc hb
    unfold header Block.Apart Block.stop at hapart
    dsimp only at hapart
    omega

theorem ArenaOk.store (hok : ArenaOk r) (hb : b ∈ r.blocks) {offset : Nat}
    (hoffset : offset < b.size) (byte : U8) :
    ArenaOk ⟨⟨Function.update r.alloc.arena (BitVec.ofNat 32 b.base + BitVec.ofNat 32 offset) byte,
      r.alloc.used⟩, r.blocks⟩ := by
  have hmax := hok.used_max
  have hbstop := hok.stop_le hb
  apply hok.rewritten hb
  intro x hx
  apply Function.update_of_ne
  intro heq
  have haddr : x.toNat = b.base + offset := by
    rw [heq, BitVec.toNat_add, BitVec.toNat_ofNat, BitVec.toNat_ofNat]
    omega
  omega

theorem ArenaOk.malloced (hok : ArenaOk r) {a : SlopAlloc} {size ptr : U32}
    (hm : Malloced r.alloc size ptr a) (hfits : Fits r.alloc size) {arena : ByteMem.Mem}
    (hkept : ∀ x : U32, x.toNat < ptr.toNat → arena x = a.arena x) :
    ArenaOk ⟨⟨arena, a.used⟩, ⟨ptr.toNat, size.toNat⟩ :: r.blocks⟩ := by
  have hmax := hok.used_max
  have hexact := hm.exact hmax hfits
  have hstop := hm.stop_le
  have hptr := hm.ptr
  have hle : r.alloc.used.toNat ≤ nextStart r.alloc := le_roundUp (by decide)
  have hstart := nextStart_lt hmax
  refine ⟨?_, ?_, ?_, ?_⟩
  · show a.used.toNat ≤ 32768
    omega
  · show Packed 0 a.used.toNat (_ :: r.blocks.map chunk)
    apply hok.packed.push (Nat.zero_le _)
    constructor
    · show r.alloc.used.toNat ≤ ptr.toNat - 4
      omega
    · show ptr.toNat - 4 + (size.toNat + 4) ≤ a.used.toNat
      omega
  · intro b hb
    rcases List.mem_cons.mp hb with rfl | hb
    · show 4 ≤ ptr.toNat
      omega
    · exact hok.bases b hb
  · intro b hb
    have hheader : ptr.toNat - 4 = nextStart r.alloc := by omega
    show ByteMem.loadWord arena _ = _
    rcases List.mem_cons.mp hb with rfl | hb
    · show ByteMem.loadWord arena (BitVec.ofNat 32 (ptr.toNat - 4)) = BitVec.ofNat 32 size.toNat
      have hread : ByteMem.loadWord arena (BitVec.ofNat 32 (nextStart r.alloc)) =
          ByteMem.loadWord a.arena (BitVec.ofNat 32 (nextStart r.alloc)) :=
        hdr_congr (by omega) fun x _ hhigh => hkept x (by omega)
      rw [hheader, hread, hm.arena, ByteMem.loadWord_storeWord, BitVec.ofNat_toNat,
        BitVec.setWidth_eq]
    · have hbstop := hok.stop_le hb
      rw [← hok.hdr b hb]
      apply hdr_congr (by omega)
      intro x _ hhigh
      rw [hkept x (by omega), hm.arena]
      apply ByteMem.store_of_not_inRange
      · rw [BitVec.toNat_ofNat]
        omega
      · intro hin
        have hge := hin.1
        rw [BitVec.toNat_ofNat] at hge
        omega

theorem ArenaOk.head {a : SlopAlloc} {bs : List Block} (hok : ArenaOk ⟨a, b :: bs⟩) :
    ArenaOk ⟨a, [b]⟩ where
  used_max := hok.used_max
  packed :=
    { within := fun c hc => hok.packed.within c (List.mem_cons.mpr
        (Or.inl (List.mem_singleton.mp hc)))
      apart := List.pairwise_singleton _ _ }
  bases c hc := hok.bases c (List.mem_cons.mpr (Or.inl (List.mem_singleton.mp hc)))
  hdr c hc := hok.hdr c (List.mem_cons.mpr (Or.inl (List.mem_singleton.mp hc)))

/-! ## `slop_realloc` -/

theorem ptr_eq {ptr : U32} {n : Nat} (h : n = ptr.toNat) : BitVec.ofNat 32 n = ptr := by
  rw [h, BitVec.ofNat_toNat, BitVec.setWidth_eq]

theorem ArenaOk.hdrSize (hok : ArenaOk r) (hb : b ∈ r.blocks) {ptr : U32}
    (hptr : b.base = ptr.toNat) : r.alloc.hdrSize ptr = BitVec.ofNat 32 b.size := by
  have hbase := hok.bases b hb
  have haddr : ptr - slopAllocHdrSize = BitVec.ofNat 32 (b.base - 4) := by
    unfold slopAllocHdrSize
    bv_omega
  unfold SlopAlloc.hdrSize
  rw [haddr, hok.hdr b hb]

theorem Malloced.below {a a' : SlopAlloc} {size ptr x : U32} (h : Malloced a size ptr a')
    (hused : a.used.toNat ≤ 32768) (hx : x.toNat < a.used.toNat) : a'.arena x = a.arena x := by
  have hstart := nextStart_lt hused
  have hle : a.used.toNat ≤ nextStart a := le_roundUp (by decide)
  have haddr : (BitVec.ofNat 32 (nextStart a)).toNat = nextStart a := by
    rw [BitVec.toNat_ofNat]
    omega
  rw [h.arena]
  apply ByteMem.store_of_not_inRange (by omega)
  intro hin
  have hge := hin.1
  omega

/-- The new block with the contents of the old one copied into it. -/
def copied (a a' : SlopAlloc) (ptr newPtr : U32) (n : Nat) : SlopAlloc :=
  ⟨ByteMem.store a'.arena newPtr n fun j => a.arena (ptr + BitVec.ofNat 32 j), a'.used⟩

theorem copied_below {a a' : SlopAlloc} {ptr newPtr : U32} {n : Nat}
    (htop : newPtr.toNat + n ≤ 2 ^ 32) :
    ∀ x : U32, x.toNat < newPtr.toNat → (copied a a' ptr newPtr n).arena x = a'.arena x := by
  intro x hx
  have hout : ¬ByteMem.InRange newPtr n x := fun hin => Nat.not_le.mpr hx hin.1
  dsimp only [copied]
  exact ByteMem.store_of_not_inRange htop hout

theorem copied_at {a a' : SlopAlloc} {ptr newPtr : U32} {n : Nat} (hn : n ≤ 2 ^ 32) {i : Nat}
    (hi : i < n) : (copied a a' ptr newPtr n).arena (newPtr + BitVec.ofNat 32 i) =
      a.arena (ptr + BitVec.ofNat 32 i) := by
  dsimp only [copied]
  exact ByteMem.store_apply_add hn hi

theorem slopRealloc_cases (hok : ArenaOk r) (hb : b ∈ r.blocks) {ptr : U32}
    (hptr : b.base = ptr.toNat) (size : U32) :
    (Refused r.alloc size ∧ slopRealloc r.alloc (some ptr) size = (none, r.alloc)) ∨
      (size.toNat ≤ b.size ∧ slopRealloc r.alloc (some ptr) size = (some ptr, r.alloc)) ∨
      ∃ newPtr a, b.size < size.toNat ∧ Malloced r.alloc size newPtr a ∧
        (slopRealloc r.alloc (some ptr) size).1 = some newPtr ∧
        (Fits r.alloc size → slopRealloc r.alloc (some ptr) size =
          (some newPtr, copied r.alloc a ptr newPtr b.size)) := by
  have hmax := hok.used_max
  have hstop := hok.stop_le hb
  have hhdr := hok.hdrSize hb hptr
  have hsizeOf : (BitVec.ofNat 32 b.size).toNat = b.size := by
    rw [BitVec.toNat_ofNat]
    omega
  unfold slopRealloc
  dsimp only
  by_cases hzero : size = 0
  · rw [if_pos hzero]
    exact Or.inl ⟨Or.inl hzero, rfl⟩
  rw [if_neg hzero, hhdr]
  by_cases hin : size ≤ BitVec.ofNat 32 b.size
  · rw [if_pos hin]
    refine Or.inr (Or.inl ⟨?_, rfl⟩)
    rw [← hsizeOf]
    exact BitVec.le_def.mp hin
  rw [if_neg hin]
  have hlt : b.size < size.toNat := by
    rw [← hsizeOf]
    exact Nat.lt_of_not_le fun h => hin (BitVec.le_def.mpr h)
  rcases slopMalloc_cases size hmax with ⟨href, hnone⟩ | ⟨newPtr, a, hsome, hm⟩
  · rw [hnone]
    exact Or.inl ⟨href, rfl⟩
  rw [hsome]
  refine Or.inr (Or.inr ⟨newPtr, a, hlt, hm, rfl, fun hfits => ?_⟩)
  have hnew := hm.ptr
  have hexact := hm.exact hmax hfits
  have hend := hm.stop_le
  have hle : r.alloc.used.toNat ≤ nextStart r.alloc := le_roundUp (by decide)
  -- the header of the old block still holds its size
  have hold : a.hdrSize ptr = BitVec.ofNat 32 b.size := by
    rw [← hhdr]
    unfold SlopAlloc.hdrSize
    have haddr : ptr - slopAllocHdrSize = BitVec.ofNat 32 (b.base - 4) := by
      unfold slopAllocHdrSize
      bv_omega
    rw [haddr]
    exact hdr_congr (by omega) fun x _ hx => hm.below hmax (by omega)
  have hcopy : slopMemcpy a.arena newPtr ptr b.size =
      (copied r.alloc a ptr newPtr b.size).arena := by
    rw [slopMemcpy_eq (by omega) (by omega)]
    dsimp only [copied]
    apply ByteMem.store_congr
    intro j hj
    apply hm.below hmax
    bv_omega
  have hclamp : ¬size < BitVec.ofNat 32 b.size := by
    intro h
    have h' := BitVec.lt_def.mp h
    omega
  dsimp only
  rw [hold, if_neg hclamp, hsizeOf, hcopy]
  rfl

/-! ## One call -/

theorem ArenaOk.headers (hok : ArenaOk r) :
    ∀ b ∈ r.blocks, 4 ≤ b.base ∧ ∀ c ∈ r.blocks, (header b).Apart c :=
  fun b hb => ⟨hok.bases b hb, fun _ hc => hok.header_apart hb hc⟩

theorem ArenaOk.callOk_same {e : ArenaEvent} {arena : ByteMem.Mem}
    (hok' : ArenaOk ⟨⟨arena, r.alloc.used⟩, r.blocks⟩)
    (hresult : ∀ ptr size, result r e = some (ptr, size) → arena = r.alloc.arena ∧
      ∃ b ∈ r.blocks, InPlace e ptr size b) :
    CallOk r e ⟨⟨arena, r.alloc.used⟩, r.blocks⟩ where
  used_le := Nat.le_refl _
  used_max := hok'.used_max
  headers := hok'.headers
  block ptr size hres := by
    obtain ⟨-, b, hb, hcall, hbase, hsize⟩ := hresult ptr size hres
    have hmax : r.alloc.used.toNat ≤ 32768 := hok'.used_max
    have hstop : 4 ≤ b.base ∧ b.base + b.size ≤ r.alloc.used.toNat := hok'.stop_le hb
    refine ⟨⟨Nat.zero_le _, ?_⟩, fun c hc => ?_⟩
    · show ptr.toNat + size.toNat ≤ 32768
      omega
    rcases hok'.apart hb hc with rfl | hapart
    · exact Or.inr ⟨hcall, hbase, hsize⟩
    · left
      have hcbase : 4 ≤ c.base := hok'.bases c hc
      unfold chunk Block.Apart Block.stop at hapart
      unfold Block.Apart Block.stop
      dsimp only at hapart ⊢
      omega
  kept ptr size newPtr he hres b hb hbase j hj := by
    obtain ⟨harena, c, hc, hin⟩ := hresult newPtr size hres
    have hptr : some ptr = some newPtr := (ArenaEvent.realloc.inj (he.symm.trans hin.1)).1
    rw [Option.some.inj hptr, ← harena]

theorem ArenaOk.callOk_new {e : ArenaEvent} {a : SlopAlloc} {size ptr : U32} (hok : ArenaOk r)
    (hm : Malloced r.alloc size ptr a) (hfits : Fits r.alloc size) {arena : ByteMem.Mem}
    (hbelow : ∀ x : U32, x.toNat < ptr.toNat → arena x = a.arena x)
    (hresult : result r e = some (ptr, size))
    (hkept : ∀ old n, e = .realloc (some old) n → ∀ b ∈ r.blocks, b.base = old.toNat →
      ∀ j < min b.size size.toNat,
        arena (ptr + BitVec.ofNat 32 j) = r.alloc.arena (old + BitVec.ofNat 32 j)) :
    CallOk r e ⟨⟨arena, a.used⟩, ⟨ptr.toNat, size.toNat⟩ :: r.blocks⟩ := by
  have hok' := hok.malloced hm hfits hbelow
  have hexact := hm.exact hok.used_max hfits
  have hstop := hm.stop_le
  have hptr := hm.ptr
  have hle : r.alloc.used.toNat ≤ nextStart r.alloc := le_roundUp (by decide)
  have hround : nextStart r.alloc ≤ exactEnd r.alloc size := Nat.le_add_right _ _
  refine ⟨?_, hok'.used_max, fun p n hres => ?_, hok'.headers, fun old n new he hres => ?_⟩
  · show r.alloc.used.toNat ≤ a.used.toNat
    omega
  · rw [hresult] at hres
    obtain ⟨rfl, rfl⟩ := Prod.mk.inj (Option.some.inj hres)
    refine ⟨⟨Nat.zero_le _, ?_⟩, fun b hb => Or.inl (Or.inr ?_)⟩
    · show ptr.toNat + size.toNat ≤ 32768
      omega
    · have hbstop := hok.stop_le hb
      show b.base + b.size ≤ ptr.toNat
      omega
  · rw [hresult] at hres
    obtain ⟨rfl, rfl⟩ := Prod.mk.inj (Option.some.inj hres)
    exact hkept old size he

/-- `slop_malloc`, called as itself or with a null pointer as `slop_realloc`. -/
theorem ArenaOk.malloc {e : ArenaEvent} {size : U32} (hok : ArenaOk r) (hfits : Fits r.alloc size)
    (hresult : result r e = (slopMalloc r.alloc size).1.map fun ptr => (ptr, size))
    (hmalloc : ∀ ptr n, e ≠ .realloc (some ptr) n) :
    ArenaOk (r.given size (slopMalloc r.alloc size)) ∧
      CallOk r e (r.given size (slopMalloc r.alloc size)) := by
  rcases slopMalloc_cases size hok.used_max with ⟨-, hnone⟩ | ⟨ptr, a, hsome, hm⟩
  · rw [hnone] at hresult ⊢
    refine ⟨hok, hok.callOk_same fun ptr n hres => ?_⟩
    rw [hresult] at hres
    cases hres
  · rw [hsome] at hresult ⊢
    refine ⟨hok.malloced hm hfits fun _ _ => rfl, hok.callOk_new hm hfits (fun _ _ => rfl) hresult
      fun old n he => absurd he (hmalloc old n)⟩

theorem ArenaOk.fits_moved {ptr size : U32} (hok : ArenaOk r) (hb : b ∈ r.blocks)
    (hbase : b.base = ptr.toNat) (hsize : b.size < size.toNat)
    (hfits : RequestFits r (.realloc (some ptr) size)) : Fits r.alloc size := by
  rcases hfits ⟨b, hb, hbase⟩ with hin | hfits
  · have hstop := hok.stop_le hb
    have hmax := hok.used_max
    rw [hok.hdrSize hb hbase] at hin
    have hle := BitVec.le_def.mp hin
    rw [BitVec.toNat_ofNat, Nat.mod_eq_of_lt (by omega)] at hle
    omega
  · exact hfits

theorem Malloced.ne_held {a : SlopAlloc} {ptr newPtr size : U32} (hm : Malloced r.alloc size newPtr a)
    (hok : ArenaOk r) (hb : b ∈ r.blocks) (hbase : b.base = ptr.toNat) :
    (some newPtr : Option U32) ≠ some ptr := by
  have hptr := hm.ptr
  have hstop := hok.stop_le hb
  have hle : r.alloc.used.toNat ≤ nextStart r.alloc := le_roundUp (by decide)
  intro heq
  rw [Option.some.inj heq] at hptr
  omega

/-- `slop_realloc` moves a block: the bytes of the old one are at the start of the new one. -/
theorem ArenaOk.moved {a : SlopAlloc} {ptr newPtr size : U32} (hok : ArenaOk r) (hb : b ∈ r.blocks)
    (hbase : b.base = ptr.toNat) (hsize : b.size < size.toNat) (hfits : Fits r.alloc size)
    (hm : Malloced r.alloc size newPtr a)
    (hcall : slopRealloc r.alloc (some ptr) size = (some newPtr, copied r.alloc a ptr newPtr b.size)) :
    ArenaOk (r.given size (slopRealloc r.alloc (some ptr) size)) ∧
      CallOk r (.realloc (some ptr) size) (r.given size (slopRealloc r.alloc (some ptr) size)) := by
  have hexact := hm.exact hok.used_max hfits
  have hend := hm.stop_le
  have hbelow := @copied_below r.alloc a ptr newPtr b.size (by omega)
  have hresult : result r (.realloc (some ptr) size) = some (newPtr, size) := by
    rw [result, hcall]
    rfl
  rw [hcall]
  refine ⟨hok.malloced hm hfits hbelow, hok.callOk_new hm hfits hbelow hresult ?_⟩
  intro old n he c hc hcbase j hj
  obtain rfl := Option.some.inj (ArenaEvent.realloc.inj he).1
  have hsame : c.size = b.size := by
    rcases hok.apart hb hc with rfl | hapart
    · rfl
    · unfold chunk Block.Apart Block.stop at hapart
      dsimp only at hapart
      omega
  rw [hsame] at hj
  exact copied_at (by omega) (by omega)

theorem ArenaOk.realloc {ptr size : U32} {r' : ArenaRun} (hok : ArenaOk r)
    (hfits : RequestFits r (.realloc (some ptr) size))
    (hstep : arenaStep r (.realloc (some ptr) size) = some r') :
    ArenaOk r' ∧ CallOk r (.realloc (some ptr) size) r' := by
  rw [arenaStep] at hstep
  by_cases hheld : Holds r ptr
  swap
  · rw [if_neg hheld] at hstep
    cases hstep
  rw [if_pos hheld] at hstep
  obtain ⟨b, hb, hbase⟩ := hheld
  rcases slopRealloc_cases hok hb hbase size with
    ⟨-, heq⟩ | ⟨hsize, heq⟩ | ⟨newPtr, a, hsize, hm, -, heq⟩
  · -- refused
    rw [heq, if_neg (by simp)] at hstep
    rw [← Option.some.inj hstep]
    refine ⟨hok, hok.callOk_same fun p n hres => ?_⟩
    rw [result, heq] at hres
    cases hres
  · -- returned in place
    rw [heq, if_pos rfl] at hstep
    rw [← Option.some.inj hstep]
    refine ⟨hok, hok.callOk_same fun p n hres => ⟨rfl, b, hb, ?_⟩⟩
    rw [result, heq] at hres
    obtain ⟨rfl, rfl⟩ := Prod.mk.inj (Option.some.inj hres)
    exact ⟨rfl, hbase, hsize⟩
  · -- moved
    have hmoves := hok.fits_moved hb hbase hsize hfits
    have hcall := heq hmoves
    have hfirst : (slopRealloc r.alloc (some ptr) size).1 ≠ some ptr := by
      rw [hcall]
      exact hm.ne_held hok hb hbase
    rw [if_neg hfirst] at hstep
    rw [← Option.some.inj hstep]
    exact hok.moved hb hbase hsize hmoves hm hcall

theorem step_ok {e : ArenaEvent} {r' : ArenaRun} (hok : ArenaOk r) (hfits : RequestFits r e)
    (hstep : arenaStep r e = some r') : ArenaOk r' ∧ CallOk r e r' := by
  cases e with
  | malloc size =>
      rw [← Option.some.inj hstep]
      exact hok.malloc hfits rfl (fun _ _ h => by cases h)
  | store ptr offset byte =>
      rw [arenaStep] at hstep
      split at hstep
      · rename_i hheld
        obtain ⟨b, hb, hbase, hoffset⟩ := hheld
        have hok' := hok.store hb hoffset byte
        rw [ptr_eq hbase] at hok'
        rw [← Option.some.inj hstep]
        exact ⟨hok', hok'.callOk_same fun _ _ hres => by cases hres⟩
      · cases hstep
  | realloc ptr size =>
      cases ptr with
      | none =>
          rw [← Option.some.inj hstep]
          exact hok.malloc hfits rfl (fun _ _ h => by cases h)
      | some ptr => exact hok.realloc hfits hstep

/-- A wrapped sum that passes the bound test hands out a block that no arena holds. -/
theorem Malloced.exceeds {a a' : SlopAlloc} {size ptr : U32} (hm : Malloced a size ptr a')
    (hwraps : ¬Fits a size) :
    ¬(Block.mk ptr.toNat size.toNat).Within 0 32768 := by
  intro hwithin
  have hstop : ptr.toNat + size.toNat ≤ 32768 := hwithin.2
  have hptr := hm.ptr
  have htotal : roundUp (4 + size.toNat) 8 < 4 + size.toNat + 8 := roundUp_lt (by decide)
  unfold Fits exactEnd at hwraps
  omega

theorem fits_of_refused {a : SlopAlloc} {size : U32} (hused : a.used.toNat ≤ 32768)
    (href : Refused a size) : Fits a size := by
  have hstart := nextStart_lt hused
  rcases href with rfl | hbig
  · left
    show nextStart a + roundUp 4 8 < 2 ^ 32
    have hround : roundUp 4 8 = 8 := by decide
    omega
  · unfold Fits
    have hlt := exactEnd_lt size hused
    omega

theorem requestFits_of_callSafe {e : ArenaEvent} (hok : ArenaOk r) (hsafe : CallSafe r e) :
    RequestFits r e := by
  have hmalloc : ∀ size, (∀ ptr, (slopMalloc r.alloc size).1 = some ptr →
      (Block.mk ptr.toNat size.toNat).Within 0 32768) → Fits r.alloc size := by
    intro size hwithin
    rcases slopMalloc_cases size hok.used_max with ⟨href, -⟩ | ⟨ptr, a, hsome, hm⟩
    · exact fits_of_refused hok.used_max href
    · by_contra hwraps
      exact hm.exceeds hwraps (hwithin ptr (congrArg Prod.fst hsome))
  cases e with
  | malloc size =>
      refine hmalloc size fun ptr hptr => ((hsafe _ rfl).block ptr size ?_).1
      rw [result, hptr]
      rfl
  | store ptr offset byte => trivial
  | realloc ptr size =>
      cases ptr with
      | none =>
          refine hmalloc size fun ptr hptr => ((hsafe _ rfl).block ptr size ?_).1
          rw [result]
          show Option.map _ (slopMalloc r.alloc size).1 = _
          rw [hptr]
          rfl
      | some ptr =>
          intro hheld
          obtain ⟨r', hstep⟩ : ∃ r', arenaStep r (.realloc (some ptr) size) = some r' := by
            rw [arenaStep, if_pos hheld]
            split <;> exact ⟨_, rfl⟩
          obtain ⟨b, hb, hbase⟩ := hheld
          have hmax := hok.used_max
          have hbstop := hok.stop_le hb
          rcases slopRealloc_cases hok hb hbase size with
            ⟨href, -⟩ | ⟨hsize, -⟩ | ⟨newPtr, a, hsize, hm, hnew, -⟩
          · exact Or.inr (fits_of_refused hok.used_max href)
          · left
            rw [hok.hdrSize hb hbase]
            apply BitVec.le_def.mpr
            rw [BitVec.toNat_ofNat]
            omega
          · right
            by_contra hwraps
            apply hm.exceeds hwraps
            apply ((hsafe r' hstep).block newPtr size _).1
            rw [result, hnew]
            rfl

theorem arenaOk_init : ArenaOk arenaInit :=
  ⟨by decide, Packed.nil, by simp [arenaInit], by simp [arenaInit]⟩

theorem callsSafe_from (hok : ArenaOk r) (es : List ArenaEvent) :
    Runs.AllSteps arenaStep CallSafe r es ↔ Runs.AllSteps arenaStep RequestFits r es := by
  apply Runs.AllSteps.iff_of_invariant (I := ArenaOk) _ _ hok
  · intro r e r' hfits hok hstep
    exact (step_ok hok hfits hstep).1
  · intro r e hok
    exact ⟨requestFits_of_callSafe hok, fun hfits r' hstep => (step_ok hok hfits hstep).2⟩

/-- Every call of a run is sound exactly when no request of the run wraps into the arena. -/
theorem callsSafe_iff (es : List ArenaEvent) :
    Runs.AllSteps arenaStep CallSafe arenaInit es ↔
      Runs.AllSteps arenaStep RequestFits arenaInit es :=
  callsSafe_from arenaOk_init es

/-- `4 + 0xFFFFFFFC` is 0, so a block of four gigabytes is handed out and takes no room. -/
theorem not_callsSafe_huge :
    ¬Runs.AllSteps arenaStep CallSafe arenaInit [.malloc 16, .malloc 0xFFFFFFFC] := by
  rw [callsSafe_from arenaOk_init]
  decide +kernel

end SlopOS.Proofs.ArenaBlocks
