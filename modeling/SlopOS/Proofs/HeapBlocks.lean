import SlopOS.Kernel.Heap
import SlopOS.Support.Alignment
import SlopOS.Support.Blocks
/-!
# The blocks of the kernel heap

`heap_init` and any run of `kmalloc` and `kcalloc` after it.  The bound tests
keep the current mark below the limit in exact arithmetic, so the marks of the
requests are those of a bump allocator, whose blocks `Packed` describes.
-/

namespace SlopOS.Proofs.HeapBlocks

open SlopOS.Kernel SlopOS.Support SlopOS.Support.Alignment

/-- A request to the heap, or whatever the kernel stores between two of them. -/
inductive HeapEvent
  | kmalloc (size : U32)
  | kcalloc (size : U32)
  | stores (mem : ByteMem.Mem)

/-- The heap, the memory, and the blocks handed out so far, the latest first. -/
structure HeapRun where
  heap : Heap
  mem : ByteMem.Mem
  blocks : List Block

/-- The state after a request that returned `granted`. -/
def HeapRun.grant (r : HeapRun) (size : U32) : Option (U32 × Heap × ByteMem.Mem) → HeapRun
  | none => r
  | some (ptr, heap, mem) => ⟨heap, mem, ⟨ptr.toNat, size.toNat⟩ :: r.blocks⟩

def heapStep (r : HeapRun) : HeapEvent → HeapRun
  | .kmalloc size => r.grant size ((kmalloc r.heap size).map fun (ptr, heap) => (ptr, heap, r.mem))
  | .kcalloc size => r.grant size (kcallocIn r.mem r.heap size)
  | .stores mem => { r with mem := mem }

def bootHeap (kernelEnd : U32) (mbi : Option MultibootInfo) (magic : U32) (ram : ByteMem.Mem) :
    HeapRun := ⟨heapInit kernelEnd mbi magic, ram, []⟩

/-- `[0x300000, 0x320000)`. -/
def userWindow : Block := ⟨0x00300000, 0x00020000⟩

/-- What holds of the heap between two requests. -/
structure HeapSafe (r : HeapRun) : Prop where
  ordered : r.heap.ready = true → r.heap.start.toNat ≤ r.heap.current.toNat ∧
    r.heap.current.toNat ≤ r.heap.limit.toNat ∧ r.heap.limit.toNat ≤ 0x00300000
  aligned : r.heap.current.toNat % 16 = 0
  blocks : ∀ b ∈ r.blocks, b.base % 16 = 0 ∧
    b.Within r.heap.start.toNat r.heap.limit.toNat ∧ b.Apart userWindow
  apart : r.blocks.Pairwise Block.Apart
  balance : (heapBytesUsed r.heap).toNat + (heapBytesFree r.heap).toNat =
    (heapBytesTotal r.heap).toNat

/-- What a request does: a refused one leaves heap and memory as they are, and `kcalloc` clears
its block and no byte of another. -/
def RequestSafe (r : HeapRun) : HeapEvent → Prop
  | .kmalloc size => kmalloc r.heap size = none → heapStep r (.kmalloc size) = r
  | .kcalloc size =>
    match kcallocIn r.mem r.heap size with
    | none => heapStep r (.kcalloc size) = r
    | some (ptr, _, mem) =>
      (∀ j < size.toNat, mem (ptr + BitVec.ofNat 32 j) = 0) ∧
        ∀ b ∈ r.blocks, ∀ a : U32, b.base ≤ a.toNat → a.toNat < b.stop → mem a = r.mem a
  | .stores mem => (heapStep r (.stores mem)).heap = r.heap

/-! ## Rounding -/

theorem toNat_alignUp {value : U32} (h : value.toNat + 15 < 2 ^ 32) :
    (alignUp value 16).toNat = roundUp value.toNat 16 := by
  have hsum : (value + 15).toNat = value.toNat + 15 := by
    rw [BitVec.toNat_add]
    exact Nat.mod_eq_of_lt h
  have hmask := toNat_and_not_mask (value + 15) 4
  rw [hsum] at hmask
  exact hmask

theorem alignUp_mod (value : U32) : (alignUp value 16).toNat % 16 = 0 := by
  have hmask := toNat_and_not_mask (value + 15) 4
  have heq : (alignUp value 16).toNat = (value + 15).toNat / 2 ^ 4 * 2 ^ 4 := hmask
  rw [heq]
  exact Nat.mul_mod_left _ _

theorem alignUp_aligned {value : U32} (h : value.toNat % 16 = 0) : alignUp value 16 = value := by
  have hlt : value.toNat + 15 < 2 ^ 32 := by omega
  apply BitVec.eq_of_toNat_eq
  rw [toNat_alignUp hlt, roundUp_eq (by decide) h]

/-! ## One request -/

/-- The invariant: the marks in exact arithmetic, and the blocks below the current one. -/
structure HeapOk (r : HeapRun) : Prop where
  start_le : r.heap.start.toNat ≤ r.heap.current.toNat
  current_le : r.heap.current.toNat ≤ r.heap.limit.toNat
  limit_le : r.heap.ready = true → r.heap.limit.toNat ≤ 0x00300000
  aligned : r.heap.current.toNat % 16 = 0
  limit_aligned : r.heap.limit.toNat % 16 = 0
  packed : Packed r.heap.start.toNat r.heap.current.toNat r.blocks
  bases : ∀ b ∈ r.blocks, b.base % 16 = 0
  idle : r.heap.ready = false → r.blocks = []

structure Granted (h : Heap) (size ptr : U32) (h' : Heap) : Prop where
  ready : h.ready = true
  ptr : ptr = h.current
  size_pos : 0 < size.toNat
  fits : h.current.toNat + size.toNat ≤ h.limit.toNat
  start : h'.start = h.start
  limit : h'.limit = h.limit
  still : h'.ready = h.ready
  current : h'.current.toNat = roundUp (h.current.toNat + size.toNat) 16

theorem kmalloc_spec {h h' : Heap} {size ptr : U32} (haligned : h.current.toNat % 16 = 0)
    (hlimit : h.ready = true → h.limit.toNat ≤ 0x00300000)
    (halloc : kmalloc h size = some (ptr, h')) : Granted h size ptr h' := by
  unfold kmalloc at halloc
  split at halloc
  · cases halloc
  rename_i hnot
  have hready : h.ready = true := by
    by_contra hnr
    exact hnot (Or.inl hnr)
  have hsize : size ≠ 0 := fun h0 => hnot (Or.inr h0)
  rw [alignUp_aligned haligned] at halloc
  dsimp only at halloc
  split at halloc
  · cases halloc
  rename_i hbound
  rw [not_or] at hbound
  have hle := hlimit hready
  -- the two tests say that the sum does not wrap and stays below the limit
  have hstop : (h.current + size).toNat = h.current.toNat + size.toNat ∧
      (h.current + size).toNat ≤ h.limit.toNat := by
    obtain ⟨hwrap, htop⟩ := hbound
    bv_omega
  obtain rfl := (congrArg Prod.fst (Option.some.inj halloc)).symm
  obtain rfl := (congrArg Prod.snd (Option.some.inj halloc)).symm
  have hsum : (h.current + size).toNat + 15 < 2 ^ 32 := by omega
  exact
    { ready := hready
      ptr := rfl
      size_pos := by bv_omega
      fits := by omega
      start := rfl
      limit := rfl
      still := rfl
      current := by rw [toNat_alignUp hsum, hstop.1] }

theorem HeapOk.granted {r : HeapRun} {size ptr : U32} {h' : Heap} (hok : HeapOk r)
    (hg : Granted r.heap size ptr h') (mem : ByteMem.Mem) :
    HeapOk ⟨h', mem, ⟨ptr.toNat, size.toNat⟩ :: r.blocks⟩ := by
  have hup : r.heap.current.toNat + size.toNat ≤ h'.current.toNat := by
    rw [hg.current]
    exact le_roundUp (by decide)
  have htop : h'.current.toNat ≤ r.heap.limit.toNat := by
    rw [hg.current]
    exact roundUp_le (by decide) hok.limit_aligned hg.fits
  have hpush : Packed r.heap.start.toNat h'.current.toNat
      (⟨ptr.toNat, size.toNat⟩ :: r.blocks) := by
    apply hok.packed.push hok.start_le
    rw [hg.ptr]
    exact ⟨Nat.le_refl _, hup⟩
  refine ⟨?_, ?_, ?_, ?_, ?_, ?_, ?_, ?_⟩
  · show h'.start.toNat ≤ h'.current.toNat
    rw [hg.start]
    have hle := hok.start_le
    omega
  · show h'.current.toNat ≤ h'.limit.toNat
    rw [hg.limit]
    exact htop
  · show h'.ready = true → h'.limit.toNat ≤ 0x00300000
    rw [hg.still, hg.limit]
    exact hok.limit_le
  · show h'.current.toNat % 16 = 0
    rw [hg.current]
    exact roundUp_mod _ _
  · show h'.limit.toNat % 16 = 0
    rw [hg.limit]
    exact hok.limit_aligned
  · show Packed h'.start.toNat h'.current.toNat _
    rw [hg.start]
    exact hpush
  · intro b hb
    rcases List.mem_cons.mp hb with rfl | hb
    · show ptr.toNat % 16 = 0
      rw [hg.ptr]
      exact hok.aligned
    · exact hok.bases b hb
  · intro hnr
    have hcontra : h'.ready = false := hnr
    rw [hg.still, hg.ready] at hcontra
    cases hcontra

/-! ## Runs -/

theorem heapOk_boot (kernelEnd : U32) (mbi : Option MultibootInfo) (magic : U32)
    (ram : ByteMem.Mem) : HeapOk (bootHeap kernelEnd mbi magic ram) := by
  have haligned := alignUp_mod kernelEnd
  unfold bootHeap heapInit
  generalize alignUp kernelEnd 16 = start at haligned
  have hunready : HeapOk ⟨⟨start, start, start, false⟩, ram, []⟩ :=
    ⟨Nat.le_refl _, Nat.le_refl _, nofun, haligned, haligned, Packed.nil, by simp, fun _ => rfl⟩
  cases mbi with
  | none => exact hunready
  | some mbi =>
      dsimp only
      split
      · have hlimit := alignUp_mod (0x00100000 + mbi.memUpper * 1024)
        generalize alignUp (0x00100000 + mbi.memUpper * 1024) 16 = limit at hlimit
        have htop : (if userImageReservedBase < limit then userImageReservedBase else limit).toNat
            ≤ 0x00300000 := by
          unfold userImageReservedBase
          split <;> bv_omega
        have hmod : (if userImageReservedBase < limit then userImageReservedBase
            else limit).toNat % 16 = 0 := by
          split
          · decide
          · exact hlimit
        generalize (if userImageReservedBase < limit then userImageReservedBase else limit) = top
          at htop hmod
        split
        · rename_i hlt
          exact ⟨Nat.le_refl _, BitVec.le_def.mp (BitVec.le_of_lt hlt), fun _ => htop, haligned,
            hmod, Packed.nil, by simp, fun _ => rfl⟩
        · exact hunready
      · exact hunready

theorem kcallocIn_eq (m : ByteMem.Mem) (h : Heap) (size : U32) :
    kcallocIn m h size = (kmalloc h size).map fun (ptr, heap) =>
      (ptr, heap, ByteMem.store m ptr size.toNat fun _ => 0) := by
  unfold kcallocIn
  cases kmalloc h size with
  | none => rfl
  | some granted =>
      show some (_, _, memZero m granted.1 size.toNat) = _
      rw [memZero_eq m granted.1 size.toNat (Nat.le_of_lt size.isLt)]
      rfl

theorem HeapOk.requested {r : HeapRun} (hok : HeapOk r) (size : U32)
    (mem : U32 → Heap → ByteMem.Mem) :
    HeapOk (r.grant size ((kmalloc r.heap size).map fun (ptr, heap) => (ptr, heap, mem ptr heap))) := by
  cases halloc : kmalloc r.heap size with
  | none => exact hok
  | some granted => exact hok.granted (kmalloc_spec hok.aligned hok.limit_le halloc) _

theorem heapOk_step {r : HeapRun} (hok : HeapOk r) (e : HeapEvent) : HeapOk (heapStep r e) := by
  cases e with
  | kmalloc size => exact hok.requested size fun _ _ => r.mem
  | kcalloc size =>
      rw [heapStep, kcallocIn_eq]
      exact hok.requested size fun ptr _ => ByteMem.store r.mem ptr size.toNat fun _ => 0
  | stores mem =>
      exact ⟨hok.start_le, hok.current_le, hok.limit_le, hok.aligned, hok.limit_aligned,
        hok.packed, hok.bases, hok.idle⟩

theorem heapOk_run {r : HeapRun} (hok : HeapOk r) (es : List HeapEvent) :
    HeapOk (es.foldl heapStep r) := by
  induction es generalizing r with
  | nil => exact hok
  | cons e es ih => exact ih (heapOk_step hok e)

theorem HeapOk.safe {r : HeapRun} (hok : HeapOk r) : HeapSafe r where
  ordered hready := ⟨hok.start_le, hok.current_le, hok.limit_le hready⟩
  aligned := hok.aligned
  blocks b hb := by
    have hwithin := (hok.packed.within b hb).mono (Nat.le_refl _) hok.current_le
    have hready : r.heap.ready = true := by
      by_contra hnr
      rw [hok.idle (Bool.eq_false_iff.mpr hnr)] at hb
      cases hb
    refine ⟨hok.bases b hb, hwithin, Or.inl ?_⟩
    exact Nat.le_trans hwithin.2 (hok.limit_le hready)
  apart := hok.packed.apart
  balance := by
    have hstart := hok.start_le
    have hcurrent := hok.current_le
    unfold heapBytesUsed heapBytesFree heapBytesTotal
    bv_omega

theorem HeapOk.request {r : HeapRun} (hok : HeapOk r) (e : HeapEvent) : RequestSafe r e := by
  cases e with
  | kmalloc size =>
      intro hnone
      rw [heapStep, hnone]
      rfl
  | stores mem => rfl
  | kcalloc size =>
      rw [RequestSafe, heapStep, kcallocIn_eq]
      cases halloc : kmalloc r.heap size with
      | none => rfl
      | some granted =>
          have hg := kmalloc_spec hok.aligned hok.limit_le halloc
          have hlimit := hok.limit_le hg.ready
          have hfits := hg.fits
          refine ⟨fun j hj => ByteMem.store_apply_add (Nat.le_of_lt size.isLt) hj,
            fun b hb a hlow hhigh => ?_⟩
          -- a block handed out earlier ends below the new one
          have hbelow := (hok.packed.within b hb).2
          rw [hg.ptr]
          apply ByteMem.store_of_not_inRange (by omega)
          intro hin
          have hge := hin.1
          omega

/-- After every run of requests the heap is sound, and so is every request that may follow. -/
theorem heapSafe_run (kernelEnd : U32) (mbi : Option MultibootInfo) (magic : U32)
    (ram : ByteMem.Mem) (es : List HeapEvent) :
    HeapSafe (es.foldl heapStep (bootHeap kernelEnd mbi magic ram)) ∧
      ∀ e, RequestSafe (es.foldl heapStep (bootHeap kernelEnd mbi magic ram)) e := by
  have hok := heapOk_run (heapOk_boot kernelEnd mbi magic ram) es
  exact ⟨hok.safe, hok.request⟩

end SlopOS.Proofs.HeapBlocks
