import SlopOS.Proofs.FileSessions
import SlopOS.Proofs.FileSteps
import SlopOS.Proofs.HeapBlocks
/-!
# What the calls take from the heap

No call gives memory back: from every call, and every event between two calls,
the heap comes with its mark where it was or higher.
-/

namespace SlopOS.Proofs.HeapUse

open SlopOS.Support SlopOS.Kernel
open SlopOS.Proofs.HeapBlocks SlopOS.Proofs.FileCalls SlopOS.Proofs.TreeRuns
open SlopOS.Proofs.FileSessions SlopOS.Proofs.FileSteps

structure HeapFine (h : Heap) : Prop where
  start_pos : 0 < h.start.toNat
  start_le : h.start.toNat ≤ h.current.toNat
  current_le : h.current.toNat ≤ h.limit.toNat
  limit_le : h.ready = true → h.limit.toNat ≤ 0x00300000
  low : h.current.toNat ≤ 0x00300000
  aligned : h.current.toNat % 16 = 0
  limit_aligned : h.limit.toNat % 16 = 0

def Rises (h h' : Heap) : Prop := HeapFine h → HeapFine h' ∧ h.current.toNat ≤ h'.current.toNat

/-- The block lies between the marks before and after. -/
structure Fresh (h : Heap) (ptr size : U32) (h' : Heap) : Prop where
  fine : HeapFine h'
  low : h.current.toNat ≤ ptr.toNat
  high : ptr.toNat + size.toNat ≤ h'.current.toNat
  pos : ptr ≠ 0

variable {mach : Machine} {h h' h'' : Heap} {size ptr : U32} {fs fs' : Fs} {cwd : NodeId}
variable {path : CStr} {k k' : KState} {r : Int} {num a1 a2 a3 : U32}

theorem Rises.refl (h : Heap) : Rises h h := fun hfine => ⟨hfine, Nat.le_refl _⟩

theorem Rises.trans (h₁ : Rises h h') (h₂ : Rises h' h'') : Rises h h'' := by
  intro hfine
  obtain ⟨hfine', hle⟩ := h₁ hfine
  obtain ⟨hfine'', hle'⟩ := h₂ hfine'
  exact ⟨hfine'', Nat.le_trans hle hle'⟩

/-! ## Blocks -/

theorem kmalloc_fresh (hfine : HeapFine h) (halloc : kmalloc h size = some (ptr, h')) :
    Fresh h ptr size h' := by
  have hg := kmalloc_spec hfine.aligned hfine.limit_le halloc
  have hup : h.current.toNat + size.toNat ≤ h'.current.toNat := by
    rw [hg.current]
    exact Alignment.le_roundUp (by decide)
  have htop : h'.current.toNat ≤ h.limit.toNat := by
    rw [hg.current]
    exact Alignment.roundUp_le (by decide) hfine.limit_aligned hg.fits
  have hlimit := hfine.limit_le hg.ready
  have hstart := hfine.start_le
  have hpos := hfine.start_pos
  have hptr := congrArg BitVec.toNat hg.ptr
  constructor
  case fine =>
    constructor
    case start_pos =>
      rw [hg.start]
      exact hpos
    case start_le =>
      rw [hg.start]
      omega
    case current_le =>
      rw [hg.limit]
      exact htop
    case limit_le =>
      rw [hg.still, hg.limit]
      exact hfine.limit_le
    case low => omega
    case aligned =>
      rw [hg.current]
      exact Alignment.roundUp_mod _ _
    case limit_aligned =>
      rw [hg.limit]
      exact hfine.limit_aligned
  case low => omega
  case high => omega
  case pos =>
    rintro rfl
    have hzero : (0 : U32).toNat = 0 := rfl
    omega

theorem kmalloc_rises (halloc : kmalloc h size = some (ptr, h')) : Rises h h' := by
  intro hfine
  obtain ⟨hfine', hlow, hhigh, -⟩ := kmalloc_fresh hfine halloc
  exact ⟨hfine', by omega⟩

/-! ## Files and calls -/

theorem rises_of_allocs (hallocs : Allocs h h') : Rises h h' := by
  rcases hallocs with rfl | ⟨size, ptr, halloc⟩
  · exact .refl _
  · exact kmalloc_rises halloc

theorem rises_of_steps (h : FsSteps fs fs') : Rises fs.heap fs'.heap := by
  induction h with
  | refl => exact .refl _
  | alloc _ halloc ih => exact ih.trans (kmalloc_rises halloc)
  | node _ ih => exact ih
  | fill _ _ ih => exact ih

def KeepsHeap (k : KState) (o : Outcome) : Prop :=
  ∀ r k', o.done = some (r, k') → Rises k.files.fs.heap k'.files.fs.heap

theorem keepsHeap_of_steps {o : Outcome} (h : CallSteps k o) : KeepsHeap k o :=
  fun r k' hdone => rises_of_steps (h r k' hdone)

theorem fileStep_rises {e : FileEvent} (h : fileStep mach k e = some k') :
    Rises k.files.fs.heap k'.files.fs.heap := by
  cases e with
  | turn other =>
      obtain ⟨-, hturn⟩ := Option.ite_none_right_eq_some.mp h
      rw [← Option.some.inj hturn]
      exact .refl _
  | call num a1 a2 a3 =>
      obtain ⟨⟨r, k₁⟩, hdone, rfl⟩ := Option.map_eq_some_iff.mp h
      exact keepsHeap_of_steps (syscallEntry_steps mach k num a1 a2 a3 0 0) _ _ hdone
  | tree e =>
      obtain ⟨fs, hstep, rfl⟩ := Option.map_eq_some_iff.mp h
      exact rises_of_steps (treeStep_steps hstep)

end SlopOS.Proofs.HeapUse
