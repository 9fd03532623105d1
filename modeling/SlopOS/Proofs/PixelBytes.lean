import SlopOS.Kernel.Framebuffer
import Mathlib.Data.List.Range
/-!
# `fb_fill_rect` and `put_pixel`

The fast loops leave off at the right and the lower edge.  As long as no coordinate of the rectangle
wraps, nothing behind an edge is on the screen.
-/

namespace SlopOS.Proofs.PixelBytes

open SlopOS.Kernel

/-- `put_pixel` for every pixel of the rectangle, row by row. -/
def putPixels (fb : FramebufferInfo) (x y w h : U32) (color : U8) : List FbStore :=
  (List.range h.toNat).flatMap fun row => (List.range w.toNat).flatMap fun col =>
    fb.putPixel (x + BitVec.ofNat 32 col) (y + BitVec.ofNat 32 row) color

variable {fb : FramebufferInfo} {packed rowPtr x y w h : U32} {color : U8} {α : Type}

/-- A loop that is left at the edge, from turn `k` on, and one that skips what is behind it. -/
theorem loop_eq_flatMap {start limit : U32} (body : U32 → List α) (loop : U32 → Nat → List α)
    (hzero : ∀ i, loop i 0 = [])
    (hsucc : ∀ i n, loop i (n + 1) = if limit ≤ start + i then [] else body i ++ loop (i + 1) n)
    {k n : Nat} (hwrap : start.toNat + k + n ≤ 2 ^ 32) :
    loop (BitVec.ofNat 32 k) n = (List.range' k n).flatMap fun i =>
      if limit ≤ start + BitVec.ofNat 32 i then [] else body (BitVec.ofNat 32 i) := by
  induction n generalizing k with
  | zero => exact hzero _
  | succ n ih =>
      rw [hsucc]
      by_cases hedge : limit ≤ start + BitVec.ofNat 32 k
      · rw [if_pos hedge]
        symm
        apply List.flatMap_eq_nil_iff.mpr
        intro i hi
        obtain ⟨hlow, hhigh⟩ := List.mem_range'_1.mp hi
        apply if_pos
        bv_omega
      · have hnext : BitVec.ofNat 32 k + 1 = BitVec.ofNat 32 (k + 1) := (BitVec.ofNat_add k 1).symm
        rw [if_neg hedge, List.range'_succ, List.flatMap_cons, if_neg hedge, hnext,
          ih (by omega)]

theorem fillCols_eq (hwrap : x.toNat + w.toNat ≤ 2 ^ 32) :
    fb.fillCols packed rowPtr x 0 w.toNat = (List.range w.toNat).flatMap fun col =>
      if fb.width ≤ x + BitVec.ofNat 32 col then []
      else fb.storePixel (rowPtr + BitVec.ofNat 32 col * fb.bytesPp) packed := by
  rw [List.range_eq_range']
  exact loop_eq_flatMap (k := 0) (fun col => fb.storePixel (rowPtr + col * fb.bytesPp) packed)
    (fb.fillCols packed rowPtr x) (fun _ => rfl) (fun _ _ => rfl) hwrap

theorem fillRows_eq (hwrap : y.toNat + h.toNat ≤ 2 ^ 32) :
    fb.fillRows packed x y w 0 h.toNat = (List.range h.toNat).flatMap fun row =>
      if fb.height ≤ y + BitVec.ofNat 32 row then []
      else fb.fillCols packed
        (fb.base + (y + BitVec.ofNat 32 row) * fb.pitch + x * fb.bytesPp) x 0 w.toNat := by
  rw [List.range_eq_range']
  exact loop_eq_flatMap (k := 0)
    (fun row => fb.fillCols packed
      (fb.base + (y + row) * fb.pitch + x * fb.bytesPp) x 0 w.toNat)
    (fb.fillRows packed x y w) (fun _ => rfl) (fun _ _ => rfl) hwrap

theorem fillCols_eq_putPixels (hwrap : x.toNat + w.toNat ≤ 2 ^ 32) (hy : ¬fb.height ≤ y) :
    fb.fillCols (fb.fbPackColor color) (fb.base + y * fb.pitch + x * fb.bytesPp) x 0 w.toNat =
      (List.range w.toNat).flatMap fun col => fb.putPixel (x + BitVec.ofNat 32 col) y color := by
  rw [fillCols_eq hwrap]
  congr 1
  funext col
  unfold FramebufferInfo.putPixel
  by_cases hx : fb.width ≤ x + BitVec.ofNat 32 col
  · rw [if_pos hx, if_pos (Or.inl hx)]
  · rw [if_neg hx, if_neg (not_or.mpr ⟨hx, hy⟩), BitVec.add_mul, BitVec.add_assoc]

/-- The same stores in the same order. -/
theorem fbFillRect_eq_putPixels (fb : FramebufferInfo) (x y w h : U32) (color : U8)
    (hx : x.toNat + w.toNat < 2 ^ 32) (hy : y.toNat + h.toNat < 2 ^ 32) :
    fb.fbFillRect x y w h color = putPixels fb x y w h color := by
  unfold FramebufferInfo.fbFillRect putPixels
  rw [fillRows_eq (Nat.le_of_lt hy)]
  congr 1
  funext row
  by_cases hbelow : fb.height ≤ y + BitVec.ofNat 32 row
  · rw [if_pos hbelow]
    symm
    apply List.flatMap_eq_nil_iff.mpr
    intro col _
    exact if_pos (Or.inr hbelow)
  · rw [if_neg hbelow]
    exact fillCols_eq_putPixels (Nat.le_of_lt hx) hbelow

def demoScreen : FramebufferInfo where
  base := 0xFD000000
  pitch := 16
  width := 4
  height := 3
  bpp := 24
  redPos := 16
  redMask := 8
  greenPos := 8
  greenMask := 8
  bluePos := 0
  blueMask := 8

/-- Of a rectangle that goes over the lower right corner one pixel is drawn. -/
theorem fbFillRect_corner : (3 : U32).toNat + (8 : U32).toNat < 2 ^ 32 ∧
    demoScreen.fbFillRect 3 2 8 16 14 = putPixels demoScreen 3 2 8 16 14 ∧
      putPixels demoScreen 3 2 8 16 14 =
        [⟨0xFD000029, 0x55⟩, ⟨0xFD00002A, 0xFF⟩, ⟨0xFD00002B, 0xFF⟩] :=
  ⟨by decide, fbFillRect_eq_putPixels demoScreen 3 2 8 16 14 (by decide) (by decide), by decide⟩

end SlopOS.Proofs.PixelBytes
