import SlopOS.Kernel.Types
/-!
# The bytes of the framebuffer

`put_pixel` and `fb_fill_rect` of `console.c` once more, with the addresses that are stored to.  A
result is the list of the stores, in order; addresses wrap.
-/

namespace SlopOS.Kernel

/-- `struct framebuffer_info` without the type. -/
structure FramebufferInfo where
  base : U32
  pitch : U32
  width : U32
  height : U32
  bpp : U8
  redPos : U8
  redMask : U8
  greenPos : U8
  greenMask : U8
  bluePos : U8
  blueMask : U8
deriving Repr, DecidableEq

/-- `*address = value` -/
structure FbStore where
  address : U32
  value : U8
deriving Repr, DecidableEq

def palette : List U32 :=
  [0x000000, 0x0000AA, 0x00AA00, 0x00AAAA, 0xAA0000, 0xAA00AA, 0xAA5500, 0xAAAAAA,
    0x555555, 0x5555FF, 0x55FF55, 0x55FFFF, 0xFF5555, 0xFF55FF, 0xFFFF55, 0xFFFFFF]

def rgbScale (value bits : U8) : U8 :=
  if 8 ≤ bits then value else value >>> (8 - bits).toNat

namespace FramebufferInfo

def fbPackColor (fb : FramebufferInfo) (color : U8) : U32 :=
  let rgb := palette.getD (color &&& 0x0F).toNat 0
  let r := ((rgb >>> 16) &&& 0xFF).setWidth 8
  let g := ((rgb >>> 8) &&& 0xFF).setWidth 8
  let b := (rgb &&& 0xFF).setWidth 8
  let out : U32 := 0
  let out := out ||| (rgbScale r fb.redMask).setWidth 32 <<< fb.redPos.toNat
  let out := out ||| (rgbScale g fb.greenMask).setWidth 32 <<< fb.greenPos.toNat
  out ||| (rgbScale b fb.blueMask).setWidth 32 <<< fb.bluePos.toNat

def bytesPp (fb : FramebufferInfo) : U32 := fb.bpp.setWidth 32 / 8

/-- The stores of one pixel, which both functions spell out. -/
def storePixel (fb : FramebufferInfo) (p packed : U32) : List FbStore :=
  if fb.bpp = 32 then
    [⟨p, (packed &&& 0xFF).setWidth 8⟩, ⟨p + 1, ((packed >>> 8) &&& 0xFF).setWidth 8⟩,
      ⟨p + 2, ((packed >>> 16) &&& 0xFF).setWidth 8⟩,
      ⟨p + 3, ((packed >>> 24) &&& 0xFF).setWidth 8⟩]
  else if fb.bpp = 24 then
    [⟨p, (packed &&& 0xFF).setWidth 8⟩, ⟨p + 1, ((packed >>> 8) &&& 0xFF).setWidth 8⟩,
      ⟨p + 2, ((packed >>> 16) &&& 0xFF).setWidth 8⟩]
  else []

def putPixel (fb : FramebufferInfo) (x y : U32) (color : U8) : List FbStore :=
  if fb.width ≤ x ∨ fb.height ≤ y then []
  else
    let packed := fb.fbPackColor color
    let pixel := fb.base + y * fb.pitch + x * fb.bytesPp
    fb.storePixel pixel packed

/-- The inner loop of `fb_fill_rect` from `col` on, with the turns that are left. -/
def fillCols (fb : FramebufferInfo) (packed rowPtr x col : U32) : Nat → List FbStore
  | 0 => []
  | n + 1 =>
    if fb.width ≤ x + col then []
    else fb.storePixel (rowPtr + col * fb.bytesPp) packed ++ fillCols fb packed rowPtr x (col + 1) n

/-- The outer loop of `fb_fill_rect` from `row` on, with the turns that are left. -/
def fillRows (fb : FramebufferInfo) (packed x y w row : U32) : Nat → List FbStore
  | 0 => []
  | n + 1 =>
    let py := y + row
    if fb.height ≤ py then []
    else
      let rowPtr := fb.base + py * fb.pitch + x * fb.bytesPp
      fb.fillCols packed rowPtr x 0 w.toNat ++ fillRows fb packed x y w (row + 1) n

def fbFillRect (fb : FramebufferInfo) (x y w h : U32) (color : U8) : List FbStore :=
  fb.fillRows (fb.fbPackColor color) x y w 0 h.toNat

end FramebufferInfo

end SlopOS.Kernel
