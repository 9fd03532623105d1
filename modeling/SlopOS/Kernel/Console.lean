import SlopOS.Kernel.Util
import SlopOS.Support.Decimal
/-!
# `console.c`

The local screen.  A pixel is its palette colour; how a colour is packed into the bytes of the
framebuffer is left out, and so is the serial line.  The `u16` counters are numbers below 2^16.
-/

namespace SlopOS.Kernel

open SlopOS.Support

def vgaCols : Nat := 80
def vgaRows : Nat := 25
def fontW : Nat := 8
def cellH : Nat := 16
def maxConsoleCols : Nat := 120
def maxConsoleRows : Nat := 60

inductive DisplayBackend
  | vgaText
  | framebuffer
deriving DecidableEq

/-- `text_chars`, `text_fg` and `text_bg` at one index. -/
structure TextCell where
  char : U8
  fg : U8
  bg : U8
deriving DecidableEq

abbrev Pixels := Nat → Nat → U8

/-- The static data of the file, the registers of the display controller, and the pixels. -/
structure Console where
  backend : DisplayBackend
  fbWidth : Nat
  fbHeight : Nat
  cursorRow : Nat
  cursorCol : Nat
  textRows : Nat
  textCols : Nat
  text : Nat → TextCell
  currentFg : U8
  currentBg : U8
  vga : Nat → U16
  crtcIndex : Nat
  crtc : Nat → Nat
  pixels : Pixels

/-! ## Glyphs -/

def glyphSpace : List Nat := [0, 0, 0, 0, 0, 0, 0]
def glyphUnknown : List Nat := [14, 17, 1, 2, 4, 0, 4]

def glyphDigits : List (List Nat) :=
  [[14, 17, 19, 21, 25, 17, 14], [4, 12, 4, 4, 4, 4, 14], [14, 17, 1, 2, 4, 8, 31],
    [30, 1, 1, 14, 1, 1, 30], [2, 6, 10, 18, 31, 2, 2], [31, 16, 16, 30, 1, 1, 30],
    [6, 8, 16, 30, 17, 17, 14], [31, 1, 2, 4, 8, 8, 8], [14, 17, 17, 14, 17, 17, 14],
    [14, 17, 17, 15, 1, 2, 28]]

def glyphUpper : List (List Nat) :=
  [[14, 17, 17, 31, 17, 17, 17], [30, 17, 17, 30, 17, 17, 30], [14, 17, 16, 16, 16, 17, 14],
    [30, 17, 17, 17, 17, 17, 30], [31, 16, 16, 30, 16, 16, 31], [31, 16, 16, 30, 16, 16, 16],
    [14, 17, 16, 16, 19, 17, 15], [17, 17, 17, 31, 17, 17, 17], [14, 4, 4, 4, 4, 4, 14],
    [1, 1, 1, 1, 17, 17, 14], [17, 18, 20, 24, 20, 18, 17], [16, 16, 16, 16, 16, 16, 31],
    [17, 27, 21, 21, 17, 17, 17], [17, 17, 25, 21, 19, 17, 17], [14, 17, 17, 17, 17, 17, 14],
    [30, 17, 17, 30, 16, 16, 16], [14, 17, 17, 17, 21, 18, 13], [30, 17, 17, 30, 20, 18, 17],
    [15, 16, 16, 14, 1, 1, 30], [31, 4, 4, 4, 4, 4, 4], [17, 17, 17, 17, 17, 17, 14],
    [17, 17, 17, 17, 17, 10, 4], [17, 17, 17, 21, 21, 21, 10], [17, 17, 10, 4, 10, 17, 17],
    [17, 17, 10, 4, 4, 4, 4], [31, 1, 2, 4, 8, 16, 31]]

/-- The glyphs of the single characters. -/
def glyphSingles : List (U8 × List Nat) :=
  [(chr ' ', glyphSpace), (chr '-', [0, 0, 0, 31, 0, 0, 0]), (chr '.', [0, 0, 0, 0, 0, 12, 12]),
    (chr '/', [1, 2, 4, 8, 16, 0, 0]), (chr ':', [0, 12, 12, 0, 12, 12, 0]),
    (chr ';', [0, 12, 12, 0, 12, 12, 8]), (39, [12, 12, 8, 0, 0, 0, 0]),
    (34, [10, 10, 0, 0, 0, 0, 0]), (chr '(', [2, 4, 8, 8, 8, 4, 2]),
    (chr ')', [8, 4, 2, 2, 2, 4, 8]), (chr '[', [14, 8, 8, 8, 8, 8, 14]),
    (chr ']', [14, 2, 2, 2, 2, 2, 14]), (chr '>', [16, 8, 4, 2, 4, 8, 16]),
    (chr '<', [1, 2, 4, 8, 4, 2, 1]), (chr '=', [0, 0, 31, 0, 31, 0, 0]),
    (chr '+', [0, 4, 4, 31, 4, 4, 0]), (chr '_', [0, 0, 0, 0, 0, 0, 31])]

def glyphForChar (c : U8) : List Nat :=
  if chr '0' ≤ c ∧ c ≤ chr '9' then glyphDigits.getD (c - chr '0').toNat []
  else if chr 'A' ≤ c ∧ c ≤ chr 'Z' then glyphUpper.getD (c - chr 'A').toNat []
  else if chr 'a' ≤ c ∧ c ≤ chr 'z' then glyphUpper.getD (c - chr 'a').toNat []
  else (glyphSingles.lookup c).getD glyphUnknown

/-! ## Ports and pixels -/

def outb (con : Console) (port value : Nat) : Console :=
  if port = 0x3D4 then { con with crtcIndex := value % 256 }
  else if port = 0x3D5 then
    { con with crtc := Function.update con.crtc con.crtcIndex (value % 256) }
  else con

/-- `inb(0x3D5)` -/
def inbData (con : Console) : Nat := con.crtc con.crtcIndex

def termEnableHwCursor (con : Console) (start stop : Nat) : Console :=
  let con := outb con 0x3D4 0x0A
  let con := outb con 0x3D5 ((inbData con &&& 0xC0) ||| start)
  let con := outb con 0x3D4 0x0B
  outb con 0x3D5 ((inbData con &&& 0xE0) ||| stop)

def termUpdateHwCursor (con : Console) : Console :=
  let pos := (con.cursorRow * vgaCols + con.cursorCol) % 65536
  let con := outb con 0x3D4 0x0F
  let con := outb con 0x3D5 (pos % 256)
  let con := outb con 0x3D4 0x0E
  outb con 0x3D5 (pos / 256 % 256)

def setPixel (px : Pixels) (x y : Nat) (color : U8) : Pixels := fun x' y' =>
  if x' = x ∧ y' = y then color else px x' y'

def putPixel (con : Console) (x y : Nat) (color : U8) : Console :=
  if con.fbWidth ≤ x ∨ con.fbHeight ≤ y then con
  else { con with pixels := setPixel con.pixels x y color }

/-- The inner loop of `fb_fill_rect`; from the right edge on nothing is drawn. -/
def fbFillRow (width : Nat) (px : Pixels) (x py : Nat) (color : U8) : Nat → Pixels
  | 0 => px
  | col + 1 =>
    let px := fbFillRow width px x py color col
    if width ≤ x + col then px else setPixel px (x + col) py color

/-- The outer loop of `fb_fill_rect`; from the lower edge on nothing is drawn. -/
def fbFillRows (width height : Nat) (px : Pixels) (x y w : Nat) (color : U8) : Nat → Pixels
  | 0 => px
  | row + 1 =>
    let px := fbFillRows width height px x y w color row
    if height ≤ y + row then px else fbFillRow width px x (y + row) color w

def fbFillRect (con : Console) (x y w h : Nat) (color : U8) : Console :=
  { con with pixels := fbFillRows con.fbWidth con.fbHeight con.pixels x y w color h }

/-! ## Cells -/

def textIndex (con : Console) (row col : Nat) : Nat := row * con.textCols + col

/-- The loop over the five pixels of a glyph row. -/
def drawGlyphRow (con : Console) (x y bits : Nat) (fg : U8) : Nat → Console
  | 0 => con
  | j + 1 =>
    let con := drawGlyphRow con x y bits fg j
    if bits.testBit (4 - j) then putPixel con (x + 1 + j) y fg else con

/-- The loop over the seven rows of a glyph. -/
def drawGlyph (con : Console) (x y : Nat) (glyph : List Nat) (fg : U8) : Nat → Console
  | 0 => con
  | i + 1 => drawGlyphRow (drawGlyph con x y glyph fg i) x (y + 4 + i) (glyph.getD i 0) fg 5

def fbDrawCell (con : Console) (row col : Nat) (cursorVisible : Bool) : Console :=
  let x := col * fontW
  let y := row * cellH
  let cell := con.text (textIndex con row col)
  let con := fbFillRect con x y fontW cellH cell.bg
  let con := drawGlyph con x y (glyphForChar cell.char) cell.fg 7
  if cursorVisible then fbFillRect con x (y + cellH - 2) fontW 2 cell.fg else con

def fbRedrawRow (con : Console) (row : Nat) : Nat → Console
  | 0 => con
  | col + 1 =>
    let con := fbRedrawRow con row col
    fbDrawCell con row col (row = con.cursorRow ∧ col = con.cursorCol)

def fbRedrawRows (con : Console) : Nat → Console
  | 0 => con
  | row + 1 => fbRedrawRow (fbRedrawRows con row) row con.textCols

def fbRedrawAll (con : Console) : Console := fbRedrawRows con con.textRows

/-- `fb_draw_cell` at the cursor, if it is in the grid. -/
def fbDrawCursor (con : Console) (cursorVisible : Bool) : Console :=
  if con.cursorRow < con.textRows ∧ con.cursorCol < con.textCols then
    fbDrawCell con con.cursorRow con.cursorCol cursorVisible
  else con

def fbSetCursor (con : Console) (newRow newCol : Nat) : Console :=
  fbDrawCursor { fbDrawCursor con false with cursorRow := newRow, cursorCol := newCol } true

def toVgaAttr (fg bg : U8) : U8 := ((bg &&& 0x0F) <<< 4) ||| (fg &&& 0x0F)

/-- A cell of the text mode: the attribute above the character. -/
def vgaWord (cell : TextCell) : U16 :=
  ((toVgaAttr cell.fg cell.bg).setWidth 16 <<< 8) ||| cell.char.setWidth 16

/-! ## Initialisation -/

def termInit (con : Console) : Console :=
  let con := { con with
    backend := .vgaText
    textCols := vgaCols
    textRows := vgaRows
    cursorRow := 0
    cursorCol := 0
    currentFg := 7
    currentBg := 0 }
  termUpdateHwCursor (termEnableHwCursor con 14 15)

/-- `struct multiboot_info` with the fields about the framebuffer. -/
structure MultibootVideo extends MultibootInfo where
  framebufferWidth : U32
  framebufferHeight : U32
  framebufferBpp : U8
  framebufferType : U8
deriving Repr, DecidableEq

def termInitWithMultiboot (con : Console) (mbi : Option MultibootVideo) (magic : U32) : Console :=
  let con := termInit con
  match mbi with
  | none => con
  | some mbi =>
    if magic ≠ multibootMagic ∨ mbi.flags &&& (1 <<< 12) = 0 then con
    else if mbi.framebufferType ≠ 1 then con
    else if mbi.framebufferBpp ≠ 24 ∧ mbi.framebufferBpp ≠ 32 then con
    else
      let con := { con with
        fbWidth := mbi.framebufferWidth.toNat
        fbHeight := mbi.framebufferHeight.toNat }
      if con.fbWidth < fontW ∨ con.fbHeight < cellH then con
      else
        let cols := con.fbWidth / fontW % 65536
        let rows := con.fbHeight / cellH % 65536
        { con with
          textCols := if maxConsoleCols < cols then maxConsoleCols else cols
          textRows := if maxConsoleRows < rows then maxConsoleRows else rows
          backend := .framebuffer
          cursorRow := 0
          cursorCol := 0 }

/-! ## Text -/

def termSetColor (con : Console) (fg bg : U8) : Console :=
  { con with currentFg := fg &&& 0x0F, currentBg := bg &&& 0x0F }

def inColor (con : Console) (c : U8) : TextCell := ⟨c, con.currentFg, con.currentBg⟩

/-- `for (i = 0; i < n; ++i) f[base + i] = v` -/
def fillFrom {α : Type} (f : Nat → α) (base : Nat) (v : α) : Nat → (Nat → α)
  | 0 => f
  | n + 1 => Function.update (fillFrom f base v n) (base + n) v

def termClear (con : Console) : Console :=
  let blank := inColor con (chr ' ')
  let con := { con with text := fillFrom con.text 0 blank (con.textCols * con.textRows) }
  let con :=
    if con.backend = .framebuffer then fbFillRect con 0 0 con.fbWidth con.fbHeight con.currentBg
    else { con with vga := fillFrom con.vga 0 (vgaWord blank) (vgaCols * vgaRows) }
  let con := { con with cursorRow := 0, cursorCol := 0 }
  if con.backend = .framebuffer then fbRedrawAll con else termUpdateHwCursor con

/-- The inner loop of the scrolling: a row of the text is copied to the row above. -/
def moveRow (cols : Nat) (text : Nat → TextCell) (row : Nat) : Nat → (Nat → TextCell)
  | 0 => text
  | col + 1 =>
    let text := moveRow cols text row col
    Function.update text ((row - 1) * cols + col) (text (row * cols + col))

/-- The outer loop of the scrolling, for the rows 1 up to the number given. -/
def moveRows (cols : Nat) (text : Nat → TextCell) : Nat → (Nat → TextCell)
  | 0 => text
  | row + 1 => moveRow cols (moveRows cols text row) (row + 1) cols

/-- The inner loop that copies the text to the screen. -/
def copyRow (cols : Nat) (text : Nat → TextCell) (vga : Nat → U16) (row : Nat) : Nat → (Nat → U16)
  | 0 => vga
  | col + 1 =>
    Function.update (copyRow cols text vga row col) (row * vgaCols + col)
      (vgaWord (text (row * cols + col)))

/-- The outer loop that copies the text to the screen. -/
def copyRows (cols : Nat) (text : Nat → TextCell) (vga : Nat → U16) : Nat → (Nat → U16)
  | 0 => vga
  | row + 1 => copyRow cols text (copyRows cols text vga row) row cols

def termScrollIfNeeded (con : Console) : Console :=
  if con.cursorRow < con.textRows then con
  else
    let text := moveRows con.textCols con.text (con.textRows - 1)
    let text := fillFrom text ((con.textRows - 1) * con.textCols) (inColor con (chr ' '))
      con.textCols
    let con := { con with text := text, cursorRow := con.textRows - 1 }
    if con.backend = .framebuffer then fbRedrawAll con
    else { con with vga := copyRows con.textCols con.text con.vga con.textRows }

def putCell (con : Console) (c : U8) : Console :=
  { con with
    text := Function.update con.text (textIndex con con.cursorRow con.cursorCol) (inColor con c) }

/-- A character of the screen in text mode, at the cursor. -/
def putVga (con : Console) (c : U8) : Console :=
  { con with
    vga := Function.update con.vga (con.cursorRow * vgaCols + con.cursorCol)
      (vgaWord (inColor con c)) }

/-- `cursor_col = 0; ++cursor_row; term_scroll_if_needed();` -/
def nextRow (con : Console) : Console :=
  termScrollIfNeeded { con with cursorCol := 0, cursorRow := (con.cursorRow + 1) % 65536 }

def writeNewline (con : Console) : Console :=
  let con := if con.backend = .framebuffer then fbDrawCursor con false else con
  let con := nextRow con
  if con.backend = .framebuffer then fbDrawCursor con true else termUpdateHwCursor con

def writeReturn (con : Console) : Console :=
  let con := if con.backend = .framebuffer then fbDrawCursor con false else con
  let con := { con with cursorCol := 0 }
  if con.backend = .framebuffer then fbDrawCursor con true else termUpdateHwCursor con

def writeBackspace (con : Console) : Console :=
  if 0 < con.cursorCol then
    let con := putCell { con with cursorCol := con.cursorCol - 1 } (chr ' ')
    -- the cell that the cursor leaves is not drawn again
    if con.backend = .framebuffer then fbDrawCell con con.cursorRow con.cursorCol true
    else termUpdateHwCursor (putVga con (chr ' '))
  else con

def showCell (con : Console) (c : U8) : Console :=
  if con.backend = .framebuffer then fbDrawCell con con.cursorRow con.cursorCol false
  else putVga con c

/-- `++cursor_col`, with the wrap at the end of a row. -/
def nextCol (con : Console) : Console :=
  let con := { con with cursorCol := (con.cursorCol + 1) % 65536 }
  if con.textCols ≤ con.cursorCol then nextRow con else con

def writePlain (con : Console) (c : U8) : Console :=
  let con := nextCol (showCell (putCell con c) c)
  if con.backend = .framebuffer then fbSetCursor con con.cursorRow con.cursorCol
  else termUpdateHwCursor con

def writeLocalChar (con : Console) (c : U8) : Console :=
  if c = chr '\n' then writeNewline con
  else if c = 13 then writeReturn con
  else if c = 8 then writeBackspace con
  else writePlain con c

/-- `console_putchar`, without the serial line. -/
def consolePutchar (con : Console) (target : ConsoleTarget) (c : U8) : Console :=
  if target ≠ .serial then writeLocalChar con c else con

/-- What `console_print_u32_dec` sends to `console_putchar`. -/
def u32Dec (value : U32) : CStr :=
  if value = 0 then cstr "0" else (Decimal.lowDigits 10 value).reverse

def hexNibble (value : U8) : U8 :=
  let value := value &&& 0x0F
  if value < 10 then chr '0' + value else chr 'A' + (value - 10)

/-- What `console_print_hex_u32` sends to `console_putchar`. -/
def u32Hex (value : U32) : CStr :=
  cstr "0x" ++ [28, 24, 20, 16, 12, 8, 4, 0].map fun shift =>
    hexNibble ((value >>> (shift : Nat) &&& 0x0F).setWidth 8)

end SlopOS.Kernel
