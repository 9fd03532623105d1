import SlopOS.Proofs.TextScreen
import SlopOS.Support.History
/-!
# The console on a framebuffer

Every cell is a rectangle of 8 by 16 pixels, and the cursor is a bar in its last two rows.
-/

namespace SlopOS.Proofs.PixelScreen

open SlopOS.Kernel SlopOS.Support SlopOS.Proofs.TextScreen

/-! ## Pictures -/

/-- The grids that `term_init_with_multiboot` admits. -/
structure FramebufferMode (con : Console) : Prop where
  backend : con.backend = .framebuffer
  cols : con.textCols = min maxConsoleCols (con.fbWidth / fontW % 65536)
  rows : con.textRows = min maxConsoleRows (con.fbHeight / cellH % 65536)

/-- Whether a pixel of a cell belongs to the glyph. -/
def inGlyph (c : U8) (dx dy : Nat) : Prop :=
  1 ≤ dx ∧ dx ≤ 5 ∧ 4 ≤ dy ∧ dy ≤ 10 ∧ ((glyphForChar c).getD (dy - 4) 0).testBit (5 - dx) = true

instance (c : U8) (dx dy : Nat) : Decidable (inGlyph c dx dy) :=
  inferInstanceAs (Decidable (_ ∧ _ ∧ _ ∧ _ ∧ _))

/-- The picture of a cell. -/
def cellPixel (cell : TextCell) (cursor : Bool) (dx dy : Nat) : U8 :=
  if inGlyph cell.char dx dy ∨ cursor = true ∧ 14 ≤ dy then cell.fg else cell.bg

def CellShown (con : Console) (row col : Nat) (cursor : Bool) : Prop :=
  ∀ dx < 8, ∀ dy < 16, con.pixels (col * 8 + dx) (row * 16 + dy) =
    cellPixel (con.text (textIndex con row col)) cursor dx dy

/-- Every cell of the grid shows its text, and the one at the cursor the bar. -/
structure Painted (con : Console) : Prop extends FramebufferMode con where
  row_lt : con.cursorRow < con.textRows
  col_lt : con.cursorCol < con.textCols
  cells : ∀ row < con.textRows, ∀ col < con.textCols,
    CellShown con row col (row = con.cursorRow ∧ col = con.cursorCol)

variable {con con' : Console} {px : Pixels} {x y w h n row col r k : Nat} {color fg : U8}
  {cursor : Bool} {c : U8}

/-! ## Drawing -/

theorem fillRow_eq (width : Nat) (px : Pixels) (x py : Nat) (color : U8) (n x' y' : Nat) :
    fbFillRow width px x py color n x' y' =
      if y' = py ∧ x ≤ x' ∧ x' < x + n ∧ x' < width then color else px x' y' := by
  induction n with
  | zero => rw [fbFillRow, if_neg (by omega)]
  | succ n ih =>
      rw [fbFillRow]
      split
      · rw [ih]
        apply if_congr _ rfl rfl
        omega
      · unfold setPixel
        by_cases hat : x' = x + n ∧ y' = py
        · rw [if_pos hat, if_pos (by omega)]
        · rw [if_neg hat, ih]
          apply if_congr _ rfl rfl
          omega

theorem fillRows_eq (width height : Nat) (px : Pixels) (x y w : Nat) (color : U8) (n x' y' : Nat) :
    fbFillRows width height px x y w color n x' y' =
      if (y ≤ y' ∧ y' < y + n ∧ y' < height) ∧ x ≤ x' ∧ x' < x + w ∧ x' < width then color
      else px x' y' := by
  induction n with
  | zero => rw [fbFillRows, if_neg (by omega)]
  | succ n ih =>
      rw [fbFillRows]
      split
      · rw [ih]
        apply if_congr _ rfl rfl
        omega
      · rw [fillRow_eq, ih]
        by_cases hat : y' = y + n ∧ x ≤ x' ∧ x' < x + w ∧ x' < width
        · rw [if_pos hat, if_pos (by omega)]
        · rw [if_neg hat]
          apply if_congr _ rfl rfl
          omega

def OnlyPixels (con con' : Console) : Prop := con' = { con with pixels := con'.pixels }

theorem OnlyPixels.trans {con'' : Console} (h : OnlyPixels con con') (h' : OnlyPixels con' con'') :
    OnlyPixels con con'' := by
  unfold OnlyPixels at *
  rw [h', h]

theorem OnlyPixels.backend (h : OnlyPixels con con') : con'.backend = con.backend := by rw [h]

theorem OnlyPixels.fbWidth (h : OnlyPixels con con') : con'.fbWidth = con.fbWidth := by rw [h]

theorem OnlyPixels.fbHeight (h : OnlyPixels con con') : con'.fbHeight = con.fbHeight := by rw [h]

theorem OnlyPixels.textRows (h : OnlyPixels con con') : con'.textRows = con.textRows := by rw [h]

theorem OnlyPixels.textCols (h : OnlyPixels con con') : con'.textCols = con.textCols := by rw [h]

theorem OnlyPixels.cursorRow (h : OnlyPixels con con') : con'.cursorRow = con.cursorRow := by rw [h]

theorem OnlyPixels.cursorCol (h : OnlyPixels con con') : con'.cursorCol = con.cursorCol := by rw [h]

theorem OnlyPixels.text (h : OnlyPixels con con') : con'.text = con.text := by rw [h]

theorem OnlyPixels.cellText (h : OnlyPixels con con') (r k : Nat) :
    con'.text (textIndex con' r k) = con.text (textIndex con r k) := by
  unfold textIndex
  rw [h.text, h.textCols]

theorem onlyPixels_fillRect : OnlyPixels con (fbFillRect con x y w h color) := rfl

theorem onlyPixels_glyphRow (x y bits : Nat) (fg : U8) (n : Nat) :
    OnlyPixels con (drawGlyphRow con x y bits fg n) := by
  induction n with
  | zero => rfl
  | succ n ih =>
      rw [drawGlyphRow]
      split
      · unfold putPixel
        split
        · exact ih
        · exact ih.trans rfl
      · exact ih

theorem onlyPixels_glyph (x y : Nat) (glyph : List Nat) (fg : U8) (n : Nat) :
    OnlyPixels con (drawGlyph con x y glyph fg n) := by
  induction n with
  | zero => rfl
  | succ n ih => exact ih.trans (onlyPixels_glyphRow ..)

theorem onlyPixels_drawCell (row col : Nat) (cursor : Bool) :
    OnlyPixels con (fbDrawCell con row col cursor) := by
  have hglyph : OnlyPixels con (drawGlyph (fbFillRect con (col * fontW) (row * cellH) fontW cellH
      (con.text (textIndex con row col)).bg) (col * fontW) (row * cellH)
      (glyphForChar (con.text (textIndex con row col)).char)
      (con.text (textIndex con row col)).fg 7) :=
    onlyPixels_fillRect.trans (onlyPixels_glyph ..)
  unfold fbDrawCell
  split
  · exact hglyph.trans rfl
  · exact hglyph

theorem onlyPixels_drawCursor (cursor : Bool) : OnlyPixels con (fbDrawCursor con cursor) := by
  unfold fbDrawCursor
  split
  · exact onlyPixels_drawCell ..
  · rfl

theorem onlyPixels_setCursor (row col : Nat) :
    OnlyPixels { con with cursorRow := row, cursorCol := col } (fbSetCursor con row col) := by
  have herased : OnlyPixels con (fbDrawCursor con false) := onlyPixels_drawCursor false
  unfold fbSetCursor
  generalize fbDrawCursor con false = erased at herased
  refine OnlyPixels.trans ?_ (onlyPixels_drawCursor true)
  rw [herased]
  rfl

/-! ### The pixels of a cell -/

theorem putPixel_pixels (hx : x < con.fbWidth) (hy : y < con.fbHeight) :
    (putPixel con x y color).pixels = setPixel con.pixels x y color := by
  unfold putPixel
  rw [if_neg (by omega)]

theorem glyphRow_pixels (hx : x + 8 ≤ con.fbWidth) (hy : y < con.fbHeight) (bits : Nat) (fg : U8)
    (hn : n ≤ 5) (x' y' : Nat) : (drawGlyphRow con x y bits fg n).pixels x' y' =
      if y' = y ∧ x + 1 ≤ x' ∧ x' < x + 1 + n ∧ bits.testBit (4 - (x' - (x + 1))) = true then fg
      else con.pixels x' y' := by
  induction n with
  | zero => rw [drawGlyphRow, if_neg (by omega)]
  | succ n ih =>
      have hsame : OnlyPixels con (drawGlyphRow con x y bits fg n) := onlyPixels_glyphRow ..
      have hwidth : (drawGlyphRow con x y bits fg n).fbWidth = con.fbWidth := hsame.fbWidth
      have hheight : (drawGlyphRow con x y bits fg n).fbHeight = con.fbHeight := hsame.fbHeight
      have hat : x + 1 + n - (x + 1) = n := by omega
      rw [drawGlyphRow]
      by_cases hbit : bits.testBit (4 - n) = true
      · rw [if_pos hbit, putPixel_pixels (by omega) (by omega)]
        unfold setPixel
        by_cases hlast : x' = x + 1 + n ∧ y' = y
        · rw [if_pos hlast, hlast.1, hat, if_pos ⟨hlast.2, by omega, by omega, hbit⟩]
        · rw [if_neg hlast, ih (by omega)]
          apply if_congr _ rfl rfl
          constructor
          · rintro ⟨hy', hlow, hhigh, hset⟩
            exact ⟨hy', hlow, by omega, hset⟩
          · rintro ⟨hy', hlow, hhigh, hset⟩
            exact ⟨hy', hlow, by omega, hset⟩
      · rw [if_neg hbit, ih (by omega)]
        apply if_congr _ rfl rfl
        constructor
        · rintro ⟨hy', hlow, hhigh, hset⟩
          exact ⟨hy', hlow, by omega, hset⟩
        · rintro ⟨hy', hlow, hhigh, hset⟩
          have hne : x' ≠ x + 1 + n := by
            intro heq
            rw [heq, hat] at hset
            exact hbit hset
          exact ⟨hy', hlow, by omega, hset⟩

theorem glyph_pixels (hx : x + 8 ≤ con.fbWidth) (hy : y + 16 ≤ con.fbHeight) (glyph : List Nat)
    (fg : U8) (hn : n ≤ 7) (x' y' : Nat) : (drawGlyph con x y glyph fg n).pixels x' y' =
      if (y + 4 ≤ y' ∧ y' < y + 4 + n) ∧ x + 1 ≤ x' ∧ x' < x + 6 ∧
        (glyph.getD (y' - (y + 4)) 0).testBit (4 - (x' - (x + 1))) = true then fg
      else con.pixels x' y' := by
  induction n with
  | zero => rw [drawGlyph, if_neg (by omega)]
  | succ n ih =>
      have hsame : OnlyPixels con (drawGlyph con x y glyph fg n) := onlyPixels_glyph ..
      have hwidth : (drawGlyph con x y glyph fg n).fbWidth = con.fbWidth := hsame.fbWidth
      have hheight : (drawGlyph con x y glyph fg n).fbHeight = con.fbHeight := hsame.fbHeight
      rw [drawGlyph, glyphRow_pixels (by omega) (by omega) _ _ le_rfl, ih (by omega)]
      by_cases hlast : y' = y + 4 + n
      · have hat : y' - (y + 4) = n := by omega
        have hout : ¬((y + 4 ≤ y' ∧ y' < y + 4 + n) ∧ x + 1 ≤ x' ∧ x' < x + 6 ∧
            (glyph.getD (y' - (y + 4)) 0).testBit (4 - (x' - (x + 1))) = true) := fun h => by
          have hlt := h.1.2
          omega
        rw [if_neg hout, hat]
        apply if_congr _ rfl rfl
        constructor
        · rintro ⟨hy', hrest⟩
          exact ⟨by omega, hrest⟩
        · rintro ⟨hy', hrest⟩
          exact ⟨hlast, hrest⟩
      · rw [if_neg (fun h => hlast h.1)]
        apply if_congr _ rfl rfl
        constructor
        · rintro ⟨hy', hrest⟩
          exact ⟨by omega, hrest⟩
        · rintro ⟨hy', hrest⟩
          exact ⟨by omega, hrest⟩

def InCell (row col x y : Nat) : Prop :=
  col * 8 ≤ x ∧ x < col * 8 + 8 ∧ row * 16 ≤ y ∧ y < row * 16 + 16

instance (row col x y : Nat) : Decidable (InCell row col x y) :=
  inferInstanceAs (Decidable (_ ∧ _ ∧ _ ∧ _))

theorem inGlyph_iff {x y x' y' : Nat} (hx : x ≤ x') (hy : y ≤ y') :
    ((y + 4 ≤ y' ∧ y' < y + 4 + 7) ∧ x + 1 ≤ x' ∧ x' < x + 6 ∧
      ((glyphForChar c).getD (y' - (y + 4)) 0).testBit (4 - (x' - (x + 1))) = true) ↔
      inGlyph c (x' - x) (y' - y) := by
  unfold inGlyph
  by_cases hlow : x + 1 ≤ x'
  · have hrow : y' - y - 4 = y' - (y + 4) := by omega
    have hbit : 5 - (x' - x) = 4 - (x' - (x + 1)) := by omega
    rw [hrow, hbit]
    constructor
    · rintro ⟨hrows, -, hcols, hset⟩
      exact ⟨by omega, by omega, by omega, by omega, hset⟩
    · rintro ⟨-, hcols, hrow4, hrow10, hset⟩
      exact ⟨by omega, hlow, by omega, hset⟩
  · refine iff_of_false (fun h => hlow h.2.1) fun h => ?_
    have hone := h.1
    omega

/-- A cell that is drawn is its picture, and the rest of the screen stays as it is. -/
theorem drawCell_pixels (hx : col * 8 + 8 ≤ con.fbWidth) (hy : row * 16 + 16 ≤ con.fbHeight)
    (cursor : Bool) (x' y' : Nat) : (fbDrawCell con row col cursor).pixels x' y' =
      if InCell row col x' y' then
        cellPixel (con.text (textIndex con row col)) cursor (x' - col * 8) (y' - row * 16)
      else con.pixels x' y' := by
  unfold fbDrawCell
  generalize con.text (textIndex con row col) = cell
  have hfill : (fbFillRect con (col * fontW) (row * cellH) fontW cellH cell.bg).pixels x' y' =
      if InCell row col x' y' then cell.bg else con.pixels x' y' := by
    refine (fillRows_eq ..).trans (if_congr ?_ rfl rfl)
    unfold InCell fontW cellH
    omega
  have hglyph : (drawGlyph (fbFillRect con (col * fontW) (row * cellH) fontW cellH cell.bg)
      (col * fontW) (row * cellH) (glyphForChar cell.char) cell.fg 7).pixels x' y' =
      if InCell row col x' y' then cellPixel cell false (x' - col * 8) (y' - row * 16)
      else con.pixels x' y' := by
    refine (glyph_pixels (by exact hx) (by exact hy) _ _ le_rfl x' y').trans ?_
    rw [hfill]
    by_cases hin : InCell row col x' y'
    · rw [if_pos hin, if_pos hin]
      refine if_congr ((inGlyph_iff hin.1 hin.2.2.1).trans ?_) rfl rfl
      exact (or_iff_left fun h => absurd h.1 (by decide)).symm
    · rw [if_neg hin, if_neg hin, if_neg]
      rintro ⟨hrows, hlow, hhigh, -⟩
      apply hin
      unfold InCell
      unfold fontW cellH at *
      omega
  have hsame : OnlyPixels con
      (drawGlyph (fbFillRect con (col * fontW) (row * cellH) fontW cellH cell.bg)
        (col * fontW) (row * cellH) (glyphForChar cell.char) cell.fg 7) :=
    onlyPixels_fillRect.trans (onlyPixels_glyph ..)
  dsimp only
  generalize drawGlyph (fbFillRect con (col * fontW) (row * cellH) fontW cellH cell.bg)
    (col * fontW) (row * cellH) (glyphForChar cell.char) cell.fg 7 = drawn at hglyph hsame
  cases cursor with
  | false => exact hglyph
  | true =>
      have hwidth : drawn.fbWidth = con.fbWidth := hsame.fbWidth
      have hheight : drawn.fbHeight = con.fbHeight := hsame.fbHeight
      rw [if_pos rfl]
      refine (fillRows_eq ..).trans ?_
      rw [hglyph, hwidth, hheight]
      by_cases hin : InCell row col x' y'
      · have hcell := hin
        unfold InCell at hcell
        rw [if_pos hin, if_pos hin]
        by_cases hbar : 14 ≤ y' - row * 16
        · rw [if_pos (by unfold fontW cellH; omega)]
          exact (if_pos (.inr ⟨rfl, hbar⟩)).symm
        · rw [if_neg (by unfold fontW cellH; omega)]
          refine if_congr (or_congr Iff.rfl ?_) rfl rfl
          exact iff_of_false (fun h => absurd h.1 (by decide)) fun h => hbar h.2
      · rw [if_neg hin, if_neg hin, if_neg]
        unfold InCell at hin
        unfold fontW cellH
        omega

/-! ## Cells -/

theorem OnlyPixels.mode (h : OnlyPixels con con') (hmode : FramebufferMode con) :
    FramebufferMode con' := by
  obtain ⟨hback, hcols, hrows⟩ := hmode
  rw [h]
  exact ⟨hback, hcols, hrows⟩

theorem col_fits (hmode : FramebufferMode con) (hcol : col < con.textCols) :
    col * 8 + 8 ≤ con.fbWidth := by
  have hcols := hmode.cols
  unfold fontW at hcols
  omega

theorem row_fits (hmode : FramebufferMode con) (hrow : row < con.textRows) :
    row * 16 + 16 ≤ con.fbHeight := by
  have hrows := hmode.rows
  unfold cellH at hrows
  omega

theorem shown_drawCell (hmode : FramebufferMode con) (hrow : row < con.textRows)
    (hcol : col < con.textCols) (cursor : Bool) :
    CellShown (fbDrawCell con row col cursor) row col cursor := by
  intro dx hdx dy hdy
  have hsame : OnlyPixels con (fbDrawCell con row col cursor) := onlyPixels_drawCell ..
  have hin : InCell row col (col * 8 + dx) (row * 16 + dy) := by
    unfold InCell
    omega
  rw [drawCell_pixels (col_fits hmode hcol) (row_fits hmode hrow), if_pos hin,
    hsame.cellText, Nat.add_sub_cancel_left, Nat.add_sub_cancel_left]

theorem pixels_drawCell (hmode : FramebufferMode con) (hrow : row < con.textRows)
    (hcol : col < con.textCols) (cursor : Bool) (hne : ¬(r = row ∧ k = col)) {dx dy : Nat}
    (hdx : dx < 8) (hdy : dy < 16) :
    (fbDrawCell con row col cursor).pixels (k * 8 + dx) (r * 16 + dy) =
      con.pixels (k * 8 + dx) (r * 16 + dy) := by
  rw [drawCell_pixels (col_fits hmode hcol) (row_fits hmode hrow), if_neg]
  unfold InCell
  omega

theorem other_drawCell {b : Bool} (hmode : FramebufferMode con) (hrow : row < con.textRows)
    (hcol : col < con.textCols) (cursor : Bool) (hne : ¬(r = row ∧ k = col))
    (h : CellShown con r k b) : CellShown (fbDrawCell con row col cursor) r k b := by
  intro dx hdx dy hdy
  have hsame : OnlyPixels con (fbDrawCell con row col cursor) := onlyPixels_drawCell ..
  rw [pixels_drawCell hmode hrow hcol cursor hne hdx hdy, hsame.cellText]
  exact h dx hdx dy hdy

/-- No cell but the one at the cursor shows a bar, and that one may show anything. -/
structure Ready (con : Console) : Prop extends FramebufferMode con where
  row_lt : con.cursorRow < con.textRows
  col_lt : con.cursorCol < con.textCols
  others : ∀ row < con.textRows, ∀ col < con.textCols,
    ¬(row = con.cursorRow ∧ col = con.cursorCol) → CellShown con row col false

structure Clean (con : Console) : Prop extends FramebufferMode con where
  row_lt : con.cursorRow < con.textRows
  col_lt : con.cursorCol < con.textCols
  cells : ∀ row < con.textRows, ∀ col < con.textCols, CellShown con row col false

theorem Painted.ready (h : Painted con) : Ready con where
  toFramebufferMode := h.toFramebufferMode
  row_lt := h.row_lt
  col_lt := h.col_lt
  others row hrow col hcol hne := by
    have hcell := h.cells row hrow col hcol
    rw [decide_eq_false hne] at hcell
    exact hcell

theorem Clean.ready (h : Clean con) : Ready con :=
  ⟨h.toFramebufferMode, h.row_lt, h.col_lt, fun row hrow col hcol _ => h.cells row hrow col hcol⟩

theorem Ready.drawn (h : Ready con) (cursor : Bool) :
    Ready (fbDrawCell con con.cursorRow con.cursorCol cursor) ∧
      CellShown (fbDrawCell con con.cursorRow con.cursorCol cursor) con.cursorRow con.cursorCol
        cursor := by
  have hsame : OnlyPixels con (fbDrawCell con con.cursorRow con.cursorCol cursor) :=
    onlyPixels_drawCell ..
  have hmode := hsame.mode h.toFramebufferMode
  have hother := fun row hrow col hcol hne => other_drawCell h.toFramebufferMode h.row_lt h.col_lt
    cursor hne (h.others row hrow col hcol hne)
  refine ⟨?_, shown_drawCell h.toFramebufferMode h.row_lt h.col_lt cursor⟩
  generalize fbDrawCell con con.cursorRow con.cursorCol cursor = drawn at hsame hmode hother
  have hrow : drawn.cursorRow = con.cursorRow := hsame.cursorRow
  have hcol : drawn.cursorCol = con.cursorCol := hsame.cursorCol
  have hrows : drawn.textRows = con.textRows := hsame.textRows
  have hcols : drawn.textCols = con.textCols := hsame.textCols
  refine ⟨hmode, ?_, ?_, ?_⟩
  · rw [hrow, hrows]
    exact h.row_lt
  · rw [hcol, hcols]
    exact h.col_lt
  · rw [hrow, hcol, hrows, hcols]
    exact hother

theorem drawCursor_eq (h : Ready con) (cursor : Bool) :
    fbDrawCursor con cursor = fbDrawCell con con.cursorRow con.cursorCol cursor :=
  if_pos ⟨h.row_lt, h.col_lt⟩

theorem Ready.painted (h : Ready con) :
    Painted (fbDrawCell con con.cursorRow con.cursorCol true) := by
  have hsame : OnlyPixels con (fbDrawCell con con.cursorRow con.cursorCol true) :=
    onlyPixels_drawCell ..
  obtain ⟨hready, hshown⟩ := h.drawn true
  generalize fbDrawCell con con.cursorRow con.cursorCol true = drawn at hsame hready hshown
  have hrow : drawn.cursorRow = con.cursorRow := hsame.cursorRow
  have hcol : drawn.cursorCol = con.cursorCol := hsame.cursorCol
  rw [← hrow, ← hcol] at hshown
  refine ⟨hready.toFramebufferMode, hready.row_lt, hready.col_lt, fun row hrow col hcol => ?_⟩
  by_cases hat : row = drawn.cursorRow ∧ col = drawn.cursorCol
  · rw [decide_eq_true hat, hat.1, hat.2]
    exact hshown
  · rw [decide_eq_false hat]
    exact hready.others row hrow col hcol hat

theorem Ready.clean (h : Ready con) : Clean (fbDrawCell con con.cursorRow con.cursorCol false) := by
  have hsame : OnlyPixels con (fbDrawCell con con.cursorRow con.cursorCol false) :=
    onlyPixels_drawCell ..
  obtain ⟨hready, hshown⟩ := h.drawn false
  generalize fbDrawCell con con.cursorRow con.cursorCol false = drawn at hsame hready hshown
  have hrow : drawn.cursorRow = con.cursorRow := hsame.cursorRow
  have hcol : drawn.cursorCol = con.cursorCol := hsame.cursorCol
  rw [← hrow, ← hcol] at hshown
  refine ⟨hready.toFramebufferMode, hready.row_lt, hready.col_lt, fun row hrow col hcol => ?_⟩
  by_cases hat : row = drawn.cursorRow ∧ col = drawn.cursorCol
  · rw [hat.1, hat.2]
    exact hshown
  · exact hready.others row hrow col hcol hat

/-! ## Redrawing -/

/-- The cells of a row up to `n` are drawn, and the other rows stay. -/
theorem redrawRow_spec (hmode : FramebufferMode con) (hrow : row < con.textRows)
    (hn : n ≤ con.textCols) : OnlyPixels con (fbRedrawRow con row n) ∧
      (∀ col < n, CellShown (fbRedrawRow con row n) row col
        (row = con.cursorRow ∧ col = con.cursorCol)) ∧
      ∀ r k b, r ≠ row → CellShown con r k b → CellShown (fbRedrawRow con row n) r k b := by
  induction n with
  | zero => exact ⟨rfl, fun col hcol => absurd hcol (Nat.not_lt_zero col), fun r k b _ h => h⟩
  | succ n ih =>
      obtain ⟨hsame, hdrawn, hother⟩ := ih (by omega)
      rw [fbRedrawRow]
      generalize fbRedrawRow con row n = part at hsame hdrawn hother
      have hmode' := hsame.mode hmode
      have hcursorRow : part.cursorRow = con.cursorRow := hsame.cursorRow
      have hcursorCol : part.cursorCol = con.cursorCol := hsame.cursorCol
      have hrow' : row < part.textRows := by
        rw [hsame.textRows]
        exact hrow
      have hcol' : n < part.textCols := by
        rw [hsame.textCols]
        exact hn
      rw [hcursorRow, hcursorCol]
      refine ⟨hsame.trans (onlyPixels_drawCell ..), fun col hcol => ?_, fun r k b hne h => ?_⟩
      · by_cases hlast : col = n
        · rw [hlast]
          exact shown_drawCell hmode' hrow' hcol' _
        · exact other_drawCell hmode' hrow' hcol' _ (fun h => hlast h.2) (hdrawn col (by omega))
      · exact other_drawCell hmode' hrow' hcol' _ (fun h => hne h.1) (hother r k b hne h)

theorem redrawRows_spec (hmode : FramebufferMode con) (hn : n ≤ con.textRows) :
    OnlyPixels con (fbRedrawRows con n) ∧ ∀ row < n, ∀ col < con.textCols,
      CellShown (fbRedrawRows con n) row col (row = con.cursorRow ∧ col = con.cursorCol) := by
  induction n with
  | zero => exact ⟨rfl, fun row hrow => absurd hrow (Nat.not_lt_zero row)⟩
  | succ n ih =>
      obtain ⟨hsame, hdrawn⟩ := ih (by omega)
      rw [fbRedrawRows]
      generalize fbRedrawRows con n = part at hsame hdrawn
      have hcursorRow : part.cursorRow = con.cursorRow := hsame.cursorRow
      have hcursorCol : part.cursorCol = con.cursorCol := hsame.cursorCol
      have hcols : part.textCols = con.textCols := hsame.textCols
      have hrow : n < part.textRows := by
        rw [hsame.textRows]
        exact hn
      obtain ⟨hsame', hlast, hother⟩ := redrawRow_spec (hsame.mode hmode) hrow le_rfl
      rw [hcols] at hsame' hlast hother
      rw [hcursorRow, hcursorCol] at hlast
      refine ⟨hsame.trans hsame', fun row hrow col hcol => ?_⟩
      by_cases hat : row = n
      · rw [hat]
        exact hlast col hcol
      · exact hother row col _ hat (hdrawn row (by omega) col hcol)

theorem painted_redrawAll (hmode : FramebufferMode con) (hrow : con.cursorRow < con.textRows)
    (hcol : con.cursorCol < con.textCols) : Painted (fbRedrawAll con) := by
  obtain ⟨hsame, hcells⟩ := redrawRows_spec hmode le_rfl
  unfold fbRedrawAll
  generalize fbRedrawRows con con.textRows = drawn at hsame hcells
  have hcursorRow : drawn.cursorRow = con.cursorRow := hsame.cursorRow
  have hcursorCol : drawn.cursorCol = con.cursorCol := hsame.cursorCol
  have hrows : drawn.textRows = con.textRows := hsame.textRows
  have hcols : drawn.textCols = con.textCols := hsame.textCols
  refine ⟨hsame.mode hmode, ?_, ?_, ?_⟩
  · rw [hcursorRow, hrows]
    exact hrow
  · rw [hcursorCol, hcols]
    exact hcol
  · rw [hcursorRow, hcursorCol, hrows, hcols]
    exact hcells

/-! ## A character on the framebuffer -/

theorem framebuffer_branch {con a b : Console} (h : con.backend = .framebuffer) :
    (if con.backend = .framebuffer then a else b) = a := if_pos h

theorem Clean.moved (h : Clean con) (hrow : row < con.textRows) (hcol : col < con.textCols) :
    Clean { con with cursorRow := row, cursorCol := col } :=
  ⟨⟨h.backend, h.cols, h.rows⟩, hrow, hcol, h.cells⟩

theorem index_inj {cols : Nat} (hk : k < cols) (hcol : col < cols)
    (h : r * cols + k = row * cols + col) : r = row ∧ k = col := by
  have hpos : 0 < cols := by omega
  have hr : (r * cols + k) / cols = r := by
    rw [Nat.mul_comm, Nat.mul_add_div hpos, Nat.div_eq_of_lt hk, Nat.add_zero]
  have hrow : (row * cols + col) / cols = row := by
    rw [Nat.mul_comm, Nat.mul_add_div hpos, Nat.div_eq_of_lt hcol, Nat.add_zero]
  rw [h, hrow] at hr
  subst hr
  exact ⟨rfl, by omega⟩

theorem text_putCell (hcol : con.cursorCol < con.textCols) (hk : k < con.textCols)
    (hne : ¬(r = con.cursorRow ∧ k = con.cursorCol)) :
    (putCell con c).text (textIndex (putCell con c) r k) = con.text (textIndex con r k) :=
  Function.update_of_ne (fun h => hne (index_inj hk hcol h)) _ _

theorem Ready.putCell (h : Ready con) (c : U8) : Ready (putCell con c) := by
  refine ⟨⟨h.backend, h.cols, h.rows⟩, h.row_lt, h.col_lt, fun row hrow col hcol hne => ?_⟩
  intro dx hdx dy hdy
  rw [text_putCell h.col_lt hcol hne]
  exact h.others row hrow col hcol hne dx hdx dy hdy

/-- In the next row the text may scroll, and then all is drawn again. -/
theorem Clean.nextRow (h : Clean con) : Ready (nextRow con) := by
  have hrow := h.row_lt
  have hcol := h.col_lt
  have hrows := h.rows
  unfold maxConsoleRows at hrows
  have hnext : (con.cursorRow + 1) % 65536 = con.cursorRow + 1 := Nat.mod_eq_of_lt (by omega)
  unfold Kernel.nextRow
  rw [hnext]
  by_cases hlast : con.cursorRow + 1 < con.textRows
  · rw [scroll_none hlast]
    exact (h.moved hlast (by omega)).ready
  · unfold termScrollIfNeeded
    rw [if_neg hlast]
    dsimp only
    rw [if_pos h.backend]
    apply Painted.ready
    apply painted_redrawAll
    · exact ⟨h.backend, h.cols, h.rows⟩
    · exact (by omega : con.textRows - 1 < con.textRows)
    · exact (by omega : 0 < con.textCols)

theorem painted_newline (h : Painted con) : Painted (writeNewline con) := by
  have hclean := h.ready.clean
  rw [← drawCursor_eq h.ready] at hclean
  have hready := hclean.nextRow
  unfold writeNewline
  rw [framebuffer_branch h.backend]
  dsimp only
  rw [framebuffer_branch hready.backend, drawCursor_eq hready]
  exact hready.painted

theorem painted_return (h : Painted con) : Painted (writeReturn con) := by
  have hcol := h.col_lt
  have hclean := h.ready.clean
  rw [← drawCursor_eq h.ready] at hclean
  have hready := (hclean.moved hclean.row_lt (Nat.zero_lt_of_lt hclean.col_lt)).ready
  unfold writeReturn
  rw [framebuffer_branch h.backend]
  refine Eq.subst ?_ hready.painted
  rw [← drawCursor_eq hready]
  exact (framebuffer_branch hready.backend).symm

theorem setCursor_same (h : Ready con) : fbSetCursor con con.cursorRow con.cursorCol =
    fbDrawCursor (fbDrawCursor con false) true := by
  have hsame : OnlyPixels con (fbDrawCell con con.cursorRow con.cursorCol false) :=
    onlyPixels_drawCell ..
  unfold fbSetCursor
  rw [drawCursor_eq h]
  generalize fbDrawCell con con.cursorRow con.cursorCol false = drawn at hsame
  have hrow : con.cursorRow = drawn.cursorRow := hsame.cursorRow.symm
  have hcol : con.cursorCol = drawn.cursorCol := hsame.cursorCol.symm
  rw [hrow, hcol]

theorem Clean.nextCol (h : Clean con) : Ready (nextCol con) := by
  have hcol := h.col_lt
  have hcols := h.cols
  unfold maxConsoleCols at hcols
  have hnext : (con.cursorCol + 1) % 65536 = con.cursorCol + 1 := Nat.mod_eq_of_lt (by omega)
  unfold Kernel.nextCol
  rw [hnext]
  by_cases hend : con.textCols ≤ con.cursorCol + 1
  · rw [if_pos hend]
    exact h.nextRow
  · rw [if_neg hend]
    exact (h.moved h.row_lt (Nat.not_le.mp hend)).ready

theorem showCell_eq (h : con.backend = .framebuffer) :
    showCell con c = fbDrawCell con con.cursorRow con.cursorCol false := framebuffer_branch h

theorem painted_plain (h : Painted con) (c : U8) : Painted (writePlain con c) := by
  have hput := h.ready.putCell c
  have hclean := hput.clean
  rw [← showCell_eq (c := c) hput.backend] at hclean
  have hready := hclean.nextCol
  unfold writePlain
  generalize Kernel.nextCol (showCell (Kernel.putCell con c) c) = next at hready
  have hclean' := hready.clean
  rw [← drawCursor_eq hready] at hclean'
  dsimp only
  rw [framebuffer_branch hready.backend, setCursor_same hready, drawCursor_eq hclean'.ready]
  exact hclean'.ready.painted

/-- In front of the last column a character moves the cursor by one. -/
theorem plain_cells (h : Painted con) (hcol : con.cursorCol + 1 < con.textCols) :
    OnlyPixels { putCell con c with cursorCol := con.cursorCol + 1 } (writePlain con c) := by
  have hcols := h.cols
  unfold maxConsoleCols at hcols
  have hsmall : con.cursorCol + 1 < 65536 := by omega
  have hsame : OnlyPixels (Kernel.putCell con c) (fbDrawCell (Kernel.putCell con c)
      (Kernel.putCell con c).cursorRow (Kernel.putCell con c).cursorCol false) :=
    onlyPixels_drawCell ..
  unfold writePlain
  rw [showCell_eq (h.ready.putCell c).backend]
  generalize fbDrawCell (Kernel.putCell con c) (Kernel.putCell con c).cursorRow
    (Kernel.putCell con c).cursorCol false = drawn at hsame
  have hnext : Kernel.nextCol drawn = { drawn with cursorCol := con.cursorCol + 1 } := by
    have hstep : (drawn.cursorCol + 1) % 65536 = con.cursorCol + 1 := by
      rw [hsame.cursorCol]
      exact Nat.mod_eq_of_lt hsmall
    have hwide : ¬drawn.textCols ≤ con.cursorCol + 1 := by
      rw [hsame.textCols]
      exact Nat.not_le.mpr hcol
    unfold Kernel.nextCol
    rw [hstep]
    exact if_neg hwide
  have hback : drawn.backend = .framebuffer := hsame.backend.trans h.backend
  rw [hnext]
  dsimp only
  rw [framebuffer_branch hback]
  refine OnlyPixels.trans ?_ (onlyPixels_setCursor ..)
  rw [hsame]
  rfl

/-! ### Backspaces -/

def NoBar (con : Console) : Prop :=
  (con.text (textIndex con con.cursorRow con.cursorCol)).fg =
    (con.text (textIndex con con.cursorRow con.cursorCol)).bg

theorem cellPixel_plain {cell : TextCell} (h : cell.fg = cell.bg) (cursor : Bool) (dx dy : Nat) :
    cellPixel cell cursor dx dy = cell.bg := by
  unfold cellPixel
  rw [h, ite_self]

/-- The cursor has moved back, and its old cell is no different without it. -/
theorem ready_back (h : Painted con) (hbar : NoBar con) :
    Ready { con with cursorCol := con.cursorCol - 1 } := by
  have hcol := h.col_lt
  refine ⟨⟨h.backend, h.cols, h.rows⟩, h.row_lt,
    (by omega : con.cursorCol - 1 < con.textCols), fun row hrow col hcol hne => ?_⟩
  intro dx hdx dy hdy
  have hcell := h.cells row hrow col hcol dx hdx dy hdy
  by_cases hat : row = con.cursorRow ∧ col = con.cursorCol
  · have hplain : (con.text (textIndex con row col)).fg =
        (con.text (textIndex con row col)).bg := by
      rw [hat.1, hat.2]
      exact hbar
    rw [cellPixel_plain hplain] at hcell
    exact hcell.trans (cellPixel_plain hplain _ dx dy).symm
  · rw [decide_eq_false hat] at hcell
    exact hcell

theorem backspace_eq (h : Painted con) (hpos : 0 < con.cursorCol) : writeBackspace con =
    fbDrawCell (putCell { con with cursorCol := con.cursorCol - 1 } (chr ' ')) con.cursorRow
      (con.cursorCol - 1) true := by
  unfold writeBackspace
  rw [if_pos hpos]
  exact framebuffer_branch h.backend

theorem cellPixel_bar (cell : TextCell) (cursor : Bool) :
    cellPixel cell cursor 0 14 = if cursor = true then cell.fg else cell.bg := by
  apply if_congr _ rfl rfl
  constructor
  · rintro (⟨hleft, -⟩ | ⟨hcursor, -⟩)
    · exact absurd hleft (by decide)
    · exact hcursor
  · intro hcursor
    exact .inr ⟨hcursor, le_rfl⟩

/-- A painted cell that is not at the cursor any more has lost its bar. -/
theorem noBar_of_painted (h : Painted con) (hpos : 0 < con.cursorCol)
    (hafter : Painted (fbDrawCell (putCell { con with cursorCol := con.cursorCol - 1 } c)
      con.cursorRow (con.cursorCol - 1) true)) : NoBar con := by
  have hcol := h.col_lt
  have hleft : ¬(con.cursorRow = con.cursorRow ∧ con.cursorCol = con.cursorCol - 1) := by omega
  have hbefore := h.cells _ h.row_lt _ h.col_lt 0 (by decide) 14 (by decide)
  rw [decide_eq_true ⟨rfl, rfl⟩, cellPixel_bar, if_pos rfl] at hbefore
  have htext : (putCell { con with cursorCol := con.cursorCol - 1 } c).text
      (textIndex (putCell { con with cursorCol := con.cursorCol - 1 } c) con.cursorRow
        con.cursorCol) = con.text (textIndex con con.cursorRow con.cursorCol) :=
    text_putCell (by omega : con.cursorCol - 1 < con.textCols) h.col_lt hleft
  have hback : FramebufferMode (putCell { con with cursorCol := con.cursorCol - 1 } c) :=
    ⟨h.backend, h.cols, h.rows⟩
  have hpixel : (fbDrawCell (putCell { con with cursorCol := con.cursorCol - 1 } c) con.cursorRow
      (con.cursorCol - 1) true).pixels (con.cursorCol * 8 + 0) (con.cursorRow * 16 + 14) =
      con.pixels (con.cursorCol * 8 + 0) (con.cursorRow * 16 + 14) :=
    pixels_drawCell hback h.row_lt (by omega : con.cursorCol - 1 < con.textCols) true hleft
      (by decide) (by decide)
  have hsame : OnlyPixels (putCell { con with cursorCol := con.cursorCol - 1 } c)
      (fbDrawCell (putCell { con with cursorCol := con.cursorCol - 1 } c) con.cursorRow
        (con.cursorCol - 1) true) := onlyPixels_drawCell ..
  generalize fbDrawCell (putCell { con with cursorCol := con.cursorCol - 1 } c) con.cursorRow
    (con.cursorCol - 1) true = drawn at hafter hpixel hsame
  have hrows : con.cursorRow < drawn.textRows := by
    rw [hsame.textRows]
    exact h.row_lt
  have hcols : con.cursorCol < drawn.textCols := by
    rw [hsame.textCols]
    exact hcol
  have hnew : drawn.cursorCol = con.cursorCol - 1 := hsame.cursorCol
  have hcell := hafter.cells _ hrows _ hcols 0 (by decide) 14 (by decide)
  have htext' : drawn.text (textIndex drawn con.cursorRow con.cursorCol) =
      con.text (textIndex con con.cursorRow con.cursorCol) :=
    (hsame.cellText con.cursorRow con.cursorCol).trans htext
  have hgone : ¬(con.cursorRow = drawn.cursorRow ∧ con.cursorCol = drawn.cursorCol) := by omega
  rw [decide_eq_false hgone, cellPixel_bar, if_neg (by decide), htext'] at hcell
  exact (hbefore.symm.trans hpixel.symm).trans hcell

theorem painted_backspace (h : Painted con) :
    Painted (writeBackspace con) ↔ (0 < con.cursorCol → NoBar con) := by
  by_cases hpos : 0 < con.cursorCol
  · rw [backspace_eq h hpos]
    constructor
    · intro hafter _
      exact noBar_of_painted h hpos hafter
    · intro hbar
      exact ((ready_back h (hbar hpos)).putCell (chr ' ')).painted
  · have hstay : writeBackspace con = con := if_neg hpos
    rw [hstay]
    exact iff_of_true h fun hp => absurd hp hpos

/-! ## Runs -/

/-- No backspace leaves a visible bar. -/
def Quiet (con : Console) : ConsoleEvent → Prop
  | .putchar target c => target ≠ .serial → c = 8 → 0 < con.cursorCol → NoBar con
  | .setColor _ _ => True

theorem painted_write (h : Painted con) (c : U8) :
    Painted (writeLocalChar con c) ↔ (c = 8 → 0 < con.cursorCol → NoBar con) := by
  unfold writeLocalChar
  by_cases hnewline : c = chr '\n'
  · rw [if_pos hnewline]
    exact iff_of_true (painted_newline h) fun hback =>
      absurd (hback.symm.trans hnewline) (by decide)
  · rw [if_neg hnewline]
    by_cases hreturn : c = 13
    · rw [if_pos hreturn]
      exact iff_of_true (painted_return h) fun hback =>
        absurd (hback.symm.trans hreturn) (by decide)
    · rw [if_neg hreturn]
      by_cases hback : c = 8
      · rw [if_pos hback]
        exact (painted_backspace h).trans (imp_iff_right hback).symm
      · rw [if_neg hback]
        exact iff_of_true (painted_plain h c) fun h => absurd h hback

theorem painted_step_iff (h : Painted con) (e : ConsoleEvent) :
    Painted (consoleStep con e) ↔ Quiet con e := by
  cases e with
  | putchar target c =>
      by_cases hserial : target = .serial
      · have hstay : consoleStep con (.putchar target c) = con := if_neg fun hne => hne hserial
        rw [hstay]
        exact iff_of_true h fun hne => absurd hserial hne
      · have hstep : consoleStep con (.putchar target c) = writeLocalChar con c := if_pos hserial
        rw [hstep]
        exact (painted_write h c).trans (imp_iff_right hserial).symm
  | setColor fg bg =>
      have hmode : FramebufferMode (termSetColor con fg bg) := ⟨h.backend, h.cols, h.rows⟩
      exact iff_of_true ⟨hmode, h.row_lt, h.col_lt, h.cells⟩ trivial

def blanked (con : Console) : Console :=
  { fbFillRect
      { con with
        text := fillFrom con.text 0 (inColor con (chr ' ')) (con.textCols * con.textRows) }
      0 0 con.fbWidth con.fbHeight con.currentBg with
    cursorRow := 0
    cursorCol := 0 }

theorem blanked_text (h : n < con.textCols * con.textRows) :
    (blanked con).text n = inColor con (chr ' ') :=
  (fillFrom_eq ..).trans (if_pos (by omega))

theorem first_cell (h : OnlyPixels (blanked con) con') :
    textIndex con' con'.cursorRow con'.cursorCol = 0 := by
  unfold textIndex
  rw [h.cursorRow, h.cursorCol]
  exact Nat.zero_mul con'.textCols

theorem FramebufferMode.blanked (hmode : FramebufferMode con) : FramebufferMode (blanked con) :=
  ⟨hmode.backend, hmode.cols, hmode.rows⟩

theorem clear_pixels (hmode : FramebufferMode con) : termClear con = fbRedrawAll (blanked con) := by
  unfold termClear
  dsimp only
  rw [framebuffer_branch hmode.backend]
  exact framebuffer_branch hmode.backend

theorem painted_clear_iff (hmode : FramebufferMode con) :
    Painted (termClear con) ↔ 0 < con.textCols ∧ 0 < con.textRows := by
  have hblank := hmode.blanked
  rw [clear_pixels hmode]
  constructor
  · intro h
    have hsame : OnlyPixels (blanked con) (fbRedrawAll (blanked con)) :=
      (redrawRows_spec hblank le_rfl).1
    have hrow := h.row_lt
    have hcol := h.col_lt
    rw [hsame.cursorRow, hsame.textRows] at hrow
    rw [hsame.cursorCol, hsame.textCols] at hcol
    exact ⟨hcol, hrow⟩
  · rintro ⟨hcols, hrows⟩
    exact painted_redrawAll hblank hrows hcols

theorem run_concat (con : Console) (es : List ConsoleEvent) (e : ConsoleEvent) :
    consoleRun con (es ++ [e]) = consoleStep (consoleRun con es) e := by
  unfold consoleRun
  rw [List.foldl_append]
  rfl

theorem painted_run (h : Painted con) (es : List ConsoleEvent) :
    (∀ front, front <+: es → Painted (consoleRun con front)) ↔
      History.Each (fun front e => Quiet (consoleRun con front) e) es := by
  induction es using List.reverseRecOn with
  | nil =>
      refine iff_of_true (fun front hfront => ?_) History.each_nil
      rw [List.prefix_nil.mp hfront]
      exact h
  | append_singleton es e ih =>
      rw [History.each_append_singleton, ← ih]
      constructor
      · intro hall
        have hlast := hall _ (List.prefix_refl _)
        rw [run_concat, painted_step_iff (hall es (List.prefix_append es [e]))] at hlast
        exact ⟨fun front hfront => hall front (hfront.trans (List.prefix_append es [e])), hlast⟩
      · rintro ⟨hall, hquiet⟩ front hfront
        rcases List.prefix_concat_iff.mp hfront with rfl | hbefore
        · rw [run_concat, painted_step_iff (hall es (List.prefix_refl es))]
          exact hquiet
        · exact hall front hbefore

theorem bar_left (h : Painted con) (hwide : con.cursorCol + 1 < con.textCols)
    (hseen : (con.text (textIndex con con.cursorRow con.cursorCol + 1)).fg ≠
      (con.text (textIndex con con.cursorRow con.cursorCol + 1)).bg) :
    ¬Painted (consoleRun con [.putchar .both (chr 'a'), .putchar .both 8]) := by
  have hcells := plain_cells (c := chr 'a') h hwide
  have hfirst : Painted (writePlain con (chr 'a')) := painted_plain h (chr 'a')
  intro hafter
  change Painted (consoleStep (writePlain con (chr 'a')) (.putchar .both 8)) at hafter
  have hquiet := (painted_step_iff hfirst _).mp hafter (by decide) rfl
  generalize writePlain con (chr 'a') = typed at hcells hquiet
  have hpos : 0 < typed.cursorCol := by
    rw [hcells.cursorCol]
    exact Nat.succ_pos _
  have hindex : textIndex typed typed.cursorRow typed.cursorCol =
      textIndex con con.cursorRow con.cursorCol + 1 := by
    rw [hcells]
    rfl
  have htext : typed.text = Function.update con.text (textIndex con con.cursorRow con.cursorCol)
      (inColor con (chr 'a')) := hcells.text
  have hbar := hquiet hpos
  unfold NoBar at hbar
  rw [hindex, htext, Function.update_of_ne (by omega)] at hbar
  exact hseen hbar

theorem framebufferMode_init {mbi : Option MultibootVideo} {magic : U32}
    (h : (termInitWithMultiboot con mbi magic).backend = .framebuffer) :
    FramebufferMode (termInitWithMultiboot con mbi magic) := by
  have htext : ∀ {a : Console}, a.backend = .vgaText → a.backend ≠ .framebuffer := by
    intro a ha
    rw [ha]
    decide
  cases mbi with
  | none => exact absurd h (htext rfl)
  | some mbi =>
      dsimp only [termInitWithMultiboot] at h ⊢
      by_cases hflags : magic ≠ multibootMagic ∨ mbi.flags &&& (1 <<< 12) = 0
      · rw [if_pos hflags] at h
        exact absurd h (htext rfl)
      rw [if_neg hflags] at h ⊢
      by_cases htype : mbi.framebufferType ≠ 1
      · rw [if_pos htype] at h
        exact absurd h (htext rfl)
      rw [if_neg htype] at h ⊢
      by_cases hbpp : mbi.framebufferBpp ≠ 24 ∧ mbi.framebufferBpp ≠ 32
      · rw [if_pos hbpp] at h
        exact absurd h (htext rfl)
      rw [if_neg hbpp] at h ⊢
      by_cases hsmall : mbi.framebufferWidth.toNat < fontW ∨ mbi.framebufferHeight.toNat < cellH
      · rw [if_pos hsmall] at h
        exact absurd h (htext rfl)
      rw [if_neg hsmall]
      exact ⟨rfl, (min_def_lt ..).symm, (min_def_lt ..).symm⟩

/-- From a cleared screen on, every cell shows its text and the cell at the cursor alone a bar, as
long as there is a cell and no backspace leaves a bar behind. -/
theorem painted_iff (con : Console) (hmode : FramebufferMode con) (es : List ConsoleEvent) :
    (∀ front, front <+: es → Painted (consoleRun (termClear con) front)) ↔
      (0 < con.textCols ∧ 0 < con.textRows) ∧
        History.Each (fun front e => Quiet (consoleRun (termClear con) front) e) es := by
  rw [← painted_clear_iff hmode]
  constructor
  · intro hall
    have hclear : Painted (termClear con) := hall [] List.nil_prefix
    exact ⟨hclear, (painted_run hclear es).mp hall⟩
  · rintro ⟨hclear, hquiet⟩
    exact (painted_run hclear es).mpr hquiet

def bootVideo : MultibootVideo where
  flags := 1 <<< 12
  memLower := 0
  memUpper := 0
  framebufferWidth := 640
  framebufferHeight := 480
  framebufferBpp := 32
  framebufferType := 1

def bootScreen : Console := termInitWithMultiboot bootConsole (some bootVideo) multibootMagic

theorem bootScreen_mode : FramebufferMode bootScreen := framebufferMode_init rfl

theorem painted_demo : Painted
    (consoleRun (termClear bootScreen) [.putchar .both (chr 'a'), .putchar .vga 13]) :=
  (painted_iff bootScreen bootScreen_mode [.putchar .both (chr 'a'), .putchar .vga 13]).mpr
    ⟨by decide, History.each_cons.mpr ⟨fun _ h => absurd h (by decide),
      History.each_cons.mpr ⟨fun _ h => absurd h (by decide), History.each_nil⟩⟩⟩
    [.putchar .both (chr 'a'), .putchar .vga 13] (List.prefix_refl _)

theorem not_painted_backspace : ¬Painted
    (consoleRun (termClear bootScreen) [.putchar .both (chr 'a'), .putchar .both 8]) := by
  have hclear : Painted (termClear bootScreen) :=
    (painted_clear_iff bootScreen_mode).mpr (by decide)
  have hsame : OnlyPixels (blanked bootScreen) (termClear bootScreen) := by
    rw [clear_pixels bootScreen_mode]
    exact (redrawRows_spec bootScreen_mode.blanked le_rfl).1
  have hsize : 1 < bootScreen.textCols * bootScreen.textRows := by decide
  apply bar_left hclear
  · rw [hsame.cursorCol, hsame.textCols]
    exact (by decide : 0 + 1 < bootScreen.textCols)
  · rw [first_cell hsame, hsame.text, Nat.zero_add, blanked_text hsize]
    decide

end SlopOS.Proofs.PixelScreen
