import Mathlib.Data.List.GetD
import SlopOS.Kernel.Console
/-!
# The console in text mode

The screen is there twice, as text and as VGA memory.  Both are changed one cell at a time, and as a
whole where the text scrolls.
-/

namespace SlopOS.Proofs.TextScreen

open SlopOS.Kernel

/-! ## Runs -/

inductive ConsoleEvent
  | putchar (target : ConsoleTarget) (c : U8)
  | setColor (fg bg : U8)
deriving DecidableEq

def consoleStep (con : Console) : ConsoleEvent → Console
  | .putchar target c => consolePutchar con target c
  | .setColor fg bg => termSetColor con fg bg

def consoleRun (con : Console) (es : List ConsoleEvent) : Console := es.foldl consoleStep con

/-- The characters that are sent to the screen. -/
def shown : List ConsoleEvent → CStr
  | [] => []
  | .putchar target c :: es => if target ≠ .serial then c :: shown es else shown es
  | .setColor _ _ :: es => shown es

/-! ## What the screen shows -/

structure TextMode (con : Console) : Prop where
  backend : con.backend = .vgaText
  cols : con.textCols = 80
  rows : con.textRows = 25

/-- Both screens are the same, with the cursor in the grid. -/
structure CellsAgree (con : Console) : Prop extends TextMode con where
  row_lt : con.cursorRow < 25
  col_lt : con.cursorCol < 80
  cells : ∀ i < 25 * 80, con.vga i = vgaWord (con.text i)

/-- The registers of the hardware cursor agree too. -/
structure Agrees (con : Console) : Prop extends CellsAgree con where
  low : con.crtc 15 = (con.cursorRow * 80 + con.cursorCol) % 256
  high : con.crtc 14 = (con.cursorRow * 80 + con.cursorCol) / 256

/-- The rows of a stream, broken at newlines and at every 80th column; `cur` is the row begun. -/
def breakRows (cur : CStr) : CStr → List CStr
  | [] => [cur]
  | c :: s =>
    if c = chr '\n' then cur :: breakRows [] s
    else if cur.length + 1 = 80 then (cur ++ [c]) :: breakRows [] s
    else breakRows (cur ++ [c]) s

/-- The character in a cell of the last 25 rows, padded with blanks. -/
def screenChar (rows : List CStr) (r k : Nat) : U8 :=
  (rows.getD (rows.length - 25 + r) []).getD k (chr ' ')

/-- The text begins with the rows `done` and goes on with `cur`, which is at row `row` of the grid. -/
structure Content (text : Nat → TextCell) (done : List CStr) (cur : CStr) (row : Nat) : Prop where
  row_eq : row = min done.length 24
  chars : ∀ r < 25, ∀ k < 80, (text (r * 80 + k)).char = screenChar (done ++ [cur]) r k

variable {con : Console} {text : Nat → TextCell} {vga : Nat → U16} {done : List CStr} {cur s : CStr}
  {row n i : Nat} {c : U8} {cell : TextCell} {e : ConsoleEvent} {es : List ConsoleEvent}

/-! ## The loops -/

theorem fillFrom_eq {α : Type} (f : Nat → α) (base : Nat) (v : α) (n i : Nat) :
    fillFrom f base v n i = if base ≤ i ∧ i < base + n then v else f i := by
  induction n with
  | zero => rw [fillFrom, if_neg (by omega)]
  | succ n ih =>
      rw [fillFrom]
      by_cases hi : i = base + n
      · rw [hi, Function.update_self, if_pos (by omega)]
      · rw [Function.update_of_ne hi, ih]
        apply if_congr _ rfl rfl
        omega

theorem moveRow_eq (cols : Nat) (text : Nat → TextCell) (row n i : Nat) (hn : n ≤ cols) :
    moveRow cols text (row + 1) n i =
      if row * cols ≤ i ∧ i < row * cols + n then text (i + cols) else text i := by
  have hrow : (row + 1) * cols = row * cols + cols := Nat.succ_mul row cols
  induction n generalizing i with
  | zero => rw [moveRow, if_neg (by omega)]
  | succ n ih =>
      rw [moveRow, Nat.add_sub_cancel]
      by_cases hi : i = row * cols + n
      · -- the cell that is copied lies behind what has been written
        rw [hi, Function.update_self, if_pos (by omega), ih _ (by omega), if_neg (by omega), hrow]
        exact congrArg text (by omega)
      · rw [Function.update_of_ne hi, ih _ (by omega)]
        apply if_congr _ rfl rfl
        omega

theorem moveRows_eq (cols : Nat) (text : Nat → TextCell) (n i : Nat) :
    moveRows cols text n i = if i < n * cols then text (i + cols) else text i := by
  induction n generalizing i with
  | zero => rw [moveRows, if_neg (by omega)]
  | succ n ih =>
      have hrow : (n + 1) * cols = n * cols + cols := Nat.succ_mul n cols
      rw [moveRows, moveRow_eq cols _ n cols i le_rfl, ih, ih]
      by_cases hlow : i < n * cols
      · rw [if_neg (by omega), if_pos hlow, if_pos (by omega)]
      · by_cases hmid : i < n * cols + cols
        · rw [if_pos ⟨by omega, hmid⟩, if_neg (by omega), if_pos (by omega)]
        · rw [if_neg (by omega), if_neg hlow, if_neg (by omega)]

theorem copyRow_eq (text : Nat → TextCell) (vga : Nat → U16) (row n i : Nat) :
    copyRow 80 text vga row n i =
      if row * 80 ≤ i ∧ i < row * 80 + n then vgaWord (text i) else vga i := by
  induction n with
  | zero => rw [copyRow, if_neg (by omega)]
  | succ n ih =>
      rw [copyRow]
      by_cases hi : i = row * 80 + n
      · rw [hi, if_pos (by omega)]
        exact Function.update_self ..
      · rw [Function.update_of_ne (by exact hi), ih]
        apply if_congr _ rfl rfl
        omega

theorem copyRows_eq (text : Nat → TextCell) (vga : Nat → U16) (n i : Nat) :
    copyRows 80 text vga n i = if i < n * 80 then vgaWord (text i) else vga i := by
  induction n with
  | zero => rw [copyRows, if_neg (by omega)]
  | succ n ih =>
      rw [copyRows, copyRow_eq, ih]
      by_cases hlow : i < n * 80
      · rw [if_neg (by omega), if_pos hlow, if_pos (by omega)]
      · by_cases hmid : i < n * 80 + 80
        · rw [if_pos ⟨by omega, hmid⟩, if_pos (by omega)]
        · rw [if_neg (by omega), if_neg hlow, if_neg (by omega)]

/-! ## The operations in text mode -/

theorem updateHwCursor_eq : termUpdateHwCursor con =
    { con with
      crtcIndex := 14
      crtc := Function.update
        (Function.update con.crtc 15 ((con.cursorRow * 80 + con.cursorCol) % 65536 % 256 % 256)) 14
        ((con.cursorRow * 80 + con.cursorCol) % 65536 / 256 % 256 % 256) } := rfl

theorem agrees_updateHwCursor (h : CellsAgree con) : Agrees (termUpdateHwCursor con) := by
  have hrow := h.row_lt
  have hcol := h.col_lt
  rw [updateHwCursor_eq]
  refine ⟨⟨⟨h.backend, h.cols, h.rows⟩, hrow, hcol, h.cells⟩, ?_, ?_⟩
  · dsimp only
    rw [Function.update_of_ne (by decide), Function.update_self]
    omega
  · dsimp only
    rw [Function.update_self]
    omega

def scrolled (con : Console) : Nat → TextCell :=
  fillFrom (moveRows 80 con.text 24) (24 * 80) (inColor con (chr ' ')) 80

theorem scrolled_eq (hi : i < 25 * 80) : scrolled con i =
    if i < 24 * 80 then con.text (i + 80) else inColor con (chr ' ') := by
  unfold scrolled
  rw [fillFrom_eq, moveRows_eq]
  by_cases hlow : i < 24 * 80
  · rw [if_neg (by omega), if_pos hlow, if_pos hlow]
  · rw [if_pos (by omega), if_neg hlow]

theorem scroll_none (h : con.cursorRow < con.textRows) : termScrollIfNeeded con = con := if_pos h

theorem scroll_text (hmode : TextMode con) (h : 25 ≤ con.cursorRow) : termScrollIfNeeded con =
    { con with
      text := scrolled con
      cursorRow := 24
      vga := copyRows 80 (scrolled con) con.vga 25 } := by
  obtain ⟨hback, hcols, hrows⟩ := hmode
  unfold termScrollIfNeeded
  rw [hrows, hcols, if_neg (by omega)]
  dsimp only
  rw [hback, if_neg (by decide)]
  rfl

theorem nextRow_below (hmode : TextMode con) (hrow : con.cursorRow < 24) :
    nextRow con = { con with cursorCol := 0, cursorRow := con.cursorRow + 1 } := by
  have hnext : (con.cursorRow + 1) % 65536 = con.cursorRow + 1 := Nat.mod_eq_of_lt (by omega)
  unfold nextRow
  rw [hnext]
  apply scroll_none
  change con.cursorRow + 1 < con.textRows
  rw [hmode.rows]
  omega

theorem nextRow_last (hmode : TextMode con) (hrow : con.cursorRow = 24) : nextRow con =
    { con with
      cursorCol := 0
      cursorRow := 24
      text := scrolled con
      vga := copyRows 80 (scrolled con) con.vga 25 } := by
  have hmode' : TextMode { con with cursorCol := 0, cursorRow := (con.cursorRow + 1) % 65536 } :=
    ⟨hmode.backend, hmode.cols, hmode.rows⟩
  exact scroll_text hmode' (by rw [hrow])

theorem cellsAgree_nextRow (hmode : TextMode con) (hrow : con.cursorRow < 25)
    (hcells : ∀ i < 25 * 80, con.vga i = vgaWord (con.text i)) : CellsAgree (nextRow con) := by
  by_cases hlast : con.cursorRow = 24
  · rw [nextRow_last hmode hlast]
    refine ⟨⟨hmode.backend, hmode.cols, hmode.rows⟩, (by decide : 24 < 25),
      (by decide : 0 < 80), ?_⟩
    intro i hi
    exact (copyRows_eq _ _ 25 i).trans (if_pos hi)
  · rw [nextRow_below hmode (by omega)]
    exact ⟨⟨hmode.backend, hmode.cols, hmode.rows⟩, (by omega : con.cursorRow + 1 < 25),
      (by decide : 0 < 80), hcells⟩

/-! ## The rows of a stream -/

theorem getD_append_nil {l : List CStr} : (l ++ [[]]).getD i [] = l.getD i [] := by
  rw [List.getD_eq_getElem?_getD, List.getD_eq_getElem?_getD, List.getElem?_append]
  split
  · rfl
  · rename_i h
    rw [List.getElem?_eq_none (Nat.not_lt.mp h)]
    cases i - l.length with
    | zero => rfl
    | succ k => rfl

theorem getD_concat {α : Type} {l : List α} {a b : α} :
    (l ++ [a]).getD i b = if i = l.length then a else l.getD i b := by
  rw [List.getD_eq_getElem?_getD, List.getD_eq_getElem?_getD, List.getElem?_append]
  split
  · rename_i h
    rw [if_neg (by omega)]
  · rename_i h
    split
    · rename_i heq
      rw [heq, Nat.sub_self]
      rfl
    · rename_i hne
      rw [List.getElem?_eq_none (by rw [List.length_singleton]; omega),
        List.getElem?_eq_none (Nat.not_lt.mp h)]

theorem screenChar_concat {r k : Nat} : screenChar (done ++ [cur]) r k =
    if r = done.length - (done.length + 1 - 25) then cur.getD k (chr ' ')
    else (done.getD (done.length + 1 - 25 + r) []).getD k (chr ' ') := by
  unfold screenChar
  rw [List.length_append, List.length_singleton, getD_concat]
  by_cases hr : r = done.length - (done.length + 1 - 25)
  · rw [if_pos hr, if_pos (by omega)]
  · rw [if_neg hr, if_neg (by omega)]

theorem content_put (h : Content text done cur row) (hlen : cur.length < 80)
    (hcell : cell.char = c) :
    Content (Function.update text (row * 80 + cur.length) cell) done (cur ++ [c]) row := by
  have hrow := h.row_eq
  refine ⟨hrow, fun r hr k hk => ?_⟩
  have hold := h.chars r hr k hk
  rw [screenChar_concat] at hold ⊢
  by_cases hat : r * 80 + k = row * 80 + cur.length
  · have hr' : r = row := by omega
    have hk' : k = cur.length := by omega
    rw [hat, Function.update_self, hcell, if_pos (by omega), getD_concat, if_pos hk']
  · rw [Function.update_of_ne hat, hold]
    by_cases hr' : r = done.length - (done.length + 1 - 25)
    · rw [if_pos hr', if_pos hr', getD_concat, if_neg (by omega)]
    · rw [if_neg hr', if_neg hr']

theorem content_nextRow (hmode : TextMode con) (h : Content con.text done cur con.cursorRow) :
    Content (nextRow con).text (done ++ [cur]) [] (nextRow con).cursorRow := by
  have hrow := h.row_eq
  have hlen : (done ++ [cur]).length = done.length + 1 := List.length_append
  by_cases hlast : con.cursorRow = 24
  · rw [nextRow_last hmode hlast]
    have hrow' : 24 = min (done ++ [cur]).length 24 := by omega
    refine ⟨hrow', fun r hr k hk => ?_⟩
    change (scrolled con (r * 80 + k)).char = _
    rw [scrolled_eq (by omega)]
    unfold screenChar
    rw [List.length_append, List.length_singleton, getD_append_nil]
    by_cases hbottom : r = 24
    · have hempty : (done ++ [cur]).getD ((done ++ [cur]).length + 1 - 25 + r) [] = [] :=
        List.getD_eq_default _ _ (by omega)
      rw [if_neg (by omega), hempty]
      rfl
    · have hold := h.chars (r + 1) (by omega) k hk
      have hidx : (done ++ [cur]).length + 1 - 25 + r = (done ++ [cur]).length - 25 + (r + 1) := by
        omega
      rw [if_pos (by omega), hidx]
      rw [show r * 80 + k + 80 = (r + 1) * 80 + k by omega]
      exact hold
  · rw [nextRow_below hmode (by omega)]
    have hrow' : con.cursorRow + 1 = min (done ++ [cur]).length 24 := by omega
    refine ⟨hrow', fun r hr k hk => (h.chars r hr k hk).trans ?_⟩
    unfold screenChar
    have hlen' : (done ++ [cur] ++ [[]]).length = (done ++ [cur]).length + 1 := List.length_append
    have hsame : (done ++ [cur]).length - 25 = (done ++ [cur]).length + 1 - 25 := by omega
    rw [getD_append_nil, hlen', hsame]

/-! ## A character in text mode -/

def putBoth (con : Console) (c : U8) : Console := putVga (putCell con c) c

theorem putBoth_text (hcols : con.textCols = 80) : (putBoth con c).text =
    Function.update con.text (con.cursorRow * 80 + con.cursorCol) (inColor con c) := by
  change Function.update con.text (textIndex con con.cursorRow con.cursorCol) _ = _
  unfold textIndex
  rw [hcols]

theorem putBoth_cells (hcols : con.textCols = 80)
    (hcells : ∀ i < 25 * 80, con.vga i = vgaWord (con.text i)) :
    ∀ i < 25 * 80, (putBoth con c).vga i = vgaWord ((putBoth con c).text i) := by
  intro i hi
  rw [putBoth_text hcols]
  change Function.update con.vga (con.cursorRow * 80 + con.cursorCol) (vgaWord (inColor con c)) i = _
  by_cases hat : i = con.cursorRow * 80 + con.cursorCol
  · rw [hat, Function.update_self, Function.update_self]
  · rw [Function.update_of_ne hat, Function.update_of_ne hat]
    exact hcells i hi

theorem text_branch {con a b : Console} (h : con.backend = .vgaText) :
    (if con.backend = .framebuffer then a else b) = b := by
  rw [h]
  exact if_neg (by decide)

theorem newline_text (h : CellsAgree con) : writeNewline con = termUpdateHwCursor (nextRow con) := by
  have hback := (cellsAgree_nextRow h.toTextMode h.row_lt h.cells).backend
  unfold writeNewline
  rw [text_branch h.backend]
  exact text_branch hback

theorem return_text (h : CellsAgree con) :
    writeReturn con = termUpdateHwCursor { con with cursorCol := 0 } := by
  unfold writeReturn
  rw [text_branch h.backend]
  exact text_branch h.backend

theorem backspace_text (h : CellsAgree con) : writeBackspace con =
    if 0 < con.cursorCol then
      termUpdateHwCursor (putBoth { con with cursorCol := con.cursorCol - 1 } (chr ' '))
    else con := by
  unfold writeBackspace
  exact if_congr Iff.rfl (text_branch h.backend) rfl

theorem nextCol_text (h : CellsAgree con) : nextCol (putBoth con c) =
    if con.cursorCol = 79 then nextRow (putBoth con c)
    else { putBoth con c with cursorCol := con.cursorCol + 1 } := by
  have hcol := h.col_lt
  have hnext : ((putBoth con c).cursorCol + 1) % 65536 = con.cursorCol + 1 := by
    change (con.cursorCol + 1) % 65536 = _
    omega
  unfold nextCol
  rw [hnext]
  apply if_congr _ rfl rfl
  change con.textCols ≤ con.cursorCol + 1 ↔ _
  rw [h.cols]
  omega

theorem cellsAgree_nextCol (h : CellsAgree con) : CellsAgree (nextCol (putBoth con c)) := by
  have hcol := h.col_lt
  have hcells := putBoth_cells (c := c) h.cols h.cells
  rw [nextCol_text h]
  split
  · exact cellsAgree_nextRow ⟨h.backend, h.cols, h.rows⟩ h.row_lt hcells
  · exact ⟨⟨h.backend, h.cols, h.rows⟩, h.row_lt, (by omega : con.cursorCol + 1 < 80), hcells⟩

theorem plain_text (h : CellsAgree con) :
    writePlain con c = termUpdateHwCursor (nextCol (putBoth con c)) := by
  have hshow : showCell (putCell con c) c = putBoth con c := text_branch h.backend
  unfold writePlain
  rw [hshow]
  exact text_branch (cellsAgree_nextCol h).backend

/-! ## Agreement in every run -/

theorem agrees_write (h : Agrees con) (c : U8) : Agrees (writeLocalChar con c) := by
  have hrow := h.row_lt
  have hcol := h.col_lt
  unfold writeLocalChar
  split
  · rw [newline_text h.toCellsAgree]
    exact agrees_updateHwCursor (cellsAgree_nextRow h.toTextMode hrow h.cells)
  · split
    · rw [return_text h.toCellsAgree]
      exact agrees_updateHwCursor
        ⟨⟨h.backend, h.cols, h.rows⟩, hrow, (by decide : 0 < 80), h.cells⟩
    · split
      · rw [backspace_text h.toCellsAgree]
        split
        · apply agrees_updateHwCursor
          exact ⟨⟨h.backend, h.cols, h.rows⟩, hrow, (by omega : con.cursorCol - 1 < 80),
            putBoth_cells h.cols h.cells⟩
        · exact h
      · rw [plain_text h.toCellsAgree]
        exact agrees_updateHwCursor (cellsAgree_nextCol h.toCellsAgree)

theorem agrees_step (h : Agrees con) (e : ConsoleEvent) : Agrees (consoleStep con e) := by
  cases e with
  | putchar target c =>
      change Agrees (if target ≠ .serial then writeLocalChar con c else con)
      split
      · exact agrees_write h c
      · exact h
  | setColor fg bg =>
      exact ⟨⟨⟨h.backend, h.cols, h.rows⟩, h.row_lt, h.col_lt, h.cells⟩, h.low, h.high⟩

theorem agrees_run (h : Agrees con) (es : List ConsoleEvent) : Agrees (consoleRun con es) := by
  induction es generalizing con with
  | nil => exact h
  | cons e es ih => exact ih (agrees_step h e)

/-! ## The text of a stream -/

/-- `done` and `cur` are the rows of the stream so far. -/
structure Shows (con : Console) (done : List CStr) (cur : CStr) : Prop where
  content : Content con.text done cur con.cursorRow
  col : con.cursorCol = cur.length

theorem shows_updateHwCursor (h : Shows con done cur) :
    Shows (termUpdateHwCursor con) done cur := by
  rw [updateHwCursor_eq]
  exact ⟨h.content, h.col⟩

theorem shows_nextRow (hmode : TextMode con) (hrow : con.cursorRow < 25)
    (h : Content con.text done cur con.cursorRow) : Shows (nextRow con) (done ++ [cur]) [] := by
  refine ⟨content_nextRow hmode h, ?_⟩
  by_cases hlast : con.cursorRow = 24
  · rw [nextRow_last hmode hlast]
    rfl
  · rw [nextRow_below hmode (by omega)]
    rfl

theorem shows_newline (h : Agrees con) (hs : Shows con done cur) :
    Shows (writeNewline con) (done ++ [cur]) [] := by
  rw [newline_text h.toCellsAgree]
  exact shows_updateHwCursor (shows_nextRow h.toTextMode h.row_lt hs.content)

theorem content_putBoth (h : Agrees con) (hs : Shows con done cur) :
    Content (putBoth con c).text done (cur ++ [c]) con.cursorRow := by
  have hcol := h.col_lt
  rw [putBoth_text h.cols, hs.col]
  rw [hs.col] at hcol
  exact content_put hs.content hcol rfl

theorem shows_plain (h : Agrees con) (hs : Shows con done cur) : Shows (writePlain con c)
    (if cur.length + 1 = 80 then done ++ [cur ++ [c]] else done)
    (if cur.length + 1 = 80 then [] else cur ++ [c]) := by
  have hput := content_putBoth (c := c) h hs
  rw [plain_text h.toCellsAgree, nextCol_text h.toCellsAgree]
  apply shows_updateHwCursor
  by_cases hend : con.cursorCol = 79
  · have hlen : cur.length + 1 = 80 := by rw [← hs.col, hend]
    rw [if_pos hend, if_pos hlen, if_pos hlen]
    exact shows_nextRow ⟨h.backend, h.cols, h.rows⟩ h.row_lt hput
  · have hlen : cur.length + 1 ≠ 80 := by
      rw [← hs.col]
      omega
    have hcol : con.cursorCol + 1 = (cur ++ [c]).length := by
      rw [List.length_append, List.length_singleton, hs.col]
    rw [if_neg hend, if_neg hlen, if_neg hlen]
    exact ⟨hput, hcol⟩

theorem chars_run (h : Agrees con) (hs : Shows con done cur)
    (hplain : ∀ c ∈ shown es, c ≠ 13 ∧ c ≠ 8) : ∀ r < 25, ∀ k < 80,
    ((consoleRun con es).text (r * 80 + k)).char =
      screenChar (done ++ breakRows cur (shown es)) r k := by
  induction es generalizing con done cur with
  | nil => exact hs.content.chars
  | cons e es ih =>
      have hnext := agrees_step h e
      cases e with
      | setColor fg bg => exact ih hnext ⟨hs.content, hs.col⟩ hplain
      | putchar target c =>
          by_cases hserial : target = .serial
          · subst hserial
            exact ih h hs hplain
          · have hshown : shown (.putchar target c :: es) = c :: shown es := if_pos hserial
            have hstep : consoleStep con (.putchar target c) = writeLocalChar con c := if_pos hserial
            rw [hshown] at hplain ⊢
            have hc := hplain c List.mem_cons_self
            have hrest : ∀ d ∈ shown es, d ≠ 13 ∧ d ≠ 8 := fun d hd =>
              hplain d (List.mem_cons_of_mem c hd)
            by_cases hnewline : c = chr '\n'
            · have hwrite : writeLocalChar con c = writeNewline con := if_pos hnewline
              have hs' : Shows (consoleStep con (.putchar target c)) (done ++ [cur]) [] := by
                rw [hstep, hwrite]
                exact shows_newline h hs
              rw [breakRows, if_pos hnewline, List.append_cons]
              exact ih hnext hs' hrest
            · have hwrite : writeLocalChar con c = writePlain con c :=
                (if_neg hnewline).trans ((if_neg hc.1).trans (if_neg hc.2))
              have hs' := shows_plain (c := c) h hs
              rw [← hwrite, ← hstep] at hs'
              rw [breakRows, if_neg hnewline]
              by_cases hend : cur.length + 1 = 80
              · rw [if_pos hend, if_pos hend] at hs'
                rw [if_pos hend, List.append_cons]
                exact ih hnext hs' hrest
              · rw [if_neg hend, if_neg hend] at hs'
                rw [if_neg hend]
                exact ih hnext hs' hrest

/-! ## From a cleared screen -/

theorem clear_text (hmode : TextMode con) : termClear con = termUpdateHwCursor
    { con with
      text := fillFrom con.text 0 (inColor con (chr ' ')) (80 * 25)
      vga := fillFrom con.vga 0 (vgaWord (inColor con (chr ' '))) (80 * 25)
      cursorRow := 0
      cursorCol := 0 } := by
  have hsize : con.textCols * con.textRows = 80 * 25 := by rw [hmode.cols, hmode.rows]
  unfold termClear
  rw [hsize]
  dsimp only
  rw [text_branch hmode.backend]
  exact text_branch hmode.backend

theorem clear_shows (hmode : TextMode con) :
    Agrees (termClear con) ∧ Shows (termClear con) [] [] := by
  rw [clear_text hmode]
  constructor
  · apply agrees_updateHwCursor
    refine ⟨⟨hmode.backend, hmode.cols, hmode.rows⟩, (by decide : 0 < 25), (by decide : 0 < 80), ?_⟩
    intro i hi
    dsimp only
    rw [fillFrom_eq, fillFrom_eq, if_pos (by omega), if_pos (by omega)]
  · apply shows_updateHwCursor
    refine ⟨⟨rfl, fun r hr k hk => ?_⟩, rfl⟩
    dsimp only
    rw [fillFrom_eq, if_pos (by omega)]
    unfold screenChar
    rw [getD_append_nil]
    rfl

theorem textMode_init (con : Console) : TextMode (termInit con) := ⟨rfl, rfl, rfl⟩

/-- From a cleared screen on the two screens, the cursor and its registers agree, and a stream
without carriage returns and backspaces is shown with its last rows. -/
theorem screen_run (con : Console) (hmode : TextMode con) (es : List ConsoleEvent) :
    Agrees (consoleRun (termClear con) es) ∧
      ((∀ c ∈ shown es, c ≠ 13 ∧ c ≠ 8) → ∀ r < 25, ∀ k < 80,
        ((consoleRun (termClear con) es).text (r * 80 + k)).char =
          screenChar (breakRows [] (shown es)) r k) := by
  obtain ⟨hagrees, hshows⟩ := clear_shows hmode
  exact ⟨agrees_run hagrees es, fun hplain => chars_run hagrees hshows hplain⟩

/-- The static data before `term_init`, over a screen of zeros. -/
def bootConsole : Console where
  backend := .vgaText
  fbWidth := 0
  fbHeight := 0
  cursorRow := 0
  cursorCol := 0
  textRows := vgaRows
  textCols := vgaCols
  text _ := ⟨0, 0, 0⟩
  currentFg := 7
  currentBg := 0
  vga _ := 0
  crtcIndex := 0
  crtc _ := 0
  pixels _ _ := 0

def demoStream : List ConsoleEvent :=
  [.putchar .both (chr 'a'), .putchar .vga (chr '\n'), .putchar .serial (chr 'x'),
    .putchar .vga (chr 'b')]

theorem screen_demo : Agrees (consoleRun (termClear (termInit bootConsole)) demoStream) ∧
    ((consoleRun (termClear (termInit bootConsole)) demoStream).text 0).char = chr 'a' ∧
      ((consoleRun (termClear (termInit bootConsole)) demoStream).text 80).char = chr 'b' := by
  obtain ⟨hagrees, hshows⟩ :=
    screen_run (termInit bootConsole) (textMode_init bootConsole) demoStream
  have hplain : ∀ c ∈ shown demoStream, c ≠ 13 ∧ c ≠ 8 := by decide
  refine ⟨hagrees, ?_, ?_⟩
  · exact (hshows hplain 0 (by decide) 0 (by decide)).trans (by decide)
  · exact (hshows hplain 1 (by decide) 0 (by decide)).trans (by decide)

end SlopOS.Proofs.TextScreen
