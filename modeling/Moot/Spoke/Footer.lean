import Moot.Spoke.Cells
import Moot.Spoke.Compose

/-!
# The footer

`Screen` of `spoke/tui.py`, as far as the footer goes: the input is wrapped into
rows, of which a window is drawn that follows the cursor.  The window's top, the
footer's height and the size of the terminal are left from earlier drawings.

Proved here: `footer_shows_cursor`.
-/

namespace Moot.Spoke
open Py Proto

/-! ## Rows -/

def isLineFeed (p : CodePoint) : Bool := p = .scalar '\n'

/-- `wrap_rows` -/
def wrapRows (u : Unicode) (text : Str) (width : Nat) : List Str :=
  Cells.wrapFrom u.charWidth isLineFeed width [] 0 text

/-- `cursor_row_col` -/
def cursorRowCol (u : Unicode) (text : Str) (pos width : Nat) : Nat × Nat :=
  Cells.cursorFrom u.charWidth isLineFeed width 0 0 (text.take pos)

/-- `display_form` -/
def displayForm (text : Str) : Str := text.flatMap displayChar

/-- `PROMPT` -/
def prompt : Str := str "› "

def maxInputRows : Nat := 5

/-! ## The screen -/

/-- One write to the terminal. -/
inductive Write
  /-- `\x1b[{row};{col}H` -/
  | cup (row col : Nat)
  /-- `\x1b[1;{bottom}r` -/
  | region (bottom : Nat)
  /-- `\x1b[J` -/
  | eraseBelow
  /-- `\x1b[2K` -/
  | eraseLine
  /-- `\x1b[{rows}T` -/
  | scrollDown (rows : Nat)
  | text (s : Str)
  deriving DecidableEq

/-- `Screen`, with what it has written. -/
structure Screen where
  color : Bool
  cols : Nat
  rows : Nat
  status : Str := []
  footerRows : Nat := 2
  cursor : Nat × Nat := (0, 0)
  windowTop : Nat := 0
  out : List Write := []

namespace Screen
variable (u : Unicode)

/-- `region_bottom` -/
def regionBottom (s : Screen) : Nat := max 1 (s.rows - s.footerRows)

/-- `divider_row` -/
def dividerRow (s : Screen) : Nat := s.regionBottom + 1

def write (s : Screen) (ws : List Write) : Screen := { s with out := s.out ++ ws }

/-- `resize` -/
def resize (s : Screen) (size : Nat × Nat) : Screen :=
  let stale := s.dividerRow
  let s := { s with cols := size.1, rows := size.2 }
  s.write [.region s.regionBottom, .cup stale 1, .eraseBelow]

/-- `_adjust_height_locked` -/
def adjustHeight (s : Screen) (newFooterRows : Nat) : Screen :=
  if s.footerRows < newFooterRows then
    let delta := newFooterRows - s.footerRows
    let s := s.write [.cup s.regionBottom 1, .text (List.replicate delta (.scalar '\n'))]
    let s := { s with footerRows := newFooterRows }
    s.write [.region s.regionBottom, .cup s.dividerRow 1, .eraseBelow]
  else
    let delta := s.footerRows - newFooterRows
    let stale := s.dividerRow
    let s := { s with footerRows := newFooterRows }
    s.write [.region s.regionBottom, .cup stale 1, .eraseBelow, .scrollDown delta]

/-- The rows of the input area, from terminal row `at` on. -/
def inputRows (row : Nat) (contents : List Str) : List Write :=
  (contents.zipIdx row).flatMap fun r => [.cup r.2 1, .eraseLine, .text r.1]

/-- `_cup_input_locked` -/
def cupInput (s : Screen) : Screen := s.write [.cup (s.dividerRow + 1 + s.cursor.1) (s.cursor.2 + 1)]

/-- The top of the window: moved as little as the text and the cursor ask for. -/
def scrolled (s : Screen) (visualRows cursorRow : Nat) : Nat :=
  let input := s.footerRows - 1
  let top := min s.windowTop (visualRows - input)
  if cursorRow < top then cursorRow
  else if top + input ≤ cursorRow then cursorRow - input + 1
  else top

/-- `_draw_footer_locked` -/
def drawFooter (s : Screen) (disp : Str) (pos : Nat) : Screen :=
  let s := s.write [.cup s.dividerRow 1, .eraseBelow, .text (divider u s.color s.status s.cols)]
  let visual := wrapRows u (prompt ++ disp) s.cols
  let (row, col) := cursorRowCol u (prompt ++ disp) (prompt.length + pos) s.cols
  let top := s.scrolled visual.length row
  let s := { s with windowTop := top }
  let contents := (List.range (s.footerRows - 1)).map fun i => visual.getD (top + i) []
  let s := s.write (inputRows (s.dividerRow + 1) contents)
  { s with cursor := (row - top, min col (s.cols - 1)) }.cupInput

/-- `redraw_footer` -/
def redrawFooter (s : Screen) (buf : Str) (pos : Nat) : Screen :=
  let disp := displayForm buf
  let needed := 1 + min maxInputRows (wrapRows u (prompt ++ disp) s.cols).length
  let s := if needed = s.footerRows then s else s.adjustHeight needed
  s.drawFooter u disp (displayPos buf pos)

end Screen

/-! ## The two loops -/

section
variable {u : Unicode}

/-- The cursor is at the end of the last row of what is before it. -/
theorem cursorRowCol_eq (text : Str) (pos width : Nat) :
    ∃ rows last, wrapRows u (text.take pos) width = rows ++ [last] ∧
      cursorRowCol u text pos width = (rows.length, u.cellWidth last) := by
  obtain ⟨rows, last, hrows, hend⟩ := @Cells.cursorFrom_eq _ u.charWidth isLineFeed width [] 0 rfl 0
    (text.take pos)
  rw [Nat.zero_add] at hend
  exact ⟨rows, last, hrows, hend⟩

theorem width_wrapRows {width : Nat} (hwidth : 2 ≤ width) (text : Str) :
    ∀ r ∈ wrapRows u text width, u.cellWidth r ≤ width :=
  Cells.width_wrapFrom_le (fun p => (u.charWidth_le p).trans hwidth) rfl (Nat.zero_le _) text

theorem flatten_wrapRows (text : Str) (width : Nat) :
    (wrapRows u text width).flatten = text.filter (!isLineFeed ·) :=
  Cells.flatten_wrapFrom [] 0 text

/-- The cursor is in a row of the text. -/
theorem cursorRowCol_lt (text : Str) (pos width : Nat) :
    (cursorRowCol u text pos width).1 < (wrapRows u text width).length := by
  obtain ⟨rows, last, hrows, hend⟩ := cursorRowCol_eq (u := u) text pos width
  obtain ⟨rows', last', hrows', hall⟩ := @Cells.wrapFrom_append _ u.charWidth isLineFeed width [] 0 rfl
    (text.take pos) (text.drop pos)
  have hsame : rows = rows' := (List.append_inj' (hrows.symm.trans hrows') rfl).1
  have hmore := List.length_pos_of_ne_nil (@Cells.wrapFrom_ne_nil _ u.charWidth isLineFeed width last'
    (Cells.width u.charWidth last') (text.drop pos))
  rw [List.take_append_drop] at hall
  rw [hend, wrapRows, hall, List.length_append, hsame]
  omega

/-- What is drawn before the cursor. -/
theorem take_displayPos (buf : Str) (pos : Nat) :
    (prompt ++ displayForm buf).take (prompt.length + displayPos buf pos) =
      prompt ++ displayForm (buf.take pos) := by
  rw [List.take_length_add_append]
  congr 1
  have hsplit : displayForm buf = displayForm (buf.take pos) ++ displayForm (buf.drop pos) := by
    rw [displayForm, displayForm, displayForm, ← List.flatMap_append, List.take_append_drop]
  rw [hsplit]
  exact List.take_left

/-! ## The window -/

namespace Screen

variable {s : Screen}

/-- The window holds the cursor, and no row past the last. -/
theorem scrolled_spec {visualRows row : Nat} (hrow : row < visualRows) (hinput : 2 ≤ s.footerRows)
    (hle : s.footerRows - 1 ≤ visualRows) :
    s.scrolled visualRows row + (s.footerRows - 1) ≤ visualRows ∧ s.scrolled visualRows row ≤ row ∧
      row < s.scrolled visualRows row + (s.footerRows - 1) := by
  unfold scrolled
  simp only
  split
  · omega
  · split
    · omega
    · omega

theorem map_getD_range {α : Type} (l : List α) (d : α) {top n : Nat} (h : top + n ≤ l.length) :
    (List.range n).map (fun i => l.getD (top + i) d) = (l.drop top).take n := by
  apply List.ext_getElem
  · simp only [List.length_map, List.length_range, List.length_take, List.length_drop]
    omega
  · intro i hi _
    rw [List.length_map, List.length_range] at hi
    simp [List.getD_eq_getElem?_getD, List.getElem?_eq_getElem (show top + i < l.length by omega)]

variable (u s) in
/-- The footer that a drawing leaves: what is written after `base`, and where the cursor is. -/
structure Shows (base : List Write) (buf : Str) (pos : Nat) : Prop where
  /-- As many rows as there are, up to five. -/
  height : s.footerRows =
    1 + min maxInputRows (wrapRows u (prompt ++ displayForm buf) s.cols).length
  /-- The drawn rows are rows of the text, from the top of the window on, and no other. -/
  drawn : ∃ contents, contents.length = s.footerRows - 1 ∧
    contents = ((wrapRows u (prompt ++ displayForm buf) s.cols).drop s.windowTop).take
      (s.footerRows - 1) ∧
    s.out = base ++ [.cup s.dividerRow 1, .eraseBelow, .text (divider u s.color s.status s.cols)] ++
      inputRows (s.dividerRow + 1) contents ++
        [.cup (s.dividerRow + 1 + s.cursor.1) (s.cursor.2 + 1)]
  /-- The cursor is where the text before it ends, in the window. -/
  cursor : ∃ col, cursorRowCol u (prompt ++ displayForm buf) (prompt.length + displayPos buf pos) s.cols =
      (s.windowTop + s.cursor.1, col) ∧ s.cursor.2 = min col (s.cols - 1)
  inWindow : s.cursor.1 < s.footerRows - 1
  inLine : s.cursor.2 < s.cols

/-- What a drawing changes. -/
theorem drawFooter_eq (disp : Str) (pos : Nat) {row col : Nat}
    (hcursor : cursorRowCol u (prompt ++ disp) (prompt.length + pos) s.cols = (row, col)) :
    s.drawFooter u disp pos =
      let visual := wrapRows u (prompt ++ disp) s.cols
      let top := s.scrolled visual.length row
      { s with
        windowTop := top
        cursor := (row - top, min col (s.cols - 1))
        out := s.out ++ [.cup s.dividerRow 1, .eraseBelow,
            .text (divider u s.color s.status s.cols)] ++
          inputRows (s.dividerRow + 1)
            ((List.range (s.footerRows - 1)).map fun i => visual.getD (top + i) []) ++
          [.cup (s.dividerRow + 1 + (row - top)) (min col (s.cols - 1) + 1)] } := by
  unfold drawFooter
  simp only [write, hcursor]
  rfl

theorem shows_drawFooter (hcols : 2 ≤ s.cols) (buf : Str) (pos : Nat)
    (hheight : s.footerRows =
      1 + min maxInputRows (wrapRows u (prompt ++ displayForm buf) s.cols).length) :
    (s.drawFooter u (displayForm buf) (displayPos buf pos)).Shows u s.out buf pos := by
  have hpos : 0 < (wrapRows u (prompt ++ displayForm buf) s.cols).length :=
    List.length_pos_of_ne_nil (Cells.wrapFrom_ne_nil _ _ _)
  have hrow := cursorRowCol_lt (u := u) (prompt ++ displayForm buf)
    (prompt.length + displayPos buf pos) s.cols
  cases hcursor : cursorRowCol u (prompt ++ displayForm buf) (prompt.length + displayPos buf pos)
    s.cols with
  | mk row col =>
    rw [hcursor] at hrow
    have hinput : 2 ≤ s.footerRows ∧
        s.footerRows - 1 ≤ (wrapRows u (prompt ++ displayForm buf) s.cols).length := by
      rw [maxInputRows] at hheight
      omega
    obtain ⟨hroom, htop, hin⟩ := scrolled_spec hrow hinput.1 hinput.2
    rw [drawFooter_eq _ _ hcursor]
    refine ⟨hheight, ⟨_, ?_, map_getD_range _ _ hroom, rfl⟩, ⟨col, ?_, rfl⟩, ?_, ?_⟩
    · rw [List.length_map, List.length_range]
    · rw [hcursor, Nat.add_sub_cancel' htop]
    · exact Nat.sub_lt_left_of_lt_add htop hin
    · show min col (s.cols - 1) < s.cols
      omega

/-! ## Heights and sizes -/

/-- Making room draws no row. -/
theorem adjustHeight_fields (s : Screen) (k : Nat) :
    (s.adjustHeight k).cols = s.cols ∧ (s.adjustHeight k).rows = s.rows ∧
      (s.adjustHeight k).footerRows = k ∧
      ∃ moved, Write.eraseLine ∉ moved ∧ (s.adjustHeight k).out = s.out ++ moved := by
  unfold adjustHeight
  split
  · exact ⟨rfl, rfl, rfl, _, by simp, List.append_assoc _ _ _⟩
  · exact ⟨rfl, rfl, rfl, _, by simp, rfl⟩

/-- Region and footer fill the screen. -/
structure Fills (s : Screen) : Prop where
  region : 1 ≤ s.regionBottom
  footer : s.regionBottom + s.footerRows = s.rows
  last : s.dividerRow + (s.footerRows - 1) = s.rows

theorem fills_of_le (hfooter : 1 ≤ s.footerRows) (hroom : s.footerRows + 1 ≤ s.rows) : s.Fills := by
  have hbottom : s.regionBottom = s.rows - s.footerRows := by
    unfold regionBottom
    omega
  exact ⟨by omega, by omega, by rw [dividerRow]; omega⟩

variable (u s) in
/-- After a redrawing the footer is shown, and it fills a screen of seven rows or more. -/
structure Redrawn (s' : Screen) (buf : Str) (pos : Nat) : Prop where
  /-- Only the height was adjusted before. -/
  shows : ∃ moved, Write.eraseLine ∉ moved ∧ s'.Shows u (s.out ++ moved) buf pos
  fills : 7 ≤ s'.rows → s'.Fills

theorem redrawn_drawFooter {k : Screen} (hcols : 2 ≤ k.cols) (buf : Str) (pos : Nat)
    (hout : ∃ moved, Write.eraseLine ∉ moved ∧ k.out = s.out ++ moved)
    (hheight : k.footerRows =
      1 + min maxInputRows (wrapRows u (prompt ++ displayForm buf) k.cols).length) :
    s.Redrawn u (k.drawFooter u (displayForm buf) (displayPos buf pos)) buf pos := by
  constructor
  · obtain ⟨moved, hmoved, hbase⟩ := hout
    exact ⟨moved, hmoved, by rw [← hbase]; exact shows_drawFooter hcols buf pos hheight⟩
  · cases hcursor : cursorRowCol u (prompt ++ displayForm buf)
      (prompt.length + displayPos buf pos) k.cols with
    | mk row col =>
      rw [drawFooter_eq _ _ hcursor]
      intro hseven
      rw [maxInputRows] at hheight
      have hrows : 7 ≤ k.rows := hseven
      exact fills_of_le (show 1 ≤ k.footerRows by omega) (show k.footerRows + 1 ≤ k.rows by omega)

/-- **Redrawing the footer**, whatever was drawn before. -/
theorem redrawn_redrawFooter (hcols : 2 ≤ s.cols) (buf : Str) (pos : Nat) :
    s.Redrawn u (s.redrawFooter u buf pos) buf pos := by
  unfold redrawFooter
  simp only
  split
  · next heq =>
    exact redrawn_drawFooter hcols buf pos ⟨[], by simp, (List.append_nil _).symm⟩ heq.symm
  · obtain ⟨hc, -, hf, hout⟩ := adjustHeight_fields s
      (1 + min maxInputRows (wrapRows u (prompt ++ displayForm buf) s.cols).length)
    exact redrawn_drawFooter (by rw [hc]; exact hcols) buf pos hout (by rw [hc, hf])

theorem cols_resizes (hcols : 2 ≤ s.cols) {sizes : List (Nat × Nat)}
    (hsizes : ∀ size ∈ sizes, 2 ≤ size.1) : 2 ≤ (sizes.foldl resize s).cols := by
  induction sizes generalizing s with
  | nil => exact hcols
  | cons size sizes ih =>
    exact @ih (s.resize size) (hsizes size (List.mem_cons_self ..)) fun z hz =>
      hsizes z (List.mem_cons_of_mem _ hz)

end Screen

/-- **The footer shows the cursor.**  The two wrapping loops agree; and after any resizes to at least
two columns, a redrawing draws the rows of the text around the cursor, from any window and height
that were left before. -/
theorem footer_shows_cursor (u : Unicode) :
    (∀ (text : Str) (pos width : Nat), 2 ≤ width →
      (∃ rows last, wrapRows u (text.take pos) width = rows ++ [last] ∧
        cursorRowCol u text pos width = (rows.length, u.cellWidth last)) ∧
      (∀ r ∈ wrapRows u text width, u.cellWidth r ≤ width) ∧
      (wrapRows u text width).flatten = text.filter (!isLineFeed ·)) ∧
    ∀ (s : Screen) (sizes : List (Nat × Nat)) (buf : Str) (pos : Nat), 2 ≤ s.cols →
      (∀ size ∈ sizes, 2 ≤ size.1) →
      (sizes.foldl Screen.resize s).Redrawn u
        ((sizes.foldl Screen.resize s).redrawFooter u buf pos) buf pos ∧
      (prompt ++ displayForm buf).take (prompt.length + displayPos buf pos) =
        prompt ++ displayForm (buf.take pos) := by
  constructor
  · intro text pos width hwidth
    exact ⟨cursorRowCol_eq text pos width, width_wrapRows hwidth text, flatten_wrapRows text width⟩
  · intro s sizes buf pos hcols hsizes
    exact ⟨Screen.redrawn_redrawFooter (Screen.cols_resizes hcols hsizes) buf pos,
      take_displayPos buf pos⟩

/-- A terminal that has become narrow since the last drawing. -/
def narrowed : Screen :=
  [(4, 9)].foldl Screen.resize { color := false, cols := 80, rows := 24, windowTop := 3 }

/-- The window moves to the cursor. -/
theorem footer_shows_cursor_narrowed :
    narrowed.Redrawn sampleUnicode
        (narrowed.redrawFooter sampleUnicode (str "abcdefghijklmnopqrstuvwxyz") 3)
        (str "abcdefghijklmnopqrstuvwxyz") 3 ∧
      (narrowed.redrawFooter sampleUnicode (str "abcdefghijklmnopqrstuvwxyz") 3).windowTop = 1 :=
  ⟨((footer_shows_cursor sampleUnicode).2 _ [(4, 9)] _ 3 (by decide) (by decide)).1, by decide⟩

end

end Moot.Spoke
