import Moot.Lib.Cells
import Moot.Lib.Text
import Moot.Proto

/-!
# Clipping by cells

The width of a text on the terminal, as `spoke/tui.py` reckons it, and what is cut
to it: a clipped text, a line of the observer's view and the divider of the seat.

Proved here: `clip_exact`, all three are exact.
-/

namespace Moot.Spoke
open Py Proto

/-- What the Unicode database says of a character: that it combines with the one before it, and that
its east-asian width is `W` or `F`. -/
structure Unicode where
  combining : CodePoint → Bool
  wide : CodePoint → Bool

namespace Unicode
variable (u : Unicode)

/-- One round of `cell_width`. -/
def charWidth (p : CodePoint) : Nat :=
  if u.combining p then 0
  else if (0x1F1E6 ≤ p.val && p.val ≤ 0x1F1FF) || u.wide p then 2
  else 1

/-- `cell_width` -/
def cellWidth (text : Str) : Nat := Cells.width u.charWidth text

theorem charWidth_le (p : CodePoint) : u.charWidth p ≤ 2 := by
  unfold charWidth
  split
  · exact Nat.zero_le _
  · split
    · exact Nat.le_refl _
    · exact Nat.le_succ _

end Unicode

/-- `"…"` -/
def ellipsis : CodePoint := .scalar '…'

/-- `"─"` -/
def ruleGlyph : CodePoint := .scalar '─'

/-- `clip_cells` -/
def clipCells (u : Unicode) (text : Str) (cells : Nat) : Str :=
  if u.cellWidth text ≤ cells then text
  else if cells = 0 then []
  else Cells.fill u.charWidth (cells - 1) 0 text ++ [ellipsis]

/-- What `Pretty.fit` reads of a `Pretty`. -/
structure Pretty where
  width : Option Int
  full : Bool

/-- `self.width or shutil.get_terminal_size((120, 24)).columns` -/
def Pretty.columns (p : Pretty) (terminal : Int) : Int :=
  match p.width with
  | none => terminal
  | some w => if w = 0 then terminal else w

/-- `room` -/
def Pretty.room (p : Pretty) (terminal : Int) (prefixLen : Nat) : Nat :=
  (max (p.columns terminal - prefixLen) 20).toNat

/-- `" ".join(text.split())` -/
def collapsed (text : Str) : Str := join (str " ") (split text)

/-- `Pretty.fit` -/
def Pretty.fit (u : Unicode) (p : Pretty) (terminal : Int) (prefixLen : Nat) (text : Str) : Str :=
  if p.full ∨ u.cellWidth (collapsed text) ≤ p.room terminal prefixLen then collapsed text
  else
    Cells.fill u.charWidth (p.room terminal prefixLen - 1) 0 (collapsed text) ++ [ellipsis]

/-- `DIVIDER_HINT` -/
def dividerHint : Str := str "enter: send · alt-enter: newline"

/-- `_dim` -/
def dim (color : Bool) (text : Str) : Str :=
  if color then str "\x1b[2m" ++ text ++ str "\x1b[0m" else text

/-- The line of `_divider_locked`. -/
def dividerLine (u : Unicode) (status : Str) (cols : Nat) : Str :=
  let hint := clipCells u (if status.isEmpty then dividerHint else status) (cols - 2)
  let rule := List.replicate (cols - u.cellWidth hint - 1) ruleGlyph
  if u.cellWidth hint + 2 ≤ cols then rule ++ hint ++ [ruleGlyph] else List.replicate cols ruleGlyph

/-- `_divider_locked` -/
def divider (u : Unicode) (color : Bool) (status : Str) (cols : Nat) : Str :=
  dim color (dividerLine u status cols)

section
variable {u : Unicode}

/-- The text is cut exactly: to at most `n` cells, and nowhere if it fits. -/
structure ClippedTo (u : Unicode) (text : Str) (n : Nat) (clipped : Str) : Prop where
  width : u.cellWidth clipped ≤ n
  fits : u.cellWidth text ≤ n → clipped = text
  longest : n < u.cellWidth text → 1 ≤ n → ∃ kept, clipped = kept ++ [ellipsis] ∧ kept <+: text ∧
    u.cellWidth kept ≤ n - 1 ∧ ∀ p, p <+: text → u.cellWidth p ≤ n - 1 → p.length ≤ kept.length

theorem clippedTo_clipCells (hellipsis : u.charWidth ellipsis = 1) (text : Str) (n : Nat) :
    ClippedTo u text n (clipCells u text n) := by
  unfold clipCells
  split
  · next hfits => exact ⟨hfits, fun _ => rfl, fun hwide => absurd hfits (by omega)⟩
  · next hwide =>
    split
    · next hzero =>
      exact ⟨Nat.zero_le _, fun hfits => absurd hfits hwide, fun _ hpos => absurd hzero (by omega)⟩
    · next hpos =>
      obtain ⟨hstarts, hle, hlongest⟩ := Cells.fill_spec u.charWidth (n - 1) text
      refine ⟨?_, fun hfits => absurd hfits hwide, fun _ _ => ⟨_, rfl, hstarts, hle, ?_⟩⟩
      · rw [Unicode.cellWidth, Cells.width_append, Cells.width_cons, Cells.width_nil, hellipsis]
        omega
      · exact fun p hp hfits => (hlongest p hp hfits).length_le

/-- The cut of `Pretty.fit` is the same. -/
theorem fit_eq_clipCells {p : Pretty} (hfull : p.full = false) (terminal : Int) (prefixLen : Nat)
    (text : Str) :
    p.fit u terminal prefixLen text = clipCells u (collapsed text) (p.room terminal prefixLen) := by
  have hroom : p.room terminal prefixLen ≠ 0 := by
    unfold Pretty.room
    omega
  unfold Pretty.fit clipCells
  simp only [hfull, Bool.false_eq_true, false_or, hroom, if_false]

theorem width_dividerLine (hrule : u.charWidth ruleGlyph = 1) (status : Str) (cols : Nat) :
    u.cellWidth (dividerLine u status cols) = cols := by
  unfold dividerLine
  simp only
  generalize clipCells u (if status.isEmpty then dividerHint else status) (cols - 2) = hint
  split
  · next hfits =>
    simp only [Unicode.cellWidth, Cells.width_append, Cells.width_replicate, Cells.width_cons,
      Cells.width_nil, hrule] at hfits ⊢
    omega
  · rw [Unicode.cellWidth, Cells.width_replicate, hrule, Nat.mul_one]

/-- **Clipping is exact.**  Where the ellipsis and the rule glyph are one cell wide, a clipped text
is the text, or its longest prefix that leaves room for the ellipsis; `Pretty.fit` is the same cut,
to at least 20 cells; and the divider, without its colour, is as wide as the terminal. -/
theorem clip_exact (u : Unicode) (hellipsis : u.charWidth ellipsis = 1)
    (hrule : u.charWidth ruleGlyph = 1) :
    (∀ text n, ClippedTo u text n (clipCells u text n)) ∧
    (∀ (p : Pretty) (terminal : Int) (prefixLen : Nat) (text : Str), p.full = false →
      20 ≤ p.room terminal prefixLen ∧
        p.fit u terminal prefixLen text = clipCells u (collapsed text) (p.room terminal prefixLen)) ∧
    ∀ (color : Bool) (status : Str) (cols : Nat), ∃ line,
      divider u color status cols = dim color line ∧ u.cellWidth line = cols := by
  refine ⟨clippedTo_clipCells hellipsis, fun p terminal prefixLen text hfull => ⟨?_, ?_⟩,
    fun color status cols => ⟨_, rfl, width_dividerLine hrule status cols⟩⟩
  · unfold Pretty.room
    omega
  · exact fit_eq_clipCells hfull terminal prefixLen text

/-- A combining acute accent, and a CJK character that is two cells wide. -/
def sampleUnicode : Unicode where
  combining p := p.val = 0x301
  wide p := p.val = 0x4E2D

/-- The wide character at the margin is left out, and the accent stays with its letter. -/
theorem clip_exact_margin :
    ClippedTo sampleUnicode (str "ae\u0301中x") 4 (str "ae\u0301…") := by
  have hclip := (clip_exact sampleUnicode (by decide) (by decide)).1 (str "ae\u0301中x") 4
  rwa [show clipCells sampleUnicode (str "ae\u0301中x") 4 = str "ae\u0301…" by decide] at hclip

end

end Moot.Spoke
