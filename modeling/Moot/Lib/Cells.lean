import Mathlib.Data.List.Basic
import Mathlib.Algebra.BigOperators.Group.List.Basic
import Mathlib.Algebra.Order.BigOperators.Group.List
import Mathlib.Tactic.Ring

/-!
# Text in cells

A text whose characters take up cells, some none and some more than one: filling a
room from the left, and wrapping into rows.

Proved here: filling takes the longest prefix that fits (`fill_spec`); wrapping of a
prefix is a beginning of the wrapping, but for its last row (`wrapFrom_append`), no
row is too wide (`width_wrapFrom_le`), the rows are the text (`flatten_wrapFrom`), and
the place where a text ends is the end of its last row (`cursorFrom_eq`).
-/

namespace Cells

universe u

variable {α : Type u} (w : α → Nat)

/-- How many cells a text takes up. -/
def width (s : List α) : Nat := (s.map w).sum

@[simp] theorem width_nil : width w [] = 0 := rfl

@[simp] theorem width_cons (a : α) (s : List α) : width w (a :: s) = w a + width w s := by
  simp [width]

@[simp] theorem width_append (s t : List α) : width w (s ++ t) = width w s + width w t := by
  simp [width]

theorem width_replicate (n : Nat) (a : α) : width w (List.replicate n a) = n * w a := by
  simp [width]

/-! ## Filling a room -/

/-- What fits into the room, after `used` cells of it, up to the first character that does not. -/
def fill (room : Nat) : Nat → List α → List α
  | _, [] => []
  | used, a :: s => if room < used + w a then [] else a :: fill room (used + w a) s

theorem fill_starts (room used : Nat) (s : List α) : fill w room used s <+: s := by
  induction s generalizing used with
  | nil => exact List.prefix_refl _
  | cons a s ih =>
    unfold fill
    split
    · exact List.nil_prefix
    · exact List.cons_prefix_cons.mpr ⟨rfl, ih _⟩

theorem width_fill_le {room used : Nat} (hused : used ≤ room) (s : List α) :
    used + width w (fill w room used s) ≤ room := by
  induction s generalizing used with
  | nil => exact hused
  | cons a s ih =>
    unfold fill
    split
    · exact hused
    · next hfits =>
      rw [width_cons, ← Nat.add_assoc]
      exact ih (Nat.le_of_not_lt hfits)

/-- A prefix that fits is not longer. -/
theorem prefix_fill {room used : Nat} {p s : List α} (hp : p <+: s)
    (hfits : used + width w p ≤ room) : p <+: fill w room used s := by
  induction p generalizing s used with
  | nil => exact List.nil_prefix
  | cons a p ih =>
    obtain ⟨t, rfl⟩ := hp
    rw [width_cons, ← Nat.add_assoc] at hfits
    have hroom : ¬room < used + w a := by omega
    rw [List.cons_append, fill, if_neg hroom]
    exact List.cons_prefix_cons.mpr ⟨rfl, ih (List.prefix_append _ _) hfits⟩

/-- **The longest prefix that fits.** -/
theorem fill_spec (room : Nat) (s : List α) :
    fill w room 0 s <+: s ∧ width w (fill w room 0 s) ≤ room ∧
      ∀ p, p <+: s → width w p ≤ room → p <+: fill w room 0 s := by
  refine ⟨fill_starts w room 0 s, ?_, fun p hp hfits => prefix_fill w hp (by omega)⟩
  have hle := width_fill_le w (Nat.zero_le room) s
  omega

/-! ## Wrapping -/

/-- The rows of a text, with the row that has been begun and its width.  A break ends a row and
belongs to none. -/
def wrapFrom (isBreak : α → Bool) (cols : Nat) : List α → Nat → List α → List (List α)
  | row, _, [] => [row]
  | row, used, a :: s =>
    if isBreak a then row :: wrapFrom isBreak cols [] 0 s
    else if cols < used + w a then row :: wrapFrom isBreak cols [a] (w a) s
    else wrapFrom isBreak cols (row ++ [a]) (used + w a) s

/-- The row and the column where a text ends, from where it begins. -/
def cursorFrom (isBreak : α → Bool) (cols : Nat) : Nat → Nat → List α → Nat × Nat
  | row, col, [] => (row, col)
  | row, col, a :: s =>
    if isBreak a then cursorFrom isBreak cols (row + 1) 0 s
    else if cols < col + w a then cursorFrom isBreak cols (row + 1) (w a) s
    else cursorFrom isBreak cols row (col + w a) s

variable {w} {isBreak : α → Bool} {cols : Nat}

theorem wrapFrom_ne_nil (row : List α) (used : Nat) (s : List α) :
    wrapFrom w isBreak cols row used s ≠ [] := by
  induction s generalizing row used with
  | nil => simp [wrapFrom]
  | cons a s ih =>
    unfold wrapFrom
    split
    · simp
    · split
      · simp
      · exact ih _ _

/-- **A prefix wraps to the same rows**, and the text goes on in its last row. -/
theorem wrapFrom_append {row : List α} {used : Nat} (hused : used = width w row) (s t : List α) :
    ∃ rows last, wrapFrom w isBreak cols row used s = rows ++ [last] ∧
      wrapFrom w isBreak cols row used (s ++ t) =
        rows ++ wrapFrom w isBreak cols last (width w last) t := by
  induction s generalizing row used with
  | nil => exact ⟨[], row, rfl, by rw [hused]; rfl⟩
  | cons a s ih =>
    simp only [List.cons_append, wrapFrom]
    split
    · obtain ⟨rows, last, hrows, hall⟩ := @ih [] 0 rfl
      exact ⟨row :: rows, last, by rw [hrows]; rfl, by rw [hall]; rfl⟩
    · split
      · obtain ⟨rows, last, hrows, hall⟩ := @ih [a] (w a) (by simp)
        exact ⟨row :: rows, last, by rw [hrows]; rfl, by rw [hall]; rfl⟩
      · obtain ⟨rows, last, hrows, hall⟩ := @ih (row ++ [a]) (used + w a)
          (by rw [width_append, hused]; simp)
        exact ⟨rows, last, hrows, hall⟩

/-- No row is wider than the room, if every character fits it. -/
theorem width_wrapFrom_le (hw : ∀ a, w a ≤ cols) {row : List α} {used : Nat}
    (hused : used = width w row) (hrow : used ≤ cols) (s : List α) :
    ∀ r ∈ wrapFrom w isBreak cols row used s, width w r ≤ cols := by
  induction s generalizing row used with
  | nil =>
    intro r hr
    rw [List.mem_singleton.mp hr, ← hused]
    exact hrow
  | cons a s ih =>
    unfold wrapFrom
    split
    · intro r hr
      rcases List.mem_cons.mp hr with rfl | hr
      · rw [← hused]
        exact hrow
      · exact @ih [] 0 rfl (Nat.zero_le _) r hr
    · split
      · intro r hr
        rcases List.mem_cons.mp hr with rfl | hr
        · rw [← hused]
          exact hrow
        · exact @ih [a] (w a) (by simp) (hw a) r hr
      · next hfits =>
        refine @ih (row ++ [a]) (used + w a) ?_ (Nat.le_of_not_lt hfits)
        rw [width_append, hused]
        simp

/-- The rows are the text, but for the breaks. -/
theorem flatten_wrapFrom (row : List α) (used : Nat) (s : List α) :
    (wrapFrom w isBreak cols row used s).flatten = row ++ s.filter (!isBreak ·) := by
  induction s generalizing row used with
  | nil => simp [wrapFrom]
  | cons a s ih =>
    unfold wrapFrom
    split
    · next hbreak => simp [ih, hbreak]
    · next hplain =>
      split
      · simp [ih, hplain]
      · simp [ih, hplain]

/-- **The two loops agree**: a text ends at the end of its last row. -/
theorem cursorFrom_eq {row : List α} {used : Nat} (hused : used = width w row) (n : Nat) (s : List α) :
    ∃ rows last, wrapFrom w isBreak cols row used s = rows ++ [last] ∧
      cursorFrom w isBreak cols n used s = (n + rows.length, width w last) := by
  induction s generalizing row used n with
  | nil => exact ⟨[], row, rfl, by rw [hused]; rfl⟩
  | cons a s ih =>
    simp only [wrapFrom, cursorFrom]
    split
    · obtain ⟨rows, last, hrows, hend⟩ := @ih [] 0 rfl (n + 1)
      exact ⟨row :: rows, last, by rw [hrows]; rfl, by rw [hend, List.length_cons]; congr 1; omega⟩
    · split
      · obtain ⟨rows, last, hrows, hend⟩ := @ih [a] (w a) (by simp) (n + 1)
        exact ⟨row :: rows, last, by rw [hrows]; rfl, by rw [hend, List.length_cons]; congr 1; omega⟩
      · exact @ih (row ++ [a]) (used + w a) (by rw [width_append, hused]; simp) n

end Cells
