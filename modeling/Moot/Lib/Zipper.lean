import Mathlib.Tactic
import Mathlib.Data.List.TakeWhile

/-!
# Zippers

A list with a place in it: what is before the place, nearest first, and what is after
it.  The operations of a line editor are constant work at the place.

Proved here: how each of them shows in the list (`text_insert`, `text_backspace`, …) and
that moving leaves the list alone.
-/

universe u

structure Zipper (α : Type u) where
  before : List α := []
  after : List α := []

namespace Zipper

variable {α : Type u} {p : α → Bool} {z : Zipper α}

/-- The list. -/
def text (z : Zipper α) : List α := z.before.reverse ++ z.after

/-- The place. -/
def pos (z : Zipper α) : Nat := z.before.length

/-- The list, with the place at its end. -/
def ofText (xs : List α) : Zipper α := ⟨xs.reverse, []⟩

def insert (xs : List α) (z : Zipper α) : Zipper α := { z with before := xs.reverse ++ z.before }

def backspace (z : Zipper α) : Zipper α := { z with before := z.before.tail }

def delete (z : Zipper α) : Zipper α := { z with after := z.after.tail }

def left : Zipper α → Zipper α
  | ⟨x :: before, after⟩ => ⟨before, x :: after⟩
  | z => z

def right : Zipper α → Zipper α
  | ⟨before, x :: after⟩ => ⟨x :: before, after⟩
  | z => z

def first (z : Zipper α) : Zipper α := ⟨[], z.text⟩

def last (z : Zipper α) : Zipper α := ofText z.text

/-- To the left over the elements that meet `p`. -/
def leftWhile (p : α → Bool) (z : Zipper α) : Zipper α :=
  ⟨z.before.dropWhile p, (z.before.takeWhile p).reverse ++ z.after⟩

/-- To the right over the elements that meet `p`. -/
def rightWhile (p : α → Bool) (z : Zipper α) : Zipper α :=
  ⟨(z.after.takeWhile p).reverse ++ z.before, z.after.dropWhile p⟩

/-- Nothing is left before the place of `z` that is not before the place of `z'`. -/
def cutBack (z' z : Zipper α) : Zipper α := { z with before := z'.before }

def cutRest (z : Zipper α) : Zipper α := { z with after := [] }

/-! ## The list and the place -/

@[simp] theorem take_text (z : Zipper α) : z.text.take z.pos = z.before.reverse := by
  rw [text, pos, ← List.length_reverse, List.take_left]

@[simp] theorem drop_text (z : Zipper α) : z.text.drop z.pos = z.after := by
  rw [text, pos, ← List.length_reverse, List.drop_left]

theorem length_text (z : Zipper α) : z.text.length = z.pos + z.after.length := by
  rw [text, List.length_append, List.length_reverse, pos]

theorem pos_le (z : Zipper α) : z.pos ≤ z.text.length := by
  rw [length_text]
  exact Nat.le_add_right ..

theorem getElem?_text_pred {x : α} {before after : List α} :
    (⟨x :: before, after⟩ : Zipper α).text[before.length]? = some x := by
  simp [text]

@[simp] theorem text_ofText (xs : List α) : (ofText xs).text = xs := by
  rw [text, ofText, List.reverse_reverse, List.append_nil]

@[simp] theorem pos_ofText (xs : List α) : (ofText xs).pos = xs.length := List.length_reverse

theorem text_insert (xs : List α) (z : Zipper α) :
    (z.insert xs).text = z.text.take z.pos ++ xs ++ z.text.drop z.pos := by
  rw [take_text, drop_text, text, insert, List.reverse_append, List.reverse_reverse]

theorem pos_insert (xs : List α) (z : Zipper α) : (z.insert xs).pos = z.pos + xs.length := by
  rw [pos, insert, List.length_append, List.length_reverse, Nat.add_comm, pos]

@[simp] theorem text_left (z : Zipper α) : z.left.text = z.text := by
  obtain ⟨before, after⟩ := z
  cases before <;> simp [left, text]

theorem pos_left (z : Zipper α) : z.left.pos = z.pos - 1 := by
  obtain ⟨before, after⟩ := z
  cases before <;> simp [left, pos]

@[simp] theorem text_right (z : Zipper α) : z.right.text = z.text := by
  obtain ⟨before, after⟩ := z
  cases after <;> simp [right, text]

theorem pos_right (z : Zipper α) : z.right.pos = min z.text.length (z.pos + 1) := by
  obtain ⟨before, after⟩ := z
  cases after <;> simp [right, pos, text]

@[simp] theorem text_last (z : Zipper α) : z.last.text = z.text := text_ofText _

theorem text_backspace (z : Zipper α) :
    z.backspace.text = z.text.take (z.pos - 1) ++ z.text.drop z.pos := by
  obtain ⟨before, after⟩ := z
  cases before with
  | nil => simp [backspace, text, pos]
  | cons x before =>
    have htake : (before.reverse ++ x :: after).take before.length = before.reverse := by
      rw [← List.length_reverse, List.take_left]
    rw [drop_text]
    simp [backspace, text, pos, htake]

theorem pos_backspace (z : Zipper α) : z.backspace.pos = z.pos - 1 := by
  rw [pos, backspace, List.length_tail, pos]

theorem text_delete (z : Zipper α) :
    z.delete.text = z.text.take z.pos ++ z.text.drop (z.pos + 1) := by
  rw [take_text, ← List.drop_drop, drop_text, List.drop_one]
  rfl

theorem text_cutRest (z : Zipper α) : z.cutRest.text = z.text.take z.pos := by
  rw [take_text, text, cutRest, List.append_nil]

theorem text_cutBack (z' z : Zipper α) (htext : z'.text = z.text) :
    (cutBack z' z).text = z.text.take z'.pos ++ z.text.drop z.pos := by
  rw [← htext, take_text, htext, drop_text]
  rfl

/-! ## Runs of elements -/

@[simp] theorem text_leftWhile (p : α → Bool) (z : Zipper α) : (z.leftWhile p).text = z.text := by
  rw [text, leftWhile, ← List.append_assoc, ← List.reverse_append, List.takeWhile_append_dropWhile]
  rfl

@[simp] theorem text_rightWhile (p : α → Bool) (z : Zipper α) : (z.rightWhile p).text = z.text := by
  rw [text, rightWhile, List.reverse_append, List.reverse_reverse, List.append_assoc,
    List.takeWhile_append_dropWhile]
  rfl

theorem pos_leftWhile_le (p : α → Bool) (z : Zipper α) : (z.leftWhile p).pos ≤ z.pos :=
  (List.dropWhile_suffix p).length_le

theorem leftWhile_cons {x : α} {before after : List α} (hx : p x = true) :
    leftWhile p ⟨x :: before, after⟩ = leftWhile p ⟨before, x :: after⟩ := by
  simp [leftWhile, hx]

theorem leftWhile_stop {x : α} {before after : List α} (hx : p x = false) :
    leftWhile p ⟨x :: before, after⟩ = ⟨x :: before, after⟩ := by
  simp [leftWhile, hx]

end Zipper
