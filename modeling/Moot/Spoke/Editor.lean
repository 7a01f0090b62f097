import Moot.Lib.Zipper
import Moot.Lib.Ghost
import Moot.Lib.Strip
import Moot.Spoke.Keys
import Moot.Spoke.History
import Mathlib.Data.List.GetD

/-!
# The editor

`Editor` of `spoke/tui.py`: a buffer with a cursor, the kill operations and the history,
and the keys that `_run_tui` gives to it.

Proved here: `editor_follows`.  The buffer is a line with a place in it, the history a
list of texts with a place in it, and the draft that is left for an older text is there
again when the newest one is passed.
-/

namespace Moot.Spoke
open Py

/-- `Editor` -/
structure Editor where
  buf : Str := []
  pos : Nat := 0
  history : List Str := []
  hidx : Option Nat := none
  stash : Str := []

namespace Editor

/-- `_touch` -/
def touch (e : Editor) : Editor := { e with hidx := none }

/-- `insert` -/
def insert (e : Editor) (text : Str) : Editor :=
  let e := e.touch
  { e with buf := e.buf.take e.pos ++ text ++ e.buf.drop e.pos, pos := e.pos + text.length }

/-- `newline` -/
def newline (e : Editor) : Editor := e.insert (str "\n")

/-- `backspace` -/
def backspace (e : Editor) : Editor :=
  if 0 < e.pos then
    let e := e.touch
    { e with buf := e.buf.take (e.pos - 1) ++ e.buf.drop e.pos, pos := e.pos - 1 }
  else e

/-- `delete` -/
def delete (e : Editor) : Editor :=
  if e.pos < e.buf.length then
    let e := e.touch
    { e with buf := e.buf.take e.pos ++ e.buf.drop (e.pos + 1) }
  else e

/-- `left` -/
def left (e : Editor) : Editor := { e with pos := max 0 (e.pos - 1) }

/-- `right` -/
def right (e : Editor) : Editor := { e with pos := min e.buf.length (e.pos + 1) }

/-- `home` -/
def home (e : Editor) : Editor := { e with pos := 0 }

/-- `end` -/
def toEnd (e : Editor) : Editor := { e with pos := e.buf.length }

/-- A loop of `word_left`: to the left while the character there meets `p`. -/
def backWhile (p : CodePoint → Bool) (buf : Str) : Nat → Nat
  | 0 => 0
  | pos + 1 => if buf[pos]?.any p then backWhile p buf pos else pos + 1

/-- `word_left` -/
def wordLeft (e : Editor) : Editor :=
  let pos := backWhile isSpace e.buf e.pos
  { e with pos := backWhile (fun c => !isSpace c) e.buf pos }

/-- A loop of `word_right`, over what is right of `pos`. -/
def forthWhile (p : CodePoint → Bool) : Str → Nat → Nat
  | [], pos => pos
  | c :: rest, pos => if p c then forthWhile p rest (pos + 1) else pos

/-- `word_right` -/
def wordRight (e : Editor) : Editor :=
  let pos := forthWhile isSpace (e.buf.drop e.pos) e.pos
  { e with pos := forthWhile (fun c => !isSpace c) (e.buf.drop pos) pos }

/-- `kill_word_back` -/
def killWordBack (e : Editor) : Editor :=
  let e' := e.wordLeft
  if e'.pos ≠ e.pos then
    let e' := e'.touch
    { e' with buf := e'.buf.take e'.pos ++ e'.buf.drop e.pos }
  else e'

/-- `kill_to_end` -/
def killToEnd (e : Editor) : Editor :=
  if e.pos < e.buf.length then
    let e := e.touch
    { e with buf := e.buf.take e.pos }
  else e

/-- `kill_all` -/
def killAll (e : Editor) : Editor :=
  if e.buf ≠ [] then { e.touch with buf := [], pos := 0 } else e

/-- The text of the history at `i` is shown. -/
def callUp (e : Editor) (i : Nat) : Editor :=
  { e with hidx := some i, buf := e.history.getD i [], pos := (e.history.getD i []).length }

/-- `history_prev` -/
def historyPrev (e : Editor) : Editor :=
  if e.history = [] then e
  else
    match e.hidx with
    | none => { e with stash := e.buf }.callUp (e.history.length - 1)
    | some i => if 0 < i then e.callUp (i - 1) else e

/-- `history_next` -/
def historyNext (e : Editor) : Editor :=
  match e.hidx with
  | none => e
  | some i =>
    if i + 1 < e.history.length then e.callUp (i + 1)
    else { e with hidx := none, buf := e.stash, pos := e.stash.length }

/-- `submit` -/
def submit (e : Editor) : Str × Editor :=
  (e.buf,
    { history := if strip e.buf ≠ [] ∧ e.history.getLast? ≠ some e.buf then e.history ++ [e.buf]
        else e.history })

/-- What a key has done: to the editor, what is submitted, and whether the seat ends. -/
structure Pressed where
  editor : Editor
  submitted : Option Str := none
  quit : Bool := false

/-- A key, as `_run_tui` gives it to the editor; `keeps` says that the seat refuses the text, so that
`enter` leaves it in the buffer. -/
def press (e : Editor) (keeps : Bool) : Key → Pressed
  | .char s | .paste s => ⟨e.insert s, none, false⟩
  | .altEnter => ⟨e.newline, none, false⟩
  | .enter =>
    if keeps then ⟨e, none, false⟩
    else
      let (text, e) := e.submit
      ⟨e, some text, false⟩
  | .key .left => ⟨e.left, none, false⟩
  | .key .right => ⟨e.right, none, false⟩
  | .key .home | .key .ctrlA => ⟨e.home, none, false⟩
  | .key .end | .key .ctrlE => ⟨e.toEnd, none, false⟩
  | .key .backspace => ⟨e.backspace, none, false⟩
  | .key .delete => ⟨e.delete, none, false⟩
  | .key .up => ⟨e.historyPrev, none, false⟩
  | .key .down => ⟨e.historyNext, none, false⟩
  | .key .ctrlK => ⟨e.killToEnd, none, false⟩
  | .key .ctrlU => ⟨e.killAll, none, false⟩
  | .key .ctrlW => ⟨e.killWordBack, none, false⟩
  | .key .altB => ⟨e.wordLeft, none, false⟩
  | .key .altF => ⟨e.wordRight, none, false⟩
  | .key .ctrlL => ⟨e, none, false⟩
  | .key .ctrlC => if e.buf ≠ [] then ⟨e.killAll, none, false⟩ else ⟨e, none, true⟩
  | .key .ctrlD => if e.buf ≠ [] then ⟨e.delete, none, false⟩ else ⟨e, none, true⟩

/-- Keys, one after the other, up to the one that ends the seat; each with what the seat makes of the
text if it is `enter`. -/
def run (e : Editor) : List (Bool × Key) → List Str × Editor
  | [] => ([], e)
  | (keeps, key) :: keys =>
    let p := e.press keeps key
    if p.quit then ([], p.editor)
    else
      let (texts, e) := p.editor.run keys
      (p.submitted.toList ++ texts, e)

end Editor

/-! ## What an editor is for -/

/-- A line with a place in it, and the texts that can be called back: `place` of them are older than
what the line shows, and past the newest one there is the draft. -/
structure Sheet where
  line : Zipper CodePoint := {}
  history : List Str := []
  place : Nat := 0
  draft : Str := []

namespace Sheet

/-- An empty line, below the texts. -/
def fresh (history : List Str) : Sheet := { history := history, place := history.length }

/-- The line is changed, and is the draft from now on. -/
def edit (s : Sheet) (line : Zipper CodePoint) : Sheet :=
  { s with line := line, place := s.history.length, draft := line.text }

def move (s : Sheet) (line : Zipper CodePoint) : Sheet := { s with line := line }

/-- The text at `place` is shown, or the draft. -/
def callUp (s : Sheet) (place : Nat) : Sheet :=
  { s with place := place, line := .ofText (s.history.getD place s.draft) }

def up (s : Sheet) : Sheet := if s.place = 0 then s else s.callUp (s.place - 1)

def down (s : Sheet) : Sheet := if s.place = s.history.length then s else s.callUp (s.place + 1)

/-- The beginning of the word. -/
def wordLeft (z : Zipper CodePoint) : Zipper CodePoint :=
  (z.leftWhile isSpace).leftWhile fun c => !isSpace c

/-- The end of the word. -/
def wordRight (z : Zipper CodePoint) : Zipper CodePoint :=
  (z.rightWhile isSpace).rightWhile fun c => !isSpace c

/-- The texts once `text` has been submitted: not a blank one, and not the last one again. -/
def noted (history : List Str) (text : Str) : List Str :=
  if strip text = [] then history else note history text

def submit (s : Sheet) : Sheet := fresh (noted s.history s.line.text)

/-- What a key does; a kill that finds nothing is no change of the line. -/
def press (s : Sheet) (keeps : Bool) : Key → Sheet
  | .char t | .paste t => s.edit (s.line.insert t)
  | .altEnter => s.edit (s.line.insert (str "\n"))
  | .enter => if keeps then s else s.submit
  | .key .left => s.move s.line.left
  | .key .right => s.move s.line.right
  | .key .home | .key .ctrlA => s.move s.line.first
  | .key .end | .key .ctrlE => s.move s.line.last
  | .key .backspace => if s.line.before = [] then s else s.edit s.line.backspace
  | .key .delete | .key .ctrlD => if s.line.after = [] then s else s.edit s.line.delete
  | .key .up => s.up
  | .key .down => s.down
  | .key .ctrlK => if s.line.after = [] then s else s.edit s.line.cutRest
  | .key .ctrlU | .key .ctrlC => if s.line.text = [] then s else s.edit {}
  | .key .ctrlW =>
    if s.line.before = [] then s else s.edit (Zipper.cutBack (wordLeft s.line) s.line)
  | .key .altB => s.move (wordLeft s.line)
  | .key .altF => s.move (wordRight s.line)
  | .key .ctrlL => s

/-- The keys up to the one that ends the seat: an interrupt of an empty line. -/
def run (s : Sheet) : List (Bool × Key) → Sheet
  | [] => s
  | (keeps, key) :: keys =>
    if (key = .key .ctrlC ∨ key = .key .ctrlD) ∧ s.line.text = [] then s
    else (s.press keeps key).run keys

end Sheet

/-! ## The editor follows -/

/-- The editor shows the sheet. -/
structure Follows (e : Editor) (s : Sheet) : Prop where
  buf : e.buf = s.line.text
  pos : e.pos = s.line.pos
  history : e.history = s.history
  place : s.place ≤ s.history.length
  hidx : e.hidx = if s.place < s.history.length then some s.place else none
  stash : s.place < s.history.length → e.stash = s.draft
  shown : s.history.getD s.place s.draft = s.line.text

section
variable {e e' : Editor} {s : Sheet} {z : Zipper CodePoint}

theorem follows_fresh (history : List Str) : Follows { history := history } (Sheet.fresh history) where
  buf := rfl
  pos := rfl
  history := rfl
  place := le_rfl
  hidx := (if_neg (lt_irrefl _)).symm
  stash := fun hlt => absurd hlt (lt_irrefl _)
  shown := by
    show history.getD history.length [] = _
    rw [List.getD_eq_default _ _ le_rfl]
    rfl

theorem Follows.edit (hf : Follows e s) (hbuf : e'.buf = z.text) (hpos : e'.pos = z.pos)
    (hhistory : e'.history = e.history) (hidx : e'.hidx = none) : Follows e' (s.edit z) where
  buf := hbuf
  pos := hpos
  history := hhistory.trans hf.history
  place := le_rfl
  hidx := hidx.trans (if_neg (lt_irrefl _)).symm
  stash := fun hlt => absurd hlt (lt_irrefl _)
  shown := List.getD_eq_default _ _ le_rfl

theorem Follows.move (hf : Follows e s) {pos : Nat} (hpos : pos = z.pos) (htext : z.text = s.line.text) :
    Follows { e with pos := pos } (s.move z) where
  buf := hf.buf.trans htext.symm
  pos := hpos
  history := hf.history
  place := hf.place
  hidx := hf.hidx
  stash := hf.stash
  shown := hf.shown.trans htext.symm

theorem Follows.callUp (hf : Follows e s) {place : Nat} (hplace : place < s.history.length)
    (hhistory : e'.history = e.history) (hstash : e'.stash = s.draft) :
    Follows (e'.callUp place) (s.callUp place) := by
  have hgetD : s.history.getD place s.draft = e'.history.getD place [] := by
    rw [hhistory, hf.history, List.getD_eq_getElem _ _ hplace, List.getD_eq_getElem _ _ hplace]
  have htext : (s.callUp place).line.text = e'.history.getD place [] :=
    (Zipper.text_ofText _).trans hgetD
  exact {
    buf := htext.symm
    pos := by
      show (e'.history.getD place []).length = (Zipper.ofText _).pos
      rw [Zipper.pos_ofText, hgetD]
    history := hhistory.trans hf.history
    place := hplace.le
    hidx := (if_pos hplace).symm
    stash := fun _ => hstash
    shown := (Zipper.text_ofText _).symm }

theorem Follows.insert (hf : Follows e s) (text : Str) :
    Follows (e.insert text) (s.edit (s.line.insert text)) := by
  refine hf.edit ?_ ?_ rfl rfl
  · rw [Zipper.text_insert, ← hf.buf, ← hf.pos]
    rfl
  · rw [Zipper.pos_insert, ← hf.pos]
    rfl

theorem Follows.backspace (hf : Follows e s) :
    Follows e.backspace (if s.line.before = [] then s else s.edit s.line.backspace) := by
  have hpos : 0 < e.pos ↔ s.line.before ≠ [] := by
    rw [hf.pos]
    exact List.length_pos_iff
  unfold Editor.backspace
  split
  · next hsome =>
    rw [if_neg (hpos.mp hsome)]
    refine hf.edit ?_ ?_ rfl rfl
    · rw [Zipper.text_backspace, ← hf.buf, ← hf.pos]
      rfl
    · rw [Zipper.pos_backspace, ← hf.pos]
      rfl
  · next hnone =>
    rw [if_pos (not_not.mp fun hne => hnone (hpos.mpr hne))]
    exact hf

theorem Follows.rest_iff (hf : Follows e s) : e.pos < e.buf.length ↔ s.line.after ≠ [] := by
  rw [hf.pos, hf.buf, Zipper.length_text, ← List.length_pos_iff]
  omega

theorem Follows.delete (hf : Follows e s) :
    Follows e.delete (if s.line.after = [] then s else s.edit s.line.delete) := by
  unfold Editor.delete
  split
  · next hsome =>
    rw [if_neg (hf.rest_iff.mp hsome)]
    refine hf.edit ?_ hf.pos rfl rfl
    rw [Zipper.text_delete, ← hf.buf, ← hf.pos]
    rfl
  · next hnone =>
    rw [if_pos (not_not.mp fun hne => hnone (hf.rest_iff.mpr hne))]
    exact hf

theorem Follows.killToEnd (hf : Follows e s) :
    Follows e.killToEnd (if s.line.after = [] then s else s.edit s.line.cutRest) := by
  unfold Editor.killToEnd
  split
  · next hsome =>
    rw [if_neg (hf.rest_iff.mp hsome)]
    refine hf.edit ?_ hf.pos rfl rfl
    rw [Zipper.text_cutRest, ← hf.buf, ← hf.pos]
    rfl
  · next hnone =>
    rw [if_pos (not_not.mp fun hne => hnone (hf.rest_iff.mpr hne))]
    exact hf

theorem Follows.killAll (hf : Follows e s) :
    Follows e.killAll (if s.line.text = [] then s else s.edit {}) := by
  rw [Editor.killAll, hf.buf]
  by_cases hempty : s.line.text = []
  · rw [if_neg (not_not.mpr hempty), if_pos hempty]
    exact hf
  · rw [if_pos hempty, if_neg hempty]
    exact hf.edit rfl rfl rfl rfl

/-! ## Words -/

theorem backWhile_eq (p : CodePoint → Bool) (z : Zipper CodePoint) :
    Editor.backWhile p z.text z.pos = (z.leftWhile p).pos := by
  obtain ⟨before, after⟩ := z
  induction before generalizing after with
  | nil => rfl
  | cons c before ih =>
    have hstep : (⟨c :: before, after⟩ : Zipper CodePoint).text =
        (⟨before, c :: after⟩ : Zipper CodePoint).text := by simp [Zipper.text]
    show (if (Zipper.text ⟨c :: before, after⟩)[before.length]?.any p then
      Editor.backWhile p (Zipper.text ⟨c :: before, after⟩) before.length else before.length + 1) = _
    rw [Zipper.getElem?_text_pred, Option.any_some, hstep]
    cases hc : p c with
    | true =>
      rw [if_pos rfl, Zipper.leftWhile_cons hc]
      exact ih (c :: after)
    | false =>
      rw [if_neg Bool.false_ne_true, Zipper.leftWhile_stop hc]
      rfl

theorem forthWhile_eq (p : CodePoint → Bool) (rest : Str) (pos : Nat) :
    Editor.forthWhile p rest pos = pos + (rest.takeWhile p).length := by
  induction rest generalizing pos with
  | nil => rfl
  | cons c rest ih =>
    rw [Editor.forthWhile, List.takeWhile_cons]
    split
    · rw [ih, List.length_cons]
      omega
    · rfl

theorem forthWhile_zipper (p : CodePoint → Bool) (z : Zipper CodePoint) :
    Editor.forthWhile p (z.text.drop z.pos) z.pos = (z.rightWhile p).pos := by
  rw [forthWhile_eq, Zipper.drop_text, Zipper.pos, Zipper.pos, Zipper.rightWhile, List.length_append,
    List.length_reverse, Nat.add_comm]

theorem wordLeft_eq (hf : Follows e s) : e.wordLeft = { e with pos := (Sheet.wordLeft s.line).pos } := by
  have hfirst : Editor.backWhile isSpace e.buf e.pos = (s.line.leftWhile isSpace).pos := by
    rw [hf.buf, hf.pos]
    exact backWhile_eq isSpace s.line
  have hsecond := backWhile_eq (fun c => !isSpace c) (s.line.leftWhile isSpace)
  rw [Zipper.text_leftWhile, ← hf.buf] at hsecond
  rw [Editor.wordLeft, hfirst, hsecond]
  rfl

theorem wordRight_eq (hf : Follows e s) :
    e.wordRight = { e with pos := (Sheet.wordRight s.line).pos } := by
  have hfirst : Editor.forthWhile isSpace (e.buf.drop e.pos) e.pos = (s.line.rightWhile isSpace).pos := by
    rw [hf.buf, hf.pos]
    exact forthWhile_zipper isSpace s.line
  have hsecond := forthWhile_zipper (fun c => !isSpace c) (s.line.rightWhile isSpace)
  rw [Zipper.text_rightWhile, ← hf.buf] at hsecond
  rw [Editor.wordRight, hfirst, hsecond]
  rfl

theorem text_wordLeft (z : Zipper CodePoint) : (Sheet.wordLeft z).text = z.text := by
  rw [Sheet.wordLeft, Zipper.text_leftWhile, Zipper.text_leftWhile]

theorem text_wordRight (z : Zipper CodePoint) : (Sheet.wordRight z).text = z.text := by
  rw [Sheet.wordRight, Zipper.text_rightWhile, Zipper.text_rightWhile]

/-- The beginning of the word is left of the place, if anything is. -/
theorem pos_wordLeft_eq_iff (z : Zipper CodePoint) :
    (Sheet.wordLeft z).pos = z.pos ↔ z.before = [] := by
  obtain ⟨before, after⟩ := z
  cases before with
  | nil => exact ⟨fun _ => rfl, fun _ => rfl⟩
  | cons c before =>
    have hlt : (Sheet.wordLeft ⟨c :: before, after⟩).pos < before.length + 1 := by
      rw [Sheet.wordLeft]
      cases hc : isSpace c with
      | true =>
        rw [Zipper.leftWhile_cons hc]
        exact Nat.lt_succ_of_le ((Zipper.pos_leftWhile_le _ _).trans (Zipper.pos_leftWhile_le _ _))
      | false =>
        have hword : (!isSpace c) = true := by rw [hc]; rfl
        rw [Zipper.leftWhile_stop hc, Zipper.leftWhile_cons (p := fun c => !isSpace c) hword]
        exact Nat.lt_succ_of_le (Zipper.pos_leftWhile_le _ _)
    refine ⟨fun heq => ?_, fun hnil => by cases hnil⟩
    have heq : (Sheet.wordLeft ⟨c :: before, after⟩).pos = before.length + 1 := heq
    omega

theorem Follows.killWordBack (hf : Follows e s) : Follows e.killWordBack
    (if s.line.before = [] then s else s.edit (Zipper.cutBack (Sheet.wordLeft s.line) s.line)) := by
  have hmoved := pos_wordLeft_eq_iff s.line
  rw [← hf.pos] at hmoved
  rw [Editor.killWordBack, wordLeft_eq hf]
  simp only
  split
  · next hne =>
    rw [if_neg (fun hnil => hne (hmoved.mpr hnil))]
    refine hf.edit ?_ rfl rfl rfl
    rw [Zipper.text_cutBack _ _ (text_wordLeft s.line), ← hf.buf, ← hf.pos]
    rfl
  · next heq =>
    have heq := not_not.mp heq
    rw [if_pos (hmoved.mp heq), heq]
    exact hf

/-! ## The history -/

theorem Follows.up (hf : Follows e s) : Follows e.historyPrev s.up := by
  have hplace := hf.place
  unfold Editor.historyPrev Sheet.up
  by_cases hempty : e.history = []
  · have hzero : s.place = 0 := by
      have hlen : s.history.length = 0 := by rw [← hf.history, hempty]; rfl
      omega
    rw [if_pos hempty, if_pos hzero]
    exact hf
  · have hlen : 0 < s.history.length := by
      rw [← hf.history]
      exact List.length_pos_iff.mpr hempty
    rw [if_neg hempty, hf.hidx]
    by_cases hlt : s.place < s.history.length
    · rw [if_pos hlt]
      simp only
      by_cases hzero : s.place = 0
      · rw [if_pos hzero, if_neg (by omega)]
        exact hf
      · rw [if_neg hzero, if_pos (by omega)]
        exact hf.callUp (by omega) rfl (hf.stash hlt)
    · -- the draft is put by
      have hend : s.place = s.history.length := by omega
      have hdraft : e.buf = s.draft := by
        have hshown := hf.shown
        rw [hend, List.getD_eq_default _ _ le_rfl] at hshown
        rw [hf.buf, hshown]
      rw [if_neg hlt, if_neg (by omega : ¬s.place = 0), hend, ← hf.history]
      exact hf.callUp (by rw [← hf.history]; exact Nat.sub_lt (hf.history ▸ hlen) Nat.one_pos) rfl hdraft

theorem Follows.down (hf : Follows e s) : Follows e.historyNext s.down := by
  have hplace := hf.place
  unfold Editor.historyNext Sheet.down
  rw [hf.hidx]
  by_cases hlt : s.place < s.history.length
  · rw [if_pos hlt, if_neg (by omega : ¬s.place = s.history.length)]
    simp only
    rw [hf.history]
    split
    · next hmore => exact hf.callUp hmore rfl (hf.stash hlt)
    · next hlast =>
      -- past the newest text the draft is there again
      have hend : s.place + 1 = s.history.length := by omega
      have htext : (s.callUp (s.place + 1)).line = .ofText e.stash := by
        show Zipper.ofText (s.history.getD (s.place + 1) s.draft) = _
        rw [hend, List.getD_eq_default _ _ le_rfl, hf.stash hlt]
      exact {
        buf := by rw [htext, Zipper.text_ofText]
        pos := by rw [htext, Zipper.pos_ofText]
        history := rfl
        place := hend.le
        hidx := (if_neg (by
          show ¬s.place + 1 < s.history.length
          omega)).symm
        stash := fun hlt' => by
          have hlt' : s.place + 1 < s.history.length := hlt'
          omega
        shown := (Zipper.text_ofText _).symm }
  · rw [if_neg hlt, if_pos (by omega)]
    exact hf

theorem submit_history (e : Editor) : e.submit.2 = { history := Sheet.noted e.history e.buf } := by
  rw [Editor.submit, Sheet.noted, note]
  by_cases hblank : strip e.buf = []
  · rw [if_pos hblank, if_neg fun hboth => hboth.1 hblank]
  · rw [if_neg hblank]
    by_cases hlast : e.history.getLast? = some e.buf
    · rw [if_pos hlast, if_neg fun hboth => hboth.2 hlast]
    · rw [if_neg hlast, if_pos ⟨hblank, hlast⟩]

theorem Follows.submit (hf : Follows e s) : Follows e.submit.2 s.submit := by
  rw [submit_history, Sheet.submit, hf.history, hf.buf]
  exact follows_fresh _

/-- **A key** keeps the editor with the sheet. -/
theorem Follows.press (hf : Follows e s) (keeps : Bool) (key : Key) :
    Follows (e.press keeps key).editor (s.press keeps key) := by
  cases key with
  | char t => exact hf.insert t
  | paste t => exact hf.insert t
  | altEnter => exact hf.insert (str "\n")
  | enter =>
    cases keeps with
    | true => exact hf
    | false => exact hf.submit
  | key name =>
    have hdelete := hf.delete
    have hkill := hf.killAll
    cases name with
    | left =>
      refine hf.move ?_ (Zipper.text_left _)
      rw [Zipper.pos_left, ← hf.pos]
      exact Nat.max_eq_right (Nat.zero_le _)
    | right => exact hf.move (by rw [Zipper.pos_right, ← hf.pos, ← hf.buf]) (Zipper.text_right _)
    | home => exact hf.move rfl rfl
    | ctrlA => exact hf.move rfl rfl
    | «end» => exact hf.move (by rw [hf.buf, Zipper.last, Zipper.pos_ofText]) (Zipper.text_last _)
    | ctrlE => exact hf.move (by rw [hf.buf, Zipper.last, Zipper.pos_ofText]) (Zipper.text_last _)
    | backspace => exact hf.backspace
    | delete => exact hdelete
    | up => exact hf.up
    | down => exact hf.down
    | ctrlK => exact hf.killToEnd
    | ctrlU => exact hkill
    | ctrlW => exact hf.killWordBack
    | altB =>
      show Follows e.wordLeft _
      rw [wordLeft_eq hf]
      exact hf.move rfl (text_wordLeft _)
    | altF =>
      show Follows e.wordRight _
      rw [wordRight_eq hf]
      exact hf.move rfl (text_wordRight _)
    | ctrlL => exact hf
    | ctrlC =>
      show Follows (if e.buf ≠ [] then (⟨e.killAll, none, false⟩ : Editor.Pressed) else ⟨e, none, true⟩).editor
        (if s.line.text = [] then s else s.edit {})
      by_cases hempty : e.buf = []
      · rw [if_neg (not_not.mpr hempty), if_pos (by rw [← hf.buf]; exact hempty)]
        exact hf
      · rw [if_pos hempty]
        exact hkill
    | ctrlD =>
      show Follows (if e.buf ≠ [] then (⟨e.delete, none, false⟩ : Editor.Pressed) else ⟨e, none, true⟩).editor
        (if s.line.after = [] then s else s.edit s.line.delete)
      by_cases hempty : e.buf = []
      · have hnone : s.line.after = [] := by
          have htext : s.line.text = [] := by rw [← hf.buf]; exact hempty
          exact (List.append_eq_nil_iff.mp htext).2
        rw [if_neg (not_not.mpr hempty), if_pos hnone]
        exact hf
      · rw [if_pos hempty]
        exact hdelete

/-- The seat ends with an interrupt of an empty line, and the editor is as it was. -/
theorem quit_iff (hf : Follows e s) (keeps : Bool) (key : Key) : (e.press keeps key).quit = true ↔
    (key = .key .ctrlC ∨ key = .key .ctrlD) ∧ s.line.text = [] := by
  rw [← hf.buf]
  cases key with
  | enter => cases keeps <;> simp [Editor.press]
  | key name =>
    cases name with
    | ctrlC => by_cases hempty : e.buf = [] <;> simp [Editor.press, hempty]
    | ctrlD => by_cases hempty : e.buf = [] <;> simp [Editor.press, hempty]
    | _ => simp [Editor.press]
  | _ => simp [Editor.press]

theorem editor_of_quit {keeps : Bool} {key : Key} (hq : (e.press keeps key).quit = true) :
    (e.press keeps key).editor = e := by
  cases key with
  | enter => cases keeps <;> simp [Editor.press] at hq
  | key name =>
    cases name with
    | ctrlC => by_cases hempty : e.buf = [] <;> simp [Editor.press, hempty] at hq ⊢
    | ctrlD => by_cases hempty : e.buf = [] <;> simp [Editor.press, hempty] at hq ⊢
    | _ => simp [Editor.press] at hq
  | _ => simp [Editor.press] at hq

/-- What is submitted is noted, and nothing else is. -/
theorem history_press (hf : Follows e s) (keeps : Bool) (key : Key) : (e.press keeps key).editor.history =
    (e.press keeps key).submitted.toList.foldl Sheet.noted e.history := by
  have hsheet := (hf.press keeps key).history
  cases key with
  | enter =>
    cases keeps with
    | true => rfl
    | false =>
      show e.submit.2.history = Sheet.noted e.history e.buf
      rw [submit_history]
  | key name =>
    have hnone : (e.press keeps (.key name)).submitted = none := by
      cases name with
      | ctrlC => by_cases hempty : e.buf = [] <;> simp [Editor.press, hempty]
      | ctrlD => by_cases hempty : e.buf = [] <;> simp [Editor.press, hempty]
      | _ => rfl
    have hkept : (s.press keeps (.key name)).history = s.history := by
      cases name <;> simp only [Sheet.press, Sheet.up, Sheet.down] <;> first | rfl | split_ifs <;> rfl
    rw [hnone, hsheet, hkept, ← hf.history]
    rfl
  | _ => exact hsheet.trans hf.history.symm

theorem Follows.run (hf : Follows e s) (keys : List (Bool × Key)) : Follows (e.run keys).2 (s.run keys) ∧
    (e.run keys).2.history = (e.run keys).1.foldl Sheet.noted e.history := by
  induction keys generalizing e s with
  | nil => exact ⟨hf, rfl⟩
  | cons k keys ih =>
    obtain ⟨keeps, key⟩ := k
    rw [Editor.run, Sheet.run]
    simp only
    by_cases hquit : (e.press keeps key).quit = true
    · rw [if_pos hquit, if_pos ((quit_iff hf keeps key).mp hquit), editor_of_quit hquit]
      exact ⟨hf, rfl⟩
    · rw [if_neg hquit, if_neg fun hboth => hquit ((quit_iff hf keeps key).mpr hboth)]
      obtain ⟨hrun, hhistory⟩ := ih (hf.press keeps key)
      refine ⟨hrun, ?_⟩
      rw [hhistory, history_press hf, List.foldl_append]

theorem place_down (hplace : s.place ≤ s.history.length) :
    s.down.place = min s.history.length (s.place + 1) ∧ s.down.history = s.history ∧
      s.down.draft = s.draft := by
  unfold Sheet.down
  split
  · next hend => exact ⟨by omega, rfl, rfl⟩
  · next hmore =>
    refine ⟨?_, rfl, rfl⟩
    show s.place + 1 = _
    omega

/-- Down as often as there are texts. -/
theorem Follows.downs (hf : Follows e s) (n : Nat) :
    Follows (Editor.historyNext^[n] e) (Sheet.down^[n] s) ∧
      (Sheet.down^[n] s).place = min s.history.length (s.place + n) ∧
      (Sheet.down^[n] s).history = s.history ∧ (Sheet.down^[n] s).draft = s.draft := by
  induction n with
  | zero =>
    have hplace := hf.place
    exact ⟨hf, by rw [Function.iterate_zero, id, Nat.add_zero, Nat.min_eq_right hplace], rfl, rfl⟩
  | succ n ih =>
    obtain ⟨hfollows, hplace, hhistory, hdraft⟩ := ih
    obtain ⟨hplace', hhistory', hdraft'⟩ := place_down hfollows.place
    rw [Function.iterate_succ', Function.iterate_succ', Function.comp, Function.comp]
    refine ⟨hfollows.down, ?_, hhistory'.trans hhistory, hdraft'.trans hdraft⟩
    rw [hplace', hhistory, hplace]
    omega

/-- **The draft is there again** past the newest text. -/
theorem Follows.draft (hf : Follows e s) :
    (Editor.historyNext^[e.history.length] e).buf = s.draft := by
  obtain ⟨hfollows, hplace, hhistory, hdraft⟩ := hf.downs e.history.length
  have hend : (Sheet.down^[e.history.length] s).place = s.history.length := by
    rw [hplace, hf.history]
    omega
  have hshown := hfollows.shown
  rw [hend, hhistory, List.getD_eq_default _ _ le_rfl, hdraft] at hshown
  rw [hfollows.buf, hshown]

/-- **The editor does what it is for.**  Whatever keys are pressed, the buffer and the cursor are a
line with a place in it, changed by each key as `Sheet.press` says; the draft, which is what the line
was after the last change of it, is shown again when the newest text has been passed; and the history
is what it was before, with every submitted text that is neither blank nor the last one again. -/
theorem editor_follows (history : List Str) (keys : List (Bool × Key)) :
    let e := Editor.run { history := history } keys
    let s := (Sheet.fresh history).run keys
    (e.2.buf = s.line.text ∧ e.2.pos = s.line.pos ∧ e.2.pos ≤ e.2.buf.length) ∧
      (Editor.historyNext^[e.2.history.length] e.2).buf = s.draft ∧
      (e.2.hidx = none → e.2.buf = s.draft) ∧
      e.2.history = e.1.foldl Sheet.noted history := by
  intro e s
  obtain ⟨hf, hhistory⟩ := (follows_fresh history).run keys
  refine ⟨⟨hf.buf, hf.pos, ?_⟩, hf.draft, fun hnone => ?_, hhistory⟩
  · rw [hf.pos, hf.buf]
    exact s.line.pos_le
  · have hplace := hf.place
    have hhidx := hf.hidx
    rw [show (Editor.run { history := history } keys).2.hidx = none from hnone] at hhidx
    have hend : s.place = s.history.length := by
      by_contra hne
      rw [if_pos (Nat.lt_of_le_of_ne hplace hne)] at hhidx
      cases hhidx
    have hshown := hf.shown
    rw [show ((Sheet.fresh history).run keys).place = _ from hend, List.getD_eq_default _ _ le_rfl] at hshown
    rw [show e.2.buf = _ from hf.buf, ← hshown]

/-- A draft, an older text that is looked at, and the draft again. -/
example : ((Editor.run { history := [str "a", str "b c"] }
    [(false, .char (str "x")), (false, .key .up), (false, .key .altB), (false, .key .up),
      (false, .key .down), (false, .key .down), (false, .char (str "y"))]).2.buf) = str "xy" := by
  decide

end

end Moot.Spoke
