import Moot.Types
import Moot.Lib.Utf8

/-!
# The inbox file bridge

`moot stream --inbox FILE` appends every rendered frame to `FILE`; `moot wait`
and `moot peek` read what is new and remember a byte offset in the cursor file
next to it (`cli/inbox.py`, `Stream.emit`).

Proved here: `reads_once_iff`.  The offset advances by the length of the text
*after* newline translation, so the bridge reads every line exactly once if and
only if no text read so far holds a `CR` right before an `LF`, its own final
newline included.  `crlf_is_read_twice` is the smallest failing run.
-/

namespace Moot.Inbox
open Py

inductive Command
  | wait | peek
  deriving DecidableEq, Repr

/-- A running `run_wait` or `run_peek`: the cursor it read first, and whether
it has seen new text and now lets the frame finish writing. -/
structure Reader where
  command : Command
  start : Nat
  settling : Bool := false
  deriving DecidableEq, Repr

/-- The two files, the reader, the states it has reported, and two histories:
the texts handed to `emit` and those the reads have printed. -/
structure Bridge where
  inbox : Option ByteArray := none
  cursor : Option Nat := none
  reader : Option Reader := none
  reports : List State := []
  emitted : List (List Char) := []
  printed : List (List Char) := []

/-- `_read_cursor` -/
def Bridge.readCursor (b : Bridge) : Nat := b.cursor.getD 0

/-- `_size` -/
def Bridge.size (b : Bridge) : Nat := (b.inbox.map ByteArray.size).getD 0

/-- `Stream.emit` -/
def Bridge.emit (b : Bridge) (text : List Char) : Bridge :=
  { b with
    inbox := some (b.inbox.getD ByteArray.empty ++ utf8 (text ++ ['\n']))
    emitted := b.emitted ++ [text] }

/-- `_report` -/
def Bridge.report (b : Bridge) (s : State) : Bridge := { b with reports := b.reports ++ [s] }

/-- `_consume_unread`; `none` is an exception. -/
def Bridge.consumeUnread (b : Bridge) (start : Nat) : Option (List Char × Bridge) :=
  match b.inbox with
  | none => none
  | some bytes =>
    (readText? (bytes.extract start bytes.size)).map fun data =>
      (data, { b with cursor := some (start + utf8Len data) })

/-- One step of the stream or of the running command.  `start` reads the
cursor and reports `idle`; `poll` looks at the file size; `expire` is the
deadline; `collect` reads, half a second after the look that found new text. -/
inductive Op
  | emit (text : List Char)
  | start (c : Command)
  | poll
  | expire
  | collect
  deriving DecidableEq, Repr

inductive Outcome
  | running
  | nothing
  | read (data : List Char)
  | raised
  deriving DecidableEq, Repr

/-- `run_wait` and `run_peek`, cut at their looks at the file.  An operation
that is not enabled does nothing. -/
def step (b : Bridge) : Op → Bridge × Outcome
  | .emit text => (b.emit text, .running)
  | .start c =>
    match b.reader with
    | some _ => (b, .running)
    | none => ({ b.report .idle with reader := some ⟨c, b.readCursor, false⟩ }, .running)
  | .poll =>
    match b.reader with
    | some ⟨c, start, false⟩ =>
      if b.size > start then
        ({ b.report .busy with reader := some ⟨c, start, true⟩ }, .running)
      else (b, .running)
    | _ => (b, .running)
  | .expire =>
    match b.reader with
    | some ⟨.wait, _, false⟩ => ({ b with reader := none }, .nothing)
    | some ⟨.peek, _, false⟩ => ({ b.report .busy with reader := none }, .nothing)
    | _ => (b, .running)
  | .collect =>
    match b.reader with
    | some ⟨_, start, true⟩ =>
      match b.consumeUnread start with
      | none => ({ b with reader := none }, .raised)
      | some (data, b) =>
        ({ b with reader := none, printed := b.printed ++ [data] }, .read data)
    | _ => (b, .running)

/-! ## The law -/

/-- Everything appended so far. -/
def appended (texts : List (List Char)) : List Char := texts.flatMap (· ++ ['\n'])

/-- The reads have returned everything appended, once, and the cursor is at
the end of the file. -/
def Bridge.Current (b : Bridge) : Prop :=
  b.printed.flatten = universalNewlines false (appended b.emitted) ∧ b.readCursor = b.size

/-- The operation reads the file. -/
def Collects (b : Bridge) (op : Op) : Prop :=
  op = .collect ∧ ∃ c start, b.reader = some ⟨c, start, true⟩

/-- The operation looks for new text and finds none. -/
def FindsNothing (b : Bridge) (op : Op) : Prop :=
  op = .poll ∧ ∃ c start, b.reader = some ⟨c, start, false⟩ ∧ b.size ≤ start

/-- In the run every read succeeds and leaves nothing behind, and a look that
finds nothing new has nothing to find. -/
def ReadsOnce : Bridge → List Op → Prop
  | _, [] => True
  | b, op :: ops =>
    (Collects b op → (step b op).2 ≠ .raised ∧ (step b op).1.Current) ∧
    (FindsNothing b op → b.Current) ∧
    ReadsOnce (step b op).1 ops

/-- A text that has no `CR` right before an `LF`, once its newline is written. -/
def NoCrlf (text : List Char) : Prop := ¬ ['\r', '\n'] <:+: text ++ ['\n']

/-- Whenever the run reads the file, no text appended so far has a `CRLF`. -/
def CrlfFree : Bridge → List Op → Prop
  | _, [] => True
  | b, op :: ops =>
    (Collects b op → ∀ text ∈ b.emitted, NoCrlf text) ∧ CrlfFree (step b op).1 ops

/-! ## The invariant -/

@[simp] theorem appended_append (ts us : List (List Char)) :
    appended (ts ++ us) = appended ts ++ appended us := by simp [appended]

/-- A sequence of whole lines does not end in a `CR`. -/
theorem crAfter_appended (ts : List (List Char)) : crAfter false (appended ts) = false := by
  induction ts using List.reverseRecOn with
  | nil => rfl
  | append_singleton ts t _ =>
    have h : appended (ts ++ [t]) = (appended ts ++ t) ++ ['\n'] := by simp [appended]
    rw [h, crAfter_append_singleton]
    decide

/-- The pairs of a sequence of lines are the pairs of its lines. -/
theorem crlfs_appended_eq_zero_iff (ts : List (List Char)) :
    crlfs false (appended ts) = 0 ↔ ∀ t ∈ ts, NoCrlf t := by
  induction ts using List.reverseRecOn with
  | nil => simp [appended, crlfs]
  | append_singleton ts t ih =>
    have ht : appended [t] = t ++ ['\n'] := by simp [appended]
    rw [appended_append, crlfs_append, crAfter_appended, Nat.add_eq_zero_iff, ih, ht,
      crlfs_eq_zero_iff]
    simp only [List.mem_append, List.mem_singleton, NoCrlf]
    constructor
    · rintro ⟨hts, h⟩ u (hu | rfl)
      · exact hts u hu
      · exact h
    · intro h
      exact ⟨fun u hu => h u (Or.inl hu), h t (Or.inr rfl)⟩

/-- The state while every read so far has left nothing behind: the file is
what was appended, and the cursor stands between whole lines that have been
printed and whole lines that have not. -/
structure Inv (b : Bridge) (done todo : List (List Char)) : Prop where
  emitted : b.emitted = done ++ todo
  file : b.inbox.getD ByteArray.empty = utf8 (appended b.emitted)
  absent : b.inbox = none → b.emitted = []
  noCrlf : crlfs false (appended done) = 0
  cursor : b.readCursor = utf8Len (appended done)
  printed : b.printed.flatten = universalNewlines false (appended done)
  reader : ∀ r, b.reader = some r → r.start = b.readCursor
  fresh : ∀ r, b.reader = some r → r.settling = true → todo ≠ []

theorem Inv.size {b : Bridge} {done todo : List (List Char)} (h : Inv b done todo) :
    b.size = utf8Len (appended done) + utf8Len (appended todo) := by
  have hsz : b.size = (b.inbox.getD ByteArray.empty).size := by
    cases hb : b.inbox <;> simp [Bridge.size, hb]
  rw [hsz, h.file, size_utf8, h.emitted, appended_append, utf8Len_append]

theorem utf8Len_appended_pos {ts : List (List Char)} (h : ts ≠ []) :
    0 < utf8Len (appended ts) := by
  cases ts with
  | nil => exact absurd rfl h
  | cons t ts =>
    have := ('\n').utf8Size_pos
    simp only [appended, List.flatMap_cons, utf8Len_append, utf8Len_cons]
    omega

/-- A reader that sees nothing new has printed everything. -/
theorem Inv.current {b : Bridge} {done todo : List (List Char)} (h : Inv b done todo)
    (hle : b.size ≤ b.readCursor) : b.Current := by
  have hsz := h.size
  have hcur := h.cursor
  have htodo : todo = [] := by
    by_contra hne
    have := utf8Len_appended_pos hne
    omega
  subst htodo
  have hem : b.emitted = done := by simpa using h.emitted
  have h0 : utf8Len (appended ([] : List (List Char))) = 0 := rfl
  exact ⟨by rw [h.printed, hem], by omega⟩

/-- **Reading.**  The read prints the translation of the unread lines. -/
theorem Inv.collect {b : Bridge} {done todo : List (List Char)} (h : Inv b done todo)
    (c : Command) (start : Nat) (hr : b.reader = some ⟨c, start, true⟩) :
    step b .collect =
      ({ b with
          cursor := some (start + utf8Len (universalNewlines false (appended todo)))
          reader := none
          printed := b.printed ++ [universalNewlines false (appended todo)] },
        .read (universalNewlines false (appended todo))) := by
  have hstart : start = utf8Len (appended done) := by
    rw [← h.cursor]; exact h.reader _ hr
  cases hb : b.inbox with
  | none =>
    have hem := h.absent hb
    rw [h.emitted] at hem
    exact absurd (List.append_eq_nil_iff.mp hem).2 (h.fresh _ hr rfl)
  | some bytes =>
    have hbytes : bytes = utf8 (appended done) ++ utf8 (appended todo) := by
      have := h.file
      rw [hb, h.emitted, appended_append, utf8_append] at this
      exact this
    have hex : bytes.extract start bytes.size = utf8 (appended todo) := by
      rw [hbytes]
      exact ByteArray.extract_append_eq_right (by simp [hstart]) ByteArray.size_append
    simp [step, hr, Bridge.consumeUnread, hb, hex, readText?]

/-- After a read the bridge is current exactly when the lines had no `CRLF`. -/
theorem Inv.collect_current {b : Bridge} {done todo : List (List Char)} (h : Inv b done todo)
    (c : Command) (start : Nat) (hr : b.reader = some ⟨c, start, true⟩) :
    (step b .collect).1.Current ↔ ∀ text ∈ b.emitted, NoCrlf text := by
  have hstart : start = utf8Len (appended done) := by
    rw [← h.cursor]; exact h.reader _ hr
  have hsz := h.size
  have hlen := utf8Len_universalNewlines false (appended todo)
  have hprinted : (b.printed ++ [universalNewlines false (appended todo)]).flatten =
      universalNewlines false (appended b.emitted) := by
    rw [List.flatten_append, h.printed, h.emitted, appended_append, universalNewlines_append,
      crAfter_appended]
    simp
  have hzero : crlfs false (appended b.emitted) = crlfs false (appended todo) := by
    rw [h.emitted, appended_append, crlfs_append, crAfter_appended, h.noCrlf, Nat.zero_add]
  rw [h.collect c start hr, ← crlfs_appended_eq_zero_iff, hzero]
  constructor
  · rintro ⟨-, hcur⟩
    simp only [Bridge.readCursor, Bridge.size, Option.getD_some] at hcur hsz
    omega
  · intro hz
    refine ⟨hprinted, ?_⟩
    simp only [Bridge.readCursor, Bridge.size, Option.getD_some] at hsz ⊢
    omega

/-- Every operation but a read that left something behind keeps the invariant. -/
theorem Inv.step {b : Bridge} {done todo : List (List Char)} (h : Inv b done todo) (op : Op)
    (hc : Collects b op → ∀ text ∈ b.emitted, NoCrlf text) :
    ∃ done todo, Inv (step b op).1 done todo := by
  cases op with
  | emit text =>
    refine ⟨done, todo ++ [text], ?_⟩
    refine
      { emitted := by simp [Inbox.step, Bridge.emit, h.emitted]
        file := ?_
        absent := fun hn => by simp [Inbox.step, Bridge.emit] at hn
        noCrlf := h.noCrlf
        cursor := h.cursor
        printed := h.printed
        reader := h.reader
        fresh := fun _ _ _ => by simp }
    simp [Inbox.step, Bridge.emit, h.file, appended]
  | start c =>
    simp only [Inbox.step]
    cases hr : b.reader with
    | some r => exact ⟨done, todo, h⟩
    | none =>
      refine ⟨done, todo, { h with reader := ?_, fresh := ?_ }⟩
      · rintro r hr'
        simp only [Option.some.injEq] at hr'
        subst hr'
        rfl
      · rintro r hr' hs
        simp only [Option.some.injEq] at hr'
        subst hr'
        simp at hs
  | poll =>
    simp only [Inbox.step]
    split
    · next c start hr =>
      have hstart : start = b.readCursor := h.reader _ hr
      split
      · next hgt =>
        refine ⟨done, todo, { h with reader := ?_, fresh := ?_ }⟩
        · rintro r hr'
          simp only [Option.some.injEq] at hr'
          subst hr'
          exact hstart
        · rintro r hr' _ rfl
          have hsz := h.size
          have hcur := h.cursor
          have h0 : utf8Len (appended ([] : List (List Char))) = 0 := rfl
          omega
      · exact ⟨done, todo, h⟩
    · exact ⟨done, todo, h⟩
  | expire =>
    simp only [Inbox.step]
    split
    · exact ⟨done, todo, { h with reader := fun _ hn => by simp at hn
                                  fresh := fun _ hn => by simp at hn }⟩
    · exact ⟨done, todo, { h with reader := fun _ hn => by simp at hn
                                  fresh := fun _ hn => by simp at hn }⟩
    · exact ⟨done, todo, h⟩
  | collect =>
    by_cases hcol : ∃ c start, b.reader = some ⟨c, start, true⟩
    · obtain ⟨c, start, hr⟩ := hcol
      have hno := hc ⟨rfl, c, start, hr⟩
      have hcur := (h.collect_current c start hr).mpr hno
      have hem : (Inbox.step b .collect).1.emitted = b.emitted := by rw [h.collect c start hr]
      have hin : (Inbox.step b .collect).1.inbox = b.inbox := by rw [h.collect c start hr]
      have hrd : (Inbox.step b .collect).1.reader = none := by rw [h.collect c start hr]
      have hfile : (Inbox.step b .collect).1.inbox.getD ByteArray.empty =
          utf8 (appended (Inbox.step b .collect).1.emitted) := by rw [hin, hem, h.file]
      refine ⟨b.emitted, [], ?_⟩
      refine
        { emitted := by rw [hem]; simp
          file := hfile
          absent := fun hn => by rw [hem]; exact h.absent (by rw [← hin]; exact hn)
          noCrlf := (crlfs_appended_eq_zero_iff _).mpr hno
          cursor := ?_
          printed := by rw [hcur.1, hem]
          reader := fun r hr' => by rw [hrd] at hr'; simp at hr'
          fresh := fun r hr' => by rw [hrd] at hr'; simp at hr' }
      have hsize : (Inbox.step b .collect).1.size = b.size := by
        simp only [Bridge.size, hin]
      rw [hcur.2, hsize, h.size, h.emitted, appended_append, utf8Len_append]
    · have hsame : (Inbox.step b .collect).1 = b := by
        simp only [Inbox.step]
        split
        · next c start hr => exact absurd ⟨c, start, hr⟩ hcol
        · rfl
      exact ⟨done, todo, by rw [hsame]; exact h⟩

theorem Inv.initial : Inv {} [] [] where
  emitted := rfl
  file := by simp [appended]
  absent := fun _ => rfl
  noCrlf := rfl
  cursor := rfl
  printed := rfl
  reader := fun _ h => by simp at h
  fresh := fun _ h => by simp at h

theorem reads_once_iff_of_inv {b : Bridge} {done todo : List (List Char)} (h : Inv b done todo)
    (ops : List Op) : ReadsOnce b ops ↔ CrlfFree b ops := by
  induction ops generalizing b done todo with
  | nil => exact Iff.rfl
  | cons op ops ih =>
    have hcollect : (Collects b op → (step b op).2 ≠ .raised ∧ (step b op).1.Current) ↔
        (Collects b op → ∀ text ∈ b.emitted, NoCrlf text) := by
      constructor
      · rintro hgood ⟨rfl, c, start, hr⟩
        exact (h.collect_current c start hr).mp (hgood ⟨rfl, c, start, hr⟩).2
      · rintro hno ⟨rfl, c, start, hr⟩
        refine ⟨?_, (h.collect_current c start hr).mpr (hno ⟨rfl, c, start, hr⟩)⟩
        rw [h.collect c start hr]
        simp
    have hlook : FindsNothing b op → b.Current := by
      rintro ⟨rfl, c, start, hr, hle⟩
      have hstart : start = b.readCursor := h.reader _ hr
      exact h.current (by omega)
    simp only [ReadsOnce, CrlfFree]
    rw [hcollect]
    constructor
    · rintro ⟨hno, -, hrest⟩
      obtain ⟨done', todo', h'⟩ := h.step op hno
      exact ⟨hno, (ih h').mp hrest⟩
    · rintro ⟨hno, hrest⟩
      obtain ⟨done', todo', h'⟩ := h.step op hno
      exact ⟨hno, hlook, (ih h').mpr hrest⟩

/-- **Every line exactly once.**  For every interleaving of appends and reads,
the bridge reads every line exactly once iff no text had a `CR` before an `LF`
when it was read. -/
theorem reads_once_iff (ops : List Op) : ReadsOnce {} ops ↔ CrlfFree {} ops :=
  reads_once_iff_of_inv Inv.initial ops

/-- The frame of a peer that wrote `a`, `CR`, `LF`, `b`, read by one `moot wait`:
the cursor ends one byte short of the file. -/
theorem crlf_is_read_twice :
    ¬ ReadsOnce {} [.emit ['a', '\r', '\n', 'b'], .start .wait, .poll, .collect] := by
  rw [reads_once_iff_of_inv Inv.initial]
  rintro ⟨-, -, -, hcollect, -⟩
  have hreads : Collects (step (step (step {} (.emit ['a', '\r', '\n', 'b'])).1
      (.start .wait)).1 .poll).1 .collect := by
    refine ⟨rfl, .wait, 0, ?_⟩
    simp [step, Bridge.emit, Bridge.size, Bridge.report, Bridge.readCursor, Char.utf8Size_pos]
  refine hcollect hreads ['a', '\r', '\n', 'b'] (List.mem_singleton.mpr rfl) ?_
  exact ⟨['a'], ['b', '\n'], rfl⟩

end Moot.Inbox
