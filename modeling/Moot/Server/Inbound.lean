import Moot.Hub.Raise
import Moot.Lib.Run
import Moot.Spoke.Conn
import Mathlib.Logic.Function.Basic

/-!
# The way to the hub

`_read_loop` of `core/server.py`, one for each connection, around one hub: lines with a
limit become frames, a line that is none is refused, and a line that is too long is the
last one, as is one at which `json.loads` raises what `parse_line` does not catch.  A loop
ends, too, when `Hub.handle` raises.

Proved here: `loops_exact`.  However the bytes are cut and the connections fall between
each other, the hub is given of each connection what its lines say.
-/

namespace Moot.Server
open Py PyJson Proto

/-! ## Lines -/

/-- What `reader.readline()` comes to. -/
inductive Readline
  | line (line rest : List UInt8)
  | tooLong (rest : List UInt8)
  | wait

/-- `reader.readline()`, of a buffer with a limit. -/
def readline (limit : Nat) (buffer : List UInt8) (eof : Bool) : Readline :=
  match Framing.cut lineFeed buffer with
  | some (line, rest) => if limit < line.length then .tooLong rest else .line (line ++ [lineFeed]) rest
  | none =>
    if limit < buffer.length then .tooLong []
    else if eof then .line buffer []
    else .wait

/-- `not line.strip()` -/
def blank (line : List UInt8) : Bool :=
  line.all fun b => b ∈ ([0x20, 0x09, 0x0A, 0x0B, 0x0C, 0x0D] : List UInt8)

/-- What the server is run with; `jsonError` is the text of a `JSONDecodeError`, and `raises` tells
the texts at which `json.loads` raises another error: a number of too many digits, or brackets that
are nested too deep. -/
structure Setup where
  env : Env
  maxFrameBytes : Nat
  jsonError : Str → Str
  raises : Str → Bool

section
variable {F : Type} [PyFloat F] (u : Setup)

/-- `parse_line`; `none` is an exception that is no `ValidationError`. -/
def parseLine (line : List UInt8) : Option (Checked (Obj F)) :=
  match decode? line.toByteArray with
  | none => some (malformed (str "frame is not valid UTF-8"))
  | some cs =>
    if u.raises (ofChars cs) then none
    else
      match loads (F := F) (ofChars cs) with
      | none => some (malformed (str "invalid JSON: " ++ u.jsonError (ofChars cs)))
      | some (.obj frame) => some (.ok frame)
      | some _ => some (malformed (str "frame is not a JSON object"))

/-- What a line comes to: a frame for the hub, a refusal, or an exception. -/
inductive Reaction (F : Type)
  | frame (frame : Obj F)
  | refused (frame : Frame)
  | raised

def Reaction.frame? : Reaction F → Option (Obj F)
  | .frame f => some f
  | .refused _ | .raised => none

/-- The answer to a line that is too long. -/
def tooLarge : Frame :=
  .err (str "frame_too_large") (str "frame exceeds " ++ natStr u.maxFrameBytes ++ str " bytes") none none

/-- What the loop makes of a line. -/
def react (line : List UInt8) : Option (Reaction F) :=
  if blank line then none
  else
    match parseLine u line with
    | none => some .raised
    | some (.error e) => some (.refused (.err e.code e.detail none none))
    | some (.ok frame) => some (.frame frame)

/-- The line is one at which `parse_line` raises. -/
def raising (line : List UInt8) : Bool :=
  !blank line && (decode? line.toByteArray).any fun cs => u.raises (ofChars cs)

/-! ## Connections -/

/-- How a loop has ended: with what there was to read, by an exception of `parse_line`, by one of
`Hub.handle`, because the client was dropped, or by an `OSError`. -/
inductive Ending
  | ended | raised | failed | dropped | broken
  deriving DecidableEq

/-- The loop has come to the end of what it would ever have read. -/
def Ending.last : Ending → Bool
  | .ended | .raised => true
  | .failed | .dropped | .broken => false

/-- Where a loop is. -/
inductive Phase
  | reading
  | draining
  | leaving (why : Ending)
  | gone (why : Ending)
  deriving DecidableEq

def Phase.isGone : Phase → Bool
  | .gone _ => true
  | _ => false

/-- A connection: what has come, and what of it has not been read. -/
structure Link where
  received : List UInt8 := []
  buffer : List UInt8 := []
  eof : Bool := false
  phase : Phase := .reading

/-- The server: its hub, its connections, what the hub has been through, and what the loops have made
of the lines. -/
structure Serving (F : Type) where
  hub : Hub
  links : ClientId → Option Link := fun _ => none
  ops : List (Op F) := []
  done : List (ClientId × Reaction F) := []

/-- What happens to the server: a connection, bytes, their end, a round of a loop, the end of what a
loop drains, an `OSError` of its reader, its `finally`, and what happens to the hub otherwise. -/
inductive Event
  | connect (c : ClientId)
  | data (c : ClientId) (bytes : List UInt8)
  | eof (c : ClientId)
  | turn (c : ClientId)
  | drained (c : ClientId)
  | broken (c : ClientId)
  | depart (c : ClientId)
  | watchdogTick
  | clock (now wall : Rat)
  | fail (c : ClientId)

/-- The loop that has the hub do it. -/
def loopOf : Op F → Option ClientId
  | .handle c _ | .disconnect c => some c
  | _ => none

namespace Serving

def perform (s : Serving F) (op : Op F) : Serving F :=
  { s with hub := s.hub.attempt u.env op, ops := s.ops ++ [op] }

def setLink (s : Serving F) (c : ClientId) (l : Link) : Serving F :=
  { s with links := Function.update s.links c (some l) }

def note (s : Serving F) (c : ClientId) (r : Reaction F) : Serving F := { s with done := s.done ++ [(c, r)] }

/-- A round of `_read_loop`. -/
def turn (s : Serving F) (c : ClientId) (l : Link) : Serving F :=
  match readline u.maxFrameBytes l.buffer l.eof with
  | .wait => s
  | .tooLong rest =>
    (s.note c (.refused (tooLarge u))).setLink c { l with buffer := rest, phase := .draining }
  | .line [] _ => s.setLink c { l with phase := .leaving .ended }
  | .line line rest =>
    let l := { l with buffer := rest }
    match react u line with
    | none => s.setLink c l
    | some .raised => (s.note c .raised).setLink c { l with phase := .leaving .raised }
    | some (.refused frame) => (s.note c (.refused frame)).setLink c l
    | some (.frame frame) =>
      let failed := s.hub.fails u.env (.handle c frame)
      let s := (s.note c (.frame frame)).perform u (.handle c frame)
      if failed then s.setLink c { l with phase := .leaving .failed }
      else if s.hub.up c then s.setLink c l
      else s.setLink c { l with phase := .leaving .dropped }

/-- What is done to a connection that there is. -/
def onLink (s : Serving F) (c : ClientId) (f : Link → Serving F) : Serving F := (s.links c).elim s f

def step (s : Serving F) : Event → Serving F
  | .connect c => if (s.links c).isSome then s else s.setLink c {}
  | .data c bytes =>
    s.onLink c fun l =>
      if l.eof then s
      else s.setLink c { l with received := l.received ++ bytes, buffer := l.buffer ++ bytes }
  | .eof c => s.onLink c fun l => s.setLink c { l with eof := true }
  | .turn c => s.onLink c fun l => if l.phase = .reading then s.turn u c l else s
  | .drained c =>
    s.onLink c fun l => if l.phase = .draining then s.setLink c { l with phase := .leaving .ended } else s
  | .broken c =>
    s.onLink c fun l => if l.phase = .reading then s.setLink c { l with phase := .leaving .broken } else s
  | .depart c =>
    s.onLink c fun l =>
      match l.phase with
      | .leaving why => (s.perform u (.disconnect c)).setLink c { l with phase := .gone why }
      | _ => s
  | .watchdogTick => s.perform u .watchdogTick
  | .clock now wall => s.perform u (.clock now wall)
  | .fail c => s.perform u (.fail c)

/-- What has been made of the lines of `c`. -/
def doneOf (s : Serving F) (c : ClientId) : List (Reaction F) :=
  s.done.filterMap fun x => if x.1 = c then some x.2 else none

/-- What the loop of `c` has had the hub do. -/
def opsOf (s : Serving F) (c : ClientId) : List (Op F) := s.ops.filter fun op => loopOf op = some c

end Serving

/-! ## What the lines say -/

theorem readline_rest {limit : Nat} {buffer line rest : List UInt8} {eof : Bool}
    (h : readline limit buffer eof = .line line rest) (hline : line ≠ []) : rest.length < buffer.length := by
  unfold readline at h
  split at h
  · next hcut =>
    split at h
    · cases h
    · cases h
      exact Framing.cut_length hcut
  · split at h
    · cases h
    · split at h
      · cases h
        exact List.length_pos_iff.mpr hline
      · cases h

/-- A loop with the whole stream before it. -/
def expected (stream : List UInt8) (eof : Bool) : List (Reaction F) :=
  match _ : readline u.maxFrameBytes stream eof with
  | .wait => []
  | .tooLong _ => [.refused (tooLarge u)]
  | .line line rest =>
    if _ : line = [] then []
    else if raising u line then [.raised]
    else (react u line).toList ++ expected rest eof
termination_by stream.length
decreasing_by exact readline_rest ‹_› ‹_›

section
variable {u} {stream line rest : List UInt8} {eof : Bool}

theorem expected_wait (h : readline u.maxFrameBytes stream eof = .wait) :
    expected (F := F) u stream eof = [] := by
  rw [expected]
  split
  next => rfl
  next h' => rw [h] at h'; cases h'
  next h' => rw [h] at h'; cases h'

theorem expected_tooLong (h : readline u.maxFrameBytes stream eof = .tooLong rest) :
    expected (F := F) u stream eof = [.refused (tooLarge u)] := by
  rw [expected]
  split
  next h' => rw [h] at h'; cases h'
  next => rfl
  next h' => rw [h] at h'; cases h'

theorem expected_end (h : readline u.maxFrameBytes stream eof = .line [] rest) :
    expected (F := F) u stream eof = [] := by
  rw [expected]
  split
  next => rfl
  next h' => rw [h] at h'; cases h'
  next h' =>
    rw [h] at h'
    cases h'
    rfl

theorem expected_line (h : readline u.maxFrameBytes stream eof = .line line rest) (hline : line ≠ []) :
    expected (F := F) u stream eof =
      if raising u line then [.raised] else (react u line).toList ++ expected u rest eof := by
  rw [expected]
  split
  next h' => rw [h] at h'; cases h'
  next h' => rw [h] at h'; cases h'
  next h' =>
    rw [h] at h'
    cases h'
    rw [dif_neg hline]

theorem parseLine_eq_none : parseLine (F := F) u line = none ↔
    ((decode? line.toByteArray).any fun cs => u.raises (ofChars cs)) = true := by
  unfold parseLine
  cases decode? line.toByteArray with
  | none => simp
  | some cs =>
    rw [Option.any_some]
    by_cases hraises : u.raises (ofChars cs) = true
    · simp [hraises]
    · simp only [hraises, Bool.false_eq_true, if_false, iff_false]
      split <;> exact Option.some_ne_none _

theorem react_eq_raised : react (F := F) u line = some .raised ↔ raising u line = true := by
  rw [raising, Bool.and_eq_true, ← parseLine_eq_none (F := F), react]
  cases blank line with
  | true => simp
  | false =>
    cases parseLine (F := F) u line with
    | none => simp
    | some checked => cases checked <;> simp

/-! ## What has been read -/

variable (u) in
/-- Lines within the limit, none of which raises. -/
def Lines (lines : List (List UInt8)) : Prop :=
  ∀ line ∈ lines, (lineFeed ∉ line ∧ line.length ≤ u.maxFrameBytes) ∧
    raising u (line ++ [lineFeed]) = false

/-- The bytes of the lines. -/
def bytesOf (lines : List (List UInt8)) : List UInt8 := lines.flatMap (· ++ [lineFeed])

variable (u) in
/-- What the loop makes of the lines. -/
def reactions (lines : List (List UInt8)) : List (Reaction F) :=
  lines.flatMap fun line => (react u (line ++ [lineFeed])).toList

theorem readline_line {limit : Nat} (hline : lineFeed ∉ line ∧ line.length ≤ limit) (rest : List UInt8)
    (eof : Bool) : readline limit (line ++ lineFeed :: rest) eof = .line (line ++ [lineFeed]) rest := by
  rw [readline, Framing.cut_piece hline.1]
  simp only
  rw [if_neg (Nat.not_lt.mpr hline.2)]

/-- What follows is read as if nothing had been before it. -/
theorem expected_lines {lines : List (List UInt8)} (hlines : Lines u lines)
    (rest : List UInt8) (eof : Bool) :
    expected (F := F) u (bytesOf lines ++ rest) eof = reactions u lines ++ expected u rest eof := by
  induction lines with
  | nil => rfl
  | cons line lines ih =>
    have hbytes : bytesOf (line :: lines) ++ rest = line ++ lineFeed :: (bytesOf lines ++ rest) := by
      rw [bytesOf, List.flatMap_cons, List.append_assoc, List.append_assoc]
      rfl
    obtain ⟨hshort, hfine⟩ := hlines line (.head _)
    rw [hbytes, expected_line (readline_line hshort _ _) (by simp), hfine,
      if_neg Bool.false_ne_true, ih fun line' hline' => hlines line' (.tail _ hline'),
      ← List.append_assoc]
    rfl

/-- How a line is found. -/
theorem readline_eq_line {limit : Nat} {buffer : List UInt8}
    (h : readline limit buffer eof = .line line rest) :
    (∃ l, line = l ++ [lineFeed] ∧ (lineFeed ∉ l ∧ l.length ≤ limit) ∧ buffer = l ++ lineFeed :: rest) ∨
      eof = true ∧ line = buffer ∧ rest = [] := by
  unfold readline at h
  split at h
  · next l rest' hcut =>
    split at h
    · cases h
    · next hshort =>
      cases h
      obtain ⟨hbuffer, hnot⟩ := Framing.eq_of_cut hcut
      exact Or.inl ⟨l, rfl, ⟨hnot, Nat.le_of_not_lt hshort⟩, hbuffer⟩
  · split at h
    · cases h
    · split at h
      · next heof =>
        cases h
        exact Or.inr ⟨heof, rfl, rfl⟩
      · cases h

/-- A line that is too long is so whatever comes after it. -/
theorem readline_tooLong {limit : Nat} {buffer : List UInt8}
    (h : readline limit buffer eof = .tooLong rest) (more : List UInt8) (eof' : Bool) :
    ∃ rest', readline limit (buffer ++ more) eof' = .tooLong rest' := by
  unfold readline at h
  split at h
  · next l rest' hcut =>
    split at h
    · next hlong => exact ⟨_, by rw [readline, Framing.cut_append hcut]; exact if_pos hlong⟩
    · cases h
  · next hcut =>
    split at h
    · next hlong =>
      unfold readline
      cases hmore : Framing.cut lineFeed (buffer ++ more) with
      | none =>
        refine ⟨_, if_pos ?_⟩
        rw [List.length_append]
        omega
      | some p =>
        obtain ⟨l, rest'⟩ := p
        -- the buffer has no end of a line
        have hlen : buffer.length ≤ l.length := by
          obtain ⟨heq, -⟩ := Framing.eq_of_cut hmore
          rcases List.append_eq_append_iff.mp heq with ⟨a, rfl, -⟩ | ⟨a, rfl, ha⟩
          · rw [List.length_append]
            exact Nat.le_add_right ..
          · cases a with
            | nil => rw [List.append_nil]
            | cons b a =>
              obtain ⟨rfl, -⟩ := List.cons.inj ha
              exact absurd (by simp) (Framing.notMem_of_cut hcut)
        exact ⟨_, if_pos (by omega)⟩
    · split at h <;> cases h

/-! ## One loop -/

variable (u) in
/-- The lines that have been read are whole, and the rest of what has come is in the buffer. -/
def Between (l : Link) (done : List (Reaction F)) : Prop :=
  ∃ lines, Lines u lines ∧ l.received = bytesOf lines ++ l.buffer ∧
    done = reactions u lines

variable (u) in
/-- Everything has been read, and more bytes would make no difference. -/
def ReadAll (l : Link) (done : List (Reaction F)) : Prop :=
  done = expected u l.received l.eof ∧
    (l.eof = false → ∀ more eof, done = expected u (l.received ++ more) eof)

variable (u) in
/-- What has been made of the lines is a beginning of what they say, whatever comes. -/
def ReadSome (l : Link) (done : List (Reaction F)) : Prop :=
  done <+: expected u l.received l.eof ∧
    (l.eof = false → ∀ more eof, done <+: expected u (l.received ++ more) eof)

variable (u) in
/-- Where the loop is, and what it has made of the lines. -/
inductive Stands : Link → List (Reaction F) → Prop
  | between {l done} (hphase : l.phase = .reading) (hb : Between u l done) : Stands l done
  | last {l done} (hphase : l.phase = .reading) (heof : l.eof = true) (hbuffer : l.buffer = [])
      (hall : ReadAll u l done) : Stands l done
  | draining {l done} (hphase : l.phase = .draining) (hall : ReadAll u l done) : Stands l done
  | ended {l done} {why : Ending} (hphase : l.phase = .leaving why ∨ l.phase = .gone why)
      (hwhy : why.last = true) (hall : ReadAll u l done) : Stands l done
  | cut {l done} {why : Ending} (hphase : l.phase = .leaving why ∨ l.phase = .gone why)
      (hwhy : why.last = false) (hsome : ReadSome u l done) : Stands l done

variable {l : Link} {done : List (Reaction F)}

theorem Between.expected (hb : Between u l done) (more : List UInt8) (eof : Bool) :
    expected u (l.received ++ more) eof = done ++ expected u (l.buffer ++ more) eof := by
  obtain ⟨lines, hlines, hreceived, rfl⟩ := hb
  rw [hreceived, List.append_assoc, expected_lines hlines]

theorem Between.some (hb : Between u l done) : ReadSome u l done := by
  refine ⟨?_, fun _ more eof => ?_⟩
  · have heq := hb.expected [] l.eof
    rw [List.append_nil, List.append_nil] at heq
    rw [heq]
    exact List.prefix_append _ _
  · rw [hb.expected]
    exact List.prefix_append _ _

theorem ReadAll.some (ha : ReadAll u l done) : ReadSome u l done :=
  ⟨ha.1 ▸ List.prefix_rfl, fun heof more eof => ha.2 heof more eof ▸ List.prefix_rfl⟩

/-- More bytes. -/
theorem Stands.dataOf (hs : Stands u l done) (heof : l.eof = false) (bytes : List UInt8) :
    Stands u { l with received := l.received ++ bytes, buffer := l.buffer ++ bytes } done := by
  have hall : ReadAll u l done →
      ReadAll u { l with received := l.received ++ bytes, buffer := l.buffer ++ bytes } done := by
    intro ha
    refine ⟨ha.2 heof bytes l.eof, fun _ more eof => ?_⟩
    have hmore := ha.2 heof (bytes ++ more) eof
    rwa [← List.append_assoc] at hmore
  cases hs with
  | between hphase hb =>
    obtain ⟨lines, hlines, hreceived, hdone⟩ := hb
    exact .between hphase ⟨lines, hlines, by
      show l.received ++ bytes = _
      rw [hreceived, List.append_assoc], hdone⟩
  | last _ heof' _ _ =>
    rw [heof] at heof'
    cases heof'
  | draining hphase ha => exact .draining hphase (hall ha)
  | ended hphase hwhy ha => exact .ended hphase hwhy (hall ha)
  | cut hphase hwhy hsome =>
    refine .cut hphase hwhy ⟨hsome.2 heof bytes l.eof, fun _ more eof => ?_⟩
    have hmore := hsome.2 heof (bytes ++ more) eof
    rwa [← List.append_assoc] at hmore

/-- The end of the bytes. -/
theorem Stands.eofOf (hs : Stands u l done) : Stands u { l with eof := true } done := by
  have hall : ReadAll u l done → ReadAll u { l with eof := true } done := by
    intro ha
    refine ⟨?_, fun h => by cases h⟩
    cases heof : l.eof with
    | false =>
      have hmore := ha.2 heof [] true
      rwa [List.append_nil] at hmore
    | true =>
      have hsame := ha.1
      rwa [heof] at hsame
  cases hs with
  | between hphase hb => exact .between hphase hb
  | last hphase _ hbuffer ha => exact .last hphase rfl hbuffer (hall ha)
  | draining hphase ha => exact .draining hphase (hall ha)
  | ended hphase hwhy ha => exact .ended hphase hwhy (hall ha)
  | cut hphase hwhy hsome =>
    refine .cut hphase hwhy ⟨?_, fun h => by cases h⟩
    cases heof : l.eof with
    | false =>
      have hmore := hsome.2 heof [] true
      rwa [List.append_nil] at hmore
    | true =>
      have hsame := hsome.1
      rwa [heof] at hsame

/-! ## A round -/

theorem not_reading_of_cut {why : Ending} (hphase : l.phase = .leaving why ∨ l.phase = .gone why) :
    l.phase ≠ .reading := by
  rcases hphase with h | h <;> rw [h] <;> intro heq <;> cases heq

/-- In what way a loop that reads stands. -/
theorem Stands.reading (hs : Stands u l done) (hphase : l.phase = .reading) :
    Between u l done ∨ l.eof = true ∧ l.buffer = [] ∧ ReadAll u l done := by
  cases hs with
  | between _ hb => exact Or.inl hb
  | last _ heof hbuffer hall => exact Or.inr ⟨heof, hbuffer, hall⟩
  | draining h _ => rw [hphase] at h; cases h
  | ended h _ _ => exact absurd hphase (not_reading_of_cut h)
  | cut h _ _ => exact absurd hphase (not_reading_of_cut h)

theorem Stands.some (hs : Stands u l done) : ReadSome u l done := by
  cases hs with
  | between _ hb => exact hb.some
  | last _ _ _ hall => exact hall.some
  | draining _ hall => exact hall.some
  | ended _ _ hall => exact hall.some
  | cut _ _ hsome => exact hsome

/-- A line that is too long. -/
theorem Stands.tooLongOf (hs : Stands u l done) (hphase : l.phase = .reading) {rest : List UInt8}
    (hread : readline u.maxFrameBytes l.buffer l.eof = .tooLong rest) :
    Stands u { l with buffer := rest, phase := .draining } (done ++ [.refused (tooLarge u)]) := by
  rcases hs.reading hphase with hb | ⟨heof, hbuffer, -⟩
  · have hall : ∀ more eof, done ++ [.refused (tooLarge u)] = Server.expected u (l.received ++ more) eof := by
      intro more eof
      obtain ⟨rest', hread'⟩ := readline_tooLong hread more eof
      rw [hb.expected, expected_tooLong hread']
    refine .draining rfl ⟨?_, fun _ => hall⟩
    have hsame := hall [] l.eof
    rwa [List.append_nil] at hsame
  · rw [hbuffer, heof] at hread
    cases hread

/-- The end of the stream. -/
theorem Stands.endOf (hs : Stands u l done) (hphase : l.phase = .reading) {rest : List UInt8}
    (hread : readline u.maxFrameBytes l.buffer l.eof = .line [] rest) :
    Stands u { l with phase := .leaving .ended } done := by
  rcases hs.reading hphase with hb | ⟨heof, -, hall⟩
  · rcases readline_eq_line hread with ⟨l', hnil, -⟩ | ⟨heof, -, -⟩
    · exact absurd hnil.symm (by simp)
    · refine .ended (.inl rfl) rfl
        ⟨?_, fun h => by rw [show l.eof = false from h] at heof; cases heof⟩
      have hsame := hb.expected [] l.eof
      rw [List.append_nil, List.append_nil, expected_end hread, List.append_nil] at hsame
      exact hsame.symm
  · exact .ended (.inl rfl) rfl hall

/-- A line at which `parse_line` raises. -/
theorem Stands.raisedOf (hs : Stands u l done) (hphase : l.phase = .reading) {line rest : List UInt8}
    (hread : readline u.maxFrameBytes l.buffer l.eof = .line line rest) (hline : line ≠ [])
    (hraising : raising u line = true) :
    Stands u { l with buffer := rest, phase := .leaving .raised } (done ++ [.raised]) := by
  rcases hs.reading hphase with hb | ⟨heof, hbuffer, -⟩
  · refine .ended (.inl rfl) rfl ⟨?_, fun heof more eof => ?_⟩
    · have hsame := hb.expected [] l.eof
      rw [List.append_nil, List.append_nil, expected_line hread hline, hraising, if_pos rfl] at hsame
      exact hsame.symm
    · rcases readline_eq_line hread with ⟨l', rfl, hl', hbuffer⟩ | ⟨heof', -, -⟩
      · have hread' : readline u.maxFrameBytes (l.buffer ++ more) eof =
            .line (l' ++ [lineFeed]) (rest ++ more) := by
          rw [hbuffer, List.append_assoc, List.cons_append]
          exact readline_line hl' _ _
        rw [hb.expected, expected_line hread' hline, hraising, if_pos rfl]
      · rw [show l.eof = false from heof] at heof'
        cases heof'
  · rw [hbuffer, heof] at hread
    cases hread
    exact absurd rfl hline

/-- A line. -/
theorem Stands.lineOf (hs : Stands u l done) (hphase : l.phase = .reading) {line rest : List UInt8}
    (hread : readline u.maxFrameBytes l.buffer l.eof = .line line rest) (hline : line ≠ [])
    (hfine : raising u line = false) :
    Stands u { l with buffer := rest } (done ++ (react u line).toList) := by
  rcases hs.reading hphase with hb | ⟨heof, hbuffer, -⟩
  · rcases readline_eq_line hread with ⟨l', rfl, hl', hbuffer⟩ | ⟨heof, rfl, rfl⟩
    · obtain ⟨lines, hlines, hreceived, rfl⟩ := hb
      refine .between hphase ⟨lines ++ [l'], ?_, ?_, ?_⟩
      · intro line hline
        rcases List.mem_append.mp hline with hline | hline
        · exact hlines line hline
        · rw [List.mem_singleton.mp hline]
          exact ⟨hl', hfine⟩
      · rw [bytesOf, List.flatMap_append, List.flatMap_singleton, List.append_assoc, List.append_assoc]
        exact hreceived.trans (by rw [hbuffer]; rfl)
      · rw [reactions, reactions, List.flatMap_append, List.flatMap_singleton]
    · -- the last line has no end
      refine .last hphase heof rfl ⟨?_, fun h => by rw [show l.eof = false from h] at heof; cases heof⟩
      have hsame := hb.expected [] l.eof
      have hnil : Server.expected (F := F) u [] l.eof = [] := by
        rw [heof]
        exact expected_end rfl
      rw [List.append_nil, List.append_nil, expected_line hread hline, hfine,
        if_neg Bool.false_ne_true, hnil, List.append_nil] at hsame
      exact hsame.symm
  · rw [hbuffer, heof] at hread
    cases hread
    exact absurd rfl hline

/-! ## All loops -/

/-- What the loop of `c` has the hub do: the frames in order, and at the end it disconnects the
client, once. -/
def given (c : ClientId) (l : Link) (done : List (Reaction F)) : List (Op F) :=
  (done.filterMap Reaction.frame?).map (.handle c) ++ if l.phase.isGone then [.disconnect c] else []

namespace Serving
variable {s s' : Serving F} {c d : ClientId}

variable (u) in
/-- Every loop stands where its bytes have brought it. -/
def Lawful (s : Serving F) : Prop := ∀ c,
  match s.links c with
  | none => s.doneOf c = [] ∧ s.opsOf c = []
  | some l => Stands u l (s.doneOf c) ∧ s.opsOf c = given c l (s.doneOf c)

theorem Lawful.link (hs : s.Lawful u) (hl : s.links c = some l) :
    Stands u l (s.doneOf c) ∧ s.opsOf c = given c l (s.doneOf c) := by
  have hc := hs c
  rwa [hl] at hc

omit [PyFloat F] in
theorem doneOf_note_self (s : Serving F) (c : ClientId) (r : Reaction F) :
    (s.note c r).doneOf c = s.doneOf c ++ [r] := by
  simp [doneOf, note]

omit [PyFloat F] in
theorem doneOf_note_of_ne (s : Serving F) (r : Reaction F) (hd : d ≠ c) :
    (s.note c r).doneOf d = s.doneOf d := by
  simp [doneOf, note, hd.symm]

theorem opsOf_perform (s : Serving F) {op : Op F} (hop : loopOf op = some c) :
    (s.perform u op).opsOf c = s.opsOf c ++ [op] := by
  simp [opsOf, perform, hop]

theorem opsOf_perform_of_ne (s : Serving F) {op : Op F} (hop : loopOf op ≠ some d) :
    (s.perform u op).opsOf d = s.opsOf d := by
  simp [opsOf, perform, hop]

/-- The connection of `c` alone has gone on. -/
theorem Lawful.update (hs : s.Lawful u) (hlinks : s'.links = Function.update s.links c (some l))
    (hdone : ∀ d, d ≠ c → s'.doneOf d = s.doneOf d) (hops : ∀ d, d ≠ c → s'.opsOf d = s.opsOf d)
    (hstands : Stands u l (s'.doneOf c)) (hgiven : s'.opsOf c = given c l (s'.doneOf c)) :
    s'.Lawful u := by
  intro d
  by_cases hd : d = c
  · subst hd
    rw [hlinks, Function.update_self]
    exact ⟨hstands, hgiven⟩
  · rw [hlinks, Function.update_of_ne hd, hdone d hd, hops d hd]
    exact hs d

/-- The loop goes on, or it ends. -/
theorem Lawful.relink (hs : s.Lawful u) (hl : s.links c = some l) (hgone : l.phase.isGone = false)
    {l' : Link} (hgone' : l'.phase.isGone = false) (hstands : Stands u l' (s.doneOf c)) :
    (s.setLink c l').Lawful u := by
  refine hs.update rfl (fun d hd => rfl) (fun d hd => rfl) hstands ?_
  have hgiven := (hs.link hl).2
  rw [given, hgone, if_neg Bool.false_ne_true] at hgiven
  show s.opsOf c = given c l' (s.doneOf c)
  rw [hgiven, given, hgone', if_neg Bool.false_ne_true]

/-- A line is refused, or it raises: the hub is given nothing. -/
theorem Lawful.refuse (hs : s.Lawful u) (hl : s.links c = some l) (hgone : l.phase.isGone = false)
    {l' : Link} (hgone' : l'.phase.isGone = false) {r : Reaction F} (hr : r.frame? = none)
    (hstands : Stands u l' (s.doneOf c ++ [r])) : ((s.note c r).setLink c l').Lawful u := by
  have hdone : (s.note c r).doneOf c = s.doneOf c ++ [r] := doneOf_note_self ..
  refine hs.update rfl (fun d hd => doneOf_note_of_ne s _ hd) (fun d hd => rfl) (hdone ▸ hstands) ?_
  have hgiven := (hs.link hl).2
  rw [given, hgone, if_neg Bool.false_ne_true] at hgiven
  show s.opsOf c = given c l' ((s.note c r).doneOf c)
  rw [hgiven, hdone, given, hgone', if_neg Bool.false_ne_true, List.filterMap_append]
  simp [hr]

/-- A frame is handled. -/
theorem Lawful.handle (hs : s.Lawful u) (hl : s.links c = some l) (hgone : l.phase.isGone = false)
    {l' : Link} (hgone' : l'.phase.isGone = false) {frame : Obj F}
    (hstands : Stands u l' (s.doneOf c ++ [.frame frame])) :
    (((s.note c (.frame frame)).perform u (.handle c frame)).setLink c l').Lawful u := by
  have hdone : (s.note c (.frame frame)).doneOf c = s.doneOf c ++ [.frame frame] := doneOf_note_self ..
  have hops : ((s.note c (.frame frame)).perform u (.handle c frame)).opsOf c =
      s.opsOf c ++ [.handle c frame] := opsOf_perform _ rfl
  have hothers : ∀ d, d ≠ c →
      ((s.note c (.frame frame)).perform u (.handle c frame)).opsOf d = s.opsOf d := fun d hd =>
    opsOf_perform_of_ne (s.note c (.frame frame)) fun heq => hd (Option.some.inj heq).symm
  refine hs.update rfl (fun d hd => doneOf_note_of_ne s _ hd) hothers (hdone ▸ hstands) ?_
  have hgiven := (hs.link hl).2
  rw [given, hgone, if_neg Bool.false_ne_true] at hgiven
  show ((s.note c (.frame frame)).perform u (.handle c frame)).opsOf c =
    given c l' ((s.note c (.frame frame)).doneOf c)
  rw [hops, hgiven, hdone, given, hgone', if_neg Bool.false_ne_true, List.filterMap_append]
  simp [Reaction.frame?]

/-- **A round.** -/
theorem Lawful.turn (hs : s.Lawful u) (hl : s.links c = some l) (hphase : l.phase = .reading) :
    (s.turn u c l).Lawful u := by
  obtain ⟨hstands, -⟩ := hs.link hl
  have hgone : l.phase.isGone = false := by rw [hphase]; rfl
  unfold Serving.turn
  cases hread : readline u.maxFrameBytes l.buffer l.eof with
  | wait => exact hs
  | tooLong rest => exact hs.refuse hl hgone rfl rfl (hstands.tooLongOf hphase hread)
  | line line rest =>
    cases line with
    | nil => exact hs.relink hl hgone rfl (hstands.endOf hphase hread)
    | cons b line =>
      have hgone' : ({ l with buffer := rest } : Link).phase.isGone = false := hgone
      simp only
      cases hraising : raising u (b :: line) with
      | true =>
        rw [react_eq_raised.mpr hraising]
        exact hs.refuse hl hgone rfl rfl (hstands.raisedOf hphase hread (by simp) hraising)
      | false =>
        have hnext := hstands.lineOf hphase hread (by simp) hraising
        cases hreact : react (F := F) u (b :: line) with
        | none =>
          rw [hreact, Option.toList_none, List.append_nil] at hnext
          exact hs.relink hl hgone hgone' hnext
        | some r =>
          rw [hreact, Option.toList_some] at hnext
          cases r with
          | refused frame => exact hs.refuse hl hgone hgone' rfl hnext
          | raised => exact absurd ((react_eq_raised.mp hreact).symm.trans hraising) (by decide)
          | frame frame =>
            simp only
            split
            · exact hs.handle hl hgone rfl (.cut (.inl rfl) rfl hnext.some)
            · split
              · exact hs.handle hl hgone hgone' hnext
              · exact hs.handle hl hgone rfl (.cut (.inl rfl) rfl hnext.some)

/-- What is done to a connection that there is. -/
theorem Lawful.onLink (hs : s.Lawful u) {f : Link → Serving F}
    (hf : ∀ l, s.links c = some l → (f l).Lawful u) : (s.onLink c f).Lawful u := by
  unfold Serving.onLink
  cases hl : s.links c with
  | none => exact hs
  | some l => exact hf l hl

/-- What is done to the hub alone. -/
theorem Lawful.other (hs : s.Lawful u) {op : Op F} (hop : loopOf op = none) : (s.perform u op).Lawful u := by
  intro d
  rw [show (s.perform u op).doneOf d = s.doneOf d from rfl, opsOf_perform_of_ne s (by rw [hop]; simp)]
  exact hs d

/-- The loop has left. -/
theorem Lawful.depart (hs : s.Lawful u) (hl : s.links c = some l) {why : Ending}
    (hphase : l.phase = .leaving why) :
    ((s.perform u (.disconnect c)).setLink c { l with phase := .gone why }).Lawful u := by
  obtain ⟨hstands, hgiven⟩ := hs.link hl
  have hothers : ∀ d, d ≠ c → (s.perform u (.disconnect c)).opsOf d = s.opsOf d := fun d hd =>
    opsOf_perform_of_ne s fun heq => hd (Option.some.inj heq).symm
  refine hs.update rfl (fun d hd => rfl) hothers ?_ ?_
  · show Stands u { l with phase := .gone why } (s.doneOf c)
    cases hstands with
    | between h _ => rw [hphase] at h; cases h
    | last h _ _ _ => rw [hphase] at h; cases h
    | draining h _ => rw [hphase] at h; cases h
    | ended h hwhy hall =>
      have hwhy' : why.last = true := by
        rw [hphase] at h
        rcases h with h | h <;> cases h
        exact hwhy
      exact .ended (.inr rfl) hwhy' hall
    | cut h hwhy hsome =>
      have hwhy' : why.last = false := by
        rw [hphase] at h
        rcases h with h | h <;> cases h
        exact hwhy
      exact .cut (.inr rfl) hwhy' hsome
  · show (s.perform u (.disconnect c)).opsOf c = given c { l with phase := .gone why } (s.doneOf c)
    rw [opsOf_perform s rfl, hgiven, given, hphase]
    simp [given, Phase.isGone]

/-- **An event.** -/
theorem Lawful.step (hs : s.Lawful u) (e : Event) : (s.step u e).Lawful u := by
  cases e with
  | connect c =>
    show (if (s.links c).isSome then s else s.setLink c {}).Lawful u
    split
    · exact hs
    · next hnone =>
      have hnone : s.links c = none := by simpa using hnone
      have hc := hs c
      rw [hnone] at hc
      refine hs.update rfl (fun d hd => rfl) (fun d hd => rfl) (.between rfl ⟨[], ?_, rfl, hc.1⟩) ?_
      · exact fun line hline => by cases hline
      · show s.opsOf c = given c {} (s.doneOf c)
        rw [hc.1, hc.2]
        rfl
  | data c bytes =>
    refine hs.onLink fun l hl => ?_
    split
    · exact hs
    · next heof =>
      refine hs.update rfl (fun d hd => rfl) (fun d hd => rfl) ?_ (hs.link hl).2
      exact (hs.link hl).1.dataOf (Bool.eq_false_of_not_eq_true heof) bytes
  | eof c =>
    refine hs.onLink fun l hl => ?_
    exact hs.update rfl (fun d hd => rfl) (fun d hd => rfl) (hs.link hl).1.eofOf (hs.link hl).2
  | turn c =>
    refine hs.onLink fun l hl => ?_
    split
    · next hphase => exact hs.turn hl hphase
    · exact hs
  | drained c =>
    refine hs.onLink fun l hl => ?_
    split
    · next hphase =>
      have hgone : l.phase.isGone = false := by rw [hphase]; rfl
      refine hs.relink hl hgone rfl (.ended (.inl rfl) rfl ?_)
      cases (hs.link hl).1 with
      | between h _ => rw [hphase] at h; cases h
      | last h _ _ _ => rw [hphase] at h; cases h
      | draining _ hall => exact hall
      | ended h _ _ => rw [hphase] at h; rcases h with h | h <;> cases h
      | cut h _ _ => rw [hphase] at h; rcases h with h | h <;> cases h
    · exact hs
  | broken c =>
    refine hs.onLink fun l hl => ?_
    split
    · next hphase =>
      have hgone : l.phase.isGone = false := by rw [hphase]; rfl
      exact hs.relink hl hgone rfl (.cut (.inl rfl) rfl (hs.link hl).1.some)
    · exact hs
  | depart c =>
    refine hs.onLink fun l hl => ?_
    split
    · next why hphase => exact hs.depart hl hphase
    · exact hs
  | watchdogTick => exact hs.other rfl
  | clock now wall => exact hs.other rfl
  | fail c => exact hs.other rfl

end Serving

/-! ## The server -/

namespace Serving
variable {s : Serving F}

variable (u) in
/-- The hub has been through the operations. -/
def Through (h : Hub) (s : Serving F) : Prop := s.hub = Run.after (Hub.attempt u.env) h s.ops

variable {h : Hub}

theorem Through.perform (hs : s.Through u h) (op : Op F) : (s.perform u op).Through u h := by
  show s.hub.attempt u.env op = Run.after (Hub.attempt u.env) h (s.ops ++ [op])
  rw [Run.after_append, ← hs]
  rfl

theorem Through.onLink (hs : s.Through u h) {c : ClientId} {f : Link → Serving F}
    (hf : ∀ l, (f l).Through u h) : (s.onLink c f).Through u h := by
  unfold Serving.onLink
  cases s.links c with
  | none => exact hs
  | some l => exact hf l

theorem Through.turn (hs : s.Through u h) (c : ClientId) (l : Link) : (s.turn u c l).Through u h := by
  unfold Serving.turn
  split
  · exact hs
  · exact hs
  · exact hs
  · simp only
    split
    · exact hs
    · exact hs
    · exact hs
    · next frame hframe =>
      have hperform : ((s.note c (.frame frame)).perform u (.handle c frame)).Through u h :=
        Through.perform hs _
      split
      · exact hperform
      · split <;> exact hperform

theorem Through.step (hs : s.Through u h) (e : Event) : (s.step u e).Through u h := by
  cases e with
  | connect c =>
    show (if (s.links c).isSome then s else s.setLink c {}).Through u h
    split <;> exact hs
  | data c bytes => exact hs.onLink fun l => by split <;> exact hs
  | eof c => exact hs.onLink fun l => hs
  | turn c => exact hs.onLink fun l => by split; exacts [hs.turn c l, hs]
  | drained c => exact hs.onLink fun l => by split <;> exact hs
  | broken c => exact hs.onLink fun l => by split <;> exact hs
  | depart c =>
    have hperform : (s.perform u (.disconnect c)).Through u h := hs.perform _
    exact hs.onLink fun l => by split; exacts [hperform, hs]
  | watchdogTick => exact hs.perform _
  | clock now wall => exact hs.perform _
  | fail c => exact hs.perform _

variable (u) in
/-- The hub, which began as `h`, has raised at a frame of `c`. -/
def HubRaised (h : Hub) (c : ClientId) (ops : List (Op F)) : Prop := ∃ pre frame post,
  ops = pre ++ .handle c frame :: post ∧
    (Run.after (Hub.attempt u.env) h pre).fails u.env (.handle c frame) = true

variable (u) in
/-- The loops that an exception of the hub has ended. -/
def Failed (h : Hub) (s : Serving F) : Prop := ∀ c l, s.links c = some l →
  l.phase = .leaving .failed ∨ l.phase = .gone .failed → HubRaised u h c s.ops

theorem Failed.mono {s' : Serving F} (hs : s.Failed u h) (more : List (Op F))
    (hlinks : s'.links = s.links) (hops : s'.ops = s.ops ++ more) : s'.Failed u h := by
  intro c l hl hphase
  rw [hlinks] at hl
  obtain ⟨pre, frame, post, heq, hraised⟩ := hs c l hl hphase
  exact ⟨pre, frame, post ++ more, by rw [hops, heq, List.append_assoc]; rfl, hraised⟩

theorem Failed.setLink (hs : s.Failed u h) {c : ClientId} {l : Link}
    (hl : l.phase = .leaving .failed ∨ l.phase = .gone .failed → HubRaised u h c s.ops) :
    (s.setLink c l).Failed u h := by
  intro d l' hl' hphase
  by_cases hd : d = c
  · subst hd
    rw [show (s.setLink d l).links d = some l from Function.update_self .., Option.some.injEq] at hl'
    subst hl'
    exact hl hphase
  · rw [show (s.setLink c l).links d = s.links d from Function.update_of_ne hd ..] at hl'
    exact hs d l' hl' hphase

theorem Failed.onLink (hs : s.Failed u h) {c : ClientId} {f : Link → Serving F}
    (hf : ∀ l, s.links c = some l → (f l).Failed u h) : (s.onLink c f).Failed u h := by
  unfold Serving.onLink
  cases hl : s.links c with
  | none => exact hs
  | some l => exact hf l hl

theorem Failed.turn (hs : s.Failed u h) (ht : s.Through u h) {c : ClientId} {l : Link}
    (hphase : l.phase = .reading) : (s.turn u c l).Failed u h := by
  have hreads : ∀ (k : Serving F) (buffer : List UInt8), k.Failed u h →
      (k.setLink c { l with buffer := buffer }).Failed u h := fun k buffer hk =>
    hk.setLink fun hwhy => by
      rw [show ({ l with buffer := buffer } : Link).phase = .reading from hphase] at hwhy
      rcases hwhy with hwhy | hwhy <;> cases hwhy
  have hends : ∀ (k : Serving F) (l' : Link), k.Failed u h → l'.phase ≠ .leaving .failed →
      l'.phase ≠ .gone .failed → (k.setLink c l').Failed u h := fun k l' hk hne hne' =>
    hk.setLink fun hwhy => (hwhy.elim hne hne').elim
  have hnote : ∀ r, (s.note c r).Failed u h := fun r =>
    hs.mono [] rfl (List.append_nil _).symm
  unfold Serving.turn
  split
  · exact hs
  · exact hends _ _ (hnote _) (by simp) (by simp)
  · exact hends _ _ hs (by simp) (by simp)
  · simp only
    split
    · exact hreads _ _ hs
    · exact hends _ _ (hnote _) (by simp) (by simp)
    · exact hreads _ _ (hnote _)
    · next frame _ =>
      have hperform : ((s.note c (.frame frame)).perform u (.handle c frame)).Failed u h :=
        (hnote (.frame frame)).mono _ rfl rfl
      split
      · next hfails =>
        refine hperform.setLink fun _ => ⟨s.ops, frame, [], rfl, ?_⟩
        rw [← ht]
        exact hfails
      · split
        · exact hreads _ _ hperform
        · exact hends _ _ hperform (by simp) (by simp)

theorem Failed.step (hs : s.Failed u h) (ht : s.Through u h) (e : Event) :
    (s.step u e).Failed u h := by
  have hperform : ∀ op : Op F, (s.perform u op).Failed u h := fun op => hs.mono _ rfl rfl
  cases e with
  | connect c =>
    show (if (s.links c).isSome then s else s.setLink c {}).Failed u h
    split
    · exact hs
    · exact hs.setLink (by simp)
  | data c bytes =>
    refine hs.onLink fun l hl => ?_
    split
    · exact hs
    · exact hs.setLink (hs c l hl)
  | eof c => exact hs.onLink fun l hl => hs.setLink (hs c l hl)
  | turn c =>
    refine hs.onLink fun l hl => ?_
    split
    · next hphase => exact hs.turn ht hphase
    · exact hs
  | drained c =>
    refine hs.onLink fun l hl => ?_
    split
    · exact hs.setLink (by simp)
    · exact hs
  | broken c =>
    refine hs.onLink fun l hl => ?_
    split
    · exact hs.setLink (by simp)
    · exact hs
  | depart c =>
    refine hs.onLink fun l hl => ?_
    split
    · next why hphase =>
      refine (hperform (.disconnect c)).setLink fun hwhy => hperform (.disconnect c) c l hl (.inl ?_)
      rcases hwhy with hwhy | hwhy
      · cases hwhy
      · cases hwhy
        exact hphase
    · exact hs
  | watchdogTick => exact hperform _
  | clock now wall => exact hperform _
  | fail c => exact hperform _

end Serving

variable (F u) in
/-- The server after a run. -/
def Serving.run (records : List MsgRec) (now wall : Rat) (events : List Event) : Serving F :=
  Run.after (Serving.step u) { hub := Hub.init u.env records now wall } events

theorem lawful_run (records : List MsgRec) (now wall : Rat) (events : List Event) :
    (Serving.run F u records now wall events).Lawful u :=
  Run.preserved (fun _ e hs => hs.step e) (fun _ => ⟨rfl, rfl⟩) events

theorem through_run (records : List MsgRec) (now wall : Rat) (events : List Event) :
    (Serving.run F u records now wall events).Through u (Hub.init u.env records now wall) :=
  have hinit : ({ hub := Hub.init u.env records now wall } : Serving F).Through u
      (Hub.init u.env records now wall) := rfl
  Run.preserved (I := fun s : Serving F => s.Through u (Hub.init u.env records now wall))
    (fun _ e hs => Serving.Through.step hs e) hinit events

theorem failed_run (records : List MsgRec) (now wall : Rat) (events : List Event) :
    (Serving.run F u records now wall events).Failed u (Hub.init u.env records now wall) := by
  have hinit : ({ hub := Hub.init u.env records now wall } : Serving F).Through u
      (Hub.init u.env records now wall) := rfl
  exact (Run.preserved (I := fun s : Serving F => s.Through u (Hub.init u.env records now wall) ∧
      s.Failed u (Hub.init u.env records now wall))
    (fun _ e hs => ⟨Serving.Through.step hs.1 e, hs.2.step hs.1 e⟩)
    ⟨hinit, fun c l hl => by cases hl⟩ events).2

/-- The loop has nothing to wait for, or waits for bytes. -/
def Idle (u : Setup) (l : Link) : Prop :=
  match l.phase with
  | .reading => readline u.maxFrameBytes l.buffer l.eof = .wait
  | .draining => True
  | .leaving why | .gone why => why.last = true

/-- A loop that has nothing to do has done everything. -/
theorem Stands.idle (hs : Stands u l done) (hidle : Idle u l) : done = Server.expected u l.received l.eof := by
  unfold Idle at hidle
  cases hs with
  | between hphase hb =>
    rw [hphase] at hidle
    have hsame := hb.expected [] l.eof
    rw [List.append_nil, List.append_nil, expected_wait hidle, List.append_nil] at hsame
    exact hsame.symm
  | last _ _ _ hall => exact hall.1
  | draining _ hall => exact hall.1
  | ended _ _ hall => exact hall.1
  | cut hphase hwhy _ =>
    rcases hphase with h | h <;> rw [h] at hidle <;> exact absurd (hidle.symm.trans hwhy) (by decide)

/-- **The loops are exact.**  In every run of the server, however the bytes of the connections come
and their loops take turns: the hub has been through a run of its own, in which each loop has had it
handle, in order, the frames it has made of the lines, and disconnect the client once, when it is
gone; what a loop has made of the lines is a beginning of what it would make of the whole stream that
has come (one refusal for a line that is no frame, and a last one for a line that is too long; or an
exception of `parse_line`, with which it ends), and all of it when it has nothing more to read; and a
loop that an exception of the hub has ended is one at a frame of which the hub has raised. -/
theorem loops_exact (records : List MsgRec) (now wall : Rat) (events : List Event) :
    let s := Serving.run F u records now wall events
    s.hub = Run.after (Hub.attempt u.env) (Hub.init u.env records now wall) s.ops ∧
      ∀ c l, s.links c = some l →
        s.opsOf c = ((s.doneOf c).filterMap Reaction.frame?).map (.handle c) ++
          (if l.phase.isGone then [.disconnect c] else []) ∧
        s.doneOf c <+: Server.expected u l.received l.eof ∧
        (Idle u l → s.doneOf c = Server.expected u l.received l.eof) ∧
        (l.phase = .leaving .failed ∨ l.phase = .gone .failed →
          Serving.HubRaised u (Hub.init u.env records now wall) c s.ops) := by
  refine ⟨through_run records now wall events, fun c l hl => ?_⟩
  obtain ⟨hstands, hgiven⟩ := (lawful_run records now wall events).link hl
  exact ⟨hgiven, hstands.some.1, hstands.idle, failed_run records now wall events c l hl⟩

/-! ## What a spoke has sent -/

theorem react_ok {frame : Obj F} {tail : List UInt8} (hhead : line = 0x7B :: tail)
    (hfine : raising u line = false) (h : loadsBytes line = some (Json.obj frame)) :
    react u line = some (.frame frame) := by
  have hblank : blank line = false := by rw [hhead]; rfl
  obtain ⟨cs, hcs, hloads⟩ := Option.bind_eq_some_iff.mp h
  rw [raising, hblank, hcs, Option.any_some, Bool.not_false, Bool.true_and] at hfine
  rw [react, hblank, if_neg Bool.false_ne_true, parseLine, hcs]
  simp only [hfine, Bool.false_eq_true, if_false, hloads]

/-- A line that is no JSON gives the hub nothing. -/
theorem react_error {tail : List UInt8} (hhead : line = 0x7B :: tail)
    (h : loadsBytes (F := F) line = none) :
    ((react (F := F) u line).toList.filterMap Reaction.frame?) = [] := by
  have hblank : blank line = false := by rw [hhead]; rfl
  rw [react, hblank, if_neg Bool.false_ne_true]
  unfold loadsBytes at h
  unfold parseLine
  cases hcs : decode? line.toByteArray with
  | none => rfl
  | some cs =>
    rw [hcs, Option.bind_some] at h
    simp only [h]
    cases u.raises (ofChars cs) with
    | true => rfl
    | false => rfl

/-- An object begins with a bracket. -/
theorem objLine_head {frame : Obj F} (h : objLine frame = some line) : ∃ tail, line = 0x7B :: tail := by
  obtain ⟨cs, hcs, rfl⟩ := objLine_eq_some h
  rw [dumps_obj_eq] at hcs
  cases cs with
  | nil => cases hcs
  | cons c cs =>
    obtain rfl : c = '\x7b' := (CodePoint.scalar.inj (List.cons.inj hcs).1).symm
    exact ⟨utf8Bytes cs, rfl⟩

open Spoke in
/-- Of any beginning of what was sent, the frames are made that are all there, up to a line that
raises. -/
theorem expected_sent (eof : Bool) {sent : Sent F} (hsent : sent.Proper)
    (hshort : ∀ x ∈ sent, x.2.length ≤ u.maxFrameBytes) (hstream : stream <+: sent.bytes) :
    (Server.expected u stream eof).filterMap Reaction.frame? <+: sent.map Prod.fst ∧
      (stream = sent.bytes → (∀ x ∈ sent, raising u (x.2 ++ [lineFeed]) = false) →
        Server.expected u stream eof = (sent.map Prod.fst).map .frame) := by
  have hnil : Server.expected (F := F) u [] eof = [] := by
    cases eof with
    | true => exact expected_end rfl
    | false => exact expected_wait rfl
  induction sent generalizing stream with
  | nil =>
    obtain rfl : stream = [] := List.prefix_nil.mp hstream
    rw [hnil]
    exact ⟨List.prefix_rfl, fun _ _ => rfl⟩
  | cons x sent ih =>
    obtain ⟨frame, line⟩ := x
    obtain ⟨hwf, hline⟩ := hsent (frame, line) (.head _)
    have hlen : line.length ≤ u.maxFrameBytes := hshort (frame, line) (.head _)
    obtain ⟨_, htail⟩ : ∃ tail, line = 0x7B :: tail := objLine_head hline
    rcases prefix_cons hstream with ⟨rest, rfl, hrest, heq⟩ | ⟨hp, hne⟩
    · obtain ⟨hbegin, hall⟩ := ih (fun y hy => hsent y (.tail _ hy)) (fun y hy => hshort y (.tail _ hy)) hrest
      have hread := readline_line ⟨lineFeed_notMem hline, hlen⟩ rest eof
      rw [expected_line hread (by simp)]
      cases hraising : raising u (line ++ [lineFeed]) with
      | true =>
        rw [if_pos rfl]
        refine ⟨List.nil_prefix, fun _ hfine => ?_⟩
        exact absurd (hraising.symm.trans (hfine (frame, line) (.head _))) (by decide)
      | false =>
        have hreact : react u (line ++ [lineFeed]) = some (.frame frame) :=
          react_ok (by rw [htail]; rfl) hraising (loadsBytes_line hwf hline).2
        rw [if_neg Bool.false_ne_true, hreact, Option.toList_some, List.singleton_append]
        refine ⟨List.cons_prefix_cons.mpr ⟨rfl, hbegin⟩, fun hstream hfine => ?_⟩
        rw [hall (heq hstream) fun y hy => hfine y (.tail _ hy)]
        rfl
    · -- the line is not there, or only its end is missing
      refine ⟨?_, fun heq => absurd heq hne⟩
      cases stream with
      | nil =>
        rw [hnil]
        exact List.nil_prefix
      | cons b tail =>
        have hhead : b = 0x7B := by
          rw [htail] at hp
          exact (List.cons_prefix_cons.mp hp).1
        have hread : readline u.maxFrameBytes (b :: tail) eof =
            if eof then .line (b :: tail) [] else .wait := by
          rw [readline, Framing.cut_of_notMem fun hmem => lineFeed_notMem hline (hp.subset hmem)]
          exact if_neg (Nat.not_lt.mpr (hp.length_le.trans hlen))
        cases eof with
        | false =>
          rw [expected_wait hread]
          exact List.nil_prefix
        | true =>
          rw [expected_line hread (by simp), hnil, List.append_nil]
          cases hraising : raising u (b :: tail) with
          | true =>
            rw [if_pos rfl]
            exact List.nil_prefix
          | false =>
            rw [if_neg Bool.false_ne_true]
            by_cases hwhole : b :: tail = line
            · rw [react_ok (congrArg (· :: tail) hhead) hraising (hwhole ▸ (loadsBytes_line hwf hline).1)]
              exact List.cons_prefix_cons.mpr ⟨rfl, List.nil_prefix⟩
            · rw [react_error (congrArg (· :: tail) hhead) (loadsBytes_torn hwf hline hp hwhole)]
              exact List.nil_prefix

/-- The frames that the hub has handled for `c`. -/
def Serving.handled (s : Serving F) (c : ClientId) : List (Obj F) :=
  s.ops.filterMap fun
    | .handle d frame => if d = c then some frame else none
    | _ => none

omit [PyFloat F] in
theorem handled_eq (s : Serving F) (c : ClientId) : s.handled c = (s.opsOf c).filterMap fun
    | .handle d frame => if d = c then some frame else none
    | _ => none := by
  unfold Serving.handled Serving.opsOf
  rw [List.filterMap_filter]
  refine List.filterMap_congr fun op _ => ?_
  cases op with
  | handle d frame => by_cases hd : d = c <;> simp [loopOf, hd]
  | disconnect d => by_cases hd : d = c <;> simp [loopOf, hd]
  | _ => simp [loopOf]

open Spoke in
/-- **What a spoke sends is handled**, each frame once and in order, however its lines are cut and
whatever else the hub does.  In every run of the server: if the bytes that have come on a connection
are a beginning of the lines of frames within the limit, the hub has handled a beginning of the frames,
and none that is cut off; and if they are all of it and none of the lines raises, all of them once the
loop has nothing more to read. -/
theorem sent_is_handled (records : List MsgRec) (now wall : Rat) (events : List Event) {c : ClientId}
    {l : Link} {sent : Sent F} (hl : (Serving.run F u records now wall events).links c = some l)
    (hsent : sent.Proper) (hshort : ∀ x ∈ sent, x.2.length ≤ u.maxFrameBytes)
    (hcome : l.received <+: sent.bytes) :
    let handled := (Serving.run F u records now wall events).handled c
    handled <+: sent.map Prod.fst ∧
      (Idle u l → l.received = sent.bytes →
        (∀ x ∈ sent, raising u (x.2 ++ [lineFeed]) = false) → handled = sent.map Prod.fst) := by
  intro handled
  obtain ⟨hstands, hgiven⟩ := (lawful_run records now wall events).link hl
  have hhandled : handled =
      ((Serving.run F u records now wall events).doneOf c).filterMap Reaction.frame? := by
    show (Serving.run F u records now wall events).handled c = _
    rw [handled_eq, hgiven, given, List.filterMap_append, List.filterMap_map]
    split <;> simp
  obtain ⟨hbegin, hall⟩ := expected_sent l.eof hsent hshort hcome
  rw [hhandled]
  refine ⟨(hstands.some.1.filterMap _).trans hbegin, fun hidle hwhole hfine => ?_⟩
  rw [hstands.idle hidle, hall hwhole hfine, List.filterMap_map]
  exact List.filterMap_some

/-- A frame whose line comes in two parts, with a round between them. -/
theorem sent_is_handled_cut :
    let pong : Obj Token := [(str "t", .str (str "pong"))]
    let bytes := Spoke.Sent.bytes [(pong, (objLine pong).getD [])]
    (Serving.run Token ⟨.still, 64, id, fun _ => false⟩ [] 0 0 [.connect 0, .data 0 (bytes.take 5), .turn 0,
      .data 0 (bytes.drop 5), .turn 0, .turn 0]).handled 0 = [pong] := by
  intro pong bytes
  have hsent : Spoke.Sent.Proper [(pong, (objLine pong).getD [])] := by
    intro x hx
    obtain rfl := List.mem_singleton.mp hx
    exact ⟨⟨by decide, trivial, trivial⟩, rfl⟩
  exact (sent_is_handled [] 0 0 _ (c := 0) (l := { received := bytes }) rfl hsent (by decide)
    List.prefix_rfl).2 rfl rfl (by decide)

end

end

end Moot.Server
