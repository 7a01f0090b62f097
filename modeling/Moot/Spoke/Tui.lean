import Moot.Lib.Ndjson
import Moot.Spoke.Compose
import Moot.Spoke.Editor

/-!
# The full-screen seat

`connect` of `spoke/conn.py` and `_run_tui` of `spoke/observer.py`: the main thread
reads the keyboard, composes the lines and polls the roster; the reader thread reads
the frames of the hub and answers its pings.  Both write to the connection and to the
screen.

Proved here: `counts_buildOutgoing`, what a line may send, and with which numbers.
-/

namespace Moot.Spoke
open Py PyJson Proto

/-! ## The seat and its threads -/

/-- What is put on the screen, before it is drawn. -/
inductive Drawn (F : Type)
  | welcome (frame : Obj F)
  | frame (frame : Obj F)
  | band (frame : Obj F)
  | echo (echo : Echo) (queued : Int) (id : Option Int)
  | refused (detail : Str)
  | tooLong
  | ignored (text : Str)
  | shown (shown : Shown F)
  | hubGone
  | historyFailed
  | hungUp (failed : Bool)

/-- Where the main thread is: before the welcome, in its loop, or past it. -/
inductive Phase
  | greeting | looping | over
  deriving DecidableEq

/-- The seat: the locals of `_run_tui` that its threads share, the keys that are still to be handled,
the frames of a line that are still to be sent, and what has been written.  `woken` says that the
reader has written its tag into the pipe, `reading` that it has not ended. -/
structure Tui (F : Type) where
  console : Console F
  editor : Editor
  parser : KeyParser := {}
  pending : Dict Int Echo := Dict.empty
  pollSeq : Int := 0
  phase : Phase := .greeting
  keys : List Key := []
  rest : List (Obj F) := []
  quit : Bool := false
  closed : Bool := false
  woken : Bool := false
  reading : Bool := false
  historyFailed : Bool := false
  remembered : List Str := []
  sent : List (Obj F) := []
  screen : List (Drawn F) := []

section
variable {F : Type}

/-- The `hello` of an observer. -/
def helloOut (me : Str) : Obj F :=
  [(str "t", .str (str "hello")), (str "proto", .int 1), (str "name", .str me),
    (str "kind", .str (str "observer")), (str "role", .str (str "human observer")),
    (str "caps", .arr [])]

def pongOut : Obj F := [(str "t", .str (str "pong"))]
def byeOut : Obj F := [(str "t", .str (str "bye"))]

/-- `isinstance(value, int)`: an integer or a boolean. -/
def pyInt? : Option (Json F) → Option Int
  | some (.int i) => some i
  | some (.bool b) => some (if b then 1 else 0)
  | _ => none

/-- `frame.get("t")`, where it is compared with a string. -/
def kindOf (frame : Obj F) : Str :=
  match field frame "t" with
  | some (.str t) => t
  | _ => []

/-- `pending.update(echo)` -/
def updated (pending echo : Dict Int Echo) : Dict Int Echo :=
  echo.entries.foldl (fun d e => d.insert e.1 e.2) pending

/-- `_MAX_SEND_BYTES` -/
def maxSendBytes : Nat := 256 * 1024

namespace KeyParser

/-- `pending_escape` -/
def pendingEscape (p : KeyParser) : Bool := p.state = .esc ∨ p.state = .csi ∨ p.state = .ss3

/-- `pending_paste` -/
def pendingPaste (p : KeyParser) : Bool := p.state = .paste

end KeyParser

namespace Tui

/-- The seat of `me` when it has said hello, with the history it has loaded. -/
def start (me : Str) (history : List Str) (historyFailed : Bool) : Tui F where
  console := { seat := { me := me } }
  editor := { history := history }
  historyFailed := historyFailed
  sent := [helloOut me]

/-- `screen.print_lines`, `screen.error`, `screen.note` -/
def draw (s : Tui F) (d : Drawn F) : Tui F := { s with screen := s.screen ++ [d] }

/-- `conn.send(frame)` -/
def give (s : Tui F) (frame : Obj F) : Tui F := { s with sent := s.sent ++ [frame] }

/-- An exception leaves `_run_tui`. -/
def fail (s : Tui F) : Tui F := { s with phase := .over }

def setSeat (s : Tui F) (seat : Seat F) : Tui F := { s with console := { s.console with seat := seat } }

/-! ### The reader thread -/

/-- The reader ends; past the main thread it prints no more. -/
def hangUp (s : Tui F) (failed : Bool) : Tui F :=
  let s := { s with closed := true, reading := false }
  if s.phase = .over then s else s.draw (.hungUp failed)

/-- A frame that the seat observes and that is drawn as `d`; `fine` says that nothing is raised. -/
def observing (s : Tui F) (frame : Obj F) (d : Drawn F) (fine : Bool) : Tui F :=
  match s.console.seat.observe frame with
  | none => s.hangUp true
  | some seat => if fine then (s.setSeat seat).draw d else (s.setSeat seat).hangUp true

/-- `pending.pop(seq, None)` -/
def popped (s : Tui F) : Option Int → Tui F
  | some seq => { s with pending := s.pending.erase seq }
  | none => s

/-- `record_own`, under an id. -/
def recordOwn (s : Tui F) (e : Echo) (now : F) : Option Int → Tui F
  | some id => s.setSeat (s.console.seat.push
      ⟨id, .str s.console.seat.me, .str e.1, .str e.2.1, .str e.2.2.1, some (.float now), e.2.2.2⟩)
  | none => s

/-- An `ok`: the echo of the say that waits for it. -/
def acknowledged (s : Tui F) (frame : Obj F) (now : F) (fine : Bool) : Tui F :=
  match pyInt? (field frame "seq") with
  | none => s
  | some seq =>
    match s.pending.get? seq with
    | none => s
    | some e =>
      let s := s.popped (some seq)
      if fine then
        (s.draw (.echo e ((pyInt? (field frame "queued")).getD 0) (msgId frame))).recordOwn e now
          (msgId frame)
      else s.hangUp true

/-- One round of the reader's loop. -/
def hear (s : Tui F) (frame : Obj F) (now : F) (fine : Bool) : Tui F :=
  let t := kindOf frame
  let seq := pyInt? (field frame "seq")
  if t = str "ping" then if fine then s.give pongOut else s.hangUp true
  else if t = str "ok" then s.acknowledged frame now fine
  else
    let s := if t = str "err" then s.popped seq else s
    if t = str "roster" ∧ (seq.any fun i => decide (i < 0)) = true then
      s.observing frame (.band frame) fine
    else s.observing frame (.frame frame) fine

/-- What `connect` makes of the first frame, and the start of the loops. -/
def greeted (s : Tui F) (frame : Obj F) (fine : Bool) : Tui F :=
  if kindOf frame = str "welcome" then
    match s.console.seat.observeWelcome frame with
    | none => s.fail
    | some seat =>
      if fine then { (s.setSeat seat).draw (.welcome frame) with phase := .looping, reading := true }
      else (s.setSeat seat).fail
  else s.fail

/-- Somebody waits for a frame of the hub. -/
def listens (s : Tui F) : Bool := s.phase = .greeting || s.reading

/-- A frame of the hub. -/
def recv (s : Tui F) (frame : Obj F) (now : F) (fine : Bool) : Tui F :=
  if s.phase = .greeting then s.greeted frame fine
  else if s.reading then s.hear frame now fine
  else s

/-- The connection ends, or what comes is no frame. -/
def eof (s : Tui F) (failed : Bool) : Tui F :=
  if s.phase = .greeting then s.fail
  else if s.reading then s.hangUp failed
  else s

/-! ### The main thread -/

/-- What a round of the loop finds: what is read from the keyboard, whether the window has a new size,
whether the poll is due, and whether it can be sent. -/
structure Round where
  data : Option (List UInt8) := none
  resized : Bool := false
  due : Bool := false
  up : Bool := true

/-- The roster poll; an `OSError` is left to the reader. -/
def poll (s : Tui F) (up : Bool) : Tui F :=
  if s.closed then s
  else
    let s := { s with pollSeq := s.pollSeq - 1 }
    if up then s.give (rosterQuery s.pollSeq) else s

/-- A round of the loop, up to its keys. -/
def round (s : Tui F) (r : Round) : Tui F :=
  let keyWait := s.parser.pendingEscape || s.parser.pendingPaste
  let polled (s : Tui F) := if !keyWait && r.due then s.poll r.up else s
  if s.woken then polled { s with quit := true }
  else
    match r.data with
    | some [] => { s with quit := true }
    | some data => polled { s with keys := (s.parser.feed data).1, parser := (s.parser.feed data).2 }
    | none =>
      if !r.resized && keyWait then
        polled { s with keys := s.parser.flushTimeout.1, parser := s.parser.flushTimeout.2 }
      else polled s

variable [PyFloat F] (desk : Desk)

/-- `any(len(proto.encode(f)) >= _MAX_SEND_BYTES for f in frames)`; `none` is the
`UnicodeEncodeError`. -/
def tooLong : List (Obj F) → Option Bool
  | [] => some false
  | frame :: frames =>
    match objLine frame with
    | none => none
    | some line => if maxSendBytes ≤ line.length + 1 then some true else tooLong frames

omit [PyFloat F] in
/-- `history.append(text)`; `kept` says that it raises nothing. -/
def remember (s : Tui F) (text : Str) (kept : Bool) : Tui F :=
  if s.historyFailed then s
  else if kept then { s with remembered := s.remembered ++ [text] }
  else { s with historyFailed := true }.draw .historyFailed

omit [PyFloat F] in
/-- A line that leaves the editor. -/
def submit (s : Tui F) (out : Outgoing F) (kept : Bool) : Tui F :=
  let text := s.editor.submit.1
  let s := { s with editor := s.editor.submit.2 }.remember text kept
  let s := if out.ignored then s.draw (.ignored text) else s
  let s := match out.shown with
    | some shown => s.draw (.shown shown)
    | none => s
  if out.frames.isEmpty then s
  else if s.closed then s.draw .hubGone
  else { s with pending := updated s.pending out.echo, rest := out.frames }

/-- `enter`: the line is composed, and submitted unless it is refused. -/
def enter (s : Tui F) (rows : Nat) (today : List (Obj F)) (kept : Bool) : Tui F :=
  if strip s.editor.buf = [] then { s with editor := s.editor.submit.2 }
  else
    match buildOutgoing desk { s.console with today := today } (strip s.editor.buf) rows with
    | none => s.fail
    | some (out, console) =>
      let s := { s with console := console }
      match out.error with
      | some detail => s.draw (.refused detail)
      | none =>
        match tooLong out.frames with
        | none => s.fail
        | some true => s.draw .tooLong
        | some false => s.submit out kept

/-- The next key; `today` is what the transcript of today has, if it is asked for. -/
def press (s : Tui F) (rows : Nat) (today : List (Obj F)) (kept : Bool) : Tui F :=
  match s.keys with
  | [] => s
  | .enter :: keys => { s with keys := keys }.enter desk rows today kept
  | key :: keys =>
    let p := s.editor.press false key
    if p.quit then { s with editor := p.editor, keys := [], quit := true }
    else { s with editor := p.editor, keys := keys }

/-- A step of the main thread, the wake-up of the reader, or the end of the connection. -/
inductive Act (F : Type)
  | round (r : Round)
  | press (rows : Nat) (today : List (Obj F)) (kept : Bool)
  | send (up : Bool)
  | leave (up : Bool)
  | crash
  | wake
  | eof (failed : Bool)

/-- A step; one that is not enabled changes nothing. -/
def act (s : Tui F) : Act F → Tui F
  | .round r =>
    if s.phase = .looping ∧ s.quit = false ∧ s.keys = [] ∧ s.rest.isEmpty then s.round r else s
  | .press rows today kept =>
    if s.phase = .looping ∧ s.quit = false ∧ s.rest.isEmpty then s.press desk rows today kept else s
  | .send up =>
    match s.phase, s.rest with
    | .looping, frame :: rest => if up then { s with rest := rest }.give frame else s.fail
    | _, _ => s
  | .leave up =>
    if s.phase = .looping ∧ s.quit = true ∧ s.rest.isEmpty then
      if s.closed = false ∧ up = true then { s with phase := .over }.give byeOut else s.fail
    else s
  | .crash => s.fail
  | .wake => if s.phase ≠ .greeting ∧ s.reading = false then { s with woken := true } else s
  | .eof failed => s.eof failed

end Tui

/-! ## What a line may send -/

/-- The frames that a seat sends. -/
inductive Speaks : Obj F → Prop
  | hello (me : Str) : Speaks (helloOut me)
  | say (addressee kind text : Str) (seq : Int) (priv : Bool) :
    Speaks (sayFrame addressee kind text seq priv)
  | state (state : Str) (detail : Option Str) : Speaks (stateOut state detail)
  | cmd (cmd : Str) (seq : Int) (args : Option (Obj F)) : Speaks (cmdFrame cmd seq args)
  | roster (seq : Int) : Speaks (rosterQuery seq)
  | pong : Speaks pongOut
  | bye : Speaks byeOut

/-- What is sent has the next numbers, and the echoes are those of the says. -/
structure Numbered (seq seq' : Int) (out : Outgoing F) : Prop where
  numbers : ∃ k : Nat, seq' = seq + k ∧
    out.frames.filterMap seqOf = (List.range k).map fun i : Nat => seq + 1 + i
  echo : ∀ i e, out.echo.get? i = some e ↔ ∃ frame ∈ out.frames, echoOf frame = some (i, e)
  speaks : ∀ frame ∈ out.frames, Speaks frame

end

section
variable {F : Type} {desk : Desk} {c c' : Console F} {out : Outgoing F}

/-- The outcome changes nothing of the seat but the number, and is numbered from there. -/
def Counts (c : Console F) (r : Outgoing F × Console F) : Prop :=
  r.2 = { c with seq := r.2.seq } ∧ Numbered c.seq r.2.seq r.1

theorem counts_quiet (hframes : out.frames = []) (hecho : out.echo = Dict.empty) :
    Counts c (out, c) := by
  refine ⟨rfl, ⟨0, (Int.add_zero _).symm, by rw [hframes]; rfl⟩, fun i e => ?_, fun f hf => ?_⟩
  · rw [hframes, hecho]
    simp
  · rw [hframes] at hf
    cases hf

theorem counts_one {frame : Obj F} (hseq : seqOf frame = some (c.seq + 1)) (hecho : echoOf frame = none)
    (hspeaks : Speaks frame) : Counts c ({ frames := [frame] }, c.next) := by
  refine ⟨rfl, ⟨1, rfl, by simp [hseq]⟩, fun i e => by simp [hecho], fun f hf => ?_⟩
  rw [List.mem_singleton.mp hf]
  exact hspeaks

theorem counts_sent (addressee kind text : Str) (priv : Bool) :
    Counts c (sent c addressee kind text priv) := by
  refine ⟨rfl, ⟨1, rfl, by simp [sent, seqOf_sayFrame]⟩,
    echo_one (by simp [sent, echoOf_sayFrame]), fun f hf => ?_⟩
  rw [List.mem_singleton.mp hf]
  exact .say ..

theorem counts_composeClose (arg : Str) : Counts c (composeClose c arg) := by
  unfold composeClose
  split
  · exact counts_quiet rfl rfl
  · have hseq : seqOf (cmdFrame (F := F) (str "reset") (c.seq + 2) none) = some (c.seq + 2) := rfl
    have hecho : echoOf (cmdFrame (F := F) (str "reset") (c.seq + 2) none) = none := rfl
    refine ⟨rfl, ⟨2, by simp only [Console.next]; omega, ?_⟩,
      echo_one (by simp [echoOf_sayFrame, hecho]), fun f hf => ?_⟩
    · simp only [List.filterMap_cons, seqOf_sayFrame, hseq, List.filterMap_nil]
      simp [List.range_succ]
      omega
    · rcases List.mem_cons.mp hf with rfl | hf
      · exact .say ..
      · rw [List.mem_singleton.mp hf]
        exact .cmd ..

theorem counts_composeSay (addressee kind text : Str) (priv : Bool) :
    Counts c (composeSay desk c addressee kind text priv) := by
  unfold composeSay
  split
  · exact counts_quiet rfl rfl
  · split
    · exact counts_quiet rfl rfl
    · split
      · exact counts_quiet rfl rfl
      · exact counts_sent ..

/-- Every outcome there is counts. -/
def CountsAny (c : Console F) (r : Option (Outgoing F × Console F)) : Prop := ∀ x, r = some x → Counts c x

theorem Counts.any {r : Outgoing F × Console F} (h : Counts c r) : CountsAny c (some r) := by
  intro x hx
  rwa [← Option.some.inj hx]

theorem countsAny_none : CountsAny c none := nofun

theorem countsAny_bind {α : Type} {x : Option α} {f : α → Option (Outgoing F × Console F)}
    (hf : ∀ a, CountsAny c (f a)) : CountsAny c (x >>= f) := by
  cases x with
  | none => exact countsAny_none
  | some a => exact hf a

theorem counts_composeShow (arg : Str) : CountsAny c (composeShow c arg) := by
  unfold composeShow
  refine countsAny_bind fun m => ?_
  cases m with
  | none => exact (counts_quiet rfl rfl).any
  | some id =>
    refine countsAny_bind fun found => ?_
    cases found with
    | none => exact (counts_quiet rfl rfl).any
    | some e => exact (counts_quiet rfl rfl).any

theorem counts_composeLast (arg : Str) : CountsAny c (composeLast c arg) := by
  unfold composeLast
  split
  · exact (counts_quiet rfl rfl).any
  · have hshow : ∀ n, CountsAny c (do
        let records ← c.seat.recent c.today n
        if records.isEmpty then return ({ shown := some .nothing }, c)
        else return ({ shown := some (.replay records false) }, c)) := by
      refine fun n => countsAny_bind fun records => ?_
      split
      · exact (counts_quiet rfl rfl).any
      · exact (counts_quiet rfl rfl).any
    simp only
    split
    · exact hshow 3
    · exact countsAny_bind hshow

theorem counts_composeFind (arg : Str) (rows : Nat) : CountsAny c (composeFind desk c arg rows) := by
  unfold composeFind
  split
  · exact (counts_quiet rfl rfl).any
  · split
    · exact countsAny_none
    · exact (counts_quiet rfl rfl).any
    · refine countsAny_bind fun records => ?_
      split
      · exact (counts_quiet rfl rfl).any
      · exact (counts_quiet rfl rfl).any

variable [PyFloat F]

theorem counts_composeQuote (arg : Str) : CountsAny c (composeQuote desk c arg) := by
  unfold composeQuote
  refine countsAny_bind fun m => ?_
  cases m with
  | none => exact (counts_quiet rfl rfl).any
  | some id =>
    refine countsAny_bind fun found => ?_
    cases found with
    | none => exact (counts_quiet rfl rfl).any
    | some e =>
      have hask : ∀ name human : Str, CountsAny c
          (if c.seat.knownPeer name = false then some (refusal (noPeer desk name c.seat), c)
          else if strip human = [] then some (refusal (str "[/q needs a question after @name]"), c)
          else if e.priv = true ∧ name = str "*" then
            some (refusal (str "[private needs @name — a private #N cannot be broadcast]"), c)
          else some (sent c name (str "question") (quoteText desk e (strip human)) e.priv)) := by
        intro name human
        split_ifs
        · exact (counts_quiet rfl rfl).any
        · exact (counts_quiet rfl rfl).any
        · exact (counts_quiet rfl rfl).any
        · exact (counts_sent ..).any
      exact hask _ _

theorem counts_composeCommand (cmd arg : Str) (rows : Nat) :
    CountsAny c (composeCommand desk c cmd arg rows) := by
  unfold composeCommand
  split_ifs
  · exact (counts_quiet rfl rfl).any
  · exact counts_composeShow arg
  · exact counts_composeLast arg
  · exact counts_composeFind arg rows
  · exact counts_composeQuote arg
  · exact (counts_quiet rfl rfl).any
  · exact (counts_composeClose arg).any
  · exact (counts_one rfl rfl (.roster _)).any
  · exact (counts_quiet rfl rfl).any
  · refine countsAny_bind fun args => ?_
    have hecho : echoOf (cmdFrame (F := F) cmd (c.seq + 1) args) = none := by cases args <;> rfl
    exact (counts_one rfl hecho (.cmd ..)).any

/-- **A line takes the next numbers.** -/
theorem counts_buildOutgoing (line : Str) (rows : Nat) :
    CountsAny c (buildOutgoing desk c line rows) := by
  unfold buildOutgoing
  split
  · exact (counts_quiet rfl rfl).any
  · split
    · show CountsAny c (composeCommand desk c (partition space (line.drop 1)).1
        (strip (partition space (line.drop 1)).2) rows)
      exact counts_composeCommand _ _ rows
    · split
      · exact (counts_quiet rfl rfl).any
      · next state detail _ =>
        have hseq : seqOf (stateOut (F := F) state detail) = none := by cases detail <;> rfl
        have hecho : echoOf (stateOut (F := F) state detail) = none := by cases detail <;> rfl
        refine Counts.any ⟨rfl, ⟨0, (Int.add_zero _).symm, by simp [hseq]⟩, fun i e => by simp [hecho],
          fun f hf => ?_⟩
        rw [List.mem_singleton.mp hf]
        exact .state ..
      · exact (counts_composeSay ..).any

end

end Moot.Spoke
