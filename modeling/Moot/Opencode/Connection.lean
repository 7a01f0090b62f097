import Moot.Lib.Framing
import Moot.Lib.Run
import Moot.Lib.Text
import Moot.Lib.Trace

/-!
# The connection of the OpenCode plugin

`Connection` of `opencode/lib.ts`: the callbacks of its sockets and timers, and the
calls of the plugin, which may come in any order.  Of the handlers it is given it is only
said what they call and that they may throw.
-/

namespace Moot.Opencode
open Py

/-- A frame of the hub; `t` and `seq`, where they are a string and an integer, and
`String` of `code` and `detail`. -/
structure Inbound (Φ : Type) where
  t : Option Str
  seq : Option Int
  code : Str
  detail : Str
  frame : Φ

/-- What goes out to the hub. -/
inductive Outbound (Φ : Type)
  | hello (name kind role : Str)
  | pong
  | say (seq : Nat) (frame : Φ)
  | frame (frame : Φ)

def Outbound.isHello {Φ : Type} : Outbound Φ → Bool
  | .hello .. => true
  | _ => false

/-- What a `say` resolves with: a frame of the hub, or an `err` made here. -/
inductive Answer (Φ : Type)
  | hub (frame : Inbound Φ)
  | err (code detail : Str)

/-- What a handler calls. -/
inductive Call (Φ : Type)
  | send (frame : Φ)
  | say (frame : Φ)
  | stop

/-- What happened so far, in order; `dispatched` is a line that was given to
`dispatch`. -/
inductive Entry (Φ : Type)
  | opened (c : Nat)
  | wrote (c : Nat) (out : Outbound Φ)
  | received (c : Nat) (chunk : Str)
  | dispatched (c : Nat) (line : Str)
  | destroyed (c : Nat)
  | said (seq : Nat)
  | resolved (seq : Nat) (answer : Answer Φ)
  | armed (timer : Nat)
  | stopped
  | logged (message : Str)

/-- A node socket: it connects once, and has data while it is open. -/
inductive Phase
  | connecting
  | opened
  | destroyed
  | closed
deriving DecidableEq

/-- `Connection`; the last six fields are the sockets it made, the retry timers and the
timers of the says that are armed, how many retry timers there were, and the trace. -/
structure Connection (Φ : Type) where
  socket : Option Nat := none
  live : Bool := false
  welcomed : Bool := false
  buffer : Str := []
  seq : Nat := 0
  pending : List Nat := []
  retry : Option Nat := none
  outageLogged : Bool := false
  stopped : Bool := false
  sockets : List Phase := []
  timers : List Nat := []
  alarms : List Nat := []
  made : Nat := 0
  log : List (Entry Φ) := []

/-- `ConnectionOptions`, with `JSON.parse` of a line to a record; `error` is the text of
the exception.  A handler makes calls, and may throw. -/
structure Hooks (Φ : Type) where
  socketPath : Str
  name : Str
  kind : Str
  role : Str
  parse : Str → Except Str (Inbound Φ)
  onWelcome : Connection Φ → Inbound Φ → List (Call Φ) × Option Str
  onFrame : Connection Φ → Inbound Φ → List (Call Φ) × Option Str
  onHubClosed : Connection Φ → List (Call Φ)

/-- `line.trim() === ""` -/
def isBlank (line : Str) : Bool :=
  line.all fun p =>
    (9 ≤ p.val && p.val ≤ 13) || p.val = 0x20 || p.val = 0xA0 || p.val = 0x1680 ||
      (0x2000 ≤ p.val && p.val ≤ 0x200A) || p.val = 0x2028 || p.val = 0x2029 ||
      p.val = 0x202F || p.val = 0x205F || p.val = 0x3000 || p.val = 0xFEFF

def newline : CodePoint := .scalar '\n'

namespace Connection

variable {Φ : Type} (hooks : Hooks Φ)

def note (s : Connection Φ) (e : Entry Φ) : Connection Φ := { s with log := s.log ++ [e] }

/-- `socket.write` -/
def write (s : Connection Φ) (c : Nat) (out : Outbound Φ) : Connection Φ := s.note (.wrote c out)

/-- `socket.destroy()` -/
def destroy (s : Connection Φ) (c : Nat) : Connection Φ :=
  { s with sockets := s.sockets.set c .destroyed }.note (.destroyed c)

/-- `send` -/
def send (s : Connection Φ) (out : Outbound Φ) : Connection Φ × Bool :=
  match s.socket with
  | some c => if s.welcomed then (s.write c out, true) else (s, false)
  | none => (s, false)

def unreachable : Str := str "hub_unreachable"

def timeout : Str := str "timeout"

/-- `say`, up to the promise. -/
def say (s : Connection Φ) (frame : Φ) : Connection Φ :=
  let seq := s.seq + 1
  let (s, sent) := ({ s with seq }.note (.said seq)).send (.say seq frame)
  if sent then { s with pending := s.pending ++ [seq], alarms := s.alarms ++ [seq] }
  else s.note (.resolved seq (.err unreachable (str "no connection to the hub")))

/-- The timer of a `say` expires. -/
def expire (s : Connection Φ) (seq : Nat) : Connection Φ :=
  { s with alarms := s.alarms.erase seq, pending := s.pending.erase seq }.note
    (.resolved seq (.err timeout (str "no reply from hub")))

/-- What `pending` holds for a `say`: clear the timer, and resolve. -/
def settle (s : Connection Φ) (seq : Nat) (answer : Answer Φ) : Connection Φ :=
  { s with alarms := s.alarms.erase seq }.note (.resolved seq answer)

/-- `failPending` -/
def failPending (s : Connection Φ) (reason : Str) : Connection Φ :=
  let waiting := s.pending
  waiting.foldl (fun s seq => s.settle seq (.err unreachable reason)) { s with pending := [] }

/-- `stop` -/
def stop (s : Connection Φ) : Connection Φ :=
  let s := { s with stopped := true }
  let s := match s.retry with
    | some timer => { s with timers := s.timers.erase timer, retry := none }
    | none => s
  let socket := s.socket
  let s := { s with socket := none, live := false, welcomed := false }
  let s := match socket with
    | some c => s.destroy c
    | none => s
  s.failPending (str "the plugin is shutting down")

/-- `schedule` -/
def schedule (s : Connection Φ) : Connection Φ :=
  if s.stopped || s.retry.isSome then s
  else
    { s with retry := some s.made, timers := s.timers ++ [s.made], made := s.made + 1 }.note
      (.armed s.made)

/-- One call of the plugin or of a handler; that it asks for a stop is noted here. -/
def call (s : Connection Φ) : Call Φ → Connection Φ
  | .send frame => (s.send (.frame frame)).1
  | .say frame => s.say frame
  | .stop => (s.note .stopped).stop

/-- The calls of a handler. -/
def calls (s : Connection Φ) (cs : List (Call Φ)) : Connection Φ := cs.foldl call s

/-- `down`, of a socket that is not `null`. -/
def down (s : Connection Φ) (c : Nat) (reason : Str) : Connection Φ :=
  if s.socket ≠ some c then s
  else
    let wasLive := s.live
    let s := { s with socket := none, live := false, welcomed := false }
    let s := (s.destroy c).failPending reason
    let s := if wasLive || !s.outageLogged then
        { s with outageLogged := true }.note (.logged (reason ++ str " — retrying every 5s"))
      else s
    let s := s.schedule
    if wasLive then s.calls (hooks.onHubClosed s) else s

/-- `open` -/
def openSocket (s : Connection Φ) : Connection Φ :=
  if s.stopped then s
  else
    let c := s.sockets.length
    { s with sockets := s.sockets ++ [Phase.connecting], socket := some c }.note (.opened c)

/-- The `connect` callback. -/
def onConnect (s : Connection Φ) (c : Nat) : Connection Φ :=
  let s := { s with live := true, welcomed := false, outageLogged := false, buffer := [] }
  let s := s.note (.logged (str "connected to " ++ hooks.socketPath))
  s.write c (.hello hooks.name hooks.kind hooks.role)

/-- `dispatch`, of a line that was read from socket `c`; `some` is the text of an
exception. -/
def dispatch (s : Connection Φ) (c : Nat) (line : Str) : Connection Φ × Option Str :=
  let s := s.note (.dispatched c line)
  match hooks.parse line with
  | .error thrown => (s, some thrown)
  | .ok frame =>
    if frame.t = some (str "ping") then ((s.send .pong).1, none)
    else if frame.t = some (str "welcome") then
      let s := { s with welcomed := true }
      let (cs, thrown) := hooks.onWelcome s frame
      (s.calls cs, thrown)
    else if s.welcomed = false ∧ frame.t = some (str "err") then
      let s := s.note (.logged (str "hello rejected: " ++ frame.code ++ str " · " ++ frame.detail ++
        str " — the moot plugin is inert for this process"))
      (s.stop, none)
    else
      match s.pending.find? fun n : Nat => frame.seq = some (n : Int) with
      | some seq => ({ s with pending := s.pending.erase seq }.settle seq (.hub frame), none)
      | none =>
        let (cs, thrown) := hooks.onFrame s frame
        (s.calls cs, thrown)

def unreadableNotice (thrown : Str) : Str :=
  str "unreadable hub frame (" ++ thrown ++ str ") — reconnecting"

/-- The `catch` of `onData`. -/
def unreadable (s : Connection Φ) (thrown : Str) : Connection Φ :=
  let s := s.note (.logged (unreadableNotice thrown))
  match s.socket with
  | some c => s.down hooks c (str "the plugin could not read a frame")
  | none => s

/-- The loop of `onData`, where `buffer` is `this.buffer`. -/
def readLines (s : Connection Φ) (c : Nat) (buffer : Str) : Connection Φ :=
  if s.stopped then s
  else
    match _ : Framing.cut newline buffer with
    | none => s
    | some (line, rest) =>
      let s := { s with buffer := rest }
      if isBlank line then readLines s c rest
      else
        match s.dispatch hooks c line with
        | (s, none) => readLines s c rest
        | (s, some thrown) => s.unreadable hooks thrown
termination_by buffer.length
decreasing_by all_goals exact Framing.cut_length ‹_›

/-- `onData` -/
def onData (s : Connection Φ) (c : Nat) (chunk : Str) : Connection Φ :=
  let s := { s with buffer := s.buffer ++ chunk }
  s.readLines hooks c s.buffer

end Connection

/-- What happens: a callback of a socket or of a timer, or a call of the plugin. -/
inductive Signal (Φ : Type)
  | connect (c : Nat)
  | data (c : Nat) (chunk : Str)
  | error (c : Nat) (message : Str)
  | close (c : Nat)
  | retry (timer : Nat)
  | expire (seq : Nat)
  | call (call : Call Φ)

namespace Connection

variable {Φ : Type} (hooks : Hooks Φ)

/-- A signal; one that its socket or timer cannot give changes nothing.  What a socket has
received is noted here. -/
def step (s : Connection Φ) : Signal Φ → Connection Φ
  | .connect c =>
    if s.sockets[c]? = some .connecting then
      { s with sockets := s.sockets.set c .opened }.onConnect hooks c
    else s
  | .data c chunk =>
    if s.sockets[c]? = some .opened then (s.note (.received c chunk)).onData hooks c chunk else s
  | .error c message =>
    if s.sockets[c]? = some .connecting ∨ s.sockets[c]? = some .opened then
      { s with sockets := s.sockets.set c .destroyed }.down hooks c message
    else s
  | .close c =>
    if c < s.sockets.length ∧ s.sockets[c]? ≠ some .closed then
      { s with sockets := s.sockets.set c .closed }.down hooks c
        (str "the hub closed the connection")
    else s
  | .retry timer =>
    if timer ∈ s.timers then { s with timers := s.timers.erase timer, retry := none }.openSocket
    else s
  | .expire seq => if seq ∈ s.alarms then s.expire seq else s
  | .call call => s.call call

/-- `start` -/
def start : Connection Φ := ({} : Connection Φ).openSocket

end Connection

end Moot.Opencode
