import Moot.Frames

/-!
# The hub's state

The state of `core/hub.py`: the registrations, the flags and timers of the
floor, and the wire, that is, the client objects and a log of everything the
hub has done to the outside.

An operation that encodes a string logs it.  Where the string does not encode, the
code leaves the operation by an exception at that point of the log: `Hub.attempt` of
`Hub/Raise.lean` is the operation as the code runs it.  `Hub.step` and the handlers under
it run to their end; on strings without lone surrogates the two agree (`attempt_eq`).
-/

namespace Moot
open Py Proto

/-- What the hub is run with: its configuration, and the world outside it.
`drops n c` says that client `c` is found dead at the `n`-th send. -/
structure Env where
  config : Config
  drops : Nat → ClientId → Bool
  isPrintable : Char → Bool
  sha256 : Str → Str
  timeOfDay : Rat → Str

/-! ## The wire -/

/-- What the hub does to the outside.  A frame is logged with the registration
it is for and with whether its client was connected. -/
inductive Effect
  | send (name : Str) (client : ClientId) (up : Bool) (frame : Frame)
  | close (client : ClientId)
  | append (wall : Rat) (r : Record)
  | notify (title message : Str)
  | writeGoal (text : Str)
  | encode (s : Str)
  deriving DecidableEq

structure Wire where
  clients : ClientId → Client := fun _ => {}
  sends : Nat := 0
  log : List Effect := []

def Wire.effect (w : Wire) (e : Effect) : Wire := { w with log := w.log ++ [e] }

/-- A moment at which any client may turn out to be gone. -/
def Wire.tick (env : Env) (w : Wire) : Wire :=
  { w with
    clients := fun c =>
      { w.clients c with connected := (w.clients c).connected && !env.drops w.sends c }
    sends := w.sends + 1 }

/-- `client.send(frame)` -/
def Wire.send (env : Env) (w : Wire) (name : Str) (c : ClientId) (frame : Frame) : Wire :=
  (w.effect (.send name c (w.clients c).connected frame)).tick env

/-- `transcript.append(record)` -/
def Wire.append (w : Wire) (wall : Rat) (r : Record) : Wire := w.effect (.append wall r)

/-- `client.close()` -/
def Wire.close (w : Wire) (c : ClientId) : Wire :=
  { w with
    clients := Function.update w.clients c { w.clients c with connected := false }
    log := w.log ++ [.close c] }

/-! ## Participants -/

def observerKind : Str := str "observer"
def idleEvents : Str := str "idle-events"
def everyone : Str := str "*"

/-- `Participant` -/
structure Participant where
  name : Str
  kind : Str
  role : Str
  caps : List Str
  client : ClientId
  context : ContextBuffer
  bucket : TokenBucket
  dedup : DedupWindow
  state : State := .idle
  queue : List Msg := []
  queueDropped : Nat := 0
  finished : Bool := false
  lastRx : Rat := 0
  busySince : Rat := 0
  lastSay : Rat := 0
  blockedSince : Option Rat := none
  blockedDetail : Option Str := none
  awaitingPong : Bool := false
  pongDeadline : Rat := 0

/-- `is_observer` -/
def Participant.isObserver (p : Participant) : Bool := p.kind = observerKind

/-- `"idle-events" in p.caps` -/
def Participant.hasIdleEvents (p : Participant) : Bool := p.caps.contains idleEvents

/-- `_set_idle` -/
def Participant.setIdle (p : Participant) : Participant :=
  { p with state := .idle, blockedSince := none, blockedDetail := none }

/-- A reported state, with the time of the report. -/
def Participant.setState (now : Rat) (s : State) (p : Participant) : Participant :=
  { p with state := s, busySince := if s = .idle then p.busySince else now }

/-- `_enqueue` -/
def Participant.enqueue (cfg : Config) (p : Participant) (m : Msg) : Participant :=
  if cfg.queueCap ≤ p.queue.length then
    { p with queue := p.queue.tail ++ [m], queueDropped := p.queueDropped + 1 }
  else { p with queue := p.queue ++ [m] }

/-- `_addressing` -/
def Participant.addressing (p : Participant) (addressee : Str) : Addressing :=
  if addressee = p.name then .direct else if addressee = everyone then .broadcast else .overheard

/-! ## The hub -/

/-- `Hub`, with the clock's two readings and the wire. -/
structure Hub where
  participants : Dict Str Participant := Dict.empty
  dead : Dict Str Participant := Dict.empty
  round : Nat := 0
  frozen : Bool := false
  muted : Bool := false
  goal : Str := []
  maxRounds : Nat
  lastActivity : Rat
  stallLatched : Bool := false
  sessionDoneAt : Option Rat := none
  lastObserverSay : Option Rat := none
  quorumExpected : List Str := []
  quorumLatched : Bool := false
  blockedNotified : List Str := []
  msgCounter : Nat := 0
  recent : List MsgRec := []
  now : Rat
  wall : Rat
  wire : Wire := {}

namespace Hub

/-- `Hub.__init__`, on the message records of the transcript. -/
def init (env : Env) (records : List MsgRec) (now wall : Rat) : Hub where
  maxRounds := env.config.maxRounds
  lastActivity := now
  msgCounter := (records.map MsgRec.id).foldr max 0
  recent := lastN env.config.recentWindow records
  now := now
  wall := wall

def get? (h : Hub) (n : Str) : Option Participant := h.participants.get? n

def modify (h : Hub) (n : Str) (f : Participant → Participant) : Hub :=
  { h with participants := h.participants.modify n f }

/-- A function applied to every participant. -/
def mapParticipants (h : Hub) (f : Participant → Participant) : Hub :=
  { h with participants := h.participants.map f }

def setWire (h : Hub) (w : Wire) : Hub := { h with wire := w }

/-- `client.connected` -/
def up (h : Hub) (c : ClientId) : Bool := (h.wire.clients c).connected

/-- The participants that are not observers. -/
def agents (h : Hub) : List Participant := h.participants.values.filter (!·.isObserver)

/-- `_roster_detail` -/
def rosterDetail (h : Hub) : Str :=
  let names := join (str ", ") (sortedStrs h.participants.keys)
  if names.isEmpty then str "(empty)" else names

/-- `_touch_activity` -/
def touchActivity (h : Hub) : Hub := { h with lastActivity := h.now, stallLatched := false }

/-- `_targets_agent` -/
def targetsAgent (h : Hub) (addressee : Str) : Bool :=
  (h.get? addressee).any (!·.isObserver)

/-- `_targets_observer` -/
def targetsObserver (h : Hub) (addressee : Str) : Bool :=
  (h.get? addressee).any (·.isObserver)

/-- `_observer_present` -/
def observerPresent (env : Env) (h : Hub) (name : Option Str) : Bool :=
  h.participants.values.any fun q =>
    q.isObserver && h.up q.client && (name.all (q.name = ·)) &&
      h.now - q.lastRx < env.config.presentWithin

/-! ## Sending -/

section
variable (env : Env)

/-- `_send` -/
def send (h : Hub) (p : Participant) (frame : Frame) : Hub :=
  h.setWire (h.wire.send env p.name p.client frame)

/-- `_err` -/
def err (h : Hub) (p : Participant) (code detail : Str) (seq : Option Int)
    (retryAfter : Option Rat) : Hub :=
  h.send env p (.err code detail seq retryAfter)

/-- `_err_raw` -/
def errRaw (h : Hub) (c : ClientId) (code detail : Str) (seq : Option Int) : Hub :=
  h.setWire (h.wire.send env (h.wire.clients c).name c (.err code detail seq none))

/-- `transcript.append(record)` -/
def append (h : Hub) (r : Record) : Hub := h.setWire (h.wire.append h.wall r)

/-- The event to one participant, if it is an observer to be told. -/
def tellEvent (e : HubEvent) (skip : Option Str) (w : Wire) (p : Participant) : Wire :=
  if p.isObserver && skip ≠ some p.name && (w.clients p.client).connected then
    w.send env p.name p.client (.event e)
  else w

/-- `_emit_event` -/
def emitEvent (h : Hub) (e : HubEvent) (skip : Option Str) : Hub :=
  (h.setWire (h.participants.values.foldl (tellEvent env e skip) h.wire)).append (.event e h.wall)

/-- `text.encode()` -/
def encodeText (h : Hub) (s : Str) : Hub := h.setWire (h.wire.effect (.encode s))

/-- `_emit_rejected` -/
def emitRejected (h : Hub) (p : Participant) (code addressee kind text : Str)
    (retryAfter : Option Rat) (priv : Bool) : Hub :=
  if p.isObserver then h
  else
    (h.encodeText text).emitEvent env
      (.rejected p.name code addressee kind (byteLen text) retryAfter priv) none

/-- `_notify` -/
def notify (h : Hub) (title message : Str) : Hub :=
  if env.config.notifications then
    h.setWire ((h.wire.effect (.notify title message)).tick env)
  else h

end

end Hub

end Moot
