import Moot.Lib.JsonText
import Moot.Proto

/-!
# Outbound frames and transcript records

The frames the hub sends and the records it appends, field by field as
`hub.py` builds them, and their JSON.  Times are rationals; `num` writes one as
a JSON number.
-/

namespace Moot
open Py PyJson Proto

/-- A `peers` entry of a `welcome`. -/
structure Peer where
  name : Str
  kind : Str
  role : Str
  state : State
  deriving DecidableEq

/-- A `peers` entry of a `roster`. -/
structure RosterPeer extends Peer where
  idleFor : Rat
  busyFor : Rat
  finished : Bool
  queued : Nat
  queuedFrom : List Str
  dropped : Nat
  context : Nat
  blockedDetail : Option Str
  deriving DecidableEq

/-- An event with its extra fields. -/
inductive HubEvent
  | rejected (name code addressee kind : Str) (bytes : Nat) (retryAfter : Option Rat) (priv : Bool)
  | sessionDone (round : Nat)
  | roundLimit (round maxRounds : Nat)
  | frozen (round : Nat)
  | resumed (round maxRounds : Nat)
  | reset (fromRound maxRounds : Nat)
  | muted
  | unmuted
  | goalSet (text : Str)
  | peerJoined (name kind role : Str)
  | peerLeft (name : Str)
  | stall (detail : Str)
  | blocked (name detail : Str)
  | quorum (detail : Str)
  deriving DecidableEq

/-- A frame the hub sends.  `said` is the `ok` that answers a say. -/
inductive Frame
  | welcome (name : Str) (round : Nat) (peers : List Peer) (rate : Str) (maxRounds : Nat)
      (goal : Str)
  | deliver (round : Nat) (msgs : List Msg)
  | said (id queued : Nat) (seq : Int)
  | ok (seq : Option Int)
  | err (code detail : Str) (seq : Option Int) (retryAfter : Option Rat)
  | event (e : HubEvent)
  | ping
  | roster (round maxRounds : Nat) (frozen muted : Bool) (seq : Option Int) (goal : Str)
      (peers : List RosterPeer)
  deriving DecidableEq

/-- What the transcript and the recent window keep of an accepted say. -/
structure MsgRec where
  id : Nat
  sender : Str
  addressee : Str
  kind : Str
  text : Str
  ts : Rat
  priv : Bool
  deriving DecidableEq

/-- A transcript record. -/
inductive Record
  | msg (round : Nat) (r : MsgRec)
  | deliver (addressee : Str) (round : Nat) (msgIds overheard : List Nat) (ts : Rat)
  | event (e : HubEvent) (ts : Rat)
  | roomDeclared (room name : Str) (ts : Rat)
  | freezeWithoutObserver (ts : Rat)
  deriving DecidableEq

/-! ## JSON -/

section Json
variable {F : Type} (num : Rat → Json F)

def jstr (s : Str) : Json F := .str s
def jnat (n : Nat) : Json F := .int n
def jopt {α : Type} (f : α → Json F) : Option α → Json F
  | none => .null
  | some a => f a

/-- A field that is there only if `b`. -/
def fieldIf (b : Bool) (key : String) (v : Json F) : Obj F := if b then [(str key, v)] else []

/-- `Msg.to_wire` -/
def Msg.toWire (m : Msg) : Json F :=
  .obj ([(str "id", jnat m.id), (str "from", jstr m.sender), (str "to", jstr m.addressee),
    (str "addressing", jopt (fun a => jstr a.text) m.addressing), (str "kind", jstr m.kind),
    (str "text", jstr m.text), (str "ts", num m.ts), (str "seq", jopt Json.int m.seq)] ++
    fieldIf m.priv "private" (.bool true))

def Peer.fields (p : Peer) : Obj F :=
  [(str "name", jstr p.name), (str "kind", jstr p.kind), (str "role", jstr p.role),
    (str "state", jstr p.state.text)]

def RosterPeer.fields (p : RosterPeer) : Obj F :=
  p.toPeer.fields ++
  [(str "idle_for", num p.idleFor), (str "busy_for", num p.busyFor),
    (str "finished", .bool p.finished), (str "queued", jnat p.queued),
    (str "queued_from", .arr (p.queuedFrom.map jstr)), (str "dropped", jnat p.dropped),
    (str "context", jnat p.context), (str "blocked_detail", jopt jstr p.blockedDetail)]

def HubEvent.name : HubEvent → Str
  | .rejected .. => str "rejected"
  | .sessionDone _ => str "session_done"
  | .roundLimit .. => str "round_limit"
  | .frozen _ => str "frozen"
  | .resumed .. => str "resumed"
  | .reset .. => str "reset"
  | .muted => str "muted"
  | .unmuted => str "unmuted"
  | .goalSet _ => str "goal_set"
  | .peerJoined .. => str "peer_joined"
  | .peerLeft _ => str "peer_left"
  | .stall _ => str "stall"
  | .blocked .. => str "blocked"
  | .quorum _ => str "quorum"

/-- The extra fields of an event. -/
def HubEvent.extra : HubEvent → Obj F
  | .rejected name code addressee kind bytes retryAfter priv =>
    [(str "name", jstr name), (str "code", jstr code), (str "to", jstr addressee),
      (str "kind", jstr kind), (str "bytes", jnat bytes)] ++
      (match retryAfter with
        | none => []
        | some r => [(str "retry_after", num (roundTo 3 r))]) ++
      fieldIf priv "private" (.bool true)
  | .sessionDone round => [(str "round", jnat round)]
  | .roundLimit round maxRounds => [(str "round", jnat round), (str "max_rounds", jnat maxRounds)]
  | .frozen round => [(str "round", jnat round)]
  | .resumed round maxRounds => [(str "round", jnat round), (str "max_rounds", jnat maxRounds)]
  | .reset fromRound maxRounds =>
    [(str "round", jnat 0), (str "from_round", jnat fromRound), (str "max_rounds", jnat maxRounds)]
  | .muted | .unmuted => []
  | .goalSet text => [(str "text", jstr text)]
  | .peerJoined name kind role =>
    [(str "name", jstr name), (str "kind", jstr kind), (str "role", jstr role)]
  | .peerLeft name => [(str "name", jstr name)]
  | .stall detail => [(str "detail", jstr detail)]
  | .blocked name detail => [(str "name", jstr name), (str "detail", jstr detail)]
  | .quorum detail => [(str "detail", jstr detail)]

def Frame.toJson : Frame → Json F
  | .welcome name round peers rate maxRounds goal =>
    .obj ([(str "t", jstr (str "welcome")), (str "name", jstr name), (str "round", jnat round),
      (str "peers", .arr (peers.map fun p => .obj p.fields)),
      (str "limits", .obj [(str "rate", jstr rate), (str "max_rounds", jnat maxRounds)])] ++
      fieldIf (!goal.isEmpty) "goal" (jstr goal))
  | .deliver round msgs =>
    .obj [(str "t", jstr (str "deliver")), (str "round", jnat round),
      (str "msgs", .arr (msgs.map (Msg.toWire num)))]
  | .said id queued seq =>
    .obj [(str "t", jstr (str "ok")), (str "id", jnat id), (str "queued", jnat queued),
      (str "seq", .int seq)]
  | .ok seq => .obj [(str "t", jstr (str "ok")), (str "seq", jopt Json.int seq)]
  | .err code detail seq retryAfter =>
    .obj ([(str "t", jstr (str "err")), (str "code", jstr code), (str "detail", jstr detail),
      (str "seq", jopt Json.int seq)] ++
      (match retryAfter with
        | none => []
        | some r => [(str "retry_after", num (roundTo 3 r))]))
  | .event e =>
    .obj ([(str "t", jstr (str "event")), (str "event", jstr e.name)] ++ e.extra num)
  | .ping => .obj [(str "t", jstr (str "ping"))]
  | .roster round maxRounds frozen muted seq goal peers =>
    .obj ([(str "t", jstr (str "roster")), (str "round", jnat round),
      (str "max_rounds", jnat maxRounds), (str "frozen", .bool frozen), (str "muted", .bool muted),
      (str "seq", jopt Json.int seq)] ++
      fieldIf (!goal.isEmpty) "goal" (jstr goal) ++
      [(str "peers", .arr (peers.map fun p => .obj (p.fields num)))])

def Record.toJson : Record → Json F
  | .msg round r =>
    .obj ([(str "type", jstr (str "msg")), (str "id", jnat r.id), (str "round", jnat round),
      (str "from", jstr r.sender), (str "to", jstr r.addressee), (str "kind", jstr r.kind),
      (str "text", jstr r.text), (str "ts", num r.ts)] ++ fieldIf r.priv "private" (.bool true))
  | .deliver addressee round msgIds overheard ts =>
    .obj [(str "type", jstr (str "deliver")), (str "to", jstr addressee), (str "round", jnat round),
      (str "msg_ids", .arr (msgIds.map jnat)), (str "overheard", .arr (overheard.map jnat)),
      (str "ts", num ts)]
  | .event e ts =>
    .obj ([(str "type", jstr (str "event")), (str "event", jstr e.name), (str "ts", num ts)] ++
      e.extra num)
  | .roomDeclared room name ts =>
    .obj [(str "type", jstr (str "event")), (str "event", jstr (str "room_declared")),
      (str "room", jstr room), (str "name", jstr name), (str "ts", num ts)]
  | .freezeWithoutObserver ts =>
    .obj [(str "type", jstr (str "event")), (str "event", jstr (str "freeze_without_observer")),
      (str "ts", num ts)]

variable [PyFloat F]

/-- `proto.encode` -/
def encode (frame : Frame) : Option ByteArray :=
  encode? (dumps false (frame.toJson num) ++ str "\n")

end Json

end Moot
