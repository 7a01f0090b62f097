import Moot.Hub.State

/-!
# The hub's handlers

Every method of `Hub`, in the order of `core/hub.py`, as a function of the
state.  A participant is named by its key in `participants`; a loop over
`list(self.participants.values())` is a fold over those keys.
-/

namespace Moot
open Py Proto

/-! ## Delivery -/

/-- The note about dropped messages. -/
def Participant.droppedNote (p : Participant) : Msg := Moot.droppedNote p.name p.queueDropped

/-- The queue a flush takes from. -/
def Participant.notedQueue (p : Participant) : List Msg :=
  if p.queueDropped = 0 then p.queue else p.droppedNote :: p.queue

/-- The wakes of a flush. -/
def Participant.wakeSlice (cfg : Config) (p : Participant) : List Msg :=
  p.notedQueue.take cfg.deliverWakeCap

/-- The queue after a flush. -/
def Participant.leftover (cfg : Config) (p : Participant) : List Msg :=
  p.notedQueue.drop cfg.deliverWakeCap

/-- `upto`: how far a flush drains the context. -/
def Participant.flushUpto (cfg : Config) (p : Participant) : Option Nat :=
  if (p.leftover cfg).isEmpty then none else (p.wakeSlice cfg).getLast?.map Msg.id

/-- The messages of a flush. -/
def Participant.flushBatch (cfg : Config) (p : Participant) : List Msg :=
  (p.context.drain (p.flushUpto cfg)).1 ++ p.wakeSlice cfg

/-- The participant after a flush, before the delivery. -/
def Participant.flushed (cfg : Config) (p : Participant) : Participant :=
  { p with
    queue := p.leftover cfg
    queueDropped := 0
    context := (p.context.drain (p.flushUpto cfg)).2 }

namespace Hub

variable (env : Env)

/-- `_deliver`, the frame and its record. -/
def handOut (h : Hub) (p : Participant) (msgs : List Msg) : Hub :=
  (h.send env p (.deliver h.round msgs)).append
    (.deliver p.name h.round (msgs.map Msg.id)
      ((msgs.filter (·.addressing = some .overheard)).map Msg.id) h.wall)

/-- `_deliver` -/
def deliver (h : Hub) (n : Str) (msgs : List Msg) : Hub :=
  match h.get? n with
  | none => h
  | some p =>
    let h := h.handOut env p (sortById msgs)
    if p.isObserver then h
    else (h.modify n fun p => { p with state := .busy, busySince := h.now }).touchActivity

/-- All agents have finished and every agent queue is drained. -/
def allFinished (h : Hub) : Bool :=
  !h.agents.isEmpty && h.agents.all (·.finished) && h.agents.all (·.queue.isEmpty)

/-- The end of a session, announced. -/
def announceDone (h : Hub) : Hub :=
  { h.emitEvent env (.sessionDone h.round) none with sessionDoneAt := some h.wall }.notify env
    (str "moot") (str "session_done — all agents finished")

/-- `_check_session_done` -/
def checkSessionDone (h : Hub) : Hub :=
  if h.allFinished then
    { h.announceDone env with round := 0 }.mapParticipants fun q =>
      if q.isObserver then q else { q with finished := false }
  else h

/-- The freeze at the round limit, announced. -/
def announceLimit (h : Hub) : Hub :=
  ({ h with frozen := true }.emitEvent env (.roundLimit h.round h.maxRounds) none).notify env
    (str "moot") (str "round_limit reached (round " ++ natStr h.round ++ str ") — frozen")

/-- `_check_round_limit` -/
def checkRoundLimit (h : Hub) : Hub :=
  if h.maxRounds ≤ h.round ∧ h.frozen = false then
    if h.participants.values.any (·.isObserver) then h.announceLimit env
    else (h.announceLimit env).append (.freezeWithoutObserver h.wall)
  else h

/-- `_flush_queue` -/
def flushQueue (h : Hub) (n : Str) : Hub :=
  match h.get? n with
  | none => h
  | some p =>
    if p.queue.isEmpty || !h.up p.client then h
    else
      let h := h.modify n (·.flushed env.config)
      let msgs := p.flushBatch env.config
      let h :=
        if (p.wakeSlice env.config).any (·.sender ≠ systemSender) then
          ({ h with round := h.round + 1 }.deliver env n msgs).checkRoundLimit env
        else h.deliver env n msgs
      h.checkSessionDone env

/-- One round of the loop of `_system_message`. -/
def systemNote (text : Str) (h : Hub) (n : Str) : Hub :=
  match h.get? n with
  | none => h
  | some p =>
    if p.isObserver then h
    else
      let id := h.msgCounter + 1
      let msg : Msg :=
        { id := id, sender := systemSender, addressee := p.name, kind := str "note", text := text,
          ts := h.wall, addressing := some .direct }
      let h : Hub := { h with msgCounter := id }
      if p.state = .idle ∧ h.up p.client = true then
        let (lines, context) := p.context.drain (some id)
        (h.modify n fun p => { p with context := context }).deliver env n (lines ++ [msg])
      else h.modify n (·.enqueue env.config msg)

/-- `_system_message` -/
def systemMessage (h : Hub) (text : Str) : Hub :=
  h.participants.keys.foldl (systemNote env text) h

/-! ## Lifecycle -/

/-- The part of `disconnect` that takes `p` off the roster. -/
def leave (h : Hub) (n : Str) (p : Participant) : Hub :=
  { h with
    dead := h.dead.insert n p
    participants := h.participants.erase n
    blockedNotified := h.blockedNotified.filter (· ≠ n) }.touchActivity.emitEvent env (.peerLeft n)
      none

/-- `client.close()` -/
def close (h : Hub) (c : ClientId) : Hub := h.setWire (h.wire.close c)

/-- `disconnect` -/
def disconnect (h : Hub) (c : ClientId) : Hub :=
  let n := (h.wire.clients c).name
  match h.get? n with
  | none => h.close c
  | some p =>
    if p.client = c then ((h.leave env n p).checkSessionDone env).close c else h.close c

/-! ## Hello -/

/-- `_msg_from_record` -/
def msgFromRecord (r : MsgRec) : Msg where
  id := r.id
  sender := r.sender
  addressee := r.addressee
  kind := r.kind
  text := r.text
  ts := r.ts
  priv := r.priv

/-- The part of the recent window that `n` may see. -/
def visible (n : Str) (isObserver : Bool) (recent : List MsgRec) : List MsgRec :=
  recent.filter fun r => isObserver || !r.priv || r.addressee = n

/-- The backlog of a join. -/
def backlog (n : Str) (isObserver : Bool) (recent : List MsgRec) : List Msg :=
  ((lastN env.config.backlogOnJoin (visible n isObserver recent)).filter (·.sender ≠ n)).map
    msgFromRecord

/-- The participant of a fresh registration. -/
def fresh (h : Hub) (f : Hello) (c : ClientId) : Participant where
  name := f.name
  kind := f.kind
  role := f.role.getD []
  caps := f.caps
  client := c
  context :=
    { cap := env.config.contextCap, cap_pos := env.config.contextCap_pos
      bounded := Nat.zero_le _ }
  bucket := TokenBucket.new env.config.rateBurst
    (env.config.rateMessages / env.config.rateWindow) h.now
  dedup := DedupWindow.new env.config.dedupWindow
  lastRx := h.now

/-- The participant of a reclaim. -/
def reclaimed (h : Hub) (f : Hello) (c : ClientId) (p : Participant) : Participant :=
  { p with
    client := c
    kind := f.kind
    role := f.role.getD []
    caps := f.caps
    state := .idle
    lastRx := h.now
    awaitingPong := false
    finished := false
    blockedSince := none
    blockedDetail := none }

/-- The `welcome` of `p`. -/
def welcome (h : Hub) (p : Participant) : Frame :=
  .welcome p.name h.round
    ((h.participants.values.filter (·.name ≠ p.name)).map fun q => ⟨q.name, q.kind, q.role, q.state⟩)
    (natStr env.config.rateMessages ++ str "/" ++ intStr env.config.rateWindow.floor ++ str "s")
    h.maxRounds h.goal

/-- The late-join backlog: context for an agent, a delivery for an observer. -/
def giveBacklog (h : Hub) (n : Str) : Hub :=
  match h.get? n with
  | none => h
  | some p =>
    let lines := backlog env n p.isObserver h.recent
    if p.isObserver then
      if lines.isEmpty then h
      else h.deliver env n (lines.map fun m => m.tag (p.addressing m.addressee))
    else
      h.modify n fun p =>
        { p with context := lines.foldl (fun b m => b.append (m.tag .overheard)) p.context }

/-- The participant of a hello. -/
def admitted (h : Hub) (c : ClientId) (f : Hello) : Participant :=
  match h.dead.get? f.name with
  | some p => reclaimed h f c p
  | none => fresh env h f c

/-- The participant enters the roster. -/
def enroll (h : Hub) (c : ClientId) (n : Str) (p : Participant) : Hub :=
  { h with
    dead := h.dead.erase n
    participants := h.participants.insert n p
    blockedNotified :=
      if h.dead.contains n then h.blockedNotified.filter (· ≠ n) else h.blockedNotified
    wire :=
      { h.wire with clients := Function.update h.wire.clients c { h.wire.clients c with name := n } } }

/-- The `welcome`, the backlog and the event of a join. -/
def greet (h : Hub) (n : Str) (p : Participant) (rejoined : Bool) : Hub :=
  let h := h.send env p (welcome env h p)
  let h := if !rejoined || p.isObserver then h.giveBacklog env n else h
  h.touchActivity.emitEvent env (.peerJoined n p.kind p.role) (some n)

/-- `handle_hello`, once the name is known to be free. -/
def register (h : Hub) (c : ClientId) (f : Hello) : Hub :=
  let rejoined := h.dead.contains f.name
  let p := admitted env h c f
  let h := (h.enroll c f.name p).greet env f.name p rejoined
  if rejoined && !p.queue.isEmpty then h.flushQueue env f.name else h

/-- A registration whose client is gone is reaped at once. -/
def reap (h : Hub) (n : Str) : Hub :=
  match h.get? n with
  | some old => if h.up old.client then h else h.disconnect env old.client
  | none => h

/-- The room a hello declares goes on the record. -/
def declareRoom (h : Hub) (f : Hello) : Hub :=
  match f.room with
  | some room => h.append (.roomDeclared room f.name h.wall)
  | none => h

/-- The answer to a hello under a name that is taken. -/
def turnAway (h : Hub) (c : ClientId) (n : Str) : Hub :=
  let suggestion :=
    suggestName n (fun m => !h.participants.contains m && !h.dead.contains m)
      (h.participants.keys.length + h.dead.keys.length)
  (h.errRaw env c errNameTaken (suggestion.getD []) none).close c

/-- `handle_hello` -/
def handleHello (h : Hub) (c : ClientId) (f : Hello) : Hub :=
  let client := h.wire.clients c
  if client.name ≠ [] then
    h.errRaw env c errMalformed (str "already registered as " ++ reprStr env.isPrintable client.name)
      none
  else
    let h := (h.reap env f.name).declareRoom f
    if h.participants.contains f.name then h.turnAway env c f.name else h.register env c f

/-! ## Say -/

/-- What routing a message does to one participant. -/
structure Routed where
  participant : Participant
  observed : Option (List Msg) := none
  woken : Option (List Msg) := none
  queued : Bool := false

/-- One round of the routing loop of `_route_say`. -/
def routeOne (up : ClientId → Bool) (msg : Msg) (q : Participant) : Routed :=
  let mode := q.addressing msg.addressee
  let tagged := msg.tag mode
  if q.name = msg.sender then { participant := q }
  else if q.isObserver then
    { participant := q, observed := if up q.client then some [tagged] else none }
  else if mode = .overheard then
    { participant := if msg.priv then q else { q with context := q.context.append tagged } }
  else if q.state = .idle ∧ up q.client = true then
    let (lines, context) := q.context.drain (some msg.id)
    { participant := { q with context := context }, woken := some (lines ++ [tagged]) }
  else { participant := q.enqueue env.config tagged, queued := true }

/-- Who gets a batch now, in the order of the roster. -/
def batches (f : Participant → Option (List Msg)) (h : Hub) : List (Str × List Msg) :=
  h.participants.values.filterMap fun q => (f q).map fun batch => (q.name, batch)

def deliverAll (h : Hub) (batches : List (Str × List Msg)) : Hub :=
  batches.foldl (fun h b => h.deliver env b.1 b.2) h

/-- The routing of `_route_say`, up to the answer. -/
def route (h : Hub) (msg : Msg) : Hub × Nat :=
  let routed := routeOne env h.up msg
  let queuedFor := (h.participants.values.filter fun q => (routed q).queued).length
  let woken := batches (fun q => (routed q).woken) h
  let observers := batches (fun q => (routed q).observed) h
  let h := h.mapParticipants fun q => (routed q).participant
  let h := if woken.isEmpty then h else { h with round := h.round + 1 }
  let h := h.deliverAll env observers
  let h := h.deliverAll env woken
  let h := if woken.isEmpty then h else h.checkRoundLimit env
  (h, queuedFor)

/-- Whom an observer's say asks. -/
def asked (h : Hub) (addressee : Str) : List Str :=
  if addressee = everyone then (h.agents.filter fun q => h.up q.client).map (·.name)
  else if h.targetsAgent addressee then [addressee]
  else []

/-- What an accepted say does to the timers. -/
def noteSay (h : Hub) (p : Participant) (addressee : Str) : Hub :=
  let h' := h.modify p.name fun p => { p with lastSay := h.now }
  if p.isObserver then
    let expected := h.asked addressee
    if expected.isEmpty then h'
    else
      { h' with lastObserverSay := some h.now, quorumExpected := expected, quorumLatched := false }
  else { h' with sessionDoneAt := none }

/-- `" ".join(text.split())[:80]` -/
def headline (text : Str) : Str := (join (str " ") (split text)).take 80

/-- The message of a say. -/
def sayMsg (h : Hub) (p : Participant) (f : Say) : Msg where
  id := h.msgCounter + 1
  sender := p.name
  addressee := f.addressee
  kind := f.kind
  text := f.text
  ts := h.wall
  seq := some f.seq
  priv := f.priv

/-- The record of a message. -/
def recordOf (m : Msg) : MsgRec := ⟨m.id, m.sender, m.addressee, m.kind, m.text, m.ts, m.priv⟩

/-- The id and the timers of an accepted say. -/
def countSay (h : Hub) (p : Participant) (f : Say) : Hub :=
  { h with msgCounter := h.msgCounter + 1 }.noteSay p f.addressee

/-- The bookkeeping of `_route_say`: the id, the timers, the transcript, the recent window. -/
def remember (h : Hub) (p : Participant) (f : Say) : Hub :=
  let r := recordOf (h.sayMsg p f)
  let h := h.countSay p f
  { h.append (.msg h.round r) with recent := lastN env.config.recentWindow (h.recent ++ [r]) }

/-- No observer is there to read the say. -/
def unattended (h : Hub) (p : Participant) (f : Say) : Bool :=
  !p.isObserver &&
    ((h.targetsObserver f.addressee && !h.observerPresent env (some f.addressee)) ||
      (f.addressee = everyone && f.kind = str "question" && !h.observerPresent env none))

/-- The answer of `_route_say`. -/
def answer (h : Hub) (p : Participant) (f : Say) (id queuedFor : Nat) : Hub :=
  let h := h.send env p (.said id queuedFor f.seq)
  let h :=
    if h.unattended env p f then
      h.notify env (str "moot")
        (p.name ++ str " → " ++ f.addressee ++ str " · " ++ f.kind ++ str ": " ++ headline f.text)
    else h
  h.touchActivity

/-- `_route_say`, once the say has passed the checks. -/
def accept (h : Hub) (p : Participant) (f : Say) : Hub :=
  let (routed, queuedFor) := (h.remember env p f).route env (h.sayMsg p f)
  routed.answer env p f (h.msgCounter + 1) queuedFor

/-- A refusal: the `err` and the event. -/
def refuse (h : Hub) (p : Participant) (f : Say) (code detail : Str) (retryAfter : Option Rat) :
    Hub :=
  (h.err env p code detail (some f.seq) retryAfter).emitRejected env p code f.addressee f.kind f.text
    retryAfter f.priv

/-- `_route_say` -/
def routeSay (h : Hub) (n : Str) (f : Say) : Bool × Hub :=
  match h.get? n with
  | none => (false, h)
  | some p =>
    if p.isObserver = false ∧ h.frozen = true then
      (false, h.refuse env p f errFrozen (str "hub is frozen — waiting for resume") none)
    else if p.isObserver = false ∧ h.muted = true ∧
        (f.addressee = everyone ∨ h.targetsAgent f.addressee = true) then
      (false, h.refuse env p f errMuted
        (str "mute mode active (broadcast and agent→agent blocked; direct to observers allowed)")
        none)
    else if f.addressee ≠ everyone ∧ h.participants.contains f.addressee = false then
      (false, h.refuse env p f errUnknownRecipient
        (str "unknown recipient " ++ reprStr env.isPrintable f.addressee ++ str " — roster: " ++
          h.rosterDetail) none)
    else if p.isObserver then (true, h.accept env p f)
    else
      let (allowed, bucket) := p.bucket.take h.now
      if allowed = false then
        let (retry, bucket) := bucket.retryAfter h.now
        (false, (h.modify n fun p => { p with bucket := bucket }).refuse env p f errRateLimited
          (str "rate limit") (some retry))
      else
        let key := dedupText f.addressee f.text f.priv
        let (seen, dedup) := p.dedup.see h.now (env.sha256 key)
        let h := (h.encodeText key).modify n fun p => { p with bucket := bucket, dedup := dedup }
        if seen then
          (false, h.refuse env p f errDuplicate (str "identical message within dedup window") none)
        else (true, h.accept env p f)

/-- `_mark_done` -/
def markDone (h : Hub) (n : Str) : Hub :=
  (h.modify n fun p => { p with finished := true }).checkSessionDone env

/-- The idle inference after a say frame. -/
def inferIdle (h : Hub) (n : Str) : Hub :=
  match h.get? n with
  | none => h
  | some p =>
    if p.hasIdleEvents = false ∧ p.state ≠ .idle then (h.modify n (·.setIdle)).flushQueue env n
    else h

/-- `handle_say`, after the routing. -/
def settle (h : Hub) (n : Str) (f : Say) (accepted : Bool) : Hub :=
  let h := h.inferIdle env n
  match h.get? n with
  | none => h
  | some p =>
    if accepted = true ∧ p.isObserver = false then
      if f.kind = str "done" then h.markDone env n
      else h.modify n fun p => { p with finished := false }
    else h

/-- `handle_say` -/
def handleSay (h : Hub) (n : Str) (f : Say) : Hub :=
  (h.routeSay env n f).2.settle env n f (h.routeSay env n f).1

/-! ## State, commands, roster -/

/-- `handle_state` -/
def handleState (h : Hub) (n : Str) (f : Report) : Hub :=
  match h.get? n with
  | none => h
  | some p =>
    let h := h.modify n (·.setState h.now f.state)
    if f.state = .blocked then
      if p.state ≠ .blocked ∨ p.blockedDetail ≠ f.detail then
        { h.modify n fun p => { p with blockedSince := some h.now, blockedDetail := f.detail } with
          blockedNotified := h.blockedNotified.filter (· ≠ n) }
      else h
    else
      let h := h.modify n fun p => { p with blockedSince := none, blockedDetail := none }
      if f.state = .idle then h.flushQueue env n else h

/-- The line that tells an agent the goal. -/
def goalMsg (h : Hub) (text : Str) : Msg where
  id := 0
  sender := systemSender
  addressee := everyone
  kind := str "note"
  text := str "moot goal: " ++ text
  ts := h.wall

/-- `_buffer_goal` -/
def bufferGoal (h : Hub) (text : Str) : Hub :=
  h.mapParticipants fun q =>
    if q.isObserver then q
    else { q with context := q.context.append ((h.goalMsg text).tag .overheard) }

def writeGoal (h : Hub) (text : Str) : Hub := h.setWire (h.wire.effect (.writeGoal text))

def muteText : Str :=
  str "moot: mute mode active — say to other agents is rejected (err: muted)"

def unmuteText : Str := str "moot: mute mode lifted — agent→agent allowed again"

/-- `handle_cmd`, the effect of the command. -/
def runCommand (h : Hub) : Command → Hub
  | .freeze => { h with frozen := true }.emitEvent env (.frozen h.round) none
  | .resume n _ =>
    let limit :=
      match n with
      | some k => max h.maxRounds h.round + k
      | none => if h.maxRounds ≤ h.round then h.round + env.config.maxRounds else h.maxRounds
    { h with maxRounds := limit, frozen := false }.emitEvent env (.resumed h.round limit) none
  | .reset =>
    { h with round := 0, frozen := false }.emitEvent env (.reset h.round h.maxRounds) none
  | .mute =>
    ({ h with muted := true }.emitEvent env .muted none).systemMessage env muteText
  | .unmute =>
    ({ h with muted := false }.emitEvent env .unmuted none).systemMessage env unmuteText
  | .goal text _ =>
    (({ h with goal := text }.emitEvent env (.goalSet text) none).bufferGoal text).writeGoal text

/-- `handle_cmd` -/
def handleCmd (h : Hub) (n : Str) (c : Command) (seq : Option Int) : Hub :=
  match h.get? n with
  | none => h
  | some p =>
    if p.isObserver = false then h.err env p errForbidden (str "cmd is observer-only") seq none
    else ((h.runCommand env c).touchActivity).send env p (.ok seq)

/-- `_busy_for` -/
def busyFor (h : Hub) (q : Participant) : Rat :=
  if q.state = .idle then 0 else roundTo 1 (max 0 (h.now - q.busySince))

/-- One line of the roster. -/
def rosterPeer (h : Hub) (q : Participant) : RosterPeer where
  name := q.name
  kind := q.kind
  role := q.role
  state := q.state
  idleFor := roundTo 1 (max 0 (h.now - q.lastRx))
  busyFor := h.busyFor q
  finished := q.finished
  queued := q.queue.length
  queuedFrom := sortedStrs (q.queue.map Msg.sender).dedup
  dropped := q.queueDropped
  context := q.context.items.length
  blockedDetail := q.blockedDetail

/-- `handle_roster` -/
def handleRoster (h : Hub) (n : Str) (seq : Option Int) : Hub :=
  match h.get? n with
  | none => h
  | some p =>
    h.send env p (.roster h.round h.maxRounds h.frozen h.muted seq h.goal
      (h.participants.values.map h.rosterPeer))

/-! ## Watchdog -/

def dash : Str := str "—"

def orDash (s : Str) : Str := if s.isEmpty then dash else s

/-- The agents in the order of their names. -/
def sortedAgents (h : Hub) : List Participant :=
  h.agents.insertionSort fun a b => strLe a.name b.name = true

/-- `_stall_detail` -/
def stallDetail (h : Hub) : Str :=
  let unread := join (str ", ")
    ((h.sortedAgents.filter (·.context.items ≠ [])).map fun q =>
      q.name ++ str " " ++ natStr q.context.items.length)
  let head := str "all agents idle, nothing queued — unread context: " ++ orDash unread
  match h.sessionDoneAt with
  | some t => head ++ str "; session done at " ++ env.timeOfDay t
  | none =>
    let done := join (str ", ") ((h.sortedAgents.filter (·.finished)).map (·.name))
    let notDone := join (str ", ") ((h.sortedAgents.filter (!·.finished)).map (·.name))
    head ++ str "; done: " ++ orDash done ++ str "; not done: " ++ orDash notDone

/-- The ping of a silent participant. -/
def pingSilent (h : Hub) (n : Str) (p : Participant) : Hub :=
  if env.config.deadAfter < h.now - p.lastRx ∧ p.awaitingPong = false then
    (h.modify n fun p =>
      { p with awaitingPong := true, pongDeadline := h.now + env.config.pongTimeout }).send env p .ping
  else h

/-- The assume-idle timer. -/
def assumeIdle (h : Hub) (n : Str) (p : Participant) : Hub :=
  if p.hasIdleEvents = false ∧ p.state ≠ .idle ∧
      env.config.assumeIdleAfter < h.now - p.busySince then
    ((h.modify n (·.setIdle)).emitEvent env
      (.stall (str "no sign of life from " ++ p.name ++ str ", assumed idle")) none).flushQueue env n
  else h

/-- The blocked notification. -/
def notifyBlocked (h : Hub) (n : Str) : Hub :=
  match h.get? n with
  | none => h
  | some p =>
    if p.state = .blocked ∧ (p.blockedSince.any fun t => env.config.blockedAfter < h.now - t) = true ∧
        n ∉ h.blockedNotified then
      let detail := p.blockedDetail.getD []
      let h := { h with blockedNotified := h.blockedNotified ++ [n] }
      (h.emitEvent env (.blocked n detail) none).notify env (str "moot")
        (n ++ str " blocked: " ++ detail)
    else h

/-- One round of the loop of `watchdog_tick`. -/
def tickOne (h : Hub) (n : Str) : Hub :=
  match h.get? n with
  | none => h
  | some p =>
    if h.up p.client = false then h.disconnect env p.client
    else if p.awaitingPong = true ∧ p.pongDeadline < h.now then h.disconnect env p.client
    else
      let h := h.pingSilent env n p
      if p.isObserver then h else (h.assumeIdle env n p).notifyBlocked env n

/-- All agents are idle with nothing queued. -/
def atRest (h : Hub) : Bool :=
  !h.agents.isEmpty && h.agents.all (·.state = .idle) && h.agents.all (·.queue.isEmpty)

/-- The agents the last observer say asked. -/
def expectedAgents (h : Hub) : List Participant :=
  h.agents.filter fun q => h.quorumExpected.contains q.name

/-- The quorum check. -/
def checkQuorum (h : Hub) : Hub :=
  match h.lastObserverSay with
  | none => h
  | some askedAt =>
    if h.atRest = true ∧ h.quorumLatched = false ∧ h.expectedAgents ≠ [] ∧
        (h.expectedAgents.all fun q => askedAt < q.lastSay) = true then
      let names := join (str ", ") (sortedStrs (h.expectedAgents.map (·.name)))
      let h := { h with quorumLatched := true }
      let h := h.emitEvent env (.quorum (str "every addressed agent has answered — " ++ names)) none
      if h.observerPresent env none then h
      else h.notify env (str "moot") (str "quorum — " ++ names ++ str " answered")
    else h

/-- The stall check. -/
def checkStall (h : Hub) : Hub :=
  if h.atRest = true ∧ env.config.stallAfter < h.now - h.lastActivity ∧ h.stallLatched = false then
    let h := { h with stallLatched := true }
    (h.emitEvent env (.stall (h.stallDetail env)) none).notify env (str "moot")
      (str "stall — all agents idle")
  else h

/-- The registrations whose time to live has passed are dropped. -/
def pruneDead (h : Hub) : Hub :=
  { h with dead := h.dead.filter fun p => h.now - p.lastRx ≤ env.config.deadTtl }

/-- `watchdog_tick` -/
def watchdogTick (h : Hub) : Hub :=
  let h := h.pruneDead env
  let h := h.participants.keys.foldl (tickOne env) h
  (h.checkQuorum env).checkStall env

/-! ## Dispatch -/

/-- A frame is a life sign. -/
def lifeSign (h : Hub) (n : Str) : Hub :=
  h.modify n fun p => { p with lastRx := h.now, awaitingPong := false }

/-- `handle`, on a frame that is not a `hello`. -/
def dispatch (h : Hub) (c : ClientId) (f : Inbound) : Hub :=
  let n := (h.wire.clients c).name
  match h.get? n with
  | none => h.errRaw env c errMalformed (str "hello expected first") none
  | some _ =>
    let h := h.lifeSign n
    match f with
    | .hello _ => h
    | .say f => h.handleSay env n f
    | .state f => h.handleState env n f
    | .cmd cmd seq => h.handleCmd env n cmd seq
    | .roster seq => h.handleRoster env n seq
    | .bye => h.disconnect env c
    | .pong => h

/-- `handle`, after validation. -/
def handleInbound (h : Hub) (c : ClientId) : Inbound → Hub
  | .hello f => h.handleHello env c f
  | f => h.dispatch env c f

variable {F : Type} [PyJson.PyFloat F]

/-- `handle` -/
def handle (h : Hub) (c : ClientId) (frame : Obj F) : Hub :=
  match validate env.isPrintable frame with
  | .error e => h.errRaw env c e.code e.detail e.seq
  | .ok f => h.handleInbound env c f

end Hub

/-! ## Runs -/

/-- What happens to a hub: a frame, a connection that ends, a tick of the
watchdog, a new reading of the clock, a transport that fails. -/
inductive Op (F : Type)
  | handle (c : ClientId) (frame : Obj F)
  | disconnect (c : ClientId)
  | watchdogTick
  | clock (now wall : Rat)
  | fail (c : ClientId)

/-- One operation. -/
def Hub.step {F : Type} [PyJson.PyFloat F] (env : Env) (h : Hub) : Op F → Hub
  | .handle c frame => h.handle env c frame
  | .disconnect c => h.disconnect env c
  | .watchdogTick => h.watchdogTick env
  | .clock now wall => { h with now := now, wall := wall }
  | .fail c =>
    h.setWire
      { h.wire with
        clients := Function.update h.wire.clients c { h.wire.clients c with connected := false } }

/-! ## Fixed values -/

/-- An environment in which no client fails, for runs on fixed values. -/
def Env.still : Env where
  config := {}
  drops _ _ := false
  isPrintable _ := true
  sha256 s := s
  timeOfDay _ := []

/-- What `"\ud800"` reads as: a string that has no UTF-8. -/
def loneSurrogate : Str := [.surrogate 0]

/-- A `hello` as it comes off the wire. -/
def helloFrame (name kind : String) (caps : List String) : Obj PyJson.Token :=
  [(str "t", .str (str "hello")), (str "proto", .int 1), (str "name", .str (str name)),
    (str "kind", .str (str kind)), (str "caps", .arr (caps.map fun c => .str (str c)))]

/-- A `state` as it comes off the wire. -/
def stateFrame (state : String) : Obj PyJson.Token :=
  [(str "t", .str (str "state")), (str "state", .str (str state))]

/-- A `say` as it comes off the wire. -/
def sayFrame (addressee kind text : String) (priv : Bool) : Obj PyJson.Token :=
  [(str "t", .str (str "say")), (str "to", .str (str addressee)), (str "kind", .str (str kind)),
    (str "text", .str (str text)), (str "seq", .int 1), (str "private", .bool priv)]

end Moot
