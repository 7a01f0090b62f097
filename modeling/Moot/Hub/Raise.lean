import Moot.Lib.Raise
import Moot.Strings
import Moot.Hub.Handlers

/-!
# Exceptions

`client.send` encodes a frame for a client that is connected, `transcript.append`
encodes a record, and a string with a lone surrogate does not encode.  The
`UnicodeEncodeError` leaves the operation at that point, and what the operation has
written by then stays.  Here are the handlers with that way out, again in the order of
`core/hub.py`; `Hub.attempt` is an operation as the code runs it.

Files can be written, numbers are within what `str` converts, and the notifier returns
(`notify.py`: "best-effort, never hub-fatal").
-/

namespace Moot
open Py Proto Raise

/-! ## The handlers -/

/-- The exception of `encode`. -/
structure UnicodeEncodeError

/-- A method of the hub: it returns, or it raises and what it has written stays. -/
abbrev HubM := EStateM UnicodeEncodeError Hub

namespace HubM

variable (env : Env)

/-- `client.send(frame)` -/
def post (n : Str) (c : ClientId) (frame : Frame) : HubM Unit := do
  let h ← get
  if h.up c = true ∧ ¬AllClean frame.strings then throw ⟨⟩
  else set (h.setWire (h.wire.send env n c frame))

/-- `_send` -/
def send (p : Participant) (frame : Frame) : HubM Unit := post env p.name p.client frame

/-- `_err` -/
def err (p : Participant) (code detail : Str) (seq : Option Int) (retryAfter : Option Rat) :
    HubM Unit := send env p (.err code detail seq retryAfter)

/-- `_err_raw` -/
def errRaw (c : ClientId) (code detail : Str) (seq : Option Int) : HubM Unit := do
  let h ← get
  post env (h.wire.clients c).name c (.err code detail seq none)

/-- `transcript.append(record)` -/
def append (r : Record) : HubM Unit := do
  if AllClean r.strings then modify (·.append r)
  else throw ⟨⟩

/-- One round of the loop of `_emit_event`. -/
def tellEvent (e : HubEvent) (skip : Option Str) (p : Participant) : HubM Unit := do
  let h ← get
  doIf ((p.isObserver && skip ≠ some p.name && h.up p.client) = true) (send env p (.event e))

/-- `_emit_event` -/
def emitEvent (e : HubEvent) (skip : Option Str) : HubM Unit := do
  let h ← get
  h.participants.values.forM (tellEvent env e skip)
  append (.event e h.wall)

/-- `text.encode()` -/
def encodeText (s : Str) : HubM Unit := do
  if Clean s then modify (·.encodeText s)
  else throw ⟨⟩

/-- `_emit_rejected` -/
def emitRejected (p : Participant) (code addressee kind text : Str) (retryAfter : Option Rat)
    (priv : Bool) : HubM Unit :=
  doIf (p.isObserver = false) do
    encodeText text
    emitEvent env (.rejected p.name code addressee kind (byteLen text) retryAfter priv) none

/-- `_notify` -/
def notify (title message : Str) : HubM Unit := modify (·.notify env title message)

/-! ### Delivery -/

/-- `_deliver`, the frame and its record. -/
def handOut (p : Participant) (msgs : List Msg) : HubM Unit := do
  let h ← get
  send env p (.deliver h.round msgs)
  append (.deliver p.name h.round (msgs.map Msg.id)
    ((msgs.filter (·.addressing = some .overheard)).map Msg.id) h.wall)

/-- `_deliver` -/
def deliver (n : Str) (msgs : List Msg) : HubM Unit := do
  let h ← get
  match h.get? n with
  | none => pure ()
  | some p =>
    handOut env p (sortById msgs)
    doIf (p.isObserver = false)
      (modify fun h => (h.modify n fun p => { p with state := .busy, busySince := h.now }).touchActivity)

/-- The end of a session, announced. -/
def announceDone : HubM Unit := do
  let h ← get
  emitEvent env (.sessionDone h.round) none
  modify fun k => { k with sessionDoneAt := some h.wall }
  notify env (str "moot") (str "session_done — all agents finished")

/-- `_check_session_done` -/
def checkSessionDone : HubM Unit := do
  let h ← get
  doIf (h.allFinished = true) do
    announceDone env
    modify fun h => { h with round := 0 }.mapParticipants fun q =>
      if q.isObserver then q else { q with finished := false }

/-- The freeze at the round limit, announced. -/
def announceLimit : HubM Unit := do
  let h ← get
  modify fun h => { h with frozen := true }
  emitEvent env (.roundLimit h.round h.maxRounds) none
  notify env (str "moot") (str "round_limit reached (round " ++ natStr h.round ++ str ") — frozen")

/-- `_check_round_limit` -/
def checkRoundLimit : HubM Unit := do
  let h ← get
  doIf (h.maxRounds ≤ h.round ∧ h.frozen = false) do
    announceLimit env
    doIf (h.participants.values.any (·.isObserver) = false) (append (.freezeWithoutObserver h.wall))

/-- The delivery of `_flush_queue`. -/
def wake (n : Str) (p : Participant) : HubM Unit :=
  if (p.wakeSlice env.config).any (·.sender ≠ systemSender) then do
    modify fun h => { h with round := h.round + 1 }
    deliver env n (p.flushBatch env.config)
    checkRoundLimit env
  else deliver env n (p.flushBatch env.config)

/-- `_flush_queue` -/
def flushQueue (n : Str) : HubM Unit := do
  let h ← get
  match h.get? n with
  | none => pure ()
  | some p =>
    doIf ((p.queue.isEmpty || !h.up p.client) = false) do
      modify (·.modify n (·.flushed env.config))
      wake env n p
      checkSessionDone env

/-- One round of the loop of `_system_message`. -/
def systemNote (text : Str) (n : Str) : HubM Unit := do
  let h ← get
  match h.get? n with
  | none => pure ()
  | some p =>
    doIf (p.isObserver = false) do
      let id := h.msgCounter + 1
      let msg : Msg :=
        { id := id, sender := systemSender, addressee := p.name, kind := str "note", text := text,
          ts := h.wall, addressing := some .direct }
      modify fun h => { h with msgCounter := id }
      if p.state = .idle ∧ h.up p.client = true then do
        let (lines, context) := p.context.drain (some id)
        modify (·.modify n fun p => { p with context := context })
        deliver env n (lines ++ [msg])
      else modify (·.modify n (·.enqueue env.config msg))

/-- `_system_message` -/
def systemMessage (text : Str) : HubM Unit := do
  let h ← get
  h.participants.keys.forM (systemNote env text)

/-! ### Lifecycle -/

/-- The part of `disconnect` that takes `p` off the roster. -/
def leave (n : Str) (p : Participant) : HubM Unit := do
  modify fun h =>
    { h with
      dead := h.dead.insert n p
      participants := h.participants.erase n
      blockedNotified := h.blockedNotified.filter (· ≠ n) }.touchActivity
  emitEvent env (.peerLeft n) none

/-- `client.close()` -/
def close (c : ClientId) : HubM Unit := modify (·.close c)

/-- `disconnect` -/
def disconnect (c : ClientId) : HubM Unit := do
  let h ← get
  let n := (h.wire.clients c).name
  match h.get? n with
  | none => close c
  | some p =>
    if p.client = c then do
      leave env n p
      checkSessionDone env
      close c
    else close c

/-! ### Hello -/

/-- The late-join backlog: context for an agent, a delivery for an observer. -/
def giveBacklog (n : Str) : HubM Unit := do
  let h ← get
  match h.get? n with
  | none => pure ()
  | some p =>
    let lines := Hub.backlog env n p.isObserver h.recent
    if p.isObserver then
      doIf (lines.isEmpty = false)
        (deliver env n (lines.map fun m => m.tag (p.addressing m.addressee)))
    else
      modify (·.modify n fun p =>
        { p with context := lines.foldl (fun b m => b.append (m.tag .overheard)) p.context })

/-- The `welcome`, the backlog and the event of a join. -/
def greet (n : Str) (p : Participant) (rejoined : Bool) : HubM Unit := do
  let h ← get
  send env p (Hub.welcome env h p)
  doIf ((!rejoined || p.isObserver) = true) (giveBacklog env n)
  modify (·.touchActivity)
  emitEvent env (.peerJoined n p.kind p.role) (some n)

/-- `handle_hello`, once the name is known to be free. -/
def register (c : ClientId) (f : Hello) : HubM Unit := do
  let h ← get
  let rejoined := h.dead.contains f.name
  let p := Hub.admitted env h c f
  modify (·.enroll c f.name p)
  greet env f.name p rejoined
  doIf ((rejoined && !p.queue.isEmpty) = true) (flushQueue env f.name)

/-- A registration whose client is gone is reaped at once. -/
def reap (n : Str) : HubM Unit := do
  let h ← get
  match h.get? n with
  | some old => doIf (h.up old.client = false) (disconnect env old.client)
  | none => pure ()

/-- The room a hello declares goes on the record. -/
def declareRoom (f : Hello) : HubM Unit := do
  let h ← get
  match f.room with
  | some room => append (.roomDeclared room f.name h.wall)
  | none => pure ()

/-- The answer to a hello under a name that is taken. -/
def turnAway (c : ClientId) (n : Str) : HubM Unit := do
  let h ← get
  let suggestion :=
    suggestName n (fun m => !h.participants.contains m && !h.dead.contains m)
      (h.participants.keys.length + h.dead.keys.length)
  errRaw env c errNameTaken (suggestion.getD []) none
  close c

/-- `handle_hello`, behind the reaping and the room. -/
def seat (c : ClientId) (f : Hello) : HubM Unit := do
  let h ← get
  if h.participants.contains f.name then turnAway env c f.name else register env c f

/-- `handle_hello` -/
def handleHello (c : ClientId) (f : Hello) : HubM Unit := do
  let h ← get
  let client := h.wire.clients c
  if client.name ≠ [] then
    errRaw env c errMalformed (str "already registered as " ++ reprStr env.isPrintable client.name)
      none
  else do
    reap env f.name
    declareRoom f
    seat env c f

/-! ### Say -/

def deliverAll (batches : List (Str × List Msg)) : HubM Unit :=
  batches.forM fun b => deliver env b.1 b.2

/-- The routing of `_route_say`, up to the answer. -/
def route (msg : Msg) : HubM Nat := do
  let h ← get
  let routed := Hub.routeOne env h.up msg
  let queuedFor := (h.participants.values.filter fun q => (routed q).queued).length
  let woken := Hub.batches (fun q => (routed q).woken) h
  let observers := Hub.batches (fun q => (routed q).observed) h
  modify (·.mapParticipants fun q => (routed q).participant)
  doIf (woken.isEmpty = false) (modify fun h => { h with round := h.round + 1 })
  deliverAll env observers
  deliverAll env woken
  doIf (woken.isEmpty = false) (checkRoundLimit env)
  return queuedFor

/-- The bookkeeping of `_route_say`: the id, the timers, the transcript, the recent window. -/
def remember (p : Participant) (f : Say) : HubM Unit := do
  let h ← get
  let r := Hub.recordOf (h.sayMsg p f)
  modify (·.countSay p f)
  let h ← get
  append (.msg h.round r)
  modify fun h => { h with recent := lastN env.config.recentWindow (h.recent ++ [r]) }

/-- The answer of `_route_say`. -/
def answer (p : Participant) (f : Say) (id queuedFor : Nat) : HubM Unit := do
  send env p (.said id queuedFor f.seq)
  let h ← get
  doIf (h.unattended env p f = true)
    (notify env (str "moot")
      (p.name ++ str " → " ++ f.addressee ++ str " · " ++ f.kind ++ str ": " ++ Hub.headline f.text))
  modify (·.touchActivity)

/-- `_route_say`, once the say has passed the checks. -/
def accept (p : Participant) (f : Say) : HubM Unit := do
  let h ← get
  remember env p f
  let queuedFor ← route env (h.sayMsg p f)
  answer env p f (h.msgCounter + 1) queuedFor

/-- A refusal: the `err` and the event. -/
def refuse (p : Participant) (f : Say) (code detail : Str) (retryAfter : Option Rat) : HubM Unit := do
  err env p code detail (some f.seq) retryAfter
  emitRejected env p code f.addressee f.kind f.text retryAfter f.priv

/-- A refusal, as the outcome of `_route_say`. -/
def refused (p : Participant) (f : Say) (code detail : Str) (retryAfter : Option Rat) : HubM Bool := do
  refuse env p f code detail retryAfter
  return false

/-- An accepted say, as the outcome of `_route_say`. -/
def accepted (p : Participant) (f : Say) : HubM Bool := do
  accept env p f
  return true

/-- `_route_say`.  `seen` expires its window before it makes the key. -/
def routeSay (n : Str) (f : Say) : HubM Bool := do
  let h ← get
  match h.get? n with
  | none => return false
  | some p =>
    if p.isObserver = false ∧ h.frozen = true then
      refused env p f errFrozen (str "hub is frozen — waiting for resume") none
    else if p.isObserver = false ∧ h.muted = true ∧
        (f.addressee = everyone ∨ h.targetsAgent f.addressee = true) then
      refused env p f errMuted
        (str "mute mode active (broadcast and agent→agent blocked; direct to observers allowed)") none
    else if f.addressee ≠ everyone ∧ h.participants.contains f.addressee = false then
      refused env p f errUnknownRecipient
        (str "unknown recipient " ++ reprStr env.isPrintable f.addressee ++ str " — roster: " ++
          h.rosterDetail) none
    else if p.isObserver then accepted env p f
    else
      let (allowed, bucket) := p.bucket.take h.now
      if allowed = false then do
        let (retry, bucket) := bucket.retryAfter h.now
        modify (·.modify n fun p => { p with bucket := bucket })
        refused env p f errRateLimited (str "rate limit") (some retry)
      else do
        let key := dedupText f.addressee f.text f.priv
        let (seen, dedup) := p.dedup.see h.now (env.sha256 key)
        modify (·.modify n fun p => { p with bucket := bucket, dedup := p.dedup.expire h.now })
        encodeText key
        modify (·.modify n fun p => { p with dedup := dedup })
        if seen then refused env p f errDuplicate (str "identical message within dedup window") none
        else accepted env p f

/-- `_mark_done` -/
def markDone (n : Str) : HubM Unit := do
  modify (·.modify n fun p => { p with finished := true })
  checkSessionDone env

/-- The idle inference after a say frame. -/
def inferIdle (n : Str) : HubM Unit := do
  let h ← get
  match h.get? n with
  | none => pure ()
  | some p =>
    doIf (p.hasIdleEvents = false ∧ p.state ≠ .idle) do
      modify (·.modify n (·.setIdle))
      flushQueue env n

/-- What `handle_say` makes of the mark. -/
def mark (n : Str) (f : Say) (accepted : Bool) : HubM Unit := do
  let h ← get
  match h.get? n with
  | none => pure ()
  | some p =>
    doIf (accepted = true ∧ p.isObserver = false)
      (if f.kind = str "done" then markDone env n
      else modify (·.modify n fun p => { p with finished := false }))

/-- `handle_say` -/
def handleSay (n : Str) (f : Say) : HubM Unit := do
  let accepted ← routeSay env n f
  inferIdle env n
  mark env n f accepted

/-! ### State, commands, roster -/

/-- `handle_state` -/
def handleState (n : Str) (f : Report) : HubM Unit := do
  let h ← get
  match h.get? n with
  | none => pure ()
  | some p =>
    modify (·.modify n (·.setState h.now f.state))
    if f.state = .blocked then
      doIf (p.state ≠ .blocked ∨ p.blockedDetail ≠ f.detail)
        (modify fun k =>
          { k.modify n fun p => { p with blockedSince := some h.now, blockedDetail := f.detail } with
            blockedNotified := k.blockedNotified.filter (· ≠ n) })
    else do
      modify (·.modify n fun p => { p with blockedSince := none, blockedDetail := none })
      doIf (f.state = .idle) (flushQueue env n)

/-- `write_goal`, which comes after the event with the same text. -/
def writeGoal (text : Str) : HubM Unit := do
  if Clean text then modify (·.writeGoal text)
  else throw ⟨⟩

/-- `handle_cmd`, the effect of the command. -/
def runCommand : Command → HubM Unit
  | .freeze => do
    let h ← get
    modify fun h => { h with frozen := true }
    emitEvent env (.frozen h.round) none
  | .resume n _ => do
    let h ← get
    let limit :=
      match n with
      | some k => max h.maxRounds h.round + k
      | none => if h.maxRounds ≤ h.round then h.round + env.config.maxRounds else h.maxRounds
    modify fun h => { h with maxRounds := limit, frozen := false }
    emitEvent env (.resumed h.round limit) none
  | .reset => do
    let h ← get
    modify fun h => { h with round := 0, frozen := false }
    emitEvent env (.reset h.round h.maxRounds) none
  | .mute => do
    modify fun h => { h with muted := true }
    emitEvent env .muted none
    systemMessage env Hub.muteText
  | .unmute => do
    modify fun h => { h with muted := false }
    emitEvent env .unmuted none
    systemMessage env Hub.unmuteText
  | .goal text _ => do
    modify fun h => { h with goal := text }
    emitEvent env (.goalSet text) none
    modify (·.bufferGoal text)
    writeGoal text

/-- `handle_cmd` -/
def handleCmd (n : Str) (c : Command) (seq : Option Int) : HubM Unit := do
  let h ← get
  match h.get? n with
  | none => pure ()
  | some p =>
    if p.isObserver = false then err env p errForbidden (str "cmd is observer-only") seq none
    else do
      runCommand env c
      modify (·.touchActivity)
      send env p (.ok seq)

/-- `handle_roster` -/
def handleRoster (n : Str) (seq : Option Int) : HubM Unit := do
  let h ← get
  match h.get? n with
  | none => pure ()
  | some p =>
    send env p (.roster h.round h.maxRounds h.frozen h.muted seq h.goal
      (h.participants.values.map h.rosterPeer))

/-! ### Watchdog -/

/-- The ping of a silent participant. -/
def pingSilent (n : Str) (p : Participant) : HubM Unit := do
  let h ← get
  doIf (env.config.deadAfter < h.now - p.lastRx ∧ p.awaitingPong = false) do
    modify (·.modify n fun p =>
      { p with awaitingPong := true, pongDeadline := h.now + env.config.pongTimeout })
    send env p .ping

/-- The assume-idle timer. -/
def assumeIdle (n : Str) (p : Participant) : HubM Unit := do
  let h ← get
  doIf (p.hasIdleEvents = false ∧ p.state ≠ .idle ∧
      env.config.assumeIdleAfter < h.now - p.busySince) do
    modify (·.modify n (·.setIdle))
    emitEvent env (.stall (str "no sign of life from " ++ p.name ++ str ", assumed idle")) none
    flushQueue env n

/-- The blocked notification. -/
def notifyBlocked (n : Str) : HubM Unit := do
  let h ← get
  match h.get? n with
  | none => pure ()
  | some p =>
    doIf (p.state = .blocked ∧
        (p.blockedSince.any fun t => env.config.blockedAfter < h.now - t) = true ∧
        n ∉ h.blockedNotified) do
      let detail := p.blockedDetail.getD []
      modify fun h => { h with blockedNotified := h.blockedNotified ++ [n] }
      emitEvent env (.blocked n detail) none
      notify env (str "moot") (n ++ str " blocked: " ++ detail)

/-- One round of the loop of `watchdog_tick`. -/
def tickOne (n : Str) : HubM Unit := do
  let h ← get
  match h.get? n with
  | none => pure ()
  | some p =>
    if h.up p.client = false then disconnect env p.client
    else if p.awaitingPong = true ∧ p.pongDeadline < h.now then disconnect env p.client
    else do
      pingSilent env n p
      doIf (p.isObserver = false) do
        assumeIdle env n p
        notifyBlocked env n

/-- The quorum check. -/
def checkQuorum : HubM Unit := do
  let h ← get
  match h.lastObserverSay with
  | none => pure ()
  | some askedAt =>
    doIf (h.atRest = true ∧ h.quorumLatched = false ∧ h.expectedAgents ≠ [] ∧
        (h.expectedAgents.all fun q => askedAt < q.lastSay) = true) do
      let names := join (str ", ") (sortedStrs (h.expectedAgents.map (·.name)))
      modify fun h => { h with quorumLatched := true }
      emitEvent env (.quorum (str "every addressed agent has answered — " ++ names)) none
      let h ← get
      doIf (h.observerPresent env none = false)
        (notify env (str "moot") (str "quorum — " ++ names ++ str " answered"))

/-- The stall check. -/
def checkStall : HubM Unit := do
  let h ← get
  doIf (h.atRest = true ∧ env.config.stallAfter < h.now - h.lastActivity ∧ h.stallLatched = false) do
    modify fun h => { h with stallLatched := true }
    emitEvent env (.stall (h.stallDetail env)) none
    notify env (str "moot") (str "stall — all agents idle")

/-- `watchdog_tick` -/
def watchdogTick : HubM Unit := do
  modify (·.pruneDead env)
  let h ← get
  h.participants.keys.forM (tickOne env)
  checkQuorum env
  checkStall env

/-! ### Dispatch -/

/-- The handler of a frame of the registration `n`. -/
def serve (c : ClientId) (n : Str) : Inbound → HubM Unit
  | .hello _ => pure ()
  | .say f => handleSay env n f
  | .state f => handleState env n f
  | .cmd cmd seq => handleCmd env n cmd seq
  | .roster seq => handleRoster env n seq
  | .bye => disconnect env c
  | .pong => pure ()

/-- `handle`, on a frame that is not a `hello`. -/
def dispatch (c : ClientId) (f : Inbound) : HubM Unit := do
  let h ← get
  let n := (h.wire.clients c).name
  match h.get? n with
  | none => errRaw env c errMalformed (str "hello expected first") none
  | some _ =>
    modify (·.lifeSign n)
    serve env c n f

/-- `handle`, after validation. -/
def handleInbound (c : ClientId) : Inbound → HubM Unit
  | .hello f => handleHello env c f
  | f => dispatch env c f

variable {F : Type} [PyJson.PyFloat F]

/-- `handle` -/
def handle (c : ClientId) (frame : Obj F) : HubM Unit :=
  match validate env.isPrintable frame with
  | .error e => errRaw env c e.code e.detail e.seq
  | .ok f => handleInbound env c f

/-- An operation. -/
def perform : Op F → HubM Unit
  | .handle c frame => handle env c frame
  | .disconnect c => disconnect env c
  | .watchdogTick => watchdogTick env
  | .clock now wall => modify (·.step env (.clock now wall : Op F))
  | .fail c => modify (·.step env (.fail c : Op F))

end HubM

/-- One operation as the code runs it. -/
def Hub.attempt {F : Type} [PyJson.PyFloat F] (env : Env) (h : Hub) (op : Op F) : Hub :=
  left (HubM.perform env op) h

/-- The operation ends in an exception. -/
def Hub.fails {F : Type} [PyJson.PyFloat F] (env : Env) (h : Hub) (op : Op F) : Bool :=
  raises (HubM.perform env op) h

end Moot
