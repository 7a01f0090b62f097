import Moot.Hub.Closing
import Moot.Lib.Meter

/-!
# The round budget

The round, its limit and the freeze are a meter (`Hub.meter`): an agent wake is a
tick, the end of a session and the commands are its other beats, and the alarms are
the `round_limit` events on the record.  `Hub.beats` lists the beats of an operation:
a say that wakes somebody, a flush in which agents speak, a session that ends.

Proved here: `meter_step`, the meter follows the beats, and `round_budget`, over
every run, with a limit of at least one.
-/

namespace Moot
open Py Proto

/-- The record of a reached limit. -/
def Record.isLimit : Record → Bool
  | .event (.roundLimit ..) _ => true
  | _ => false

namespace Hub

/-- How often a reached limit is on the record. -/
def alarms (h : Hub) : Nat := (records h.wire.log).countP Record.isLimit

def meter (h : Hub) : Meter := ⟨h.round, h.maxRounds, h.frozen, h.alarms⟩

/-- Routing a message wakes an agent. -/
def wakes (env : Env) (h : Hub) (msg : Msg) : Bool :=
  h.participants.values.any fun q => (routeOne env h.up msg q).woken.isSome

/-- One tick, if `b`. -/
def tickIf (b : Bool) : List Beat := if b then [.tick] else []

/-- The beat of the check for the end of a session. -/
def clearIf (b : Bool) : List Beat := if b then [.clear] else []

/-- The beats of a flush: an agent wake, unless there is nothing but system notes; and the end of
the session, if this was the last queue. -/
def flushBeats (env : Env) (h : Hub) (n : Str) : List Beat :=
  match h.get? n with
  | none => []
  | some p =>
    if p.queue.isEmpty || !h.up p.client then []
    else
      tickIf ((p.wakeSlice env.config).any (·.sender ≠ systemSender)) ++
        clearIf (h.modify n (·.flushed env.config)).allFinished

/-- The beats of a command. -/
def commandBeats (env : Env) (h : Hub) : Command → List Beat
  | .freeze => [.stop]
  | .resume k pos => [.lift (h.flags env (.resume k pos)).maxRounds]
  | .reset => [.restart]
  | .mute | .unmute | .goal .. => []

/-- A say of `n` to the addressee of `f` finds an agent idle and connected. -/
def wakesSomebody (h : Hub) (n : Str) (f : Say) : Bool :=
  h.participants.values.any fun q =>
    q.name ≠ n && !q.isObserver && q.addressing f.addressee ≠ .overheard && q.state = .idle &&
      h.up q.client

/-- The beats of an idle inference after a say. -/
def inferBeats (env : Env) (h : Hub) (n : Str) : List Beat :=
  match h.get? n with
  | none => []
  | some p =>
    if p.hasIdleEvents = false ∧ p.state ≠ .idle then (h.modify n (·.setIdle)).flushBeats env n
    else []

/-- The beats of a mark. -/
def markBeats (h : Hub) (n : Str) (f : Say) (accepted : Bool) : List Beat :=
  match h.get? n with
  | none => []
  | some p =>
    if accepted = true ∧ p.isObserver = false ∧ f.kind = str "done" then
      clearIf (h.modify n fun p => { p with finished := true }).allFinished
    else []

/-- The beats of a say: its own wake, the flush of its sender, its mark. -/
def sayBeats (env : Env) (h : Hub) (n : Str) (f : Say) : List Beat :=
  let (accepted, routed) := h.routeSay env n f
  tickIf (accepted && h.wakesSomebody n f) ++ routed.inferBeats env n ++
    (routed.inferIdle env n).markBeats n f accepted

/-- The beats of a report: the flush of an agent that is idle. -/
def reportBeats (env : Env) (h : Hub) (n : Str) (f : Report) : List Beat :=
  if f.state = .idle then
    ((h.modify n (·.setState h.now f.state)).modify n
      fun p => { p with blockedSince := none, blockedDetail := none }).flushBeats env n
  else []

/-- The beats of a connection that ends: the participant that leaves may be the last to finish. -/
def leaveBeats (env : Env) (h : Hub) (c : ClientId) : List Beat :=
  match h.get? (h.wire.clients c).name with
  | none => []
  | some p => if p.client = c then clearIf (h.leave env (h.wire.clients c).name p).allFinished else []

/-- The beats of a registration: the flush of a reclaim. -/
def registerBeats (env : Env) (h : Hub) (c : ClientId) (f : Hello) : List Beat :=
  let rejoined := h.dead.contains f.name
  let p := admitted env h c f
  if rejoined && !p.queue.isEmpty then
    ((h.enroll c f.name p).greet env f.name p rejoined).flushBeats env f.name
  else []

/-- The beats of a hello. -/
def helloBeats (env : Env) (h : Hub) (c : ClientId) (f : Hello) : List Beat :=
  if (h.wire.clients c).name ≠ [] then []
  else
    let left :=
      match h.get? f.name with
      | some old => if h.up old.client then [] else h.leaveBeats env old.client
      | none => []
    let ready := (h.reap env f.name).declareRoom f
    left ++ if ready.participants.contains f.name then [] else ready.registerBeats env c f

/-- The beats of a frame that is not a hello. -/
def frameBeats (env : Env) (h : Hub) (c : ClientId) (f : Inbound) : List Beat :=
  let n := (h.wire.clients c).name
  match h.get? n with
  | none => []
  | some p =>
    match f with
    | .say f => (h.lifeSign n).sayBeats env n f
    | .state f => (h.lifeSign n).reportBeats env n f
    | .cmd cmd _ => if p.isObserver then h.commandBeats env cmd else []
    | .bye => (h.lifeSign n).leaveBeats env c
    | .hello _ | .roster _ | .pong => []

/-- The hub that assumes an agent idle, when it comes to flush its queue. -/
def silenced (env : Env) (h : Hub) (n : Str) (p : Participant) : Hub :=
  (h.modify n (·.setIdle)).emitEvent env
    (.stall (str "no sign of life from " ++ p.name ++ str ", assumed idle")) none

/-- The beats of one round of the loop of a tick. -/
def tickOneBeats (env : Env) (h : Hub) (n : Str) : List Beat :=
  match h.get? n with
  | none => []
  | some p =>
    if h.up p.client = false ∨ p.awaitingPong = true ∧ p.pongDeadline < h.now then
      h.leaveBeats env p.client
    else if p.isObserver = false ∧ p.hasIdleEvents = false ∧ p.state ≠ .idle ∧
        env.config.assumeIdleAfter < h.now - p.busySince then
      ((h.pingSilent env n p).silenced env n p).flushBeats env n
    else []

def ticksBeats (env : Env) (h : Hub) : List Str → List Beat
  | [] => []
  | n :: ns => h.tickOneBeats env n ++ ticksBeats env (h.tickOne env n) ns

variable {F : Type} [PyJson.PyFloat F]

/-- The beats of an operation. -/
def beats (env : Env) (h : Hub) : Op F → List Beat
  | .handle c frame =>
    match validate env.isPrintable frame with
    | .error _ => []
    | .ok (.hello f) => h.helloBeats env c f
    | .ok f => h.frameBeats env c f
  | .disconnect c => h.leaveBeats env c
  | .watchdogTick => (h.pruneDead env).ticksBeats env h.participants.keys
  | .clock .. | .fail _ => []

section
variable {env : Env} {h h' h'' : Hub}

/-! ## The meter of each act -/

theorem alarms_append (h : Hub) (r : Record) :
    (h.append r).alarms = h.alarms + if r.isLimit then 1 else 0 := onRecord_append h r

theorem alarms_of_records (hr : records h'.wire.log = records h.wire.log) :
    h'.alarms = h.alarms := onRecord_of_records (P := Record.isLimit) hr

variable (env)

theorem alarms_emitEvent (h : Hub) (e : HubEvent) (skip : Option Str) :
    (h.emitEvent env e skip).alarms =
      h.alarms + if (Record.event e h.wall).isLimit then 1 else 0 := onRecord_emitEvent env h e skip

theorem meter_emitEvent (h : Hub) {e : HubEvent} (he : (Record.event e h.wall).isLimit = false)
    (skip : Option Str) : (h.emitEvent env e skip).meter = h.meter := by
  have halarms := alarms_emitEvent env h e skip
  rw [he] at halarms
  rw [meter, halarms]
  rfl

variable {env}

theorem Talks.meter (ht : h.Talks h') : h'.meter = h.meter := by
  rw [Hub.meter, Hub.meter, alarms_of_records ht.records, ht.same Hub.round fun _ _ => rfl,
    ht.same Hub.maxRounds fun _ _ => rfl, ht.same Hub.frozen fun _ _ => rfl]

variable (env)

theorem meter_deliver (h : Hub) (n : Str) (msgs : List Msg) :
    (h.deliver env n msgs).meter = h.meter := by
  cases hp : h.get? n with
  | none => rw [deliver, hp]
  | some p =>
    have hout : (h.handOut env p (sortById msgs)).meter = h.meter := by
      have hsend : (h.send env p (.deliver h.round (sortById msgs))).alarms = h.alarms :=
        alarms_of_records ((records_append _ _).trans (List.append_nil _))
      have happend := alarms_append (h.send env p (.deliver h.round (sortById msgs)))
        (.deliver p.name h.round ((sortById msgs).map Msg.id)
          (((sortById msgs).filter (·.addressing = some .overheard)).map Msg.id) h.wall)
      rw [hsend] at happend
      rw [meter, show (h.handOut env p (sortById msgs)).alarms = h.alarms from happend]
      rfl
    rw [deliver_eq env hp]
    split
    · exact hout
    · exact hout

theorem meter_deliverAll (h : Hub) (bs : List (Str × List Msg)) :
    (h.deliverAll env bs).meter = h.meter := by
  induction bs generalizing h with
  | nil => rfl
  | cons b bs ih => exact (ih _).trans (meter_deliver env h b.1 b.2)

/-- The check of the limit completes a tick. -/
theorem meter_checkRoundLimit {m : Meter}
    (hm : h.meter = { m with count := m.count + 1 }) :
    (h.checkRoundLimit env).meter = m.beat .tick := by
  have hround : h.round = m.count + 1 := congrArg Meter.count hm
  have hlimit : h.maxRounds = m.limit := congrArg Meter.limit hm
  have hfrozen : h.frozen = m.stopped := congrArg Meter.stopped hm
  have halarms : h.alarms = m.alarms := congrArg Meter.alarms hm
  have hannounce : (h.announceLimit env).meter =
      { m with count := m.count + 1, stopped := true, alarms := m.alarms + 1 } := by
    have hemit := alarms_emitEvent env { h with frozen := true } (.roundLimit h.round h.maxRounds)
      none
    have hnote := (talks_notify env ({ h with frozen := true }.emitEvent env
      (.roundLimit h.round h.maxRounds) none) (str "moot")
      (str "round_limit reached (round " ++ natStr h.round ++ str ") — frozen")).meter
    refine hnote.trans ?_
    rw [meter, hemit, ← hround, ← hlimit, ← halarms]
    rfl
  simp only [checkRoundLimit, Meter.beat, hround, hlimit, hfrozen]
  split
  · split
    · exact hannounce
    · have happend := alarms_append (h.announceLimit env) (.freezeWithoutObserver h.wall)
      rw [← hannounce, meter, happend]
      rfl
  · exact hm

theorem meter_checkSessionDone (h : Hub) :
    (h.checkSessionDone env).meter = h.meter.run (clearIf h.allFinished) := by
  unfold checkSessionDone
  split
  · next hdone =>
    have hemit := meter_emitEvent env h (e := .sessionDone h.round) rfl none
    have hnote := (talks_notify env
      { h.emitEvent env (.sessionDone h.round) none with sessionDoneAt := some h.wall } (str "moot")
      (str "session_done — all agents finished")).meter
    have hann : (h.announceDone env).meter = h.meter := hnote.trans hemit
    rw [hdone]
    show ({ (h.announceDone env).meter with count := 0 } : Meter) = _
    rw [hann]
    rfl
  · next hopen =>
    rw [Bool.not_eq_true] at hopen
    rw [hopen]
    rfl

theorem wakes_iff (h : Hub) (msg : Msg) : h.wakes env msg =
    !(batches (fun q => (routeOne env h.up msg q).woken) h).isEmpty := by
  rw [Bool.eq_iff_iff]
  simp only [wakes, batches, List.any_eq_true, Bool.not_eq_true', List.isEmpty_eq_false_iff, ne_eq,
    List.filterMap_eq_nil_iff, Option.map_eq_none_iff, not_forall, Option.isSome_iff_ne_none,
    exists_prop]

theorem meter_route (h : Hub) (msg : Msg) :
    (h.route env msg).1.meter = h.meter.run (tickIf (h.wakes env msg)) := by
  rw [wakes_iff]
  unfold route
  simp only
  generalize batches (fun q => (routeOne env h.up msg q).woken) h = woken
  generalize batches (fun q => (routeOne env h.up msg q).observed) h = observers
  by_cases hempty : woken.isEmpty = true
  · simp only [hempty, if_true, Bool.not_true, tickIf, Bool.false_eq_true, if_false, Meter.run_nil]
    rw [meter_deliverAll, meter_deliverAll]
    rfl
  · rw [Bool.not_eq_true] at hempty
    simp only [hempty, Bool.false_eq_true, if_false, Bool.not_false, tickIf, if_true]
    refine meter_checkRoundLimit env ?_
    rw [meter_deliverAll, meter_deliverAll]
    rfl

/-- The check for the end of the session sees what the flush has written. -/
theorem allFinished_delivered (hp : h'.participants = h.participants) (n : Str) (msgs : List Msg)
    (hq : h''.participants = (h'.deliver env n msgs).participants) :
    h''.allFinished = h.allFinished :=
  ((same_participants hp).trans ((same_deliver env h' n msgs).trans
    (same_participants hq))).allFinished

theorem meter_flushQueue (h : Hub) (n : Str) :
    (h.flushQueue env n).meter = h.meter.run (h.flushBeats env n) := by
  cases hp : h.get? n with
  | none => rw [flushQueue, flushBeats, hp]; rfl
  | some p =>
    by_cases hskip : p.queue = [] ∨ h.up p.client = false
    · have hguard : (p.queue.isEmpty || !h.up p.client) = true := by
        rcases hskip with hq | hu
        · simp [hq]
        · simp [hu]
      rw [flushQueue_skip env hp hskip, flushBeats, hp]
      simp only [hguard, if_true, Meter.run_nil]
    · simp only [not_or, Bool.not_eq_false] at hskip
      have hguard : (p.queue.isEmpty || !h.up p.client) = false := by simp [hskip.1, hskip.2]
      obtain ⟨k₁, k₂, heq, hcases⟩ := flushQueue_counts env hp hskip.1 hskip.2
      rw [heq, meter_checkSessionDone, flushBeats, hp]
      simp only [hguard, Bool.false_eq_true, if_false]
      rw [Meter.run_append]
      rcases hcases with ⟨hagents, hk₁, hk₂⟩ | ⟨hnone, hk₁, hk₂⟩
      · have hwritten : k₁.participants = (h.modify n (·.flushed env.config)).participants := by
          rw [hk₁]
        have hdone : k₂.allFinished = (h.modify n (·.flushed env.config)).allFinished :=
          allFinished_delivered env hwritten n _
            (by rw [hk₂]; exact participants_checkRoundLimit env _)
        have hmeter : k₂.meter = h.meter.beat .tick := by
          rw [hk₂]
          refine meter_checkRoundLimit env ?_
          rw [meter_deliver, hk₁]
          rfl
        rw [hdone, hmeter, hagents]
        rfl
      · have hwritten : k₁.participants = (h.modify n (·.flushed env.config)).participants := by
          rw [hk₁]
        have hdone : k₂.allFinished = (h.modify n (·.flushed env.config)).allFinished :=
          allFinished_delivered env hwritten n _ (by rw [hk₂])
        have hmeter : k₂.meter = h.meter := by
          rw [hk₂, meter_deliver, hk₁]
          rfl
        rw [hdone, hmeter, hnone]
        rfl

theorem meter_remember (h : Hub) (p : Participant) (f : Say) :
    (h.remember env p f).meter = h.meter := by
  have hcount : (h.countSay p f).meter = h.meter := by
    unfold countSay noteSay
    simp only
    split_ifs <;> rfl
  have happend := alarms_append (h.countSay p f)
    (.msg (h.countSay p f).round (recordOf (h.sayMsg p f)))
  rw [← hcount]
  show (⟨_, _, _, ((h.countSay p f).append _).alarms⟩ : Meter) = _
  rw [happend]
  rfl

theorem meter_systemNote (h : Hub) (text n : Str) :
    (h.systemNote env text n).meter = h.meter := by
  unfold systemNote
  split
  · rfl
  · split
    · rfl
    · simp only
      split
      · exact meter_deliver env _ _ _
      · rfl

theorem meter_flags (h : Hub) (c : Command) :
    (h.flags env c).meter = h.meter.run (h.commandBeats env c) := by
  cases c <;> rfl

/-! ## The meter of an operation -/

variable {env}

/-- A message wakes the agents it is addressed to, that are idle and connected. -/
theorem woken_iff (up : ClientId → Bool) (msg : Msg) (q : Participant) :
    (routeOne env up msg q).woken.isSome = true ↔ q.name ≠ msg.sender ∧ q.isObserver = false ∧
      q.addressing msg.addressee ≠ .overheard ∧ q.state = .idle ∧ up q.client = true := by
  unfold routeOne
  by_cases hname : q.name = msg.sender
  · simp [hname]
  by_cases hobs : q.isObserver = true
  · simp [hname, hobs]
  by_cases hmode : q.addressing msg.addressee = .overheard
  · simp [hname, hobs, hmode]
  by_cases hidle : q.state = .idle ∧ up q.client = true
  · simp [hname, hobs, hmode, hidle]
  · simp only [if_neg hname, if_neg hobs, if_neg hmode, if_neg hidle, Option.isSome_none,
      Bool.false_eq_true, false_iff]
    exact fun hall => hidle hall.2.2.2

theorem get?_charged_of_ne {n m : Str} {f : Say} {k : Hub} (hc : Charged h n f k) (hm : m ≠ n) :
    k.get? m = h.get? m := by
  cases hc with
  | free => rfl
  | rated b => exact get?_modify_of_ne h hm _
  | seen b d => exact get?_modify_of_ne (h.encodeText _) hm _

theorem get?_remember_of_ne (p : Participant) (f : Say) {m : Str} (hm : m ≠ p.name) :
    (h.remember env p f).get? m = h.get? m := by
  have hget : (h.remember env p f).get? m =
      (h.modify p.name fun p => { p with lastSay := h.now }).get? m := by
    show (h.countSay p f).get? m = _
    unfold countSay noteSay
    simp only
    split_ifs <;> rfl
  rw [hget, get?_modify_of_ne h hm]

variable (env) in
/-- Whom a say wakes can be told before it is routed. -/
theorem wakes_remember {n : Str} {p : Participant} {f : Say} {k : Hub} (hn : h.Named)
    (hp : h.get? n = some p) (hc : Charged h n f k) :
    (k.remember env p f).wakes env (k.sayMsg p f) = h.wakesSomebody n f := by
  have hname : p.name = n := hn n p hp
  have hnamed : (k.remember env p f).Named :=
    ((hc.keeps (S := ∅) (T := ∅) (E := True)).toRoster.trans (roster_remember env k p f)).named hn
  have hget : ∀ m, m ≠ n → (k.remember env p f).get? m = h.get? m := fun m hm => by
    rw [get?_remember_of_ne p f (by rw [hname]; exact hm), get?_charged_of_ne hc hm]
  have hup : ∀ c, (k.remember env p f).up c = h.up c := fun c => by
    rw [up_remember, up_charged hc]
  have hboth : ∀ q, (q ∈ (k.remember env p f).participants.values ∧ q.name ≠ n) ↔
      (q ∈ h.participants.values ∧ q.name ≠ n) := by
    intro q
    simp only [Dict.mem_values_iff]
    constructor
    · rintro ⟨⟨m, hm⟩, hq⟩
      have hmn : m ≠ n := by rw [← hnamed m q hm]; exact hq
      exact ⟨⟨m, (hget m hmn).symm.trans hm⟩, hq⟩
    · rintro ⟨⟨m, hm⟩, hq⟩
      have hmn : m ≠ n := by rw [← hn m q hm]; exact hq
      exact ⟨⟨m, (hget m hmn).trans hm⟩, hq⟩
  rw [Bool.eq_iff_iff, wakes, wakesSomebody, List.any_eq_true, List.any_eq_true]
  simp only [woken_iff, Bool.and_eq_true, decide_eq_true_eq, Bool.not_eq_true', hup]
  constructor
  · rintro ⟨q, hq, hsender, hobs, hmode, hidle, hconn⟩
    have hqn : q.name ≠ n := by rw [← hname]; exact hsender
    exact ⟨q, ((hboth q).mp ⟨hq, hqn⟩).1, ⟨⟨⟨hqn, hobs⟩, hmode⟩, hidle⟩, hconn⟩
  · rintro ⟨q, hq, ⟨⟨⟨hqn, hobs⟩, hmode⟩, hidle⟩, hconn⟩
    exact ⟨q, ((hboth q).mpr ⟨hq, hqn⟩).1, by show q.name ≠ p.name; rw [hname]; exact hqn, hobs,
      hmode, hidle, hconn⟩

theorem meter_charged {n : Str} {f : Say} {k : Hub} (hc : Charged h n f k) :
    k.meter = h.meter := by
  cases hc with
  | free => rfl
  | rated b => rfl
  | seen b d => exact (talks_encodeText h _).meter

variable (env)

theorem meter_answer (h : Hub) (p : Participant) (f : Say) (id queuedFor : Nat) :
    (h.answer env p f id queuedFor).meter = h.meter := by
  have hsaid := (talks_send env h p (f := .said id queuedFor f.seq) (by simp) (by simp)).meter
  unfold answer
  simp only
  split
  · exact (talks_notify env _ _ _).meter.trans hsaid
  · exact hsaid

theorem meter_refuse (h : Hub) (p : Participant) (f : Say) (code detail : Str)
    (retry : Option Rat) : (h.refuse env p f code detail retry).meter = h.meter := by
  have herr : (h.err env p code detail (some f.seq) retry).meter = h.meter :=
    (talks_send env h p (by simp) (by simp)).meter
  unfold refuse emitRejected
  split
  · exact herr
  · exact ((meter_emitEvent env _ rfl none).trans (talks_encodeText _ f.text).meter).trans herr

/-- A say that is accepted ticks once, however many it wakes. -/
theorem meter_routeSay (hn : h.Named) {n : Str} {p : Participant} (hp : h.get? n = some p)
    (f : Say) : (h.routeSay env n f).2.meter =
      h.meter.run (tickIf ((h.routeSay env n f).1 && h.wakesSomebody n f)) := by
  obtain ⟨k, hc, heq | ⟨code, detail, retry, heq⟩⟩ := routeSay_cases env hp f
  · rw [heq, Bool.true_and, ← wakes_remember env hn hp hc, ← meter_charged hc,
      ← meter_remember env k p f, ← meter_route]
    exact meter_answer env _ p f _ _
  · rw [heq, Bool.false_and]
    exact (meter_refuse env k p f code detail retry).trans (meter_charged hc)

theorem meter_inferIdle (h : Hub) (n : Str) :
    (h.inferIdle env n).meter = h.meter.run (h.inferBeats env n) := by
  cases hp : h.get? n with
  | none => rw [inferIdle, inferBeats, hp]; rfl
  | some p =>
    rw [inferIdle, inferBeats, hp]
    simp only
    split
    · exact meter_flushQueue env _ n
    · rfl

theorem meter_settle (h : Hub) (n : Str) (f : Say) (accepted : Bool) :
    (h.settle env n f accepted).meter =
      h.meter.run (h.inferBeats env n ++ (h.inferIdle env n).markBeats n f accepted) := by
  rw [Meter.run_append, ← meter_inferIdle, settle]
  generalize h.inferIdle env n = k
  cases hp : k.get? n with
  | none => rw [markBeats, hp]; rfl
  | some p =>
    rw [markBeats, hp]
    simp only
    by_cases hagent : accepted = true ∧ p.isObserver = false
    · rw [if_pos hagent]
      by_cases hdone : f.kind = str "done"
      · rw [if_pos hdone, if_pos ⟨hagent.1, hagent.2, hdone⟩]
        exact meter_checkSessionDone env _
      · rw [if_neg hdone, if_neg fun hall => hdone hall.2.2]
        rfl
    · rw [if_neg hagent, if_neg fun hall => hagent ⟨hall.1, hall.2.1⟩]
      rfl

theorem meter_handleSay (hn : h.Named) {n : Str} {p : Participant} (hp : h.get? n = some p)
    (f : Say) : (h.handleSay env n f).meter = h.meter.run (h.sayBeats env n f) := by
  rw [handleSay, meter_settle, meter_routeSay env hn hp, ← Meter.run_append, ← List.append_assoc]
  rfl

theorem meter_handleState (h : Hub) {n : Str} {p : Participant} (hp : h.get? n = some p)
    (f : Report) : (h.handleState env n f).meter = h.meter.run (h.reportBeats env n f) := by
  rw [handleState, hp, reportBeats]
  simp only
  split
  · next hblocked =>
    rw [hblocked]
    split
    · rfl
    · rfl
  · split
    · exact meter_flushQueue env _ n
    · rfl

theorem meter_disconnect (h : Hub) (c : ClientId) :
    (h.disconnect env c).meter = h.meter.run (h.leaveBeats env c) := by
  have hclose : ∀ k : Hub, (k.close c).meter = k.meter := fun k => (talks_close k c).meter
  cases hp : h.get? (h.wire.clients c).name with
  | none => rw [disconnect, leaveBeats, hp]; exact hclose h
  | some p =>
    rw [disconnect, leaveBeats, hp]
    simp only
    split
    · rw [hclose, meter_checkSessionDone]
      congr 1
      exact meter_emitEvent env _ rfl none
    · exact hclose h

theorem meter_giveBacklog (h : Hub) (n : Str) : (h.giveBacklog env n).meter = h.meter := by
  unfold giveBacklog
  split
  · rfl
  · dsimp only
    split
    · split
      · rfl
      · exact meter_deliver env _ _ _
    · rfl

theorem meter_greet (h : Hub) (n : Str) (p : Participant) (rejoined : Bool) :
    (h.greet env n p rejoined).meter = h.meter := by
  have hwelcome : (h.send env p (welcome env h p)).meter = h.meter :=
    (talks_send env h p (by simp [welcome]) (by simp [welcome])).meter
  unfold greet
  simp only
  refine (meter_emitEvent env _ rfl _).trans ?_
  split
  · exact (meter_giveBacklog env _ n).trans hwelcome
  · exact hwelcome

theorem meter_register (h : Hub) (c : ClientId) (f : Hello) :
    (h.register env c f).meter = h.meter.run (h.registerBeats env c f) := by
  have hgreet : ((h.enroll c f.name (admitted env h c f)).greet env f.name (admitted env h c f)
      (h.dead.contains f.name)).meter = h.meter := meter_greet env _ _ _ _
  unfold register registerBeats
  simp only
  split
  · rw [meter_flushQueue, hgreet]
  · exact hgreet

theorem meter_handleHello (h : Hub) (c : ClientId) (f : Hello) :
    (h.handleHello env c f).meter = h.meter.run (h.helloBeats env c f) := by
  have hready : ((h.reap env f.name).declareRoom f).meter = h.meter.run
      (match h.get? f.name with
        | some old => if h.up old.client then [] else h.leaveBeats env old.client
        | none => []) := by
    have hroom : ∀ k : Hub, (k.declareRoom f).meter = k.meter := fun k => by
      unfold declareRoom
      split
      · rw [meter, alarms_append]
        rfl
      · rfl
    rw [hroom, reap]
    cases h.get? f.name with
    | none => rfl
    | some old =>
      simp only
      split
      · rfl
      · exact meter_disconnect env h _
  unfold handleHello helloBeats
  simp only
  split
  · exact (talks_errRaw env h c _ _ _).meter
  · rw [Meter.run_append, ← hready]
    split
    · exact (talks_close _ c).meter.trans (talks_errRaw env _ c _ _ _).meter
    · exact meter_register env _ c f

theorem meter_systemMessage (h : Hub) (text : Str) : (h.systemMessage env text).meter = h.meter := by
  unfold systemMessage
  generalize h.participants.keys = ns
  induction ns generalizing h with
  | nil => rfl
  | cons n ns ih => exact (ih _).trans (meter_systemNote env h text n)

theorem meter_runCommand (h : Hub) (c : Command) :
    (h.runCommand env c).meter = h.meter.run (h.commandBeats env c) := by
  rw [← meter_flags]
  cases c with
  | freeze => exact meter_emitEvent env _ rfl none
  | resume k => exact meter_emitEvent env _ rfl none
  | reset => exact meter_emitEvent env _ rfl none
  | mute => exact (meter_systemMessage env _ _).trans (meter_emitEvent env _ rfl none)
  | unmute => exact (meter_systemMessage env _ _).trans (meter_emitEvent env _ rfl none)
  | goal text =>
    exact (talks_writeGoal _ text).meter.trans (meter_emitEvent env { h with goal := text } rfl none)

theorem meter_handleCmd (h : Hub) {n : Str} {p : Participant} (hp : h.get? n = some p) (c : Command)
    (seq : Option Int) : (h.handleCmd env n c seq).meter =
      h.meter.run (if p.isObserver then h.commandBeats env c else []) := by
  rw [handleCmd, hp]
  simp only
  by_cases hobs : p.isObserver = true
  · simp only [hobs, Bool.true_eq_false, if_false, if_true]
    exact (talks_send env _ p (by simp) (by simp)).meter.trans (meter_runCommand env h c)
  · rw [Bool.not_eq_true] at hobs
    simp only [hobs, if_true, Bool.false_eq_true, if_false]
    exact (talks_send env h p (by simp) (by simp)).meter

theorem meter_frame (hn : h.Named) (c : ClientId) {f : Inbound} (hf : ∀ g, f ≠ .hello g) :
    (h.dispatch env c f).meter = h.meter.run (h.frameBeats env c f) := by
  have hlife : (h.lifeSign (h.wire.clients c).name).meter = h.meter := rfl
  cases hp : h.get? (h.wire.clients c).name with
  | none =>
    rw [dispatch, frameBeats, hp]
    exact (talks_errRaw env h c _ _ _).meter
  | some p =>
    rw [dispatch, frameBeats, hp]
    have hp₁ : (h.lifeSign (h.wire.clients c).name).get? (h.wire.clients c).name =
        some { p with lastRx := h.now, awaitingPong := false } := by
      rw [lifeSign, get?_modify_self, hp]
      rfl
    have hn₁ : (h.lifeSign (h.wire.clients c).name).Named :=
      (keeps_lifeSign (S := ∅) (T := ∅) (E := True) h _).named hn
    cases f with
    | hello f => exact absurd rfl (hf f)
    | say f => exact (meter_handleSay env hn₁ hp₁ f).trans (by rw [hlife])
    | state f => exact (meter_handleState env _ hp₁ f).trans (by rw [hlife])
    | cmd cmd seq =>
      refine (meter_handleCmd env _ hp₁ cmd seq).trans ?_
      rw [hlife]
      cases cmd <;> rfl
    | roster seq =>
      show (handleRoster env _ _ seq).meter = h.meter
      unfold handleRoster
      rw [hp₁]
      exact (talks_send env _ _ (by simp) (by simp)).meter
    | bye => exact (meter_disconnect env _ c).trans (by rw [hlife])
    | pong => rfl

/-! ## The watchdog -/

theorem meter_pingSilent (h : Hub) (n : Str) (p : Participant) :
    (h.pingSilent env n p).meter = h.meter := by
  unfold pingSilent
  split
  · exact (talks_send env (h.modify n _) p (by simp) (by simp)).meter
  · rfl

theorem meter_notifyBlocked (h : Hub) (n : Str) : (h.notifyBlocked env n).meter = h.meter := by
  unfold notifyBlocked
  split
  · rfl
  · split
    · exact (talks_notify env _ _ _).meter.trans (meter_emitEvent env _ rfl none)
    · rfl

theorem meter_checkQuorum (h : Hub) : (h.checkQuorum env).meter = h.meter := by
  unfold checkQuorum
  split
  · rfl
  · split
    · dsimp only
      split
      · exact meter_emitEvent env _ rfl none
      · exact (talks_notify env _ _ _).meter.trans (meter_emitEvent env _ rfl none)
    · rfl

theorem meter_checkStall (h : Hub) : (h.checkStall env).meter = h.meter := by
  unfold checkStall
  split
  · exact (talks_notify env _ _ _).meter.trans (meter_emitEvent env _ rfl none)
  · rfl

theorem meter_assumeIdle (h : Hub) (n : Str) (p : Participant) : (h.assumeIdle env n p).meter =
    h.meter.run (if p.hasIdleEvents = false ∧ p.state ≠ .idle ∧
      env.config.assumeIdleAfter < h.now - p.busySince then
        (h.silenced env n p).flushBeats env n else []) := by
  unfold assumeIdle
  split
  · refine (meter_flushQueue env _ n).trans ?_
    rw [meter_emitEvent env _ rfl none]
    rfl
  · rfl

theorem meter_tickOne (h : Hub) (n : Str) :
    (h.tickOne env n).meter = h.meter.run (h.tickOneBeats env n) := by
  cases hp : h.get? n with
  | none => rw [tickOne, tickOneBeats, hp]; rfl
  | some p =>
    rw [tickOne, tickOneBeats, hp]
    simp only
    by_cases hgone : h.up p.client = false ∨ p.awaitingPong = true ∧ p.pongDeadline < h.now
    · rw [if_pos hgone, ← meter_disconnect]
      split
      · rfl
      · next hup => rw [if_pos (hgone.resolve_left hup)]
    · rw [if_neg hgone, if_neg fun hdown => hgone (Or.inl hdown),
        if_neg fun hlate => hgone (Or.inr hlate)]
      by_cases hobs : p.isObserver = true
      · rw [if_pos hobs, if_neg fun hall => by rw [hall.1] at hobs; cases hobs]
        exact meter_pingSilent env h n p
      · rw [if_neg hobs, meter_notifyBlocked, meter_assumeIdle, meter_pingSilent]
        have hnow : (h.pingSilent env n p).now = h.now := by
          unfold pingSilent
          split <;> rfl
        rw [hnow]
        rw [Bool.not_eq_true] at hobs
        simp only [hobs, true_and]

theorem meter_ticks (h : Hub) (ns : List Str) :
    (ns.foldl (tickOne env) h).meter = h.meter.run (h.ticksBeats env ns) := by
  induction ns generalizing h with
  | nil => rfl
  | cons n ns ih =>
    rw [List.foldl_cons, ih, meter_tickOne, ← Meter.run_append]
    rfl

variable {F : Type} [PyJson.PyFloat F]

/-- **The meter follows the beats** of every operation. -/
theorem meter_step (hw : h.Wf) (op : Op F) :
    (h.step env op).meter = h.meter.run (h.beats env op) := by
  cases op with
  | handle c frame =>
    show (h.handle env c frame).meter = _
    rw [handle, beats]
    cases validate env.isPrintable frame with
    | error e => exact (talks_errRaw env h c _ _ _).meter
    | ok f =>
      cases f with
      | hello f => exact meter_handleHello env h c f
      | _ => exact meter_frame env hw.named c fun g hg => by cases hg
  | disconnect c => exact meter_disconnect env h c
  | watchdogTick =>
    show (h.watchdogTick env).meter = _
    unfold watchdogTick
    simp only
    rw [meter_checkStall, meter_checkQuorum, meter_ticks]
    rfl
  | clock now wall => rfl
  | fail c => exact (talks_fail h c).meter

/-! ## The budget -/

/-- A flush and the end of a session are at work. -/
theorem atWork_tickIf (b : Bool) : Meter.AtWork (tickIf b) := by
  unfold tickIf
  split <;> simp [Meter.AtWork]

theorem atWork_clearIf (b : Bool) : Meter.AtWork (clearIf b) := by
  unfold clearIf
  split <;> simp [Meter.AtWork]

theorem atWork_nil : Meter.AtWork [] := List.forall_mem_nil _

theorem atWork_flushBeats (h : Hub) (n : Str) : Meter.AtWork (h.flushBeats env n) := by
  unfold flushBeats
  split
  · exact atWork_nil
  · split
    · exact atWork_nil
    · exact (atWork_tickIf _).append (atWork_clearIf _)

theorem atWork_leaveBeats (h : Hub) (c : ClientId) : Meter.AtWork (h.leaveBeats env c) := by
  unfold leaveBeats
  split
  · exact atWork_nil
  · split
    · exact atWork_clearIf _
    · exact atWork_nil

theorem atWork_sayBeats (h : Hub) (n : Str) (f : Say) : Meter.AtWork (h.sayBeats env n f) := by
  have hinfer : ∀ k : Hub, Meter.AtWork (k.inferBeats env n) := fun k => by
    unfold inferBeats
    split
    · exact atWork_nil
    · split
      · exact atWork_flushBeats env _ n
      · exact atWork_nil
  have hmark : ∀ (k : Hub) (accepted : Bool), Meter.AtWork (k.markBeats n f accepted) :=
    fun k accepted => by
      unfold markBeats
      split
      · exact atWork_nil
      · split
        · exact atWork_clearIf _
        · exact atWork_nil
  exact ((atWork_tickIf _).append (hinfer _)).append (hmark _ _)

theorem atWork_helloBeats (h : Hub) (c : ClientId) (f : Hello) :
    Meter.AtWork (h.helloBeats env c f) := by
  unfold helloBeats registerBeats
  split
  · exact atWork_nil
  · refine Meter.AtWork.append ?_ ?_
    · split
      · split
        · exact atWork_nil
        · exact atWork_leaveBeats env h _
      · exact atWork_nil
    · split
      · exact atWork_nil
      · dsimp only
        split
        · exact atWork_flushBeats env _ _
        · exact atWork_nil

theorem atWork_ticksBeats (h : Hub) (ns : List Str) : Meter.AtWork (h.ticksBeats env ns) := by
  induction ns generalizing h with
  | nil => exact atWork_nil
  | cons n ns ih =>
    refine Meter.AtWork.append ?_ (ih _)
    unfold tickOneBeats
    split
    · exact atWork_nil
    · split
      · exact atWork_leaveBeats env h _
      · split
        · exact atWork_flushBeats env _ n
        · exact atWork_nil

theorem frameBeats_kind (h : Hub) (c : ClientId) (f : Inbound) :
    Meter.AtWork (h.frameBeats env c f) ∨ ∃ cmd, h.frameBeats env c f = h.commandBeats env cmd := by
  unfold frameBeats
  simp only
  split
  · exact Or.inl atWork_nil
  · cases f with
    | say f => exact Or.inl (atWork_sayBeats env _ _ f)
    | state f =>
      refine Or.inl ?_
      show Meter.AtWork (reportBeats env _ _ f)
      unfold reportBeats
      split
      · exact atWork_flushBeats env _ _
      · exact atWork_nil
    | cmd cmd seq =>
      dsimp only
      split
      · exact Or.inr ⟨cmd, rfl⟩
      · exact Or.inl atWork_nil
    | bye => exact Or.inl (atWork_leaveBeats env _ c)
    | hello f => exact Or.inl atWork_nil
    | roster seq => exact Or.inl atWork_nil
    | pong => exact Or.inl atWork_nil

/-- An operation is at work, or carries out a command. -/
theorem beats_kind (h : Hub) (op : Op F) :
    Meter.AtWork (h.beats env op) ∨ ∃ c, h.beats env op = h.commandBeats env c := by
  cases op with
  | handle c frame =>
    rw [beats]
    cases validate env.isPrintable frame with
    | error e => exact Or.inl atWork_nil
    | ok f =>
      cases f with
      | hello f => exact Or.inl (atWork_helloBeats env h c f)
      | _ => exact frameBeats_kind env h c _
  | disconnect c => exact Or.inl (atWork_leaveBeats env h c)
  | watchdogTick => exact Or.inl (atWork_ticksBeats env _ _)
  | clock now wall => exact Or.inl atWork_nil
  | fail c => exact Or.inl atWork_nil

variable {env}

/-- A command lifts the limit above the round. -/
theorem lifts_commandBeats (hpos : 0 < env.config.maxRounds) (c : Command) :
    Run.Always Meter.beat Meter.Lifts h.meter (h.commandBeats env c) := by
  cases c with
  | resume k pos =>
    refine ⟨fun limit heq => ?_, trivial⟩
    obtain rfl := Beat.lift.inj heq
    show h.round < _
    cases k with
    | none =>
      simp only [flags]
      split
      · omega
      · omega
    | some k =>
      have hk := pos k rfl
      simp only [flags]
      omega
  | freeze => exact ⟨nofun, trivial⟩
  | reset => exact ⟨nofun, trivial⟩
  | mute => trivial
  | unmute => trivial
  | goal text => trivial

/-- A command raises no alarm. -/
theorem alarms_commandBeats (c : Command) :
    (h.meter.run (h.commandBeats env c)).alarms = h.meter.alarms ∧
      ¬ h.meter.Reaches (h.commandBeats env c) := by
  have hnone : ∀ b, b ≠ .tick → (h.meter.beat b).alarms = h.meter.alarms ∧
      ¬ h.meter.Reaches [b] := by
    intro b hb
    refine ⟨by cases b <;> first | exact absurd rfl hb | rfl, ?_⟩
    rintro ⟨pre, post, heq, -⟩
    have hmem : Beat.tick ∈ [b] := by rw [heq]; simp
    exact hb (List.mem_singleton.mp hmem).symm
  have hnil : ¬ h.meter.Reaches [] := by
    rintro ⟨pre, post, heq, -⟩
    simp at heq
  cases c with
  | freeze => exact hnone .stop nofun
  | resume k pos => exact hnone (.lift _) nofun
  | reset => exact hnone .restart nofun
  | mute => exact ⟨rfl, hnil⟩
  | unmute => exact ⟨rfl, hnil⟩
  | goal text => exact ⟨rfl, hnil⟩

theorem safe_step (hpos : 0 < env.config.maxRounds) (hw : h.Wf) (hs : h.meter.Safe) (op : Op F) :
    (h.step env op).meter.Safe := by
  rw [meter_step env hw op]
  refine Meter.safe_run hs ?_
  rcases beats_kind env h op with hwork | ⟨c, heq⟩
  · exact hwork.lifts
  · rw [heq]
    exact lifts_commandBeats hpos c

/-- The round budget of an operation. -/
structure Budgeted (env : Env) (h : Hub) (op : Op F) : Prop where
  meter : (h.step env op).meter = h.meter.run (h.beats env op)
  kind : Meter.AtWork (h.beats env op) ∨ ∃ c, h.beats env op = h.commandBeats env c
  rise : Meter.AtWork (h.beats env op) → .clear ∉ h.beats env op →
    (h.step env op).round = h.round + (h.beats env op).length
  reached : h.frozen = false → h.meter.Reaches (h.beats env op) →
    (h.step env op).frozen = true ∧ (h.step env op).alarms = h.alarms + 1
  silent : h.frozen = true ∨ ¬ h.meter.Reaches (h.beats env op) →
    (h.step env op).alarms = h.alarms

theorem budgeted_step (hw : h.Wf) (op : Op F) : Budgeted env h op := by
  have hmeter := meter_step env hw op
  have hcases := beats_kind env h op
  generalize hbs : h.beats env op = bs at hmeter hcases
  have halarms : (h.step env op).alarms = (h.meter.run bs).alarms := congrArg Meter.alarms hmeter
  have hfrozen : (h.step env op).frozen = (h.meter.run bs).stopped := congrArg Meter.stopped hmeter
  constructor
  case meter => rw [hbs, hmeter]
  case kind => rw [hbs]; exact hcases
  case rise =>
    rw [hbs]
    intro hwork hnone
    exact (congrArg Meter.count hmeter).trans (Meter.count_run hwork hnone)
  case reached =>
    rw [hbs]
    intro hrun hreach
    rcases hcases with hwork | ⟨c, rfl⟩
    · obtain ⟨hstop, halarm⟩ := (Meter.alarms_run hwork hrun).1 hreach
      exact ⟨hfrozen.trans hstop, halarms.trans halarm⟩
    · exact absurd hreach (alarms_commandBeats c).2
  case silent =>
    rw [hbs]
    intro hsilent
    rcases hcases with hwork | ⟨c, rfl⟩
    · rcases hstate : h.frozen with hrun | hstop
      · refine halarms.trans ((Meter.alarms_run hwork hstate).2 (hsilent.resolve_left ?_)).2
        rw [hstate]
        exact Bool.false_ne_true
      · exact halarms.trans (Meter.stopped_run hwork hstate).2
    · exact halarms.trans (alarms_commandBeats c).1

variable (env) in
/-- **Round budget.**  In every run with a limit of at least one, the hub is frozen or below its
limit between any two operations.  In every operation the round follows the beats: one tick for each
say that wakes agents and each flush in which agents speak, and no other; and the limit is announced
once if they reach it on an unfrozen hub, which then is frozen, and otherwise not. -/
theorem round_budget (hpos : 1 ≤ env.config.maxRounds) (records : List MsgRec) (now wall : Rat)
    (ops : List (Op F)) :
    let h := Run.after (Hub.step env) (init env records now wall) ops
    (h.frozen = false → h.round < h.maxRounds) ∧ ∀ op : Op F, Budgeted env h op := by
  intro h
  have hall : h.Wf ∧ h.meter.Safe := Run.preserved (I := fun k : Hub => k.Wf ∧ k.meter.Safe)
    (fun k op hk => ⟨hk.1.step env op, safe_step hpos hk.1 hk.2 op⟩)
    ⟨wf_init env records now wall, ⟨hpos, fun _ => hpos⟩⟩ ops
  exact ⟨hall.2.below, fun op => budgeted_step hall.1 op⟩

/-- An agent wakes another. -/
def oneWake : List (Op PyJson.Token) :=
  [.handle 0 (helloFrame "alice" "agent" []), .handle 1 (helloFrame "bob" "agent" []),
    .handle 0 (sayFrame "bob" "claim" "hi" false)]

theorem round_budget_oneWake :
    let h := Run.after (Hub.step .still) (init .still [] 0 0) oneWake
    h.round = 1 ∧ (h.frozen = false → h.round < h.maxRounds) ∧
      ∀ op : Op PyJson.Token, Budgeted .still h op :=
  ⟨by decide +kernel, round_budget .still (by decide) [] 0 0 oneWake⟩

end

end Hub

end Moot
