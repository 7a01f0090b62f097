import Moot.Hub.Frame
import Moot.Mailbox
import Mathlib.Data.Set.Basic

/-!
# Who is affected

`Hub.Roster h h'`: the step registers nobody and removes nobody, and every
participant keeps its identity.  `Hub.Keeps S T E h h'`: besides, a participant
outside `S` keeps its mail and is not made idle, nothing is delivered outside
`T`, no say is accepted, and unless `E` nobody's `finished` changes and no join,
leave or end of a session is recorded.

Proved here: one lemma for each function that keeps the registry as it is.
-/

namespace Moot
open Py Proto

/-- What a participant holds for its next wake. -/
def Participant.mail (p : Participant) : Mail := ⟨p.name, p.queue, p.queueDropped, p.context⟩

/-- The same registration. -/
structure Participant.Same (p' p : Participant) : Prop where
  name : p'.name = p.name
  kind : p'.kind = p.kind
  role : p'.role = p.role
  caps : p'.caps = p.caps
  client : p'.client = p.client

theorem Participant.Same.refl (p : Participant) : p.Same p := ⟨rfl, rfl, rfl, rfl, rfl⟩

theorem Participant.Same.trans {a b c : Participant} (hab : b.Same a) (hbc : c.Same b) :
    c.Same a :=
  ⟨hbc.name.trans hab.name, hbc.kind.trans hab.kind, hbc.role.trans hab.role,
    hbc.caps.trans hab.caps, hbc.client.trans hab.client⟩

theorem Participant.Same.isObserver {p' p : Participant} (h : p'.Same p) :
    p'.isObserver = p.isObserver := by simp [Participant.isObserver, h.kind]

theorem Participant.Same.hasIdleEvents {p' p : Participant} (h : p'.Same p) :
    p'.hasIdleEvents = p.hasIdleEvents := by simp [Participant.hasIdleEvents, h.caps]

/-- The same registration, with the same mail, and not idle unless it was. -/
structure Participant.Calm (p' p : Participant) : Prop extends p'.Same p where
  mail : p'.mail = p.mail
  idle : p'.state = .idle → p.state = .idle

theorem Participant.Calm.refl (p : Participant) : p.Calm p := ⟨.refl p, rfl, id⟩

theorem Participant.Calm.trans {a b c : Participant} (hab : b.Calm a) (hbc : c.Calm b) :
    c.Calm a :=
  ⟨hab.toSame.trans hbc.toSame, hbc.mail.trans hab.mail, fun h => hab.idle (hbc.idle h)⟩

namespace Hub

/-- Participants stand under their names. -/
def Named (h : Hub) : Prop := ∀ n p, h.get? n = some p → p.name = n

/-- Nobody's `finished` changes, and nothing that could be a reason to is recorded. -/
structure Unmarked (h h' : Hub) : Prop where
  finished : ∀ n p p', h.get? n = some p → h'.get? n = some p' → p'.finished = p.finished
  log : ∃ es, h'.wire.log = h.wire.log ++ es ∧ ∀ e ∈ es, e.marking = false

/-- The registry is as it was. -/
structure Roster (h h' : Hub) : Prop where
  wire : h.wire.Le h'.wire
  keys : h'.participants.keys = h.participants.keys
  dead : h'.dead = h.dead
  now : h'.now = h.now
  wall : h'.wall = h.wall
  same : ∀ n p, h.get? n = some p → ∃ p', h'.get? n = some p' ∧ p'.Same p

structure Keeps (S T : Set Str) (E : Prop) (h h' : Hub) : Prop extends Roster h h' where
  calm : ∀ n, n ∉ S → ∀ p p', h.get? n = some p → h'.get? n = some p' → p'.Calm p
  delivered : ∀ n, n ∉ T → deliveries n h'.wire.log = deliveries n h.wire.log
  counter : h.msgCounter ≤ h'.msgCounter
  recent : h'.recent = h.recent
  said : said h'.wire.log = said h.wire.log
  marks : E ∨ Unmarked h h'

section
variable {S T S' T' : Set Str} {E : Prop} {h h' h'' : Hub}

theorem Roster.refl (h : Hub) : h.Roster h :=
  ⟨.refl _, rfl, rfl, rfl, rfl, fun _ p hp => ⟨p, hp, .refl p⟩⟩

theorem Roster.trans (hab : h.Roster h') (hbc : h'.Roster h'') : h.Roster h'' := by
  refine ⟨hab.wire.trans hbc.wire, hbc.keys.trans hab.keys, hbc.dead.trans hab.dead,
    hbc.now.trans hab.now, hbc.wall.trans hab.wall, fun n p hp => ?_⟩
  obtain ⟨q, hq, hqs⟩ := hab.same n p hp
  obtain ⟨r, hr, hrs⟩ := hbc.same n q hq
  exact ⟨r, hr, hqs.trans hrs⟩

/-- A participant after the step was there before it. -/
theorem Roster.back (hr : h.Roster h') {n : Str} {p' : Participant} (hp : h'.get? n = some p') :
    ∃ p, h.get? n = some p ∧ p'.Same p := by
  have hmem : n ∈ h.participants.keys := by
    rw [← hr.keys]
    exact Dict.mem_keys_iff.mpr ⟨p', hp⟩
  obtain ⟨p, hp0⟩ := Dict.mem_keys_iff.mp hmem
  obtain ⟨q, hq, hqs⟩ := hr.same n p hp0
  rw [hp, Option.some.injEq] at hq
  subst hq
  exact ⟨p, hp0, hqs⟩

theorem Roster.none (hr : h.Roster h') {n : Str} (hn : h.get? n = none) : h'.get? n = none := by
  cases hp : h'.get? n with
  | none => rfl
  | some p' =>
    obtain ⟨p, hp0, -⟩ := hr.back hp
    rw [hn] at hp0
    cases hp0

theorem Roster.named (hr : h.Roster h') (hn : h.Named) : h'.Named := by
  intro n p' hp'
  obtain ⟨p, hp, hs⟩ := hr.back hp'
  rw [hs.name, hn n p hp]

theorem Roster.up (hr : h.Roster h') {c : ClientId} (hc : h'.up c = true) : h.up c = true :=
  hr.wire.down c hc

theorem Unmarked.refl (h : Hub) : h.Unmarked h :=
  ⟨fun n p p' hp hp' => by rw [hp, Option.some.injEq] at hp'; rw [hp'], [], by simp, by simp⟩

theorem calm_refl (h : Hub) (n : Str) (p p' : Participant) (hp : h.get? n = some p)
    (hp' : h.get? n = some p') : p'.Calm p := by
  rw [hp, Option.some.injEq] at hp'
  rw [hp']
  exact .refl p'

theorem Keeps.refl (h : Hub) : Keeps S T E h h :=
  ⟨.refl h, fun n _ => calm_refl h n, fun _ _ => rfl, le_rfl, rfl, rfl, Or.inr (.refl h)⟩

theorem Keeps.trans (hab : Keeps S T E h h') (hbc : Keeps S T E h' h'') : Keeps S T E h h'' := by
  refine ⟨hab.toRoster.trans hbc.toRoster, fun n hn p p'' hp hp'' => ?_, fun n hn => ?_,
    hab.counter.trans hbc.counter, hbc.recent.trans hab.recent, hbc.said.trans hab.said, ?_⟩
  · obtain ⟨p', hp', -⟩ := hab.same n p hp
    exact (hab.calm n hn p p' hp hp').trans (hbc.calm n hn p' p'' hp' hp'')
  · rw [hbc.delivered n hn, hab.delivered n hn]
  · rcases hab.marks, hbc.marks with ⟨hE | hu, hE | hv⟩
    · exact Or.inl hE
    · exact Or.inl hE
    · exact Or.inl hE
    · obtain ⟨es, hes, hes'⟩ := hu.log
      obtain ⟨fs, hfs, hfs'⟩ := hv.log
      refine Or.inr ⟨fun n p p'' hp hp'' => ?_, es ++ fs, by rw [hfs, hes, List.append_assoc], ?_⟩
      · obtain ⟨p', hp', -⟩ := hab.same n p hp
        rw [hv.finished n p' p'' hp' hp'', hu.finished n p p' hp hp']
      · intro e he
        rcases List.mem_append.mp he with he | he
        · exact hes' e he
        · exact hfs' e he

theorem Keeps.mono (hk : Keeps S T E h h') (hS : S ⊆ S') (hT : T ⊆ T') : Keeps S' T' E h h' :=
  { hk with
    calm := fun n hn => hk.calm n fun hm => hn (hS hm)
    delivered := fun n hn => hk.delivered n fun hm => hn (hT hm) }

/-- What a participant is after the step. -/
theorem Keeps.spec (hk : Keeps S T E h h') {n : Str} {p : Participant} (hp : h.get? n = some p) :
    ∃ p', h'.get? n = some p' ∧ p'.Same p ∧ (n ∉ S → p'.Calm p) := by
  obtain ⟨p', hp', hs⟩ := hk.same n p hp
  exact ⟨p', hp', hs, fun hn => hk.calm n hn p p' hp hp'⟩

theorem Keeps.named (hk : Keeps S T E h h') (hn : h.Named) : h'.Named := hk.toRoster.named hn

/-- The participants are as they were. -/
theorem Keeps.ofLog (hw : h.wire.Le h'.wire) (hp : h'.participants = h.participants)
    (hd : h'.dead = h.dead) (hnow : h'.now = h.now) (hwall : h'.wall = h.wall)
    (hcount : h.msgCounter ≤ h'.msgCounter) (hrecent : h'.recent = h.recent)
    (hT : ∀ n, n ∉ T → deliveries n h'.wire.log = deliveries n h.wire.log)
    (hsaid : Moot.said h'.wire.log = Moot.said h.wire.log)
    (hE : E ∨ ∃ es, h'.wire.log = h.wire.log ++ es ∧ ∀ e ∈ es, e.marking = false) :
    Keeps S T E h h' := by
  have hget : ∀ n, h'.get? n = h.get? n := fun n => by rw [get?, hp]; rfl
  refine ⟨⟨hw, by rw [hp], hd, hnow, hwall, fun n p hn => ⟨p, (hget n).trans hn, .refl p⟩⟩,
    fun n _ p p' hn hn' => ?_, hT, hcount, hrecent, hsaid,
    hE.imp_right fun hlog => ⟨fun n p p' hn hn' => ?_, hlog⟩⟩
  · rw [hget] at hn'
    exact calm_refl h n p p' hn hn'
  · rw [hget, hn, Option.some.injEq] at hn'
    rw [hn']

/-- The participants are as they were, and the wire's step is quiet. -/
theorem Keeps.ofWire (hw : h.wire.Quiet h'.wire) (hp : h'.participants = h.participants)
    (hd : h'.dead = h.dead) (hnow : h'.now = h.now) (hwall : h'.wall = h.wall)
    (hcount : h.msgCounter ≤ h'.msgCounter) (hrecent : h'.recent = h.recent) :
    Keeps S T E h h' := by
  obtain ⟨es, hes, hsilent⟩ := hw.silent
  exact .ofLog hw.toLe hp hd hnow hwall hcount hrecent (fun n _ => hw.deliveries n) hw.said
    (Or.inr ⟨es, hes, fun e he => Effect.silent_marking (hsilent e he)⟩)

theorem Quiet.keeps (hq : h.Quiet h') : Keeps S T E h h' :=
  .ofWire hq.wire hq.participants hq.dead (hq.same Hub.now fun _ _ => rfl)
    (hq.same Hub.wall fun _ _ => rfl) (hq.same Hub.msgCounter fun _ _ => rfl).ge
    (hq.same Hub.recent fun _ _ => rfl)

end

/-! ## Updates of participants -/

@[simp] theorem get?_modify_self (h : Hub) (n : Str) (f : Participant → Participant) :
    (h.modify n f).get? n = (h.get? n).map f := by simp [modify, get?]

@[simp] theorem get?_modify_of_ne (h : Hub) {n m : Str} (hne : m ≠ n)
    (f : Participant → Participant) : (h.modify n f).get? m = h.get? m := by
  simp [modify, get?, hne]

@[simp] theorem get?_mapParticipants (h : Hub) (f : Participant → Participant) (n : Str) :
    (h.mapParticipants f).get? n = (h.get? n).map f := by simp [mapParticipants, get?]

section
variable {E : Prop}

theorem unmarked_modify (h : Hub) (n : Str) {f : Participant → Participant}
    (hf : ∀ p, (f p).finished = p.finished) : h.Unmarked (h.modify n f) := by
  refine ⟨fun m p p' hp hp' => ?_, [], by simp [modify], by simp⟩
  by_cases hm : m = n
  · subst hm
    rw [get?_modify_self, hp, Option.map_some, Option.some.injEq] at hp'
    rw [← hp', hf]
  · rw [get?_modify_of_ne h hm, hp, Option.some.injEq] at hp'
    rw [hp']

theorem roster_modify (h : Hub) (n : Str) {f : Participant → Participant}
    (hf : ∀ p, (f p).Same p) : h.Roster (h.modify n f) := by
  refine ⟨.refl _, Dict.keys_modify _ _ _, rfl, rfl, rfl, fun m p hp => ?_⟩
  by_cases hm : m = n
  · subst hm
    exact ⟨f p, by rw [get?_modify_self, hp]; rfl, hf p⟩
  · exact ⟨p, by rw [get?_modify_of_ne h hm, hp], .refl p⟩

theorem keeps_modify (h : Hub) (n : Str) {f : Participant → Participant}
    (hf : ∀ p, (f p).Same p) (hE : E ∨ ∀ p, (f p).finished = p.finished) :
    Keeps {n} ∅ E h (h.modify n f) := by
  refine ⟨roster_modify h n hf, fun m hm p p' hp hp' => ?_, fun _ _ => rfl, le_rfl, rfl, rfl,
    hE.imp_right (unmarked_modify h n)⟩
  rw [get?_modify_of_ne h hm] at hp'
  exact calm_refl h m p p' hp hp'

theorem keeps_modify_calm {S T : Set Str} (h : Hub) (n : Str) {f : Participant → Participant}
    (hf : ∀ p, (f p).Calm p) (hE : E ∨ ∀ p, (f p).finished = p.finished) :
    Keeps S T E h (h.modify n f) := by
  refine ⟨roster_modify h n fun p => (hf p).toSame, fun m _ p p' hp hp' => ?_, fun _ _ => rfl,
    le_rfl, rfl, rfl, hE.imp_right (unmarked_modify h n)⟩
  by_cases hm : m = n
  · subst hm
    rw [get?_modify_self, hp, Option.map_some, Option.some.injEq] at hp'
    rw [← hp']
    exact hf p
  · rw [get?_modify_of_ne h hm] at hp'
    exact calm_refl h m p p' hp hp'

theorem keeps_mapParticipants (h : Hub) {f : Participant → Participant} (S : Set Str)
    (hf : ∀ n p, h.get? n = some p → (f p).Same p ∧ (n ∉ S → (f p).Calm p))
    (hE : E ∨ ∀ p, (f p).finished = p.finished) : Keeps S ∅ E h (h.mapParticipants f) := by
  refine ⟨⟨.refl _, Dict.keys_map _ _, rfl, rfl, rfl,
      fun n p hp => ⟨f p, by rw [get?_mapParticipants, hp]; rfl, (hf n p hp).1⟩⟩,
    fun n hn p p' hp hp' => ?_, fun _ _ => rfl, le_rfl, rfl, rfl,
    hE.imp_right fun hE => ⟨fun n p p' hp hp' => ?_, [], ?_, by simp⟩⟩
  · rw [get?_mapParticipants, hp, Option.map_some, Option.some.injEq] at hp'
    rw [← hp']
    exact (hf n p hp).2 hn
  · rw [get?_mapParticipants, hp, Option.map_some, Option.some.injEq] at hp'
    rw [← hp', hE]
  · simp [mapParticipants]

end

/-! ## Deliveries -/

section
variable (env : Env) {E : Prop} {h : Hub}

theorem deliveries_send (w : Wire) (n m : Str) (c : ClientId) (r : Nat) (msgs : List Msg) :
    deliveries n (w.send env m c (.deliver r msgs)).log =
      deliveries n w.log ++ if m = n then [msgs] else [] := by
  simp only [Wire.send, Wire.tick, Wire.effect, deliveries_append]
  congr 1
  by_cases hm : m = n <;> simp [deliveries, Effect.delivery?, hm]

theorem deliver_eq {n : Str} {p : Participant} (hp : h.get? n = some p) (msgs : List Msg) :
    h.deliver env n msgs =
      if p.isObserver then h.handOut env p (sortById msgs)
      else ((h.handOut env p (sortById msgs)).modify n fun p =>
        { p with state := .busy, busySince := h.now }).touchActivity := by
  rw [deliver, hp]
  rfl

/-- A step that changes only the floor: flags, counters and timers. -/
theorem keeps_floor {S T : Set Str} {E : Prop} {h' : Hub} (hw : h'.wire = h.wire)
    (hp : h'.participants = h.participants) (hd : h'.dead = h.dead) (hnow : h'.now = h.now)
    (hwall : h'.wall = h.wall) (hcount : h.msgCounter ≤ h'.msgCounter)
    (hrecent : h'.recent = h.recent) : Keeps S T E h h' :=
  .ofWire (by rw [hw]; exact .refl _) hp hd hnow hwall hcount hrecent

theorem keeps_touchActivity {S T : Set Str} {E : Prop} (h : Hub) : Keeps S T E h h.touchActivity :=
  keeps_floor rfl rfl rfl rfl rfl le_rfl rfl

theorem keeps_handOut (h : Hub) (p : Participant) (msgs : List Msg) :
    Keeps ∅ {p.name} E h (h.handOut env p msgs) := by
  have hsend : Keeps ∅ {p.name} E h (h.send env p (.deliver h.round msgs)) := by
    refine .ofLog (Wire.le_send env _ _ _ _) rfl rfl rfl rfl le_rfl rfl (fun m hm => ?_)
      ((said_append _ _).trans (List.append_nil _)) (Or.inr ⟨[_], rfl, by simp [Effect.marking]⟩)
    have hne : ¬ p.name = m := Ne.symm hm
    simp only [send, setWire_wire, deliveries_send, if_neg hne, List.append_nil]
  exact hsend.trans (quiet_append _ rfl).keeps

theorem keeps_deliver (hn : h.Named) (n : Str) (msgs : List Msg) :
    Keeps ∅ {n} E h (h.deliver env n msgs) := by
  cases hp : h.get? n with
  | none => rw [deliver, hp]; exact .refl h
  | some p =>
    have hout : Keeps ∅ {n} E h (h.handOut env p (sortById msgs)) := by
      have := keeps_handOut env (E := E) h p (sortById msgs)
      rwa [hn n p hp] at this
    rw [deliver_eq env hp]
    split
    · exact hout
    · have hbusy : Keeps ∅ {n} E (h.handOut env p (sortById msgs))
          ((h.handOut env p (sortById msgs)).modify n fun p =>
            { p with state := .busy, busySince := h.now }) :=
        keeps_modify_calm _ _ (fun q => ⟨⟨rfl, rfl, rfl, rfl, rfl⟩, rfl, fun hi => nomatch hi⟩)
          (Or.inr fun _ => rfl)
      exact (hout.trans hbusy).trans (keeps_touchActivity _)

theorem deliveries_handOut (h : Hub) (p : Participant) (msgs : List Msg) :
    deliveries p.name (h.handOut env p msgs).wire.log =
      deliveries p.name h.wire.log ++ [msgs] := by
  refine ((quiet_append (h.send env p (.deliver h.round msgs)) rfl).wire.deliveries p.name).trans ?_
  simp [send, deliveries_send]

/-- What `n` gets. -/
theorem deliveries_deliver (hn : h.Named) {n : Str} {p : Participant} (hp : h.get? n = some p)
    (msgs : List Msg) :
    deliveries n (h.deliver env n msgs).wire.log = deliveries n h.wire.log ++ [sortById msgs] := by
  have hlog := deliveries_handOut env h p (sortById msgs)
  rw [hn n p hp] at hlog
  rw [deliver_eq env hp]
  split
  · exact hlog
  · exact hlog

/-- An agent is busy after a delivery. -/
theorem get?_deliver {n : Str} {p : Participant} (hp : h.get? n = some p) (msgs : List Msg) :
    (h.deliver env n msgs).get? n =
      some (if p.isObserver then p else { p with state := .busy, busySince := h.now }) := by
  have hp₁ : (h.handOut env p (sortById msgs)).get? n = some p := hp
  rw [deliver_eq env hp]
  split
  · exact hp₁
  · exact (get?_modify_self _ _ _).trans (by rw [hp₁]; rfl)

end

/-! ## Rounds and sessions -/

section
variable (env : Env) {E : Prop} {h : Hub}

theorem keeps_append {S T : Set Str} {E : Prop} (h : Hub) (r : Record)
    (hr : (Effect.append h.wall r).said? = none)
    (hE : E ∨ (Effect.append h.wall r).marking = false) : Keeps S T E h (h.append r) :=
  .ofLog (Wire.le_effect _ _) rfl rfl rfl rfl le_rfl rfl
    (fun n _ => (deliveries_append n _ _).trans (List.append_nil _))
    ((said_append _ _).trans (by simp [said, hr]))
    (hE.imp_right fun hr => ⟨[_], rfl, by simpa using hr⟩)

/-- An event, whichever it is. -/
theorem keeps_emitEvent {S T : Set Str} {E : Prop} (h : Hub) (e : HubEvent) (skip : Option Str)
    (hE : E ∨ (Effect.append h.wall (.event e h.wall)).marking = false) :
    Keeps S T E h (h.emitEvent env e skip) := by
  have htell : Keeps S T E h
      (h.setWire (h.participants.values.foldl (tellEvent env e skip) h.wire)) :=
    (quiet_setWire (quiet_tellAll env e skip _ _)).keeps
  exact htell.trans (keeps_append _ _ rfl hE)

theorem keeps_announceDone {S T : Set Str} (h : Hub) : Keeps S T True h (h.announceDone env) := by
  have hemit : Keeps S T True h (h.emitEvent env (.sessionDone h.round) none) :=
    keeps_emitEvent env h _ none (Or.inl trivial)
  have hstamp : Keeps S T True h
      { h.emitEvent env (.sessionDone h.round) none with sessionDoneAt := some h.wall } :=
    hemit.trans (keeps_floor rfl rfl rfl rfl rfl le_rfl rfl)
  exact hstamp.trans (quiet_notify env _ _ _).keeps

theorem keeps_checkSessionDone {S T : Set Str} (h : Hub) :
    Keeps S T True h (h.checkSessionDone env) := by
  unfold checkSessionDone
  split
  · have hreset : Keeps S T True h { h.announceDone env with round := 0 } :=
      (keeps_announceDone env h).trans (keeps_floor rfl rfl rfl rfl rfl le_rfl rfl)
    refine hreset.trans ((keeps_mapParticipants _ ∅ (fun n p _ => ?_) (Or.inl trivial)).mono
      (Set.empty_subset _) (Set.empty_subset _))
    split
    · exact ⟨.refl p, fun _ => .refl p⟩
    · exact ⟨⟨rfl, rfl, rfl, rfl, rfl⟩, fun _ => ⟨⟨rfl, rfl, rfl, rfl, rfl⟩, rfl, id⟩⟩
  · exact .refl h

theorem get?_announceDone (h : Hub) (n : Str) : (h.announceDone env).get? n = h.get? n := by
  unfold announceDone
  exact congrArg (Dict.get? · n) (quiet_notify env
    { h.emitEvent env (.sessionDone h.round) none with sessionDoneAt := some h.wall } (str "moot")
    (str "session_done — all agents finished")).participants

/-- The check clears the marks of the agents, if the session is at its end. -/
theorem get?_checkSessionDone (h : Hub) (n : Str) :
    (h.checkSessionDone env).get? n = (h.get? n).map fun q =>
      if h.allFinished && !q.isObserver then { q with finished := false } else q := by
  unfold checkSessionDone
  split
  · next hall =>
    have hget := get?_announceDone env h n
    refine (get?_mapParticipants _ _ _).trans ?_
    refine (congrArg (Option.map _) (hget : ({ h.announceDone env with round := 0 } : Hub).get? n =
      h.get? n)).trans ?_
    congr 1
    funext q
    simp only [hall, Bool.true_and]
    by_cases hobs : q.isObserver = true
    · simp [hobs]
    · simp [hobs]
  · next hall =>
    simp only [hall, Bool.false_and, Bool.false_eq_true, if_false, Option.map_id']

theorem keeps_announceLimit {S T : Set Str} {E : Prop} (h : Hub) : Keeps S T E h (h.announceLimit env) := by
  have hfreeze : Keeps S T E h { h with frozen := true } := keeps_floor rfl rfl rfl rfl rfl le_rfl rfl
  exact (hfreeze.trans (keeps_emitEvent env _ _ none (Or.inr rfl))).trans
    (quiet_notify env _ _ _).keeps

theorem keeps_checkRoundLimit {S T : Set Str} {E : Prop} (h : Hub) :
    Keeps S T E h (h.checkRoundLimit env) := by
  unfold checkRoundLimit
  split_ifs
  · exact keeps_announceLimit env h
  · exact (keeps_announceLimit env h).trans (quiet_append _ rfl).keeps
  · exact .refl h

theorem participants_announceLimit (h : Hub) :
    (h.announceLimit env).participants = h.participants :=
  (quiet_notify env _ _ _).participants

theorem participants_checkRoundLimit (h : Hub) :
    (h.checkRoundLimit env).participants = h.participants := by
  unfold checkRoundLimit
  split_ifs
  · exact participants_announceLimit env h
  · exact participants_announceLimit env h
  · rfl

/-! ## The flush -/

theorem same_flushed (p : Participant) : (p.flushed env.config).Same p := ⟨rfl, rfl, rfl, rfl, rfl⟩

/-- The part of a flush behind its guard: it counts as a round, if agents speak in it. -/
theorem flushQueue_counts {n : Str} {p : Participant} (hp : h.get? n = some p)
    (hq : p.queue ≠ []) (hu : h.up p.client = true) :
    ∃ h₁ h₂, h.flushQueue env n = h₂.checkSessionDone env ∧
      ((p.wakeSlice env.config).any (·.sender ≠ systemSender) = true ∧
          h₁ = { h.modify n (·.flushed env.config) with round := h.round + 1 } ∧
          h₂ = (h₁.deliver env n (p.flushBatch env.config)).checkRoundLimit env ∨
        (p.wakeSlice env.config).any (·.sender ≠ systemSender) = false ∧
          h₁ = h.modify n (·.flushed env.config) ∧
          h₂ = h₁.deliver env n (p.flushBatch env.config)) := by
  have hguard : (p.queue.isEmpty || !h.up p.client) = false := by simp [hq, hu]
  rw [flushQueue, hp]
  simp only [hguard, Bool.false_eq_true, if_false]
  split
  · next hagents => exact ⟨_, _, rfl, Or.inl ⟨hagents, rfl, rfl⟩⟩
  · next hnone => exact ⟨_, _, rfl, Or.inr ⟨by simpa using hnone, rfl, rfl⟩⟩

theorem flushQueue_eq {n : Str} {p : Participant} (hp : h.get? n = some p)
    (hq : p.queue ≠ []) (hu : h.up p.client = true) :
    ∃ h₁, (h₁ = (h.modify n (·.flushed env.config)) ∨
        h₁ = { h.modify n (·.flushed env.config) with round := h.round + 1 }) ∧
      ∃ h₂, (h₂ = h₁.deliver env n (p.flushBatch env.config) ∨
        h₂ = (h₁.deliver env n (p.flushBatch env.config)).checkRoundLimit env) ∧
      h.flushQueue env n = h₂.checkSessionDone env := by
  obtain ⟨h₁, h₂, heq, ⟨-, hh₁, hh₂⟩ | ⟨-, hh₁, hh₂⟩⟩ := flushQueue_counts env hp hq hu
  · exact ⟨h₁, Or.inr hh₁, h₂, Or.inr hh₂, heq⟩
  · exact ⟨h₁, Or.inl hh₁, h₂, Or.inl hh₂, heq⟩

/-- A flush that finds nothing to do. -/
theorem flushQueue_skip {n : Str} {p : Participant} (hp : h.get? n = some p)
    (hskip : p.queue = [] ∨ h.up p.client = false) : h.flushQueue env n = h := by
  have hguard : (p.queue.isEmpty || !h.up p.client) = true := by
    rcases hskip with hq | hu
    · simp [hq]
    · simp [hu]
  rw [flushQueue, hp]
  simp only [hguard, if_true]

/-- **What a flush does**, up to the check for the end of the session. -/
theorem flushQueue_spec (hn : h.Named) {n : Str} {p : Participant} (hp : h.get? n = some p)
    (hq : p.queue ≠ []) (hu : h.up p.client = true) :
    ∃ h₂, Keeps {n} {n} E h h₂ ∧ h.flushQueue env n = h₂.checkSessionDone env ∧
      (∃ q, h₂.get? n = some q ∧ q.mail = (p.flushed env.config).mail ∧ q.finished = p.finished ∧
        (p.isObserver = false → q.state = .busy)) ∧
      deliveries n h₂.wire.log =
        deliveries n h.wire.log ++ [sortById (p.flushBatch env.config)] := by
  obtain ⟨h₁, hh₁, h₂, hh₂, heq⟩ := flushQueue_eq env hp hq hu
  have hself : (h.modify n (·.flushed env.config)).get? n = some (p.flushed env.config) := by
    rw [get?_modify_self, hp]; rfl
  have hp₁ : h₁.get? n = some (p.flushed env.config) := by
    rcases hh₁ with rfl | rfl
    · exact hself
    · exact hself
  have hlog₁ : h₁.wire = h.wire := by rcases hh₁ with rfl | rfl <;> rfl
  have hk₁ : Keeps {n} {n} E h h₁ := by
    have hmod : Keeps {n} {n} E h (h.modify n (·.flushed env.config)) :=
      (keeps_modify h n (same_flushed env) (Or.inr fun _ => rfl)).mono (Set.Subset.refl _)
        (Set.empty_subset _)
    rcases hh₁ with rfl | rfl
    · exact hmod
    · exact hmod.trans (keeps_floor rfl rfl rfl rfl rfl le_rfl rfl)
  have hdel : Keeps {n} {n} E h₁ (h₁.deliver env n (p.flushBatch env.config)) :=
    (keeps_deliver env (hk₁.named hn) n _).mono (Set.empty_subset _) (Set.Subset.refl _)
  have hget := get?_deliver env hp₁ (p.flushBatch env.config)
  have hframe := deliveries_deliver env (hk₁.named hn) hp₁ (p.flushBatch env.config)
  rw [hlog₁] at hframe
  have hlast : h₂.participants = (h₁.deliver env n (p.flushBatch env.config)).participants ∧
      Keeps {n} {n} E (h₁.deliver env n (p.flushBatch env.config)) h₂ ∧
      deliveries n h₂.wire.log =
        deliveries n (h₁.deliver env n (p.flushBatch env.config)).wire.log := by
    rcases hh₂ with rfl | rfl
    · exact ⟨rfl, .refl _, rfl⟩
    · refine ⟨participants_checkRoundLimit env _, keeps_checkRoundLimit env _, ?_⟩
      exact (keeps_checkRoundLimit (S := ∅) (T := ∅) (E := E) env _).delivered n (by simp)
  have hget₂ : h₂.get? n = _ := (congrArg (Dict.get? · n) hlast.1).trans hget
  refine ⟨h₂, (hk₁.trans hdel).trans hlast.2.1, heq, ⟨_, hget₂, ?_, ?_, ?_⟩,
    hlast.2.2.trans hframe⟩
  · split <;> rfl
  · split <;> rfl
  · intro hobs
    rw [if_neg (by rw [Bool.not_eq_true]; exact hobs)]

theorem keeps_flushQueue (hn : h.Named) (n : Str) :
    Keeps {n} {n} True h (h.flushQueue env n) := by
  cases hp : h.get? n with
  | none => rw [flushQueue, hp]; exact .refl h
  | some p =>
    by_cases hskip : p.queue = [] ∨ h.up p.client = false
    · rw [flushQueue_skip env hp hskip]
      exact .refl h
    · simp only [not_or, Bool.not_eq_false] at hskip
      obtain ⟨h₂, hk, heq, -⟩ := flushQueue_spec env (E := True) hn hp hskip.1 hskip.2
      rw [heq]
      exact hk.trans (keeps_checkSessionDone env _)

/-! ## Routing -/

theorem keeps_deliverAll (hn : h.Named) (bs : List (Str × List Msg)) :
    Keeps ∅ {n | n ∈ bs.map Prod.fst} E h (h.deliverAll env bs) := by
  induction bs generalizing h with
  | nil => exact .refl h
  | cons b bs ih =>
    have hb : Keeps ∅ {b.1} E h (h.deliver env b.1 b.2) := keeps_deliver env hn b.1 b.2
    refine (hb.mono (Set.Subset.refl _) ?_).trans
      ((ih (hb.named hn)).mono (Set.Subset.refl _) ?_)
    · rintro m rfl
      exact List.mem_cons_self ..
    · exact fun m hm => List.mem_cons_of_mem _ hm

theorem get?_deliver_of_ne (h : Hub) {n m : Str} (hn : n ≠ m) (msgs : List Msg) :
    (h.deliver env m msgs).get? n = h.get? n := by
  cases hp : h.get? m with
  | none => rw [deliver, hp]
  | some p =>
    rw [deliver_eq env hp]
    split
    · rfl
    · exact get?_modify_of_ne (h.handOut env p (sortById msgs)) hn _

/-- Many deliveries leave whom they are not for, and the observers. -/
theorem get?_deliverAll_of_not (h : Hub) (bs : List (Str × List Msg)) {n : Str}
    {q : Participant} (hq : h.get? n = some q) (hnot : q.isObserver = false → n ∉ bs.map Prod.fst) :
    (h.deliverAll env bs).get? n = some q := by
  induction bs generalizing h with
  | nil => exact hq
  | cons b bs ih =>
    refine ih (h.deliver env b.1 b.2) ?_ fun hobs hmem => hnot hobs (List.mem_cons_of_mem _ hmem)
    by_cases hn : n = b.1
    · have hobs : q.isObserver = true := by
        by_contra hagent
        exact hnot (by simpa using hagent) (by simp [hn])
      rw [hn] at hq ⊢
      rw [get?_deliver env hq b.2, if_pos hobs]
    · rw [get?_deliver_of_ne env h hn]
      exact hq

theorem same_enqueue (cfg : Config) (p : Participant) (m : Msg) : (p.enqueue cfg m).Same p := by
  unfold Participant.enqueue
  split <;> exact ⟨rfl, rfl, rfl, rfl, rfl⟩

theorem same_routeOne (up : ClientId → Bool) (msg : Msg) (q : Participant) :
    (routeOne env up msg q).participant.Same q := by
  unfold routeOne
  simp only
  split
  · exact .refl q
  split
  · exact .refl q
  split
  · dsimp only
    split
    · exact .refl q
    · exact ⟨rfl, rfl, rfl, rfl, rfl⟩
  split
  · exact ⟨rfl, rfl, rfl, rfl, rfl⟩
  · exact same_enqueue _ _ _

theorem finished_enqueue (cfg : Config) (p : Participant) (m : Msg) :
    (p.enqueue cfg m).finished = p.finished := by
  unfold Participant.enqueue
  split <;> rfl

theorem finished_routeOne (up : ClientId → Bool) (msg : Msg) (q : Participant) :
    (routeOne env up msg q).participant.finished = q.finished := by
  unfold routeOne
  simp only
  split
  · rfl
  split
  · rfl
  split
  · dsimp only
    split <;> rfl
  split
  · rfl
  · exact finished_enqueue _ _ _

/-- The names on the roster. -/
def names (h : Hub) : Set Str := {n | h.get? n ≠ none}

theorem names_batches (hn : h.Named) (f : Participant → Option (List Msg)) :
    {n | n ∈ (batches f h).map Prod.fst} ⊆ h.names := by
  intro n hmem
  obtain ⟨b, hb, rfl⟩ := List.mem_map.mp hmem
  obtain ⟨q, hq, hfb⟩ := List.mem_filterMap.mp hb
  obtain ⟨m, hm⟩ := Dict.mem_values_iff.mp hq
  obtain ⟨batch, -, rfl⟩ := Option.map_eq_some_iff.mp hfb
  have hname : q.name = m := hn m q hm
  simp only [names, Set.mem_ofPred_eq, hname]
  intro hnone
  rw [show h.get? m = some q from hm] at hnone
  cases hnone

theorem keeps_route (hn : h.Named) (msg : Msg) :
    Keeps Set.univ h.names E h (h.route env msg).1 := by
  have hmap : Keeps Set.univ h.names E h
      (h.mapParticipants fun q => (routeOne env h.up msg q).participant) :=
    (keeps_mapParticipants h Set.univ
      (fun n p _ => ⟨same_routeOne env _ _ p, fun hm => absurd (Set.mem_univ _) hm⟩)
      (Or.inr fun p => finished_routeOne env _ _ p)).mono
      (Set.Subset.refl _) (Set.empty_subset _)
  have hwokenNames := names_batches hn fun q => (routeOne env h.up msg q).woken
  have hobserverNames := names_batches hn fun q => (routeOne env h.up msg q).observed
  unfold route
  simp only
  generalize batches (fun q => (routeOne env h.up msg q).woken) h = woken at hwokenNames ⊢
  generalize batches (fun q => (routeOne env h.up msg q).observed) h = observers at hobserverNames ⊢
  have hround : Keeps Set.univ h.names E h
      (if woken.isEmpty then h.mapParticipants fun q => (routeOne env h.up msg q).participant
        else { h.mapParticipants fun q => (routeOne env h.up msg q).participant with
          round := h.round + 1 }) := by
    split
    · exact hmap
    · exact hmap.trans (keeps_floor rfl rfl rfl rfl rfl le_rfl rfl)
  have hobs := hround.trans ((keeps_deliverAll env (hround.named hn) observers).mono
    (Set.empty_subset _) hobserverNames)
  have hwoken := hobs.trans ((keeps_deliverAll env (hobs.named hn) woken).mono
    (Set.empty_subset _) hwokenNames)
  by_cases hempty : woken.isEmpty = true
  · simp only [hempty, if_true] at hwoken ⊢
    exact hwoken
  · simp only [hempty] at hwoken ⊢
    exact hwoken.trans (keeps_checkRoundLimit env _)

/-! ## Say -/

theorem keeps_noteSay {S T : Set Str} (h : Hub) (p : Participant) (addressee : Str) :
    Keeps S T E h (h.noteSay p addressee) := by
  have hsay : Keeps S T E h (h.modify p.name fun p => { p with lastSay := h.now }) :=
    keeps_modify_calm h p.name (fun q => ⟨⟨rfl, rfl, rfl, rfl, rfl⟩, rfl, id⟩)
      (Or.inr fun _ => rfl)
  unfold noteSay
  simp only
  split_ifs
  · exact hsay
  · exact hsay.trans (keeps_floor rfl rfl rfl rfl rfl le_rfl rfl)
  · exact hsay.trans (keeps_floor rfl rfl rfl rfl rfl le_rfl rfl)

/-- The record of a say, before the recent window takes it in. -/
theorem roster_append (h : Hub) (r : Record) : h.Roster (h.append r) :=
  ⟨Wire.le_effect _ _, rfl, rfl, rfl, rfl, fun _ p hp => ⟨p, hp, .refl p⟩⟩

theorem keeps_countSay {S T : Set Str} (h : Hub) (p : Participant) (f : Say) :
    Keeps S T E h (h.countSay p f) := by
  have hcount : Keeps S T E h { h with msgCounter := h.msgCounter + 1 } :=
    keeps_floor rfl rfl rfl rfl rfl (Nat.le_succ _) rfl
  exact hcount.trans (keeps_noteSay _ p f.addressee)

theorem roster_remember (h : Hub) (p : Participant) (f : Say) : h.Roster (h.remember env p f) := by
  have hcount : Keeps ∅ ∅ False h (h.countSay p f) := keeps_countSay h p f
  have happend := hcount.toRoster.trans
    (roster_append (h.countSay p f) (.msg (h.countSay p f).round (recordOf (h.sayMsg p f))))
  exact ⟨happend.wire, happend.keys, happend.dead, happend.now, happend.wall, happend.same⟩

theorem keeps_answer {S T : Set Str} {E : Prop} (h : Hub) (p : Participant) (f : Say) (id queuedFor : Nat) :
    Keeps S T E h (h.answer env p f id queuedFor) := by
  have hsaid : Keeps S T E h (h.send env p (.said id queuedFor f.seq)) :=
    (quiet_send env h p (by simp)).keeps
  unfold answer
  simp only
  split
  · exact (hsaid.trans (quiet_notify env _ _ _).keeps).trans (keeps_touchActivity _)
  · exact hsaid.trans (keeps_touchActivity _)

theorem roster_accept (hn : h.Named) (p : Participant) (f : Say) :
    h.Roster (h.accept env p f) := by
  have hrem := roster_remember env h p f
  have hroute := keeps_route env (E := False) (hrem.named hn) (h.sayMsg p f)
  have hanswer := keeps_answer env (S := ∅) (T := ∅) (E := False)
    ((h.remember env p f).route env (h.sayMsg p f)).1 p f (h.msgCounter + 1)
    ((h.remember env p f).route env (h.sayMsg p f)).2
  exact (hrem.trans hroute.toRoster).trans hanswer.toRoster

/-- A refusal leaves everybody as they are. -/
theorem keeps_refuse {S T : Set Str} {E : Prop} (h : Hub) (p : Participant) (f : Say) (code detail : Str)
    (r : Option Rat) : Keeps S T E h (h.refuse env p f code detail r) :=
  (quiet_refuse env h p f code detail r).keeps

/-- What the checks of a say have cost its sender. -/
inductive Charged (h : Hub) (n : Str) (f : Say) : Hub → Prop
  | free : Charged h n f h
  | rated (b : TokenBucket) : Charged h n f (h.modify n fun p => { p with bucket := b })
  | seen (b : TokenBucket) (d : DedupWindow) :
      Charged h n f ((h.encodeText (dedupText f.addressee f.text f.priv)).modify n
        fun p => { p with bucket := b, dedup := d })

/-- A say is accepted or refused, once the sender is charged. -/
theorem routeSay_cases {n : Str} {p : Participant} (hp : h.get? n = some p) (f : Say) :
    ∃ h₀, Charged h n f h₀ ∧
      (h.routeSay env n f = (true, h₀.accept env p f) ∨
        ∃ code detail retry, h.routeSay env n f = (false, h₀.refuse env p f code detail retry)) := by
  rw [routeSay, hp]
  simp only
  split_ifs
  · exact ⟨h, .free, Or.inr ⟨_, _, _, rfl⟩⟩
  · exact ⟨h, .free, Or.inr ⟨_, _, _, rfl⟩⟩
  · exact ⟨h, .free, Or.inr ⟨_, _, _, rfl⟩⟩
  · exact ⟨h, .free, Or.inl rfl⟩
  · exact ⟨_, .rated _, Or.inr ⟨_, _, _, rfl⟩⟩
  · exact ⟨_, .seen _ _, Or.inr ⟨_, _, _, rfl⟩⟩
  · exact ⟨_, .seen _ _, Or.inl rfl⟩

theorem Charged.keeps {S T : Set Str} {n : Str} {f : Say} {h₀ : Hub} (hc : Charged h n f h₀) :
    Keeps S T E h h₀ := by
  cases hc with
  | free => exact .refl h
  | rated b =>
    exact keeps_modify_calm h n (fun q => ⟨⟨rfl, rfl, rfl, rfl, rfl⟩, rfl, id⟩)
      (Or.inr fun _ => rfl)
  | seen b d =>
    exact (quiet_encodeText h _).keeps.trans (keeps_modify_calm _ n
      (fun q => ⟨⟨rfl, rfl, rfl, rfl, rfl⟩, rfl, id⟩) (Or.inr fun _ => rfl))

theorem roster_routeSay (hn : h.Named) (n : Str) (f : Say) :
    h.Roster (h.routeSay env n f).2 := by
  cases hp : h.get? n with
  | none => rw [routeSay, hp]; exact .refl h
  | some p =>
    obtain ⟨h₀, hc, heq | ⟨code, detail, retry, heq⟩⟩ := routeSay_cases env hp f
    · rw [heq]
      have hcharged : Keeps ∅ ∅ False h h₀ := hc.keeps
      exact hcharged.toRoster.trans (roster_accept env (hcharged.named hn) p f)
    · rw [heq]
      exact (hc.keeps (S := ∅) (T := ∅) (E := False)).toRoster.trans
        (keeps_refuse env (S := ∅) (T := ∅) (E := False) _ _ _ _ _ _).toRoster

theorem keeps_setFinished {S T : Set Str} (h : Hub) (n : Str) (b : Bool) :
    Keeps S T True h (h.modify n fun p => { p with finished := b }) :=
  keeps_modify_calm h n (fun _ => ⟨⟨rfl, rfl, rfl, rfl, rfl⟩, rfl, id⟩) (Or.inl trivial)

theorem keeps_markDone {S T : Set Str} (h : Hub) (n : Str) :
    Keeps S T True h (h.markDone env n) :=
  (keeps_setFinished h n true).trans (keeps_checkSessionDone env _)

theorem keeps_setIdle (h : Hub) (n : Str) : Keeps {n} ∅ E h (h.modify n (·.setIdle)) :=
  keeps_modify h n (fun _ => ⟨rfl, rfl, rfl, rfl, rfl⟩) (Or.inr fun _ => rfl)

theorem keeps_inferIdle (hn : h.Named) (n : Str) : Keeps {n} {n} True h (h.inferIdle env n) := by
  unfold inferIdle
  split
  · exact .refl h
  · split
    · have hidle : Keeps {n} {n} True h (h.modify n (·.setIdle)) :=
        (keeps_setIdle h n).mono (Set.Subset.refl _) (Set.empty_subset _)
      exact hidle.trans (keeps_flushQueue env (hidle.named hn) n)
    · exact .refl h

theorem keeps_settle (hn : h.Named) (n : Str) (f : Say) (accepted : Bool) :
    Keeps {n} {n} True h (h.settle env n f accepted) := by
  have hinfer := keeps_inferIdle env hn n
  unfold settle
  simp only
  split
  · exact hinfer
  · split
    · split
      · exact hinfer.trans (keeps_markDone env _ n)
      · exact hinfer.trans (keeps_setFinished _ n false)
    · exact hinfer

theorem roster_handleSay (hn : h.Named) (n : Str) (f : Say) : h.Roster (h.handleSay env n f) := by
  have hroute := roster_routeSay env hn n f
  exact hroute.trans (keeps_settle env (hroute.named hn) n f _).toRoster

/-! ## State, commands, roster -/

/-- What a report does before the flush. -/
theorem keeps_report {T : Set Str} (h : Hub) (n : Str) {f : Participant → Participant}
    (hf : ∀ q, (f q).Same q) (hE : ∀ q, (f q).finished = q.finished) :
    Keeps {n} T E h (h.modify n f) :=
  (keeps_modify h n hf (Or.inr hE)).mono (Set.Subset.refl _) (Set.empty_subset _)

theorem keeps_handleState (hn : h.Named) (n : Str) (f : Report) :
    Keeps {n} {n} True h (h.handleState env n f) := by
  unfold handleState
  split
  · exact .refl h
  · next p hp =>
    simp only
    have h₁ : Keeps {n} {n} True h (h.modify n (·.setState h.now f.state)) :=
      keeps_report h n (fun _ => ⟨rfl, rfl, rfl, rfl, rfl⟩) fun _ => rfl
    split
    · split
      · have h₂ := h₁.trans (keeps_report _ n
          (f := fun p => { p with blockedSince := some h.now, blockedDetail := f.detail })
          (fun _ => ⟨rfl, rfl, rfl, rfl, rfl⟩) fun _ => rfl)
        exact h₂.trans (keeps_floor rfl rfl rfl rfl rfl le_rfl rfl)
      · exact h₁
    · have h₂ := h₁.trans (keeps_report _ n
        (f := fun p => { p with blockedSince := none, blockedDetail := none })
        (fun _ => ⟨rfl, rfl, rfl, rfl, rfl⟩) fun _ => rfl)
      split
      · exact h₂.trans (keeps_flushQueue env (h₂.named hn) n)
      · exact h₂

theorem keeps_systemNote (hn : h.Named) (text : Str) (n : Str) :
    Keeps {n} {n} E h (h.systemNote env text n) := by
  unfold systemNote
  split
  · exact .refl h
  · next p hp =>
    split
    · exact .refl h
    · simp only
      have hcount : Keeps {n} {n} E h { h with msgCounter := h.msgCounter + 1 } :=
        keeps_floor rfl rfl rfl rfl rfl (Nat.le_succ _) rfl
      split
      · have hdrain := hcount.trans (keeps_report { h with msgCounter := h.msgCounter + 1 } n
          (f := fun p' => { p' with context := (p.context.drain (some (h.msgCounter + 1))).2 })
          (fun _ => ⟨rfl, rfl, rfl, rfl, rfl⟩) fun _ => rfl)
        exact hdrain.trans ((keeps_deliver env (hdrain.named hn) n _).mono (Set.empty_subset _)
          (Set.Subset.refl _))
      · exact hcount.trans (keeps_report _ n (same_enqueue _ · _) (finished_enqueue _ · _))

theorem keeps_systemNotes (hn : h.Named) (text : Str) (ns : List Str) :
    Keeps {n | n ∈ ns} {n | n ∈ ns} E h (ns.foldl (systemNote env text) h) := by
  induction ns generalizing h with
  | nil => exact .refl h
  | cons n ns ih =>
    have hone : Keeps {n} {n} E h (h.systemNote env text n) := keeps_systemNote env hn text n
    refine (hone.mono ?_ ?_).trans ((ih (hone.named hn)).mono ?_ ?_)
    · rintro m rfl; exact List.mem_cons_self ..
    · rintro m rfl; exact List.mem_cons_self ..
    · exact fun m hm => List.mem_cons_of_mem _ hm
    · exact fun m hm => List.mem_cons_of_mem _ hm

theorem keeps_systemMessage (hn : h.Named) (text : Str) :
    Keeps Set.univ Set.univ E h (h.systemMessage env text) :=
  (keeps_systemNotes env hn text _).mono (Set.subset_univ _) (Set.subset_univ _)

theorem keeps_bufferGoal (h : Hub) (text : Str) : Keeps Set.univ ∅ E h (h.bufferGoal text) := by
  refine keeps_mapParticipants h Set.univ
    (fun n p _ => ⟨?_, fun hm => absurd (Set.mem_univ _) hm⟩) (Or.inr fun p => ?_)
  · split
    · exact .refl p
    · exact ⟨rfl, rfl, rfl, rfl, rfl⟩
  · split <;> rfl

theorem keeps_runCommand (hn : h.Named) (c : Command) :
    Keeps Set.univ Set.univ E h (h.runCommand env c) := by
  have hflag : ∀ (h' : Hub) (e : HubEvent), h'.wire = h.wire → h'.participants = h.participants →
      h'.dead = h.dead → h'.now = h.now → h'.wall = h.wall → h'.msgCounter = h.msgCounter →
      h'.recent = h.recent → (Effect.append h'.wall (.event e h'.wall)).marking = false →
      Keeps Set.univ Set.univ E h (h'.emitEvent env e none) :=
    fun h' e hw hp hd hnow hwall hcount hrecent he =>
      (keeps_floor hw hp hd hnow hwall hcount.ge hrecent).trans
        (keeps_emitEvent env h' e none (Or.inr he))
  cases c with
  | freeze => exact hflag { h with frozen := true } _ rfl rfl rfl rfl rfl rfl rfl rfl
  | resume n => exact hflag { h with maxRounds := _, frozen := false } _ rfl rfl rfl rfl rfl rfl rfl rfl
  | reset => exact hflag { h with round := 0, frozen := false } _ rfl rfl rfl rfl rfl rfl rfl rfl
  | mute =>
    have hk := hflag { h with muted := true } .muted rfl rfl rfl rfl rfl rfl rfl rfl
    exact hk.trans (keeps_systemMessage env (hk.named hn) _)
  | unmute =>
    have hk := hflag { h with muted := false } .unmuted rfl rfl rfl rfl rfl rfl rfl rfl
    exact hk.trans (keeps_systemMessage env (hk.named hn) _)
  | goal text =>
    have hk := hflag { h with goal := text } (.goalSet text) rfl rfl rfl rfl rfl rfl rfl rfl
    exact (hk.trans ((keeps_bufferGoal _ text).mono (Set.Subset.refl _) (Set.empty_subset _))).trans
      (quiet_writeGoal _ _).keeps

theorem keeps_handleCmd (hn : h.Named) (n : Str) (c : Command) (seq : Option Int) :
    Keeps Set.univ Set.univ E h (h.handleCmd env n c seq) := by
  unfold handleCmd
  split
  · exact .refl h
  · next p hp =>
    split
    · exact (quiet_err env h p _ _ _ _).keeps
    · exact ((keeps_runCommand env hn c).trans (keeps_touchActivity _)).trans
        (quiet_send env _ p (by simp)).keeps

/-! ## Watchdog -/

theorem keeps_pingSilent {S T : Set Str} (h : Hub) (n : Str) (p : Participant) :
    Keeps S T E h (h.pingSilent env n p) := by
  unfold pingSilent
  split
  · have hping : Keeps S T E h (h.modify n fun p =>
        { p with awaitingPong := true, pongDeadline := h.now + env.config.pongTimeout }) :=
      keeps_modify_calm h n (fun _ => ⟨⟨rfl, rfl, rfl, rfl, rfl⟩, rfl, id⟩) (Or.inr fun _ => rfl)
    exact hping.trans (quiet_send env _ p (by simp)).keeps
  · exact .refl h

theorem keeps_assumeIdle (hn : h.Named) (n : Str) (p : Participant) :
    Keeps {n} {n} True h (h.assumeIdle env n p) := by
  unfold assumeIdle
  split
  · have hidle : Keeps {n} {n} True h (h.modify n (·.setIdle)) :=
      (keeps_setIdle h n).mono (Set.Subset.refl {n}) (Set.empty_subset {n})
    have hstall := hidle.trans (keeps_emitEvent env (h.modify n (·.setIdle))
      (.stall (str "no sign of life from " ++ p.name ++ str ", assumed idle")) none (Or.inr rfl))
    exact hstall.trans (keeps_flushQueue env (hstall.named hn) n)
  · exact .refl h

theorem keeps_notifyBlocked {S T : Set Str} {E : Prop} (h : Hub) (n : Str) :
    Keeps S T E h (h.notifyBlocked env n) := by
  unfold notifyBlocked
  split
  · exact .refl h
  · next p hp =>
    split
    · have hnote : Keeps S T E h { h with blockedNotified := h.blockedNotified ++ [n] } :=
        keeps_floor rfl rfl rfl rfl rfl le_rfl rfl
      exact (hnote.trans (keeps_emitEvent env _ _ none (Or.inr rfl))).trans (quiet_notify env _ _ _).keeps
    · exact .refl h

theorem keeps_checkQuorum {S T : Set Str} {E : Prop} (h : Hub) : Keeps S T E h (h.checkQuorum env) := by
  unfold checkQuorum
  split
  · exact .refl h
  · split
    · simp only
      have hlatch : Keeps S T E h { h with quorumLatched := true } := keeps_floor rfl rfl rfl rfl rfl le_rfl rfl
      split
      · exact hlatch.trans (keeps_emitEvent env _ _ none (Or.inr rfl))
      · exact (hlatch.trans (keeps_emitEvent env _ _ none (Or.inr rfl))).trans (quiet_notify env _ _ _).keeps
    · exact .refl h

theorem keeps_checkStall {S T : Set Str} {E : Prop} (h : Hub) : Keeps S T E h (h.checkStall env) := by
  unfold checkStall
  split
  · have hlatch : Keeps S T E h { h with stallLatched := true } := keeps_floor rfl rfl rfl rfl rfl le_rfl rfl
    exact (hlatch.trans (keeps_emitEvent env _ _ none (Or.inr rfl))).trans (quiet_notify env _ _ _).keeps
  · exact .refl h

theorem keeps_lifeSign {S T : Set Str} (h : Hub) (n : Str) : Keeps S T E h (h.lifeSign n) :=
  keeps_modify_calm h n (fun _ => ⟨⟨rfl, rfl, rfl, rfl, rfl⟩, rfl, id⟩) (Or.inr fun _ => rfl)

end

end Hub

end Moot
