import Moot.Hub.Ownership
import Moot.Hub.Stroke

/-!
# Deeds

A deed (`Hub.Deed`) is a small part of an operation with exactly what it does: one
line on the wire, one event, one field of a registration.  It is finer than a
stroke, for properties that look at the timers, at single events or at what an
observer is sent.

Proved here: `handles_deeds`, every handler is a sequence of deeds, but for the two
checks that end a tick; with `deeds_step` and `deeds_ticks` for the operations.
-/

namespace Moot
open Py Proto

/-- The effect is neither a record nor a frame, but for a refusal or a ping. -/
def Effect.murmur : Effect → Bool
  | .send _ _ _ (.err ..) | .send _ _ _ .ping => true
  | .send .. | .append .. => false
  | _ => true

/-- The record is neither a message, a delivery nor an event of the floor. -/
def Record.passing : Record → Bool
  | .roomDeclared .. | .freezeWithoutObserver _ => true
  | _ => false

/-- What the assume-idle timer says of `m`. -/
def presumedIdle (m : Str) : Str := str "no sign of life from " ++ m ++ str ", assumed idle"

/-- The event tells of a refusal or of an assumption. -/
def HubEvent.Passing : HubEvent → Prop
  | .rejected .. => True
  | .stall detail => ∃ m, detail = presumedIdle m
  | _ => False

/-- Only the limits on talk and the timers of the connection differ. -/
def Participant.Timed (p' p : Participant) : Prop :=
  p' = { p with
    bucket := p'.bucket, dedup := p'.dedup, lastRx := p'.lastRx
    awaitingPong := p'.awaitingPong, pongDeadline := p'.pongDeadline }

/-- Only the mail differs. -/
def Participant.Mailed (p' p : Participant) : Prop :=
  p' = { p with queue := p'.queue, queueDropped := p'.queueDropped, context := p'.context }

theorem Participant.Timed.same {p' p : Participant} (ht : p'.Timed p) : p'.Same p := by
  rw [ht]
  exact ⟨rfl, rfl, rfl, rfl, rfl⟩

theorem Participant.Mailed.same {p' p : Participant} (hm : p'.Mailed p) : p'.Same p := by
  rw [hm]
  exact ⟨rfl, rfl, rfl, rfl, rfl⟩

theorem Participant.Mailed.state {p' p : Participant} (hm : p'.Mailed p) : p'.state = p.state := by
  rw [hm]

theorem mailed_enqueue (cfg : Config) (p : Participant) (m : Msg) : (p.enqueue cfg m).Mailed p := by
  unfold Participant.enqueue
  split <;> rfl

theorem mailed_refl (p : Participant) : p.Mailed p := rfl

namespace Hub

theorem mailed_routeOne (env : Env) (up : ClientId → Bool) (msg : Msg) (q : Participant) :
    (routeOne env up msg q).participant.Mailed q := by
  unfold routeOne
  simp only
  split
  · rfl
  · split
    · rfl
    · split
      · split <;> rfl
      · split
        · rfl
        · exact mailed_enqueue _ _ _

/-- The step only murmurs. -/
structure Murmurs (h h' : Hub) : Prop extends Quiet h h' where
  murmur : ∃ es, h'.wire.log = h.wire.log ++ es ∧ ∀ e ∈ es, e.murmur = true

/-- The step changes counters only. -/
structure Counts (h h' : Hub) : Prop where
  rest : h' = { h with round := h'.round, msgCounter := h'.msgCounter }
  counter : h.msgCounter ≤ h'.msgCounter

/-- The report of `n`, up to the flush. -/
def report (h : Hub) (n : Str) (f : Report) : Hub :=
  match h.get? n with
  | none => h
  | some p =>
    { h.modify n (reported h.now f) with
      blockedNotified :=
        if f.state = .blocked ∧ (p.state ≠ .blocked ∨ p.blockedDetail ≠ f.detail) then
          h.blockedNotified.filter (· ≠ n)
        else h.blockedNotified }

/-- The event of a command. -/
def commandEvent (env : Env) (h : Hub) : Command → HubEvent
  | .freeze => .frozen h.round
  | .resume n ok => .resumed h.round (h.flags env (.resume n ok)).maxRounds
  | .reset => .reset h.round h.maxRounds
  | .mute => .muted
  | .unmute => .unmuted
  | .goal text _ => .goalSet text

/-- One small part of an operation, on a frame that meets `A`. -/
inductive Deed (env : Env) (A : Filter) : Hub → Hub → Prop
  | murmured {h h'} (hm : Murmurs h h') : Deed env A h h'
  | told {h} (e : HubEvent) (he : e.Passing) : Deed env A h (h.emitEvent env e none)
  | recorded {h} (r : Record) (hr : r.passing = true) : Deed env A h (h.append r)
  | timed {h n} {g : Participant → Participant} (hg : ∀ q, (g q).Timed q) :
      Deed env A h (h.modify n g)
  | mailed {h n} {g : Participant → Participant} (hg : ∀ q, (g q).Mailed q) :
      Deed env A h (h.modify n g)
  | mailedAll {h} {g : Participant → Participant} (hg : ∀ q, (g q).Mailed q) :
      Deed env A h (h.mapParticipants g)
  | counted {h h'} (hc : Counts h h') : Deed env A h h'
  | reported {h n p} {f : Report} (hp : h.get? n = some p) (hA : A n p.kind (.state f)) :
      Deed env A h (h.report n f)
  | inferred {h n p} (hp : h.get? n = some p) (hcaps : p.hasIdleEvents = false)
      (hbusy : p.state ≠ .idle) : Deed env A h (h.modify n (·.setIdle))
  | delivered {h n p} (msgs : List Msg) (hp : h.get? n = some p)
      (hidle : p.isObserver = false → p.state = .idle) : Deed env A h (h.deliver env n msgs)
  | limited {h} : Deed env A h (h.announceLimit env)
  | ended {h} (hall : h.allFinished = true) : Deed env A h (h.checkSessionDone env)
  | marked {h n p} (b : Bool) (hp : h.get? n = some p) (hobs : p.isObserver = false) :
      Deed env A h (h.modify n fun p => { p with finished := b })
  | remembered {h n p q} {f : Say} (hq : h.get? n = some q) (hs : q.Same p)
      (hA : A n p.kind (.say f)) : Deed env A h (h.remember env p f)
  | answered {h n p q} {f : Say} (id k : Nat) (hq : h.get? n = some q) (hs : q.Same p)
      (hA : A n p.kind (.say f)) : Deed env A h (h.answer env p f id k)
  | flagged {h n p c seq} (hp : h.get? n = some p) (hobs : p.isObserver = true)
      (hA : A n p.kind (.cmd c seq)) :
      Deed env A h ((h.flags env c).emitEvent env (h.commandEvent env c) none)
  | okayed {h n p q c seq} (hq : h.get? n = some q) (hs : q.Same p) (hobs : p.isObserver = true)
      (hA : A n p.kind (.cmd c seq)) : Deed env A h (h.touchActivity.send env p (.ok seq))
  | polled {h} (n : Str) (seq : Option Int) : Deed env A h (h.handleRoster env n seq)
  | alarmed {h} (n : Str) : Deed env A h (h.notifyBlocked env n)
  | left {h n p} (hp : h.get? n = some p) : Deed env A h (h.leave env n p)
  | joined {h c} {f : Hello} (hc : (h.wire.clients c).name = []) (hfree : h.get? f.name = none)
      (hA : A f.name f.kind (.hello f)) : Deed env A h (registered env c f h)

/-- A sequence of deeds. -/
abbrev Deeds (env : Env) (A : Filter) : Hub → Hub → Prop := Relation.ReflTransGen (Deed env A)

section
variable {env : Env} {A : Filter} {h h' h'' : Hub} {n : Str} {p : Participant}

theorem Deed.one (hd : Deed env A h h') : Deeds env A h h' := .single hd

/-! ## Murmurs -/

variable (env) in
theorem murmurs_send (h : Hub) (p : Participant) {f : Frame}
    (hf : (Effect.send p.name p.client (h.up p.client) f).murmur = true) :
    h.Murmurs (h.send env p f) := by
  refine ⟨quiet_send env h p ?_, [_], rfl, ?_⟩
  · rintro r ms rfl
    cases hf
  · intro e he
    rw [List.mem_singleton.mp he]
    exact hf

variable (env) in
theorem murmurs_errRaw (h : Hub) (c : ClientId) (code detail : Str) (seq : Option Int) :
    h.Murmurs (h.errRaw env c code detail seq) :=
  ⟨quiet_errRaw env h c _ _ _, [_], rfl, by simp [Effect.murmur]⟩

theorem murmurs_encodeText (h : Hub) (s : Str) : h.Murmurs (h.encodeText s) :=
  ⟨quiet_encodeText h s, [_], rfl, by simp [Effect.murmur]⟩

theorem murmurs_writeGoal (h : Hub) (text : Str) : h.Murmurs (h.writeGoal text) :=
  ⟨quiet_writeGoal h text, [_], rfl, by simp [Effect.murmur]⟩

theorem murmurs_close (h : Hub) (c : ClientId) : h.Murmurs (h.close c) :=
  ⟨quiet_setWire (Wire.quiet_close _ _), [_], rfl, by simp [Effect.murmur]⟩

theorem murmurs_fail (h : Hub) (c : ClientId) : h.Murmurs (h.setWire { h.wire with
    clients := Function.update h.wire.clients c { h.wire.clients c with connected := false } }) :=
  ⟨(talks_fail h c).toQuiet, [], (List.append_nil _).symm, nofun⟩

/-! ## What is logged -/

/-- Everything the step logs meets `P`. -/
def Wrote (P : Effect → Prop) (h h' : Hub) : Prop :=
  ∃ es, h'.wire.log = h.wire.log ++ es ∧ ∀ e ∈ es, P e

section
variable {P : Effect → Prop}

theorem Wrote.trans (hab : Wrote P h h') (hbc : Wrote P h' h'') : Wrote P h h'' := by
  obtain ⟨es, hes, hP⟩ := hab
  obtain ⟨fs, hfs, hQ⟩ := hbc
  refine ⟨es ++ fs, by rw [hfs, hes, List.append_assoc], ?_⟩
  intro e he
  rcases List.mem_append.mp he with he | he
  · exact hP e he
  · exact hQ e he

theorem wrote_nothing (hlog : h'.wire.log = h.wire.log) : Wrote P h h' :=
  ⟨[], by rw [hlog, List.append_nil], nofun⟩

theorem wrote_one {e : Effect} (hlog : h'.wire.log = h.wire.log ++ [e]) (he : P e) : Wrote P h h' :=
  ⟨[e], hlog, fun x hx => by rw [List.mem_singleton.mp hx]; exact he⟩

theorem Murmurs.wrote (hm : h.Murmurs h') (hP : ∀ e : Effect, e.murmur = true → P e) :
    Wrote P h h' := by
  obtain ⟨es, hes, hall⟩ := hm.murmur
  exact ⟨es, hes, fun e he => hP e (hall e he)⟩

variable (env) in
theorem wrote_notify (h : Hub) (title message : Str) (hnote : ∀ t m, P (.notify t m)) :
    Wrote P h (h.notify env title message) := by
  unfold notify
  split
  · exact wrote_one rfl (hnote _ _)
  · exact wrote_nothing rfl

variable (env) in
theorem wrote_tellAll (e : HubEvent) (skip : Option Str)
    (hsend : ∀ n c up, P (.send n c up (.event e))) (ps : List Participant) (w : Wire) :
    ∃ es, (ps.foldl (tellEvent env e skip) w).log = w.log ++ es ∧ ∀ x ∈ es, P x := by
  induction ps generalizing w with
  | nil => exact ⟨[], (List.append_nil _).symm, nofun⟩
  | cons p ps ih =>
    obtain ⟨es, hes, hall⟩ := ih (tellEvent env e skip w p)
    rw [List.foldl_cons, hes]
    unfold tellEvent
    split
    · refine ⟨_ :: es, by rw [Wire.send, Wire.tick, Wire.effect, List.append_assoc]; rfl, ?_⟩
      intro x hx
      rcases List.mem_cons.mp hx with rfl | hx
      · exact hsend _ _ _
      · exact hall x hx
    · exact ⟨es, rfl, hall⟩

variable (env) in
/-- An event goes to observers and on the record. -/
theorem wrote_emitEvent (h : Hub) (e : HubEvent) (skip : Option Str)
    (hsend : ∀ n c up, P (.send n c up (.event e))) (hrec : P (.append h.wall (.event e h.wall))) :
    Wrote P h (h.emitEvent env e skip) := by
  have htell : Wrote P h (h.setWire (h.participants.values.foldl (tellEvent env e skip) h.wire)) :=
    wrote_tellAll env e skip hsend _ _
  exact htell.trans (wrote_one rfl hrec)

variable (env) in
/-- A delivery is one frame and one record. -/
theorem wrote_deliver (h : Hub) (n : Str) (msgs : List Msg)
    (hsend : ∀ m c up r ms, P (.send m c up (.deliver r ms)))
    (hrec : ∀ p, h.get? n = some p → ∀ w r ids heard ts, P (.append w (.deliver p.name r ids heard ts))) :
    Wrote P h (h.deliver env n msgs) := by
  cases hp : h.get? n with
  | none =>
    rw [deliver, hp]
    exact wrote_nothing rfl
  | some p =>
    have hout : Wrote P h (h.handOut env p (sortById msgs)) := by
      have hfirst : Wrote P h (h.send env p (.deliver h.round (sortById msgs))) :=
        wrote_one rfl (hsend _ _ _ _ _)
      exact hfirst.trans (wrote_one rfl (hrec p hp _ _ _ _ _))
    rw [deliver_eq env hp]
    split
    · exact hout
    · exact hout.trans (wrote_nothing rfl)

variable (env) in
theorem wrote_announceLimit (h : Hub) (hnote : ∀ t m, P (.notify t m))
    (hsend : ∀ n c up r m, P (.send n c up (.event (.roundLimit r m))))
    (hrec : ∀ w r m ts, P (.append w (.event (.roundLimit r m) ts))) :
    Wrote P h (h.announceLimit env) :=
  (wrote_emitEvent env { h with frozen := true } _ none (fun _ _ _ => hsend _ _ _ _ _)
    (hrec _ _ _ _)).trans (wrote_notify env _ _ _ hnote)

variable (env) in
theorem wrote_checkSessionDone (h : Hub) (hnote : ∀ t m, P (.notify t m))
    (hsend : ∀ n c up r, P (.send n c up (.event (.sessionDone r))))
    (hrec : ∀ w r ts, P (.append w (.event (.sessionDone r) ts))) :
    Wrote P h (h.checkSessionDone env) := by
  unfold checkSessionDone
  split
  · have hevent := wrote_emitEvent env h (.sessionDone h.round) none (fun _ _ _ => hsend _ _ _ _)
      (hrec _ _ _)
    have hstamp : Wrote P h
        { h.emitEvent env (.sessionDone h.round) none with sessionDoneAt := some h.wall } := hevent
    exact hstamp.trans (wrote_notify env _ _ _ hnote)
  · exact wrote_nothing rfl

end

/-! ## Well-formedness -/

theorem roster_report (h : Hub) (n : Str) (f : Report) : h.Roster (h.report n f) := by
  have hsame : ∀ q, (Hub.reported h.now f q).Same q := by
    intro q
    unfold Hub.reported
    simp only
    split
    · split
      · exact ⟨rfl, rfl, rfl, rfl, rfl⟩
      · exact ⟨rfl, rfl, rfl, rfl, rfl⟩
    · exact ⟨rfl, rfl, rfl, rfl, rfl⟩
  unfold report
  split
  · exact .refl h
  · have hmod := roster_modify h n hsame
    exact ⟨hmod.wire, hmod.keys, hmod.dead, hmod.now, hmod.wall, hmod.same⟩

/-- A deed keeps the registry, or somebody leaves or joins. -/
theorem Deed.roster (hn : h.Named) (hd : Deed env A h h') :
    h.Roster h' ∨ (∃ n p, h.get? n = some p ∧ h' = h.leave env n p) ∨
      ∃ c f, (h.wire.clients c).name = [] ∧ h.get? f.name = none ∧ A f.name f.kind (.hello f) ∧
        h' = registered env c f h := by
  have hk : ∀ {S T : Set Str} {k : Hub}, Keeps S T True h k → h.Roster k := fun hk => hk.toRoster
  cases hd with
  | murmured hm => exact Or.inl (hk (S := ∅) (T := ∅) hm.toQuiet.keeps)
  | told e => exact Or.inl (hk (S := ∅) (T := ∅) (keeps_emitEvent env h e none (Or.inl trivial)))
  | recorded r => exact Or.inl (roster_append h r)
  | timed hg => exact Or.inl (roster_modify h _ fun q => (hg q).same)
  | mailed hg => exact Or.inl (roster_modify h _ fun q => (hg q).same)
  | mailedAll hg =>
    exact Or.inl (hk (T := ∅) (keeps_mapParticipants h Set.univ
      (fun n p _ => ⟨(hg p).same, fun hm => absurd (Set.mem_univ _) hm⟩) (Or.inl trivial)))
  | counted hc =>
    rw [hc.rest]
    exact Or.inl (hk (S := ∅) (T := ∅) (keeps_floor rfl rfl rfl rfl rfl hc.counter rfl))
  | reported => exact Or.inl (roster_report h _ _)
  | inferred => exact Or.inl (hk (keeps_setIdle h _))
  | delivered msgs => exact Or.inl (hk (keeps_deliver env hn _ msgs))
  | limited => exact Or.inl (hk (S := ∅) (T := ∅) (keeps_announceLimit env h))
  | ended => exact Or.inl (hk (S := ∅) (T := ∅) (keeps_checkSessionDone env h))
  | marked b => exact Or.inl (hk (S := ∅) (T := ∅) (keeps_setFinished h _ b))
  | remembered => exact Or.inl (roster_remember env h _ _)
  | answered id k => exact Or.inl (hk (S := ∅) (T := ∅) (keeps_answer env h _ _ id k))
  | @flagged n p c seq hp hobs hA =>
    have hemit : Keeps ∅ ∅ True (h.flags env c) _ :=
      keeps_emitEvent env (h.flags env c) (h.commandEvent env c) none (Or.inl trivial)
    exact Or.inl ((roster_flags h c).trans hemit.toRoster)
  | okayed =>
    exact Or.inl (hk (S := ∅) (T := ∅)
      ((keeps_touchActivity h).trans (quiet_send env h.touchActivity _ (by simp)).keeps))
  | polled n seq => exact Or.inl (hk (S := ∅) (T := ∅) (quiet_handleRoster env h n seq).keeps)
  | alarmed n => exact Or.inl (hk (S := ∅) (T := ∅) (keeps_notifyBlocked env h n))
  | left hp => exact Or.inr (Or.inl ⟨_, _, hp, rfl⟩)
  | joined hc hfree hA => exact Or.inr (Or.inr ⟨_, _, hc, hfree, hA, rfl⟩)

theorem Deed.wf (hw : h.Wf) (hd : Deed env A h h') : h'.Wf := by
  rcases hd.roster hw.named with hr | ⟨n, p, hp, rfl⟩ | ⟨c, f, hc, -, -, rfl⟩
  · exact hw.roster hr
  · exact hw.leave env hp
  · have hwf := hw.enroll hc (admitted_name env hw c f) (nameRe_ne_nil f.name_ok.2)
      (admitted_client env h c f)
    exact hwf.keeps (keeps_greet env hwf.named f.name _ _)

theorem Deeds.wf (hw : h.Wf) (hd : Deeds env A h h') : h'.Wf := by
  induction hd with
  | refl => exact hw
  | tail _ hdeed ih => exact hdeed.wf ih

theorem Deed.now (hw : h.Wf) (hd : Deed env A h h') : h'.now = h.now := by
  rcases hd.roster hw.named with hr | ⟨n, p, -, rfl⟩ | ⟨c, f, hc, -, -, rfl⟩
  · exact hr.now
  · rfl
  · have hwf := hw.enroll hc (admitted_name env hw c f) (nameRe_ne_nil f.name_ok.2)
      (admitted_client env h c f)
    exact (keeps_greet env hwf.named f.name _ _).now

theorem Deeds.now (hw : h.Wf) (hd : Deeds env A h h') : h'.now = h.now := by
  induction hd with
  | refl => rfl
  | tail hds hdeed ih => exact (hdeed.now (Deeds.wf hw hds)).trans ih

/-! ## Delivery -/

theorem deeds_counted (h : Hub) (r k : Nat) (hk : h.msgCounter ≤ k) :
    Deed env A h { h with round := r, msgCounter := k } := .counted ⟨rfl, hk⟩

theorem deeds_checkRoundLimit (h : Hub) : Deeds env A h (h.checkRoundLimit env) := by
  have hlimit : Deeds env A h (h.announceLimit env) := Deed.one .limited
  unfold checkRoundLimit
  split
  · split
    · exact hlimit
    · exact hlimit.tail (.recorded _ rfl)
  · exact .refl

theorem deeds_checkSessionDone (h : Hub) : Deeds env A h (h.checkSessionDone env) := by
  by_cases hall : h.allFinished = true
  · exact Deed.one (.ended hall)
  · rw [checkSessionDone, if_neg hall]

/-- A flush of somebody who is idle. -/
theorem deeds_flushQueue (hp : h.get? n = some p) (hidle : p.state = .idle) :
    Deeds env A h (h.flushQueue env n) := by
  by_cases hskip : p.queue = [] ∨ h.up p.client = false
  · rw [flushQueue_skip env hp hskip]
  · simp only [not_or, Bool.not_eq_false] at hskip
    have hdrain : Deed env A h (h.modify n (·.flushed env.config)) := .mailed fun _ => rfl
    have hp₁ : (h.modify n (·.flushed env.config)).get? n = some (p.flushed env.config) := by
      rw [get?_modify_self, hp]
      rfl
    obtain ⟨h₁, hh₁, h₂, hh₂, heq⟩ := flushQueue_eq env hp hskip.1 hskip.2
    have hround : Deeds env A h h₁ ∧ h₁.get? n = some (p.flushed env.config) := by
      rcases hh₁ with rfl | rfl
      · exact ⟨hdrain.one, hp₁⟩
      · exact ⟨hdrain.one.tail (deeds_counted _ (h.round + 1) h.msgCounter le_rfl), hp₁⟩
    have hdel := hround.1.tail (.delivered (p.flushBatch env.config) hround.2 fun _ => hidle)
    rw [heq]
    rcases hh₂ with rfl | rfl
    · exact hdel.trans (deeds_checkSessionDone _)
    · exact (hdel.trans (deeds_checkRoundLimit _)).trans (deeds_checkSessionDone _)

theorem deeds_systemNote (text : Str) (n : Str) : Deeds env A h (h.systemNote env text n) := by
  unfold systemNote
  split
  · exact .refl
  · next p hp =>
    split
    · exact .refl
    · have hcount : Deed env A h { h with msgCounter := h.msgCounter + 1 } :=
        deeds_counted h h.round _ (Nat.le_succ _)
      simp only
      split
      · next hready =>
        have hdrain : Deed env A { h with msgCounter := h.msgCounter + 1 } _ :=
          .mailed (n := n)
            (g := fun p' => { p' with context := (p.context.drain (some (h.msgCounter + 1))).2 })
            fun _ => rfl
        refine (hcount.one.tail hdrain).tail (.delivered (n := n)
          (p := { p with context := (p.context.drain (some (h.msgCounter + 1))).2 }) _ ?_
          fun _ => hready.1)
        rw [get?_modify_self, show ({ h with msgCounter := h.msgCounter + 1 } : Hub).get? n =
          some p from hp]
        rfl
      · exact hcount.one.tail (.mailed fun q => mailed_enqueue _ q _)

theorem deeds_systemMessage (text : Str) : Deeds env A h (h.systemMessage env text) := by
  unfold systemMessage
  generalize h.participants.keys = ms
  induction ms generalizing h with
  | nil => exact .refl
  | cons m ms ih => exact (deeds_systemNote text m).trans ih

/-! ## Routing -/

/-- Nobody gets two batches. -/
theorem nodup_batches (hn : h.Named) (f : Participant → Option (List Msg)) :
    ((batches f h).map Prod.fst).Nodup := by
  have hnames : h.participants.values.map Participant.name = h.participants.keys := by
    rw [Dict.values, Dict.keys, List.map_map]
    refine List.map_congr_left fun e he => ?_
    exact hn e.1 e.2 (Dict.get?_eq_some_iff.mpr he)
  have hsub : ((batches f h).map Prod.fst).Sublist (h.participants.values.map Participant.name) := by
    unfold batches
    generalize h.participants.values = ps
    induction ps with
    | nil => exact .slnil
    | cons q ps ih =>
      rw [List.filterMap_cons]
      cases f q with
      | none => exact ih.cons _
      | some batch => exact ih.cons_cons _
  rw [hnames] at hsub
  exact h.participants.nodup_keys.sublist hsub

/-- Each batch is for an observer or for somebody who is idle. -/
def Awaited (h : Hub) (bs : List (Str × List Msg)) : Prop :=
  ∀ b ∈ bs, ∀ q, h.get? b.1 = some q → q.isObserver = false → q.state = .idle

theorem deeds_deliverAll (hn : h.Named) {bs : List (Str × List Msg)} (hbs : h.Awaited bs)
    (hnodup : (bs.map Prod.fst).Nodup) : Deeds env A h (h.deliverAll env bs) := by
  induction bs generalizing h with
  | nil => exact .refl
  | cons b bs ih =>
    rw [List.map_cons, List.nodup_cons] at hnodup
    have hk : Keeps ∅ {b.1} True h (h.deliver env b.1 b.2) := keeps_deliver env hn b.1 b.2
    have hfirst : Deeds env A h (h.deliver env b.1 b.2) := by
      cases hp : h.get? b.1 with
      | none =>
        rw [deliver, hp]
      | some p => exact Deed.one (.delivered _ hp (hbs b (List.mem_cons_self ..) p hp))
    refine hfirst.trans (ih (hk.named hn) ?_ hnodup.2)
    intro b' hb' q' hq' hobs
    have hne : b'.1 ≠ b.1 := fun heq => hnodup.1 (by rw [← heq]; exact List.mem_map_of_mem hb')
    rw [get?_deliver_of_ne env h hne] at hq'
    exact hbs b' (List.mem_cons_of_mem _ hb') q' hq' hobs

theorem of_mem_batches (hn : h.Named) {f : Participant → Option (List Msg)} {b : Str × List Msg}
    (hb : b ∈ batches f h) : ∃ q, h.get? b.1 = some q ∧ f q = some b.2 := by
  obtain ⟨q, hq, hfb⟩ := List.mem_filterMap.mp hb
  obtain ⟨m, hm⟩ := Dict.mem_values_iff.mp hq
  obtain ⟨batch, hbatch, rfl⟩ := Option.map_eq_some_iff.mp hfb
  have hname : q.name = m := hn m q hm
  exact ⟨q, by rw [hname]; exact hm, hbatch⟩

theorem observer_of_observed {up : ClientId → Bool} {msg : Msg} {q : Participant} {ms : List Msg}
    (hobs : (routeOne env up msg q).observed = some ms) : q.isObserver = true := by
  unfold routeOne at hobs
  simp only at hobs
  split at hobs
  · cases hobs
  · split at hobs
    · assumption
    · split at hobs
      · cases hobs
      · split at hobs <;> cases hobs

theorem idle_of_woken {up : ClientId → Bool} {msg : Msg} {q : Participant} {ms : List Msg}
    (hwoken : (routeOne env up msg q).woken = some ms) :
    q.isObserver = false ∧ q.state = .idle := by
  unfold routeOne at hwoken
  simp only at hwoken
  split at hwoken
  · cases hwoken
  · split at hwoken
    · cases hwoken
    · next hobs =>
      split at hwoken
      · cases hwoken
      · split at hwoken
        · next hready => exact ⟨by simpa using hobs, hready.1⟩
        · cases hwoken

theorem deeds_route (hn : h.Named) (msg : Msg) : Deeds env A h (h.route env msg).1 := by
  have hmap : Deed env A h (h.mapParticipants fun q => (routeOne env h.up msg q).participant) :=
    .mailedAll (mailed_routeOne env h.up msg)
  have hround : ∀ b : Bool, ∃ k, k = (if b then
        h.mapParticipants fun q => (routeOne env h.up msg q).participant
      else { h.mapParticipants fun q => (routeOne env h.up msg q).participant with
        round := h.round + 1 }) ∧ Deeds env A h k ∧ k.Named ∧
      ∀ n, k.get? n = (h.get? n).map fun q => (routeOne env h.up msg q).participant := by
    intro b
    have hnamed : (h.mapParticipants fun q => (routeOne env h.up msg q).participant).Named := by
      rcases hmap.roster hn with hr | ⟨n, p, hp, heq⟩ | ⟨c, f, hc, hfree, -, heq⟩
      · exact hr.named hn
      all_goals
        intro n q hq
        rw [get?_mapParticipants] at hq
        obtain ⟨q₀, hq₀, rfl⟩ := Option.map_eq_some_iff.mp hq
        rw [(mailed_routeOne env h.up msg q₀).same.name]
        exact hn n q₀ hq₀
    cases b with
    | true => exact ⟨_, rfl, hmap.one, hnamed, fun n => get?_mapParticipants h _ n⟩
    | false =>
      exact ⟨_, rfl, hmap.one.tail (deeds_counted _ (h.round + 1) h.msgCounter le_rfl), hnamed,
        fun n => get?_mapParticipants h _ n⟩
  obtain ⟨k, hk, hdeeds, hnamed, hget⟩ :=
    hround (batches (fun q => (routeOne env h.up msg q).woken) h).isEmpty
  have hobservers : k.Awaited (batches (fun q => (routeOne env h.up msg q).observed) h) := by
    intro b hb q' hq' hagent
    obtain ⟨q, hq, hobs⟩ := of_mem_batches hn hb
    rw [hget, hq, Option.map_some, Option.some.injEq] at hq'
    rw [← hq', (mailed_routeOne env h.up msg q).same.isObserver, observer_of_observed hobs] at hagent
    cases hagent
  have hfirst : Deeds env A h (k.deliverAll env
      (batches (fun q => (routeOne env h.up msg q).observed) h)) :=
    hdeeds.trans (deeds_deliverAll hnamed hobservers (nodup_batches hn _))
  have hwoken : (k.deliverAll env (batches (fun q => (routeOne env h.up msg q).observed) h)).Awaited
      (batches (fun q => (routeOne env h.up msg q).woken) h) := by
    intro b hb q' hq' hagent
    obtain ⟨q, hq, hw⟩ := of_mem_batches hn hb
    obtain ⟨hobs, hidle⟩ := idle_of_woken hw
    have hq₁ : k.get? b.1 = some (routeOne env h.up msg q).participant := by
      rw [hget, hq]
      rfl
    have hnot : b.1 ∉ (batches (fun q => (routeOne env h.up msg q).observed) h).map Prod.fst := by
      intro hmem
      obtain ⟨b', hb', heq⟩ := List.mem_map.mp hmem
      obtain ⟨r, hr, hseen⟩ := of_mem_batches hn hb'
      rw [heq, hq, Option.some.injEq] at hr
      rw [hr, observer_of_observed hseen] at hobs
      cases hobs
    rw [get?_deliverAll_of_not env k _ hq₁ fun _ => hnot, Option.some.injEq] at hq'
    rw [← hq', (mailed_routeOne env h.up msg q).state]
    exact hidle
  have hnamed' := (keeps_deliverAll (E := True) env hnamed
    (batches (fun q => (routeOne env h.up msg q).observed) h)).named hnamed
  have hsecond := hfirst.trans (deeds_deliverAll hnamed' hwoken (nodup_batches hn _))
  unfold route
  simp only
  rw [hk] at hsecond
  split
  · next hnone =>
    rw [if_pos hnone] at hsecond
    exact hsecond
  · next hsome =>
    rw [if_neg hsome] at hsecond
    exact hsecond.trans (deeds_checkRoundLimit _)

/-! ## Says -/

theorem deeds_refuse (p : Participant) (f : Say) (code detail : Str) (retry : Option Rat) :
    Deeds env A h (h.refuse env p f code detail retry) := by
  have herr : Deeds env A h (h.err env p code detail (some f.seq) retry) :=
    Deed.one (.murmured (murmurs_send env h p rfl))
  unfold refuse emitRejected
  split
  · exact herr
  · exact (herr.tail (.murmured (murmurs_encodeText _ f.text))).tail (.told _ trivial)

theorem Charged.deeds {f : Say} {h₀ : Hub} (hc : Charged h n f h₀) : Deeds env A h h₀ := by
  cases hc with
  | free => exact .refl
  | rated b => exact Deed.one (.timed fun _ => rfl)
  | seen b d =>
    exact (Deed.one (.murmured (murmurs_encodeText h _))).tail (.timed fun _ => rfl)

theorem deeds_accept (hn : h.Named) {q : Participant} (hq : h.get? n = some q) (hs : q.Same p)
    {f : Say} (hA : A n p.kind (.say f)) : Deeds env A h (h.accept env p f) := by
  have hrem := roster_remember env h p f
  have hroute := keeps_route env (E := True) (hrem.named hn) (h.sayMsg p f)
  obtain ⟨q', hq', hs'⟩ := (hrem.trans hroute.toRoster).same n q hq
  have hfirst := (Deed.one (.remembered hq hs hA)).trans (deeds_route (hrem.named hn) (h.sayMsg p f))
  exact hfirst.tail (.answered _ _ hq' (hs.trans hs') hA)

theorem deeds_routeSay (hn : h.Named) (hp : h.get? n = some p) {f : Say}
    (hA : A n p.kind (.say f)) : Deeds env A h (h.routeSay env n f).2 := by
  obtain ⟨h₀, hc, hcases⟩ := routeSay_cases env hp f
  have hcharged : Keeps ∅ ∅ False h h₀ := hc.keeps
  obtain ⟨q, hq, hs⟩ := hcharged.same n p hp
  rcases hcases with heq | ⟨code, detail, retry, heq⟩
  · rw [heq]
    exact hc.deeds.trans (deeds_accept (hcharged.named hn) hq hs hA)
  · rw [heq]
    exact hc.deeds.trans (deeds_refuse p f code detail retry)

theorem deeds_inferIdle (h : Hub) (n : Str) : Deeds env A h (h.inferIdle env n) := by
  unfold inferIdle
  split
  · exact .refl
  · next p hp =>
    split
    · next hguard =>
      have hp' : (h.modify n (·.setIdle)).get? n = some p.setIdle := by
        rw [get?_modify_self, hp]
        rfl
      exact (Deed.one (.inferred hp hguard.1 hguard.2)).trans (deeds_flushQueue hp' rfl)
    · exact .refl

theorem deeds_markDone (hp : h.get? n = some p) (hobs : p.isObserver = false) :
    Deeds env A h (h.markDone env n) :=
  (Deed.one (.marked true hp hobs)).trans (deeds_checkSessionDone _)

/-! ## State, commands -/

/-- A report, and the flush that follows a report of idleness. -/
theorem handleState_eq (h : Hub) (n : Str) (f : Report) :
    h.handleState env n f =
      if f.state = .idle then (h.report n f).flushQueue env n else h.report n f := by
  cases hp : h.get? n with
  | none =>
    have hskip : h.flushQueue env n = h := by rw [flushQueue, hp]
    rw [handleState, report, hp]
    simp only [hskip, ite_self]
  | some p =>
    have hmod : ∀ g : Participant → Participant,
        (∀ q, h.get? n = some q → Hub.reported h.now f q = g (q.setState h.now f.state)) →
        (h.modify n (·.setState h.now f.state)).modify n g =
          h.modify n (Hub.reported h.now f) := by
      intro g hg
      rw [modify_modify, modify, modify, Dict.modify_congr]
      exact fun q hq => (hg q hq).symm
    have hone : ∀ q, h.get? n = some q → q = p := by
      intro q hq
      rw [hp, Option.some.injEq] at hq
      exact hq.symm
    rw [handleState, report, hp]
    simp only
    by_cases hb : f.state = .blocked
    · have hidle : f.state ≠ .idle := by simp [hb]
      by_cases hnew : p.state ≠ .blocked ∨ p.blockedDetail ≠ f.detail
      · rw [if_pos hb, if_pos hnew, if_neg hidle, if_pos ⟨hb, hnew⟩]
        have hset := hmod (fun p => { p with blockedSince := some h.now, blockedDetail := f.detail }) <| by
          intro q hq
          rw [hone q hq, Hub.reported, if_pos hb, if_pos hnew]
        rw [← hset]
        rfl
      · rw [if_pos hb, if_neg hnew, if_neg hidle, if_neg fun hc => hnew hc.2]
        have hset := hmod id <| by
          intro q hq
          rw [hone q hq, Hub.reported, if_pos hb, if_neg hnew]
          rfl
        rw [← hset, @modify_self _ n id fun _ _ => rfl]
        rfl
    · have hquiet : ¬(f.state = .blocked ∧ (p.state ≠ .blocked ∨ p.blockedDetail ≠ f.detail)) :=
        fun hc => hb hc.1
      rw [if_neg hb, if_neg hquiet]
      have hset := hmod (fun p => { p with blockedSince := none, blockedDetail := none }) <| by
        intro q _
        rw [Hub.reported, if_neg hb]
      rw [hset]
      rfl

theorem deeds_handleState (hp : h.get? n = some p) {f : Report} (hA : A n p.kind (.state f)) :
    Deeds env A h (h.handleState env n f) := by
  have hreport : Deeds env A h (h.report n f) := Deed.one (.reported hp hA)
  rw [handleState_eq]
  split
  · next hidle =>
    refine hreport.trans (deeds_flushQueue (n := n) (p := Hub.reported h.now f p) ?_ ?_)
    · rw [report, hp]
      exact (get?_modify_self h n _).trans (by rw [hp]; rfl)
    · rw [Hub.reported, if_neg (by simp [hidle])]
      exact hidle
  · exact hreport

theorem deeds_runCommand (hp : h.get? n = some p) (hobs : p.isObserver = true) {c : Command}
    {seq : Option Int} (hA : A n p.kind (.cmd c seq)) : Deeds env A h (h.runCommand env c) := by
  have hflag : Deeds env A h ((h.flags env c).emitEvent env (h.commandEvent env c) none) :=
    Deed.one (.flagged hp hobs hA)
  cases c with
  | freeze => exact hflag
  | resume k => exact hflag
  | reset => exact hflag
  | mute => exact hflag.trans (deeds_systemMessage muteText)
  | unmute => exact hflag.trans (deeds_systemMessage unmuteText)
  | goal text =>
    refine (hflag.tail (.mailedAll fun q => ?_)).tail (.murmured (murmurs_writeGoal _ text))
    split
    · exact mailed_refl q
    · rfl

theorem deeds_handleCmd (hn : h.Named) (hp : h.get? n = some p) {c : Command} {seq : Option Int}
    (hA : A n p.kind (.cmd c seq)) : Deeds env A h (h.handleCmd env n c seq) := by
  rw [handleCmd, hp]
  simp only
  split
  · exact Deed.one (.murmured (murmurs_send env h p rfl))
  · next hobs =>
    have hobs : p.isObserver = true := by simpa using hobs
    obtain ⟨q, hq, hs⟩ := (keeps_runCommand env (E := True) hn c).same n p hp
    exact (deeds_runCommand hp hobs hA).tail (.okayed hq hs hobs hA)

/-! ## Lifecycle, watchdog -/

theorem deeds_disconnect (h : Hub) (c : ClientId) : Deeds env A h (h.disconnect env c) := by
  rcases disconnect_cases env h c with ⟨p, hp, -, heq⟩ | ⟨-, heq⟩
  · rw [heq]
    exact ((Deed.one (.left hp)).trans (deeds_checkSessionDone _)).tail (.murmured (murmurs_close _ c))
  · rw [heq]
    exact Deed.one (.murmured (murmurs_close h c))

theorem deeds_register (hw : h.Wf) {c : ClientId} {f : Hello} (hc : (h.wire.clients c).name = [])
    (hfree : h.get? f.name = none) (hA : A f.name f.kind (.hello f)) :
    Deeds env A h (h.register env c f) := by
  have hjoin : Deeds env A h (registered env c f h) := Deed.one (.joined hc hfree hA)
  have hwf := hw.enroll hc (admitted_name env hw c f) (nameRe_ne_nil f.name_ok.2)
    (admitted_client env h c f)
  rw [register_eq]
  split
  · obtain ⟨hget, -⟩ := greet_spec env hwf.named
      (get?_enroll_self h c f.name (admitted env h c f)) (h.dead.contains f.name)
    refine hjoin.trans (deeds_flushQueue hget ?_)
    split
    · exact admitted_state h c f
    · rw [state_primed]
      exact admitted_state h c f
  · exact hjoin

theorem deeds_pingSilent (h : Hub) (n : Str) (p : Participant) :
    Deeds env A h (h.pingSilent env n p) := by
  unfold pingSilent
  split
  · have hping : Deed env A h (h.modify n fun p =>
        { p with awaitingPong := true, pongDeadline := h.now + env.config.pongTimeout }) :=
      .timed fun _ => rfl
    exact hping.one.tail (.murmured (murmurs_send env _ p rfl))
  · exact .refl

theorem deeds_assumeIdle {q : Participant} (hq : h.get? n = some q) (hs : q.Same p)
    (hstate : q.state = p.state) : Deeds env A h (h.assumeIdle env n p) := by
  unfold assumeIdle
  split
  · next hguard =>
    have hidle : Deed env A h (h.modify n (·.setIdle)) :=
      .inferred hq (by rw [hs.hasIdleEvents]; exact hguard.1) (by rw [hstate]; exact hguard.2.1)
    have hq' : (h.modify n (·.setIdle)).get? n = some q.setIdle := by
      rw [get?_modify_self, hq]
      rfl
    have hpassing : (HubEvent.stall (presumedIdle p.name)).Passing := ⟨p.name, rfl⟩
    exact (hidle.one.tail (.told _ hpassing)).trans (deeds_flushQueue hq' rfl)
  · exact .refl

/-! ## The alarms of the watchdog -/

variable (env) in
/-- The blocked notification of `n` is due. -/
def AlarmDue (h : Hub) (n : Str) : Prop :=
  ∃ p, h.get? n = some p ∧ p.state = .blocked ∧
    (p.blockedSince.any fun t => env.config.blockedAfter < h.now - t) = true ∧
    n ∉ h.blockedNotified

variable (env) in
/-- The stall event is due. -/
def StallDue (h : Hub) : Prop :=
  h.atRest = true ∧ env.config.stallAfter < h.now - h.lastActivity ∧ h.stallLatched = false

/-- The quorum event is due. -/
def QuorumDue (h : Hub) : Prop :=
  ∃ askedAt, h.lastObserverSay = some askedAt ∧ h.atRest = true ∧ h.quorumLatched = false ∧
    h.expectedAgents ≠ [] ∧ (h.expectedAgents.all fun q => askedAt < q.lastSay) = true

theorem notifyBlocked_due (hd : AlarmDue env h n) : ∃ detail title message,
    h.notifyBlocked env n = ({ h with blockedNotified := h.blockedNotified ++ [n] }.emitEvent env
      (.blocked n detail) none).notify env title message := by
  obtain ⟨p, hp, hdue⟩ := hd
  rw [notifyBlocked, hp]
  simp only
  rw [if_pos hdue]
  exact ⟨_, _, _, rfl⟩

theorem notifyBlocked_not_due (hd : ¬AlarmDue env h n) : h.notifyBlocked env n = h := by
  unfold notifyBlocked
  split
  · rfl
  · next p hp =>
    split
    · next hdue => exact absurd ⟨p, hp, hdue⟩ hd
    · rfl

theorem checkStall_due (hd : StallDue env h) : ∃ title message,
    h.checkStall env = ({ h with stallLatched := true }.emitEvent env
      (.stall (h.stallDetail env)) none).notify env title message := by
  unfold checkStall
  split
  · exact ⟨_, _, rfl⟩
  · next hnot => exact absurd hd hnot

theorem checkStall_not_due (hd : ¬StallDue env h) : h.checkStall env = h := by
  unfold checkStall
  split
  · next hdue => exact absurd hdue hd
  · rfl

variable (env) in
theorem checkQuorum_due (hd : h.QuorumDue) : ∃ detail k,
    k = { h with quorumLatched := true }.emitEvent env (.quorum detail) none ∧
      (h.checkQuorum env = k ∨ ∃ title message, h.checkQuorum env = k.notify env title message) := by
  obtain ⟨askedAt, hasked, hdue⟩ := hd
  rw [checkQuorum, hasked]
  simp only
  rw [if_pos hdue]
  split
  · exact ⟨_, _, rfl, Or.inl rfl⟩
  · exact ⟨_, _, rfl, Or.inr ⟨_, _, rfl⟩⟩

theorem checkQuorum_not_due (hd : ¬h.QuorumDue) : h.checkQuorum env = h := by
  unfold checkQuorum
  split
  · rfl
  · next askedAt hasked =>
    split
    · next hdue => exact absurd ⟨askedAt, hasked, hdue⟩ hd
    · rfl

/-! ## Operations -/

/-- **Every handler is a sequence of deeds**, so that what each deed preserves, it preserves. -/
theorem handles_deeds {I : Hub → Prop} (hI : ∀ h h', h.Wf → Deed env A h h' → I h → I h') :
    Handles env A I := by
  have hpath : ∀ {h h' : Hub}, h.Wf → Deeds env A h h' → I h → I h' := by
    intro h h' hw hs hh
    have hboth : h'.Wf ∧ I h' := by
      induction hs with
      | refl => exact ⟨hw, hh⟩
      | tail _ hdeed ih => exact ⟨hdeed.wf ih.1, hI _ _ ih.1 hdeed ih.2⟩
    exact hboth.2
  constructor
  case errRaw => exact fun h c _ _ _ hw => hpath hw (Deed.one (.murmured (murmurs_errRaw env h c _ _ _)))
  case lifeSign => exact fun h n hw => hpath hw (Deed.one (.timed fun _ => rfl))
  case routeSay => exact fun h n p f hw hp hA => hpath hw (deeds_routeSay hw.named hp hA)
  case inferIdle => exact fun h n p f hw _ _ => hpath hw (deeds_inferIdle h n)
  case markDone => exact fun h n p hw hp hobs => hpath hw (deeds_markDone hp hobs)
  case goOn => exact fun h n p hw hp hobs => hpath hw (Deed.one (.marked false hp hobs))
  case handleState => exact fun h n p f hw hp hA => hpath hw (deeds_handleState hp hA)
  case handleCmd => exact fun h n p c seq hw hp hA => hpath hw (deeds_handleCmd hw.named hp hA)
  case handleRoster => exact fun h n seq hw => hpath hw (Deed.one (.polled n seq))
  case disconnect => exact fun h c hw => hpath hw (deeds_disconnect h c)
  case declareRoom =>
    intro h f hw _ hh
    unfold declareRoom
    split
    · exact hpath hw (Deed.one (.recorded _ rfl)) hh
    · exact hh
  case turnAway =>
    exact fun h c n hw => hpath hw
      ((Deed.one (.murmured (murmurs_errRaw env h c _ _ _))).tail (.murmured (murmurs_close _ c)))
  case register => exact fun h c f hw hc hfree hA => hpath hw (deeds_register hw hc hfree hA)
  case pingSilent => exact fun h n p hw _ => hpath hw (deeds_pingSilent h n p)
  case assumeIdle =>
    rintro h n p hw ⟨q, hq, hs, hstate, -⟩ _
    exact hpath hw (deeds_assumeIdle hq hs hstate)
  case notifyBlocked => exact fun h n hw => hpath hw (Deed.one (.alarmed n))
  case fail => exact fun h c hw => hpath hw (Deed.one (.murmured (murmurs_fail h c)))

variable {F : Type} [PyJson.PyFloat F]

/-- An operation that is neither a tick nor a reading of the clock. -/
theorem deeds_step (hw : h.Wf) {op : Op F} (hA : Allowed env A h op) (htick : op ≠ .watchdogTick)
    (hclock : ∀ now wall, op ≠ .clock now wall) : Deeds env A h (h.step env op) :=
  (handles_deeds fun _ _ _ hd hs => hs.tail hd).step (I := fun k => Deeds env A h k) hw .refl hA htick
    hclock

/-- The loop of a tick. -/
theorem deeds_ticks (hw : h.Wf) (ns : List Str) : Deeds env A h (ns.foldl (tickOne env) h) :=
  ((handles_deeds fun _ _ _ hd hs => hs.tail hd).ticks (I := fun k => Deeds env A h k) ⟨hw, .refl⟩
    ns).2

end

end Hub

end Moot
