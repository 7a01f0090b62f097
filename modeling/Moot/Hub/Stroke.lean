import Moot.Hub.Handled
import Moot.Hub.Passage
import Mathlib.Logic.Relation

/-!
# Strokes

The handlers of `core/hub.py` act on the floor in few ways: they talk, they touch
timers, they route a message, they flush a queue, and so on.  A stroke
(`Hub.Stroke`) is one such act, with what the source has checked before it.

Proved here: `Strokes.rule`, every operation is a sequence of strokes, so that
what each stroke preserves, every operation preserves.
-/

namespace Moot
open Py Proto

/-- The record an effect appends to the transcript. -/
def Effect.record? : Effect → Option Record
  | .append _ r => some r
  | _ => none

/-- The transcript in a log. -/
def records (log : List Effect) : List Record := log.filterMap Effect.record?

theorem records_append (l l' : List Effect) : records (l ++ l') = records l ++ records l' :=
  List.filterMap_append

/-- The effect is neither a delivery nor an event, and goes on no record. -/
def Effect.talk : Effect → Bool
  | .send _ _ _ (.deliver ..) | .send _ _ _ (.event _) | .append .. => false
  | _ => true

theorem Effect.talk_record? {e : Effect} (he : e.talk = true) : e.record? = none := by
  cases e with
  | append => cases he
  | _ => rfl

/-- Whom an event names. -/
def HubEvent.names : HubEvent → List Str
  | .rejected name .. | .peerJoined name .. | .peerLeft name | .blocked name _ => [name]
  | _ => []

/-- The event is not one of the two that the checks of the floor emit. -/
def HubEvent.plain : HubEvent → Bool
  | .sessionDone _ | .roundLimit .. => false
  | _ => true

/-- The same mail, mark and state, since the same time. -/
structure Participant.Alike (p' p : Participant) : Prop extends p'.Same p where
  mail : p'.mail = p.mail
  finished : p'.finished = p.finished
  state : p'.state = p.state
  since : p'.busySince = p.busySince

namespace Hub

/-- The step only says something, and puts nothing on the record. -/
structure Talks (h h' : Hub) : Prop extends Quiet h h' where
  talk : ∃ es, h'.wire.log = h.wire.log ++ es ∧ ∀ e ∈ es, e.talk = true

/-- The step changes timers, latches and counters only. -/
structure Aside (h h' : Hub) : Prop where
  wire : h'.wire = h.wire
  participants : h'.participants = h.participants
  dead : h'.dead = h.dead
  round : h'.round = h.round
  maxRounds : h'.maxRounds = h.maxRounds
  frozen : h'.frozen = h.frozen
  recent : h'.recent = h.recent
  now : h'.now = h.now
  wall : h'.wall = h.wall
  counter : h.msgCounter ≤ h'.msgCounter

/-- The flags a command sets. -/
def flags (env : Env) (h : Hub) : Command → Hub
  | .freeze => { h with frozen := true }
  | .resume n _ =>
    let limit :=
      match n with
      | some k => max h.maxRounds h.round + k
      | none => if h.maxRounds ≤ h.round then h.round + env.config.maxRounds else h.maxRounds
    { h with maxRounds := limit, frozen := false }
  | .reset => { h with round := 0, frozen := false }
  | .mute => { h with muted := true }
  | .unmute => { h with muted := false }
  | .goal text _ => { h with goal := text }

/-- What bears on somebody's turn or mark: a frame of its own, a timer, a mark, a join. -/
inductive Change
  | relieved (n : Str)
  | overdue (n : Str)
  | marked (n : Str)
  | enrolled (n : Str)

/-- One act on the floor, on a frame that meets `A`, with no change but those in `C`. -/
inductive Stroke (env : Env) (A : Filter) (C : Set Change) : Hub → Hub → Prop
  | talk {h h'} (ht : Talks h h') : Stroke env A C h h'
  | aside {h h'} (ha : Aside h h') : Stroke env A C h h'
  | event {h} (e : HubEvent) (skip : Option Str) (he : e.plain = true)
      (hn : ∀ n ∈ e.names, ∃ p, h.get? n = some p) : Stroke env A C h (h.emitEvent env e skip)
  | declared {h} {f : Hello} (room : Str) (hA : A f.name f.kind (.hello f)) :
      Stroke env A C h (h.append (.roomDeclared room f.name h.wall))
  | touched {h n} {g : Participant → Participant} (hg : ∀ q, (g q).Alike q) :
      Stroke env A C h (h.modify n g)
  | reported {h n p} {f : Report} (hp : h.get? n = some p) (hA : A n p.kind (.state f))
      (hC : .relieved n ∈ C) :
      Stroke env A C h (h.modify n (·.setState h.now f.state))
  | inferred {h n p} (hp : h.get? n = some p) (hcaps : p.hasIdleEvents = false)
      (hbusy : p.state ≠ .idle)
      (why : (∃ f, A n p.kind (.say f)) ∧ .relieved n ∈ C ∨
        p.isObserver = false ∧ env.config.assumeIdleAfter < h.now - p.busySince ∧
          .overdue n ∈ C) :
      Stroke env A C h (h.modify n (·.setIdle))
  | flushed {h n p} (hp : h.get? n = some p) (hidle : p.state = .idle) :
      Stroke env A C h (h.flushQueue env n)
  | accepted {h n p q} {f : Say} (hq : h.get? n = some q) (hs : q.Same p)
      (hopen : p.isObserver = false → h.frozen = false) (hA : A n p.kind (.say f)) :
      Stroke env A C h ((h.remember env p f).route env (h.sayMsg p f)).1
  | wentOn {h n p} (hp : h.get? n = some p) (hobs : p.isObserver = false)
      (hC : .marked n ∈ C) :
      Stroke env A C h (h.modify n fun p => { p with finished := false })
  | finished {h n p} (hp : h.get? n = some p) (hobs : p.isObserver = false)
      (hC : .marked n ∈ C) :
      Stroke env A C h (h.markDone env n)
  | commanded {h n p c seq} (hp : h.get? n = some p) (hobs : p.isObserver = true)
      (hA : A n p.kind (.cmd c seq)) : Stroke env A C h (h.flags env c)
  | noted {h n kind c seq text} (m : Str) (htext : text = muteText ∨ text = unmuteText)
      (hobs : kind = observerKind) (hA : A n kind (.cmd c seq)) :
      Stroke env A C h (h.systemNote env text m)
  | goalTold {h n kind text ok seq} (hobs : kind = observerKind)
      (hA : A n kind (.cmd (.goal text ok) seq)) : Stroke env A C h (h.bufferGoal text)
  | left {h n p} (hp : h.get? n = some p) :
      Stroke env A C h ((h.leave env n p).checkSessionDone env)
  | enrolled {h c} {f : Hello} (hc : (h.wire.clients c).name = []) (hfree : h.get? f.name = none)
      (hA : A f.name f.kind (.hello f)) (hC : .enrolled f.name ∈ C) :
      Stroke env A C h (h.enroll c f.name (admitted env h c f))
  | caughtUp {h p} {f : Hello} (hp : h.get? f.name = some p) (hkind : p.kind = f.kind)
      (hA : A f.name f.kind (.hello f)) : Stroke env A C h (h.giveBacklog env f.name)

/-- A sequence of strokes. -/
abbrev Strokes (env : Env) (A : Filter) (C : Set Change) : Hub → Hub → Prop :=
  Relation.ReflTransGen (Stroke env A C)

section
variable {env : Env} {A : Filter} {C : Set Change} {h h' h'' : Hub}

/-! ## Talk -/

theorem Talks.records (ht : h.Talks h') : records h'.wire.log = records h.wire.log := by
  obtain ⟨es, hes, htalk⟩ := ht.talk
  have hnone : es.filterMap Effect.record? = [] :=
    List.filterMap_eq_nil_iff.mpr fun e he => Effect.talk_record? (htalk e he)
  rw [hes, records_append]
  exact (congrArg _ hnone).trans (List.append_nil _)

variable (env) in
theorem talks_send (h : Hub) (p : Participant) {f : Frame} (hf : ∀ r ms, f ≠ .deliver r ms)
    (he : ∀ e, f ≠ .event e) : h.Talks (h.send env p f) := by
  refine ⟨quiet_send env h p hf, [_], rfl, fun e hmem => ?_⟩
  rw [List.mem_singleton.mp hmem]
  cases f with
  | deliver r ms => exact absurd rfl (hf r ms)
  | event e => exact absurd rfl (he e)
  | _ => rfl

variable (env) in
theorem talks_errRaw (h : Hub) (c : ClientId) (code detail : Str) (seq : Option Int) :
    h.Talks (h.errRaw env c code detail seq) :=
  ⟨quiet_errRaw env h c _ _ _, [_], rfl, by simp [Effect.talk]⟩

variable (env) in
theorem talks_notify (h : Hub) (title message : Str) : h.Talks (h.notify env title message) := by
  refine ⟨quiet_notify env h _ _, ?_⟩
  unfold notify
  split
  · exact ⟨[_], rfl, by simp [Effect.talk]⟩
  · exact ⟨[], (List.append_nil _).symm, nofun⟩

theorem talks_encodeText (h : Hub) (s : Str) : h.Talks (h.encodeText s) :=
  ⟨quiet_encodeText h s, [_], rfl, by simp [Effect.talk]⟩

theorem talks_writeGoal (h : Hub) (text : Str) : h.Talks (h.writeGoal text) :=
  ⟨quiet_writeGoal h text, [_], rfl, by simp [Effect.talk]⟩

theorem talks_close (h : Hub) (c : ClientId) : h.Talks (h.close c) :=
  ⟨quiet_setWire (Wire.quiet_close _ _), [_], rfl, by simp [Effect.talk]⟩

theorem talks_fail (h : Hub) (c : ClientId) : h.Talks (h.setWire { h.wire with
    clients := Function.update h.wire.clients c { h.wire.clients c with connected := false } }) :=
  ⟨quiet_setWire ⟨(keeps_fail (S := ∅) (T := ∅) (E := True) h c).wire, [],
    (List.append_nil _).symm, by simp⟩, [], (List.append_nil _).symm, nofun⟩

/-! ## Well-formedness -/

theorem keeps_alike {S T : Set Str} {E : Prop} (h : Hub) (n : Str)
    {g : Participant → Participant} (hg : ∀ q, (g q).Alike q) : Keeps S T E h (h.modify n g) :=
  keeps_modify_calm h n
    (fun q => ⟨(hg q).toSame, (hg q).mail, fun hi => (hg q).state.symm.trans hi⟩)
    (Or.inr fun q => (hg q).finished)

theorem Aside.keeps {S T : Set Str} {E : Prop} (ha : h.Aside h') : Keeps S T E h h' :=
  keeps_floor ha.wire ha.participants ha.dead ha.now ha.wall ha.counter ha.recent

/-- The registry after the flags of a command. -/
theorem roster_flags (h : Hub) (c : Command) : h.Roster (h.flags env c) := by
  have hget : ∀ k : Hub, k.wire = h.wire → k.participants = h.participants → k.dead = h.dead →
      k.now = h.now → k.wall = h.wall → h.Roster k := fun k hw hp hd hnow hwall =>
    ⟨by rw [hw]; exact .refl _, by rw [hp], hd, hnow, hwall,
      fun n p hn => ⟨p, by rw [get?, hp]; exact hn, .refl p⟩⟩
  cases c <;> exact hget _ rfl rfl rfl rfl rfl

theorem Stroke.wf (hw : h.Wf) (hs : Stroke env A C h h') : h'.Wf := by
  have hk : ∀ {S T : Set Str} {k : Hub}, Keeps S T True h k → k.Wf := fun hk => hw.keeps hk
  cases hs with
  | talk ht => exact hk (S := ∅) (T := ∅) ht.toQuiet.keeps
  | aside ha => exact hk (S := ∅) (T := ∅) ha.keeps
  | event e skip => exact hk (S := ∅) (T := ∅) (keeps_emitEvent env h e skip (Or.inl trivial))
  | declared room => exact hk (S := ∅) (T := ∅) (keeps_append h _ rfl (Or.inl trivial))
  | touched hg => exact hk (S := ∅) (T := ∅) (keeps_alike h _ hg)
  | reported hp hA =>
    exact hk (keeps_modify h _ (fun _ => ⟨rfl, rfl, rfl, rfl, rfl⟩) (Or.inl trivial))
  | inferred => exact hk (keeps_setIdle h _)
  | flushed => exact hk (keeps_flushQueue env hw.named _)
  | @accepted n p q f hq hs hopen hA =>
    have hrem := roster_remember env h p f
    exact hw.roster (hrem.trans (keeps_route env (E := True) (hrem.named hw.named) _).toRoster)
  | wentOn => exact hk (S := ∅) (T := ∅) (keeps_setFinished h _ false)
  | finished => exact hk (S := ∅) (T := ∅) (keeps_markDone env h _)
  | commanded => exact hw.roster (roster_flags h _)
  | noted m => exact hk (keeps_systemNote env hw.named _ m)
  | goalTold => exact hk (keeps_bufferGoal h _)
  | left hp =>
    exact (hw.leave env hp).keeps (keeps_checkSessionDone (S := ∅) (T := ∅) env _)
  | @enrolled c f hc hfree hA =>
    exact hw.enroll hc (admitted_name env hw c f) (nameRe_ne_nil f.name_ok.2)
      (admitted_client env h c f)
  | caughtUp => exact hk (keeps_giveBacklog env hw.named _)

theorem Strokes.wf (hw : h.Wf) (hs : Strokes env A C h h') : h'.Wf := by
  induction hs with
  | refl => exact hw
  | tail _ hstroke ih => exact hstroke.wf ih

theorem Stroke.one (hs : Stroke env A C h h') : Strokes env A C h h' := .single hs

variable (env A C) in
theorem stroke_touchActivity (h : Hub) : Stroke env A C h h.touchActivity :=
  .aside ⟨rfl, rfl, rfl, rfl, rfl, rfl, rfl, rfl, rfl, le_rfl⟩

variable (env A C) in
theorem stroke_blockedNotified (h : Hub) (ns : List Str) :
    Stroke env A C h { h with blockedNotified := ns } :=
  .aside ⟨rfl, rfl, rfl, rfl, rfl, rfl, rfl, rfl, rfl, le_rfl⟩

variable (env A C) in
/-- An event that names nobody. -/
theorem stroke_event (h : Hub) {e : HubEvent} (he : e.plain = true) (hn : e.names = []) :
    Stroke env A C h (h.emitEvent env e none) := .event e none he (by simp [hn])

/-! ## Say -/

variable (env A C) in
theorem strokes_refuse {p q : Participant} (hq : h.get? p.name = some q) (f : Say)
    (code detail : Str) (retry : Option Rat) :
    Strokes env A C h (h.refuse env p f code detail retry) := by
  have herr : Strokes env A C h (h.err env p code detail (some f.seq) retry) :=
    Stroke.one (.talk (talks_send env h p (by simp) (by simp)))
  unfold refuse emitRejected
  split
  · exact herr
  · exact (herr.tail (.talk (talks_encodeText _ f.text))).tail
      (.event _ none rfl fun m hm => ⟨q, by rw [List.mem_singleton.mp hm]; exact hq⟩)

theorem Charged.strokes {n : Str} {f : Say} {h₀ : Hub} (hc : Charged h n f h₀) :
    Strokes env A C h h₀ := by
  cases hc with
  | free => exact .refl
  | rated b => exact Stroke.one (.touched fun q => ⟨⟨rfl, rfl, rfl, rfl, rfl⟩, rfl, rfl, rfl, rfl⟩)
  | seen b d =>
    exact (Stroke.one (.talk (talks_encodeText h _))).tail
      (.touched fun q => ⟨⟨rfl, rfl, rfl, rfl, rfl⟩, rfl, rfl, rfl, rfl⟩)

theorem Charged.frozen {n : Str} {f : Say} {h₀ : Hub} (hc : Charged h n f h₀) :
    h₀.frozen = h.frozen := by
  cases hc <;> rfl

/-- A say that is accepted was not frozen out. -/
theorem open_of_accepted {n : Str} {p : Participant} (hp : h.get? n = some p) {f : Say}
    (hok : (h.routeSay env n f).1 = true) (hobs : p.isObserver = false) : h.frozen = false := by
  by_contra hfrozen
  rw [Bool.not_eq_false] at hfrozen
  rw [routeSay, hp] at hok
  simp only [hobs, hfrozen, and_self, if_true] at hok
  cases hok

variable (env A C) in
theorem strokes_answer (h : Hub) (p : Participant) (f : Say) (id queuedFor : Nat) :
    Strokes env A C h (h.answer env p f id queuedFor) := by
  have hsaid : Strokes env A C h (h.send env p (.said id queuedFor f.seq)) :=
    Stroke.one (.talk (talks_send env h p (by simp) (by simp)))
  unfold answer
  simp only
  split
  · exact (hsaid.tail (.talk (talks_notify env _ _ _))).tail (stroke_touchActivity env A C _)
  · exact hsaid.tail (stroke_touchActivity env A C _)

theorem strokes_routeSay (hn : h.Named) {n : Str} {p : Participant} (hp : h.get? n = some p)
    {f : Say} (hA : A n p.kind (.say f)) : Strokes env A C h (h.routeSay env n f).2 := by
  obtain ⟨h₀, hc, hcases⟩ := routeSay_cases env hp f
  have hcharged : Keeps ∅ ∅ False h h₀ := hc.keeps
  obtain ⟨q, hq, hs⟩ := hcharged.same n p hp
  rcases hcases with heq | ⟨code, detail, retry, heq⟩
  · have hopen : p.isObserver = false → h₀.frozen = false := fun hobs => by
      rw [hc.frozen]
      exact open_of_accepted hp (by rw [heq]) hobs
    rw [heq]
    exact (hc.strokes.tail (.accepted hq hs hopen hA)).trans (strokes_answer env A C _ p f _ _)
  · rw [heq]
    have hq' : h₀.get? p.name = some q := by rw [hn n p hp]; exact hq
    exact hc.strokes.trans (strokes_refuse env A C hq' f code detail retry)

theorem strokes_inferIdle {n : Str} {p : Participant} (hp : h.get? n = some p) {f : Say}
    (hA : A n p.kind (.say f)) (hC : .relieved n ∈ C) :
    Strokes env A C h (h.inferIdle env n) := by
  rw [inferIdle, hp]
  simp only
  split
  · next hguard =>
    have hp' : (h.modify n (·.setIdle)).get? n = some p.setIdle := by
      rw [get?_modify_self, hp]
      rfl
    exact (Stroke.one (.inferred hp hguard.1 hguard.2 (Or.inl ⟨⟨f, hA⟩, hC⟩))).tail
      (.flushed hp' rfl)
  · exact .refl

/-! ## State, commands -/

/-- What follows a report. -/
theorem strokes_reported {n : Str} {p : Participant} (hp : h.get? n = some p) (f : Report) :
    Strokes env A C (h.modify n (·.setState h.now f.state)) (h.handleState env n f) := by
  have hstart : Strokes env A C (h.modify n (·.setState h.now f.state))
      (h.modify n (·.setState h.now f.state)) := .refl
  have hp₁ : (h.modify n (·.setState h.now f.state)).get? n = some (p.setState h.now f.state) := by
    rw [get?_modify_self, hp]
    rfl
  rw [handleState, hp]
  simp only
  split
  · split
    · have hdetail := hstart.tail (.touched (n := n)
        (g := fun p => { p with blockedSince := some h.now, blockedDetail := f.detail })
        fun q => ⟨⟨rfl, rfl, rfl, rfl, rfl⟩, rfl, rfl, rfl, rfl⟩)
      exact hdetail.tail (stroke_blockedNotified env A C _ _)
    · exact hstart
  · have hclear := hstart.tail (.touched (n := n)
      (g := fun p => { p with blockedSince := none, blockedDetail := none })
      fun q => ⟨⟨rfl, rfl, rfl, rfl, rfl⟩, rfl, rfl, rfl, rfl⟩)
    split
    · next hidle =>
      refine hclear.tail (.flushed (n := n)
        (p := { p.setState h.now f.state with blockedSince := none, blockedDetail := none }) ?_ ?_)
      · rw [get?_modify_self, hp₁]
        rfl
      · exact hidle
    · exact hclear

theorem strokes_handleState {n : Str} {p : Participant} (hp : h.get? n = some p) {f : Report}
    (hA : A n p.kind (.state f)) (hC : .relieved n ∈ C) :
    Strokes env A C h (h.handleState env n f) :=
  (Stroke.one (.reported hp hA hC)).trans (strokes_reported hp f)

theorem strokes_systemMessage {n kind : Str} {c : Command} {seq : Option Int}
    (hobs : kind = observerKind) (hA : A n kind (.cmd c seq)) {text : Str}
    (htext : text = muteText ∨ text = unmuteText) :
    Strokes env A C h (h.systemMessage env text) := by
  unfold systemMessage
  generalize h.participants.keys = ms
  induction ms generalizing h with
  | nil => exact .refl
  | cons m ms ih => exact (Stroke.one (.noted m htext hobs hA)).trans ih

theorem strokes_runCommand {n : Str} {p : Participant} (hp : h.get? n = some p)
    (hobs : p.isObserver = true) {c : Command} {seq : Option Int} (hA : A n p.kind (.cmd c seq)) :
    Strokes env A C h (h.runCommand env c) := by
  have hflags : Strokes env A C h (h.flags env c) := Stroke.one (.commanded hp hobs hA)
  have hkind : p.kind = observerKind := by simpa [Participant.isObserver] using hobs
  cases c with
  | freeze => exact hflags.tail (stroke_event env A C _ rfl rfl)
  | resume k => exact hflags.tail (stroke_event env A C _ rfl rfl)
  | reset => exact hflags.tail (stroke_event env A C (e := .reset h.round h.maxRounds) _ rfl rfl)
  | mute =>
    exact (hflags.tail (stroke_event env A C _ rfl rfl)).trans
      (strokes_systemMessage hkind hA (Or.inl rfl))
  | unmute =>
    exact (hflags.tail (stroke_event env A C _ rfl rfl)).trans
      (strokes_systemMessage hkind hA (Or.inr rfl))
  | goal text =>
    exact ((hflags.tail (stroke_event env A C _ rfl rfl)).tail (.goalTold hkind hA)).tail
      (.talk (talks_writeGoal _ text))

theorem strokes_handleCmd {n : Str} {p : Participant} (hp : h.get? n = some p) {c : Command}
    {seq : Option Int} (hA : A n p.kind (.cmd c seq)) :
    Strokes env A C h (h.handleCmd env n c seq) := by
  rw [handleCmd, hp]
  simp only
  split
  · exact Stroke.one (.talk (talks_send env h p (by simp) (by simp)))
  · next hobs =>
    have hrun : Strokes env A C h (h.runCommand env c) :=
      strokes_runCommand hp (by simpa using hobs) hA
    exact (hrun.tail (stroke_touchActivity env A C _)).tail
      (.talk (talks_send env _ p (by simp) (by simp)))

theorem strokes_handleRoster (h : Hub) (n : Str) (seq : Option Int) :
    Strokes env A C h (h.handleRoster env n seq) := by
  unfold handleRoster
  split
  · exact .refl
  · exact Stroke.one (.talk (talks_send env h _ (by simp) (by simp)))

/-! ## Lifecycle -/

theorem strokes_disconnect (h : Hub) (c : ClientId) : Strokes env A C h (h.disconnect env c) := by
  rcases disconnect_cases env h c with ⟨p, hp, -, heq⟩ | ⟨-, heq⟩
  · rw [heq]
    exact (Stroke.one (.left hp)).tail (.talk (talks_close _ c))
  · rw [heq]
    exact Stroke.one (.talk (talks_close h c))

theorem strokes_greet (hn : h.Named) {p : Participant} {f : Hello} (hp : h.get? f.name = some p)
    (hkind : p.kind = f.kind) (hA : A f.name f.kind (.hello f)) (rejoined : Bool) :
    Strokes env A C h (h.greet env f.name p rejoined) := by
  have hwelcome : Strokes env A C h (h.send env p (welcome env h p)) :=
    Stroke.one (.talk (talks_send env h p (by simp [welcome]) (by simp [welcome])))
  have hend : ∀ (k : Hub) q, k.get? f.name = some q → Strokes env A C k
      (k.touchActivity.emitEvent env (.peerJoined f.name p.kind p.role) (some f.name)) :=
    fun k q hq => (stroke_touchActivity env A C k).one.tail
      (.event _ _ rfl fun m hm => ⟨q, by rw [List.mem_singleton.mp hm]; exact hq⟩)
  unfold greet
  simp only
  split
  · obtain ⟨hget, -⟩ := giveBacklog_spec env (h := h.send env p (welcome env h p)) hn hp
    exact (hwelcome.tail (.caughtUp hp hkind hA)).trans (hend _ _ hget)
  · exact hwelcome.trans (hend _ _ hp)

theorem admitted_state (h : Hub) (c : ClientId) (f : Hello) :
    (admitted env h c f).state = .idle := by
  unfold admitted
  split <;> rfl

theorem state_primed (p : Participant) (recent : List MsgRec) :
    (primed env p recent).state = p.state := by
  unfold primed
  split <;> rfl

/-- What follows the entry into the roster. -/
theorem strokes_enrolled (hw : h.Wf) {c : ClientId} {f : Hello}
    (hc : (h.wire.clients c).name = []) (hA : A f.name f.kind (.hello f)) :
    Strokes env A C (h.enroll c f.name (admitted env h c f)) (h.register env c f) := by
  have hwf : (h.enroll c f.name (admitted env h c f)).Wf :=
    hw.enroll hc (admitted_name env hw c f) (nameRe_ne_nil f.name_ok.2) (admitted_client env h c f)
  have hp : (h.enroll c f.name (admitted env h c f)).get? f.name = some (admitted env h c f) :=
    get?_enroll_self ..
  have hgreet : Strokes env A C (h.enroll c f.name (admitted env h c f))
      ((h.enroll c f.name (admitted env h c f)).greet env f.name (admitted env h c f)
        (h.dead.contains f.name)) := strokes_greet hwf.named hp (admitted_kind env h c f) hA _
  unfold register
  simp only
  split
  · obtain ⟨hget, -⟩ := greet_spec env hwf.named hp (h.dead.contains f.name)
    refine hgreet.tail (.flushed hget ?_)
    split
    · exact admitted_state h c f
    · rw [state_primed]
      exact admitted_state h c f
  · exact hgreet

theorem strokes_register (hw : h.Wf) {c : ClientId} {f : Hello}
    (hc : (h.wire.clients c).name = []) (hfree : h.get? f.name = none)
    (hA : A f.name f.kind (.hello f)) (hC : .enrolled f.name ∈ C) :
    Strokes env A C h (h.register env c f) :=
  (Stroke.one (.enrolled hc hfree hA hC)).trans (strokes_enrolled hw hc hA)

/-! ## Watchdog -/

theorem strokes_pingSilent (h : Hub) (n : Str) (p : Participant) :
    Strokes env A C h (h.pingSilent env n p) := by
  unfold pingSilent
  split
  · have hping : Strokes env A C h (h.modify n fun p =>
        { p with awaitingPong := true, pongDeadline := h.now + env.config.pongTimeout }) :=
      Stroke.one (.touched fun q => ⟨⟨rfl, rfl, rfl, rfl, rfl⟩, rfl, rfl, rfl, rfl⟩)
    exact hping.tail (.talk (talks_send env _ p (by simp) (by simp)))
  · exact .refl

theorem strokes_assumeIdle {n : Str} {p q : Participant} (hq : h.get? n = some q) (hs : q.Same p)
    (hstate : q.state = p.state) (hsince : q.busySince = p.busySince)
    (hobs : p.isObserver = false) (hC : .overdue n ∈ C) :
    Strokes env A C h (h.assumeIdle env n p) := by
  unfold assumeIdle
  split
  · next hguard =>
    obtain ⟨hcaps, hbusy, hlate⟩ := hguard
    have hq' : (h.modify n (·.setIdle)).get? n = some q.setIdle := by
      rw [get?_modify_self, hq]
      rfl
    refine ((Stroke.one (.inferred hq (by rw [hs.hasIdleEvents]; exact hcaps)
      (by rw [hstate]; exact hbusy) (Or.inr ⟨by rw [hs.isObserver]; exact hobs, ?_, hC⟩))).tail
      (stroke_event env A C _ rfl rfl)).tail (.flushed hq' rfl)
    rw [hsince]
    exact hlate
  · exact .refl

theorem strokes_notifyBlocked (h : Hub) (n : Str) : Strokes env A C h (h.notifyBlocked env n) := by
  unfold notifyBlocked
  split
  · exact .refl
  · next p hp =>
    split
    · exact ((stroke_blockedNotified env A C h _).one.tail (.event _ none rfl fun m hm =>
        ⟨p, by rw [List.mem_singleton.mp hm]; exact hp⟩)).tail (.talk (talks_notify env _ _ _))
    · exact .refl

theorem strokes_checkQuorum (h : Hub) : Strokes env A C h (h.checkQuorum env) := by
  have hlatch : Stroke env A C h { h with quorumLatched := true } :=
    .aside ⟨rfl, rfl, rfl, rfl, rfl, rfl, rfl, rfl, rfl, le_rfl⟩
  unfold checkQuorum
  split
  · exact .refl
  · split
    · simp only
      split
      · exact hlatch.one.tail (stroke_event env A C _ rfl rfl)
      · exact (hlatch.one.tail (stroke_event env A C _ rfl rfl)).tail
          (.talk (talks_notify env _ _ _))
    · exact .refl

theorem strokes_checkStall (h : Hub) : Strokes env A C h (h.checkStall env) := by
  have hlatch : Stroke env A C h { h with stallLatched := true } :=
    .aside ⟨rfl, rfl, rfl, rfl, rfl, rfl, rfl, rfl, rfl, le_rfl⟩
  unfold checkStall
  split
  · exact (hlatch.one.tail (stroke_event env A C _ rfl rfl)).tail (.talk (talks_notify env _ _ _))
  · exact .refl

/-! ## Operations -/

/-- **Every handler is a sequence of strokes.** -/
theorem Strokes.rule {I : Hub → Prop}
    (hI : ∀ h h', h.Wf → Stroke env A Set.univ h h' → I h → I h') : Handled env A I := by
  have hpath : ∀ {h h' : Hub}, h.Wf → Strokes env A Set.univ h h' → I h → I h' := by
    intro h h' hw hs hh
    have hboth : h'.Wf ∧ I h' := by
      induction hs with
      | refl => exact ⟨hw, hh⟩
      | tail _ hstroke ih => exact ⟨hstroke.wf ih.1, hI _ _ ih.1 hstroke ih.2⟩
    exact hboth.2
  constructor
  case errRaw =>
    exact fun h c _ _ _ hw => hpath hw (Stroke.one (.talk (talks_errRaw env h c _ _ _)))
  case lifeSign =>
    exact fun h n hw => hpath hw
      (Stroke.one (.touched fun q => ⟨⟨rfl, rfl, rfl, rfl, rfl⟩, rfl, rfl, rfl, rfl⟩))
  case routeSay => exact fun h n p f hw hp hA => hpath hw (strokes_routeSay hw.named hp hA)
  case inferIdle =>
    exact fun h n p f hw hp hA => hpath hw (strokes_inferIdle hp hA (Set.mem_univ _))
  case markDone =>
    exact fun h n p hw hp hobs => hpath hw (Stroke.one (.finished hp hobs (Set.mem_univ _)))
  case goOn =>
    exact fun h n p hw hp hobs => hpath hw (Stroke.one (.wentOn hp hobs (Set.mem_univ _)))
  case handleState =>
    exact fun h n p f hw hp hA => hpath hw (strokes_handleState hp hA (Set.mem_univ _))
  case handleCmd => exact fun h n p c seq hw hp hA => hpath hw (strokes_handleCmd hp hA)
  case handleRoster => exact fun h n seq hw => hpath hw (strokes_handleRoster h n seq)
  case disconnect => exact fun h c hw => hpath hw (strokes_disconnect h c)
  case declareRoom =>
    intro h f hw hA hh
    unfold declareRoom
    split
    · exact hpath hw (Stroke.one (.declared _ hA)) hh
    · exact hh
  case turnAway =>
    exact fun h c n hw => hpath hw
      ((Stroke.one (.talk (talks_errRaw env h c _ _ _))).tail (.talk (talks_close _ c)))
  case register =>
    exact fun h c f hw hc hfree hA =>
      hpath hw (strokes_register hw hc hfree hA (Set.mem_univ _))
  case pingSilent => exact fun h n p hw _ => hpath hw (strokes_pingSilent h n p)
  case assumeIdle =>
    rintro h n p hw ⟨q, hq, hs, hstate, hsince⟩ hobs
    exact hpath hw (strokes_assumeIdle hq hs hstate hsince hobs (Set.mem_univ _))
  case notifyBlocked => exact fun h n hw => hpath hw (strokes_notifyBlocked h n)
  case checkQuorum => exact fun h hw => hpath hw (strokes_checkQuorum h)
  case checkStall => exact fun h hw => hpath hw (strokes_checkStall h)
  case fail => exact fun h c hw => hpath hw (Stroke.one (.talk (talks_fail h c)))

end

end Hub

end Moot
