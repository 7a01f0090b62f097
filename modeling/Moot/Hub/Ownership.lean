import Moot.Hub.Registry

/-!
# Frames of a connection that has lost its name

`disconnect` compares client objects; every other handler looks the participant
up by the client's name.  So a frame that arrives from a connection whose name
another connection has reclaimed is handled as the new holder's frame.

Proved here: `acts_only_for_iff`, exactly which frames of such a connection
leave the hub and everybody else alone.
-/

namespace Moot
open Py Proto

/-- The effect concerns at most the client `c`, and is no record. -/
def Effect.onlyFor (c : ClientId) : Effect → Bool
  | .send _ d _ _ => d = c
  | .close d => d = c
  | .encode _ => true
  | _ => false

namespace Hub

/-- The hub is as it was, but for the wire, and what was done to the outside was done to `c`. -/
structure Untouched (c : ClientId) (h h' : Hub) : Prop where
  rest : h' = h.setWire h'.wire
  log : ∃ es, h'.wire.log = h.wire.log ++ es ∧ ∀ e ∈ es, e.onlyFor c = true

/-- The connection carries a name that is not, or no longer, its own. -/
def Stale (h : Hub) (c : ClientId) : Prop :=
  (h.wire.clients c).name ≠ [] ∧
    ∀ p, h.get? (h.wire.clients c).name = some p → p.client ≠ c

/-- The report repeats what is on record about `p`, and no flush follows it. -/
def repeats (h : Hub) (p : Participant) (f : Report) : Prop :=
  match f.state with
  | .idle =>
    p.state = .idle ∧ p.blockedSince = none ∧ p.blockedDetail = none ∧
      (p.queue = [] ∨ h.up p.client = false)
  | .busy =>
    p.state = .busy ∧ p.busySince = h.now ∧ p.blockedSince = none ∧ p.blockedDetail = none
  | .blocked => p.state = .blocked ∧ p.busySince = h.now ∧ p.blockedDetail = f.detail

/-- `p` has been heard at this very moment and owes no pong. -/
def heard (h : Hub) (p : Participant) : Prop := p.lastRx = h.now ∧ p.awaitingPong = false

/-- The frames of `p`'s name that change nothing. -/
def Harmless (h : Hub) (p : Participant) : Inbound → Prop
  | .hello _ => True
  | .bye | .pong => h.heard p
  | .state f => h.heard p ∧ h.repeats p f
  | .say _ | .cmd .. | .roster _ => False

/-! ## Sends to the holder of the name -/

section
variable (env : Env) {h h' : Hub}

/-- Something is sent to the client `d` on the way from `h` to `h'`. -/
def Reaches (d : ClientId) (h h' : Hub) : Prop :=
  ∃ (x : Hub) (p : Participant) (f : Frame), p.client = d ∧ h.wire.Le x.wire ∧
    (x.send env p f).wire.Le h'.wire

theorem Reaches.not_untouched {c d : ClientId} (hr : Reaches env d h h') (hne : d ≠ c) :
    ¬ Untouched c h h' := by
  rintro ⟨-, es, hes, honly⟩
  obtain ⟨x, p, f, rfl, hle, hle'⟩ := hr
  obtain ⟨fs, hfs⟩ := hle.log
  obtain ⟨gs, hgs⟩ := hle'.log
  have hsent : (x.send env p f).wire.log =
      x.wire.log ++ [.send p.name p.client (x.wire.clients p.client).connected f] := rfl
  rw [hsent, ← hfs, hes, List.append_assoc, List.append_assoc] at hgs
  have hmem : Effect.send p.name p.client (x.wire.clients p.client).connected f ∈ es := by
    rw [← List.append_cancel_left hgs]
    simp
  have := honly _ hmem
  exact hne (by simpa [Effect.onlyFor] using this)

theorem le_notify (h : Hub) (title message : Str) :
    h.wire.Le (h.notify env title message).wire := (quiet_notify env h title message).wire.toLe

theorem le_answer (h : Hub) (p : Participant) (f : Say) (id queuedFor : Nat) :
    (h.send env p (.said id queuedFor f.seq)).wire.Le (h.answer env p f id queuedFor).wire := by
  unfold answer
  simp only
  split
  · exact le_notify env (h.send env p (.said id queuedFor f.seq)) _ _
  · exact .refl _

/-- A say is answered to the participant of its name. -/
theorem reaches_routeSay (hn : h.Named) {n : Str} {p : Participant} (hp : h.get? n = some p)
    (f : Say) : Reaches env p.client h (h.routeSay env n f).2 := by
  obtain ⟨h₀, hc, heq | ⟨code, detail, retry, heq⟩⟩ := routeSay_cases env hp f
  · rw [heq]
    have hcharged : Keeps ∅ ∅ False h h₀ := hc.keeps
    have hrem := hcharged.toRoster.trans (roster_remember env h₀ p f)
    have hroute := hrem.trans (keeps_route env (E := False) (hrem.named hn) (h₀.sayMsg p f)).toRoster
    exact ⟨_, p, _, rfl, hroute.wire, le_answer env _ p f _ _⟩
  · rw [heq]
    refine ⟨h₀, p, .err code detail (some f.seq) retry, rfl,
      (hc.keeps (S := ∅) (T := ∅) (E := True)).wire, ?_⟩
    exact (quiet_emitRejected env _ _ _ _ _ _ _ _).wire.toLe

theorem Reaches.then {d : ClientId} {h'' : Hub} (hr : Reaches env d h h')
    (hle : h'.wire.Le h''.wire) : Reaches env d h h'' := by
  obtain ⟨x, p, f, hd, hx, hx'⟩ := hr
  exact ⟨x, p, f, hd, hx, hx'.trans hle⟩

theorem Reaches.after {d : ClientId} {h₀ : Hub} (hle : h₀.wire.Le h.wire)
    (hr : Reaches env d h h') : Reaches env d h₀ h' := by
  obtain ⟨x, p, f, hd, hx, hx'⟩ := hr
  exact ⟨x, p, f, hd, hle.trans hx, hx'⟩

theorem reaches_handleSay (hn : h.Named) {n : Str} {p : Participant} (hp : h.get? n = some p)
    (f : Say) : Reaches env p.client h (h.handleSay env n f) :=
  (reaches_routeSay env hn hp f).then env
    (keeps_settle env ((roster_routeSay env hn n f).named hn) n f _).wire

theorem reaches_handleCmd (hn : h.Named) {n : Str} {p : Participant} (hp : h.get? n = some p)
    (cmd : Command) (seq : Option Int) : Reaches env p.client h (h.handleCmd env n cmd seq) := by
  rw [handleCmd, hp]
  simp only
  split
  · exact ⟨h, p, _, rfl, .refl _, .refl _⟩
  · exact ⟨_, p, _, rfl, ((keeps_runCommand env (E := True) hn cmd).trans
      (keeps_touchActivity _)).wire, .refl _⟩

theorem reaches_handleRoster {n : Str} {p : Participant} (hp : h.get? n = some p)
    (seq : Option Int) : Reaches env p.client h (h.handleRoster env n seq) := by
  rw [handleRoster, hp]
  exact ⟨h, p, _, rfl, .refl _, .refl _⟩

/-- A flush that finds a queue and a connection delivers to it. -/
theorem reaches_flushQueue {n : Str} {p : Participant} (hp : h.get? n = some p)
    (hq : p.queue ≠ []) (hu : h.up p.client = true) :
    Reaches env p.client h (h.flushQueue env n) := by
  obtain ⟨h₁, hh₁, h₂, hh₂, heq⟩ := flushQueue_eq env hp hq hu
  have hmod : Keeps {n} ∅ True h (h.modify n (·.flushed env.config)) :=
    keeps_modify h n (same_flushed env) (Or.inl trivial)
  have hk₁ : Keeps {n} ∅ True h h₁ := by
    rcases hh₁ with rfl | rfl
    · exact hmod
    · exact hmod.trans (keeps_floor rfl rfl rfl rfl rfl le_rfl rfl)
  have hp₁ : h₁.get? n = some (p.flushed env.config) := by
    have hself : (h.modify n (·.flushed env.config)).get? n = some (p.flushed env.config) := by
      rw [get?_modify_self, hp]; rfl
    rcases hh₁ with rfl | rfl
    · exact hself
    · exact hself
  have hdel : (h₁.handOut env (p.flushed env.config) (sortById (p.flushBatch env.config))).wire.Le
      (h₁.deliver env n (p.flushBatch env.config)).wire := by
    rw [deliver_eq env hp₁]
    split
    · exact .refl _
    · exact .refl _
  have hrest : (h₁.deliver env n (p.flushBatch env.config)).wire.Le h₂.wire := by
    rcases hh₂ with rfl | rfl
    · exact .refl _
    · exact (keeps_checkRoundLimit (S := ∅) (T := ∅) (E := True) env _).wire
  rw [heq]
  refine ⟨h₁, p.flushed env.config,
    .deliver h₁.round (sortById (p.flushBatch env.config)), rfl, hk₁.wire, ?_⟩
  exact ((Wire.le_effect _ _).trans hdel).trans
    (hrest.trans (keeps_checkSessionDone (S := ∅) (T := ∅) env h₂).wire)

/-! ## Reports -/

/-- The participant a report leaves behind, before any flush. -/
def reported (now : Rat) (f : Report) (p : Participant) : Participant :=
  let p' := p.setState now f.state
  if f.state = .blocked then
    if p.state ≠ .blocked ∨ p.blockedDetail ≠ f.detail then
      { p' with blockedSince := some now, blockedDetail := f.detail }
    else p'
  else { p' with blockedSince := none, blockedDetail := none }

theorem modify_modify (h : Hub) (n : Str) (f g : Participant → Participant) :
    (h.modify n f).modify n g = h.modify n (g ∘ f) := by
  simp [modify, Dict.modify_modify]

theorem modify_self {n : Str} {f : Participant → Participant}
    (hf : ∀ p, h.get? n = some p → f p = p) : h.modify n f = h := by
  rw [modify, Dict.modify_self hf]

/-- A report that is not of idleness, or finds nothing to flush, changes the reporter alone. -/
theorem get?_handleState {n : Str} {p : Participant} (hp : h.get? n = some p) (f : Report)
    (hskip : f.state = .idle → p.queue = [] ∨ h.up p.client = false) :
    (h.handleState env n f).get? n = some (reported h.now f p) := by
  have hget : ∀ g : Participant → Participant, (h.modify n g).get? n = some (g p) := fun g => by
    rw [get?_modify_self, hp]; rfl
  rw [handleState, hp]
  simp only
  by_cases hb : f.state = .blocked
  · simp only [hb, if_true]
    split
    · next hnew =>
      refine (get?_modify_self _ _ _).trans ?_
      simp only [hget, Option.map_some, reported, hb, if_true, if_pos hnew]
      rfl
    · next hold => simp only [hget, reported, hb, if_true, if_neg hold]
  · simp only [hb, if_false]
    have hget₂ : ((h.modify n (·.setState h.now f.state)).modify n fun p =>
        { p with blockedSince := none, blockedDetail := none }).get? n =
        some (reported h.now f p) := by
      rw [get?_modify_self, hget]
      simp only [Option.map_some, reported, hb, if_false]
    split
    · next hi =>
      rw [flushQueue_skip env hget₂]
      · exact hget₂
      · simp only [reported, hb, if_false]
        exact hskip hi
    · exact hget₂

/-- What is on record already is not changed by a report of it. -/
theorem repeats_iff (p : Participant) (f : Report) :
    h.repeats p f ↔
      reported h.now f p = p ∧ (f.state = .idle → p.queue = [] ∨ h.up p.client = false) := by
  obtain ⟨name, kind, role, caps, client, context, bucket, dedup, state, queue, queueDropped,
    finished, lastRx, busySince, lastSay, blockedSince, blockedDetail, awaitingPong,
    pongDeadline⟩ := p
  obtain ⟨s, detail, hdetail⟩ := f
  cases s with
  | idle =>
    simp only [repeats, reported, Participant.setState, reduceCtorEq, if_false, if_true,
      Participant.mk.injEq, true_and, and_true, forall_const]
    constructor
    · rintro ⟨h₁, h₂, h₃, h₄⟩
      exact ⟨⟨h₁.symm, h₂.symm, h₃.symm⟩, h₄⟩
    · rintro ⟨⟨h₁, h₂, h₃⟩, h₄⟩
      exact ⟨h₁.symm, h₂.symm, h₃.symm, h₄⟩
  | busy =>
    simp only [repeats, reported, Participant.setState, reduceCtorEq, if_false,
      Participant.mk.injEq, true_and, and_true, false_implies]
    constructor
    · rintro ⟨h₁, h₂, h₃, h₄⟩
      exact ⟨h₁.symm, h₂.symm, h₃.symm, h₄.symm⟩
    · rintro ⟨h₁, h₂, h₃, h₄⟩
      exact ⟨h₁.symm, h₂.symm, h₃.symm, h₄.symm⟩
  | blocked =>
    simp only [repeats, reported, Participant.setState, reduceCtorEq, if_false, if_true,
      false_implies, and_true]
    constructor
    · rintro ⟨rfl, rfl, rfl⟩
      simp
    · intro heq
      split at heq
      · simp only [Participant.mk.injEq, true_and, and_true] at heq
        next hnew =>
        obtain ⟨h₁, h₂, -, h₃⟩ := heq
        rcases hnew with hs | hd
        · exact absurd h₁.symm hs
        · exact absurd h₃.symm hd
      · next hold =>
        simp only [not_or, not_not] at hold
        simp only [Participant.mk.injEq, true_and, and_true] at heq
        exact ⟨hold.1, heq.2.symm, hold.2⟩

/-- A report of what is on record leaves the hub as it is. -/
theorem handleState_repeats {n : Str} {p : Participant} (hp : h.get? n = some p) {f : Report}
    (hr : h.repeats p f) : h.handleState env n f = h := by
  obtain ⟨s, detail, hdetail⟩ := f
  have hset : h.modify n (·.setState h.now s) = h := by
    refine modify_self fun q hq => ?_
    rw [hp, Option.some.injEq] at hq
    subst hq
    unfold Participant.setState
    cases s with
    | idle => rw [if_pos rfl, ← hr.1]
    | busy => rw [if_neg (by decide), ← hr.2.1, ← hr.1]
    | blocked => rw [if_neg (by decide), ← hr.2.1, ← hr.1]
  have hclear : p.blockedSince = none → p.blockedDetail = none →
      (h.modify n fun p => { p with blockedSince := none, blockedDetail := none }) = h := by
    intro hsince hdet
    refine modify_self fun q hq => ?_
    rw [hp, Option.some.injEq] at hq
    subst hq
    rw [← hsince, ← hdet]
  rw [handleState, hp]
  simp only [hset]
  cases s with
  | idle =>
    obtain ⟨-, hsince, hdet, hskip⟩ := hr
    simp only [reduceCtorEq, if_false, if_true, hclear hsince hdet]
    exact flushQueue_skip env hp hskip
  | busy =>
    obtain ⟨-, -, hsince, hdet⟩ := hr
    simp only [reduceCtorEq, if_false, hclear hsince hdet]
  | blocked =>
    obtain ⟨hstate, -, hdet⟩ := hr
    simp only [if_true, hstate, hdet, ne_eq, not_true_eq_false, or_self, if_false]

theorem reaches_handleState {n : Str} {p : Participant} (hp : h.get? n = some p) {f : Report}
    (hi : f.state = .idle) (hq : p.queue ≠ []) (hu : h.up p.client = true) :
    Reaches env p.client h (h.handleState env n f) := by
  have hget : ((h.modify n (·.setState h.now f.state)).modify n fun p =>
      { p with blockedSince := none, blockedDetail := none }).get? n =
      some (reported h.now f p) := by
    rw [get?_modify_self, get?_modify_self, hp]
    simp only [Option.map_some, reported, hi, reduceCtorEq, if_false]
  have hqueue : (reported h.now f p).queue ≠ [] := by
    simp only [reported, hi, reduceCtorEq, if_false]
    exact hq
  have hclient : (reported h.now f p).client = p.client := by
    simp only [reported, hi, reduceCtorEq, if_false]
    rfl
  have hreach := reaches_flushQueue env hget hqueue (by rw [hclient]; exact hu)
  rw [hclient] at hreach
  rw [handleState, hp]
  simp only [hi, reduceCtorEq, if_false, if_true]
  rw [hi] at hreach
  exact hreach.after env (.refl _)

/-! ## The frames of a stale connection -/

theorem lifeSign_heard {n : Str} {p : Participant} (hp : h.get? n = some p) (hh : h.heard p) :
    h.lifeSign n = h := by
  refine modify_self fun q hq => ?_
  rw [hp, Option.some.injEq] at hq
  subst hq
  rw [← hh.1, ← hh.2]

theorem get?_lifeSign {n : Str} {p : Participant} (hp : h.get? n = some p) :
    (h.lifeSign n).get? n = some { p with lastRx := h.now, awaitingPong := false } := by
  rw [lifeSign, get?_modify_self, hp]
  rfl

theorem Untouched.refl (c : ClientId) (h : Hub) : Untouched c h h :=
  ⟨rfl, [], (List.append_nil _).symm, by simp⟩

theorem Untouched.get? {c : ClientId} (hu : Untouched c h h') (n : Str) :
    h'.get? n = h.get? n := by
  rw [hu.rest]
  rfl

/-- An answer to `c` and nothing else. -/
theorem untouched_errRaw (c : ClientId) (code detail : Str) (seq : Option Int) :
    Untouched c h (h.errRaw env c code detail seq) :=
  ⟨rfl, [_], rfl, by simp [Effect.onlyFor]⟩

theorem untouched_close (h : Hub) (c : ClientId) : Untouched c h (h.close c) :=
  ⟨rfl, [_], rfl, by simp [Effect.onlyFor]⟩

/-- What a stale connection disconnects is itself. -/
theorem disconnect_stale {c : ClientId}
    (hs : ∀ p, h.get? (h.wire.clients c).name = some p → p.client ≠ c) :
    h.disconnect env c = h.close c := by
  rcases disconnect_cases env h c with ⟨p, hp, hc, -⟩ | ⟨-, heq⟩
  · exact absurd hc (hs p hp)
  · exact heq

/-- The life sign of a frame shows, unless the participant was heard just now. -/
theorem heard_of_untouched {c : ClientId} {n : Str} {p p' : Participant}
    (hp : h.get? n = some p) (hp' : h'.get? n = some p') (hu : Untouched c h h')
    (hrx : p'.lastRx = h.now) (hpong : p'.awaitingPong = false) : h.heard p := by
  rw [hu.get?, hp, Option.some.injEq] at hp'
  subst hp'
  exact ⟨hrx, hpong⟩

theorem untouched_report_iff {c : ClientId} (hne : ∀ p, h.get? (h.wire.clients c).name = some p →
    p.client ≠ c) {p : Participant} (hp : h.get? (h.wire.clients c).name = some p) (f : Report) :
    Untouched c h ((h.lifeSign (h.wire.clients c).name).handleState env (h.wire.clients c).name f) ↔
      h.heard p ∧ h.repeats p f := by
  have hp₁ := get?_lifeSign hp
  constructor
  · intro hu
    have hskip : f.state = .idle → p.queue = [] ∨ h.up p.client = false := by
      intro hi
      by_contra hflush
      simp only [not_or, Bool.not_eq_false] at hflush
      have hreach := reaches_handleState env hp₁ hi hflush.1 hflush.2
      exact (hreach.after env (Wire.Le.refl h.wire)).not_untouched env (hne p hp) hu
    have hget := get?_handleState env hp₁ f hskip
    have heq := hget
    rw [hu.get?, hp, Option.some.injEq] at heq
    have hh : h.heard p := by
      refine heard_of_untouched hp hget hu ?_ ?_
      · unfold reported
        split
        · split <;> rfl
        · rfl
      · unfold reported
        split
        · split <;> rfl
        · rfl
    refine ⟨hh, (repeats_iff p f).mpr ⟨?_, hskip⟩⟩
    have hsame : ({ p with lastRx := h.now, awaitingPong := false } : Participant) = p := by
      rw [← hh.1, ← hh.2]
    rw [hsame] at heq
    exact heq.symm
  · rintro ⟨hh, hr⟩
    rw [lifeSign_heard hp hh, handleState_repeats env hp hr]
    exact .refl c h

/-- The frames that go to the handlers of the registered. -/
theorem untouched_dispatch_iff (hw : h.Wf) {c : ClientId} (hs : h.Stale c) {p : Participant}
    (hp : h.get? (h.wire.clients c).name = some p) {f : Inbound} (hf : ∀ g, f ≠ .hello g) :
    Untouched c h (h.dispatch env c f) ↔ h.Harmless p f := by
  have hp₁ := get?_lifeSign hp
  have hn₁ : (h.lifeSign (h.wire.clients c).name).Named :=
    (keeps_lifeSign (S := ∅) (T := ∅) (E := True) h _).named hw.named
  have hne := hs.2 p hp
  unfold dispatch
  simp only [hp]
  cases f with
  | hello g => exact absurd rfl (hf g)
  | say f =>
    have hreach := (reaches_handleSay env hn₁ hp₁ f).after env (Wire.Le.refl h.wire)
    exact iff_of_false (hreach.not_untouched env hne) id
  | cmd cmd seq =>
    have hreach := (reaches_handleCmd env hn₁ hp₁ cmd seq).after env (Wire.Le.refl h.wire)
    exact iff_of_false (hreach.not_untouched env hne) id
  | roster seq =>
    have hreach := (reaches_handleRoster env hp₁ seq).after env (Wire.Le.refl h.wire)
    exact iff_of_false (hreach.not_untouched env hne) id
  | state f => exact untouched_report_iff env hs.2 hp f
  | pong =>
    constructor
    · exact fun hu => heard_of_untouched hp hp₁ hu rfl rfl
    · intro hh
      simp only [lifeSign_heard hp hh]
      exact .refl c h
  | bye =>
    have hs₁ : ∀ q, (h.lifeSign (h.wire.clients c).name).get?
        ((h.lifeSign (h.wire.clients c).name).wire.clients c).name = some q → q.client ≠ c := by
      intro q hq
      rw [show ((h.lifeSign (h.wire.clients c).name).wire.clients c).name =
        (h.wire.clients c).name from rfl, hp₁, Option.some.injEq] at hq
      subst hq
      exact hne
    simp only [disconnect_stale env hs₁]
    constructor
    · intro hu
      have hp₂ : ((h.lifeSign (h.wire.clients c).name).close c).get? (h.wire.clients c).name =
          _ := hp₁
      exact heard_of_untouched hp hp₂ hu rfl rfl
    · intro hh
      rw [lifeSign_heard hp hh]
      exact untouched_close h c

variable {F : Type} [PyJson.PyFloat F]

/-- A frame of a stale connection, whether or not it passes validation. -/
theorem untouched_handle_iff (hw : h.Wf) {c : ClientId} (hs : h.Stale c) (frame : Obj F) :
    Untouched c h (h.handle env c frame) ↔
      ∀ f, validate env.isPrintable frame = .ok f →
        ∀ p, h.get? (h.wire.clients c).name = some p → h.Harmless p f := by
  rcases handle_cases env h c frame with ⟨e, hv, heq⟩ | ⟨f, hv, heq⟩
  · rw [heq]
    refine iff_of_true (untouched_errRaw env c _ _ _) fun f hf => ?_
    rw [hv] at hf
    cases hf
  · rw [heq]
    simp only [hv, Except.ok.injEq, forall_eq']
    rcases handleInbound_cases env h c f with ⟨g, rfl, heq⟩ | ⟨hf, heq⟩
    · rw [heq]
      refine iff_of_true ?_ fun p _ => trivial
      rcases handleHello_cases env h c g with ⟨-, detail, heq⟩ | ⟨hname, -⟩
      · rw [heq]
        exact untouched_errRaw env c _ _ _
      · exact absurd hname hs.1
    · rw [heq]
      cases hp : h.get? (h.wire.clients c).name with
      | none =>
        refine iff_of_true ?_ (by simp)
        unfold dispatch
        simp only [hp]
        exact untouched_errRaw env c _ _ _
      | some p =>
        simp only [Option.some.injEq, forall_eq']
        exact untouched_dispatch_iff env hw hs hp hf

/-- **Exactly the harmless frames of a stale connection act for it alone**, in every state of every
run. -/
theorem acts_only_for_iff (records : List MsgRec) (now wall : Rat) (ops : List (Op F)) (c : ClientId)
    (frame : Obj F) :
    let h := Run.after (Hub.step env) (init env records now wall) ops
    h.Stale c →
      (Untouched c h (h.handle env c frame) ↔
        ∀ f, validate env.isPrintable frame = .ok f →
          ∀ p, h.get? (h.wire.clients c).name = some p → h.Harmless p f) :=
  fun hs => untouched_handle_iff env (wf_run env records now wall ops) hs frame

end

/-- A hub on which client 1 has reclaimed the name of client 0. -/
def reclaimedName : Hub :=
  Run.after (Hub.step .still) (init .still [] 0 0)
    [.handle 0 (helloFrame "bob" "agent" []), .disconnect 0,
      .handle 1 (helloFrame "bob" "agent" [])]

set_option maxRecDepth 4000 in
theorem stale_reclaimedName : reclaimedName.Stale 0 := by
  refine ⟨by decide +kernel, fun p hp => ?_⟩
  have hclient : (reclaimedName.get? (str "bob")).map (·.client) = some 1 := by decide +kernel
  have hname : (reclaimedName.wire.clients 0).name = str "bob" := by decide +kernel
  rw [hname] at hp
  rw [hp, Option.map_some, Option.some.injEq] at hclient
  rw [hclient]
  decide

theorem acts_only_for_iff_reclaimedName :
    Untouched 0 reclaimedName (reclaimedName.handle .still 0 (stateFrame "busy")) ↔
      ∀ f, validate Env.still.isPrintable (stateFrame "busy") = .ok f →
        ∀ p, reclaimedName.get? (reclaimedName.wire.clients 0).name = some p →
          reclaimedName.Harmless p f :=
  acts_only_for_iff .still [] 0 0
    [.handle 0 (helloFrame "bob" "agent" []), .disconnect 0,
      .handle 1 (helloFrame "bob" "agent" [])] 0 (stateFrame "busy") stale_reclaimedName

set_option maxRecDepth 4000 in
/-- A report that was still in the old connection's socket makes the new holder of the name busy. -/
theorem stale_report_acts :
    reclaimedName.Stale 0 ∧
      (reclaimedName.get? (str "bob")).map (fun p => (p.client, p.state)) = some (1, .idle) ∧
      ((reclaimedName.handle .still 0 (stateFrame "busy")).get? (str "bob")).map
        (fun p => (p.client, p.state)) = some (1, .busy) ∧
      ¬ Untouched 0 reclaimedName (reclaimedName.handle .still 0 (stateFrame "busy")) := by
  have hbefore : (reclaimedName.get? (str "bob")).map (fun p => (p.client, p.state)) =
      some (1, .idle) := by decide +kernel
  have hafter : ((reclaimedName.handle .still 0 (stateFrame "busy")).get? (str "bob")).map
      (fun p => (p.client, p.state)) = some (1, .busy) := by decide +kernel
  refine ⟨stale_reclaimedName, hbefore, hafter, fun hu => ?_⟩
  rw [hu.get?, hbefore] at hafter
  revert hafter
  decide

end Hub

end Moot
