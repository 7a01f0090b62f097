import Moot.Lib.Tally
import Moot.Hub.Cargo

/-!
# The freeze

While the hub is frozen and no observer acts, nothing is queued: what is still
handed out was queued before, one message or more with each frame, and one frame
more for a note about drops.

Proved here: `freeze_holds`, for runs that start without queued messages at an
observer's registration, and `inherited_queue_is_handed_out`, a run that does not.
-/

namespace Moot
open Py Proto

/-! ## What is due -/

/-- The frames a registration may still be handed. -/
def Mail.due (b : Mail) : Nat := if b.queue = [] then 0 else b.noted.length

theorem Mail.length_noted_le (b : Mail) : b.noted.length ≤ b.queue.length + 1 := by
  unfold Mail.noted
  split
  · exact Nat.le_succ _
  · exact le_rfl

theorem Mail.due_le (b : Mail) : b.due ≤ b.queue.length + 1 := by
  unfold Mail.due
  split
  · exact Nat.zero_le _
  · exact b.length_noted_le

/-- A flush hands out a frame that was due. -/
theorem Mail.due_flush (cfg : Config) {b : Mail} (hne : b.queue ≠ []) :
    (b.act cfg .flush).due + 1 ≤ b.due ∧
      (b.act cfg .flush).queue.length ≤ b.queue.length := by
  have hpos := cfg.deliverWakeCap_pos
  have hlen := b.length_noted_le
  have hsome : 0 < b.noted.length := List.length_pos_iff.mpr (noted_ne_nil hne)
  have hqueue : (b.act cfg .flush).queue.length = b.noted.length - cfg.deliverWakeCap :=
    List.length_drop ..
  have hdue : (b.act cfg .flush).due ≤ b.noted.length - cfg.deliverWakeCap := by
    rw [← hqueue]
    unfold Mail.due
    split
    · exact Nat.zero_le _
    · exact le_rfl
  have hb : b.due = b.noted.length := if_neg hne
  omega

/-! ## Whom the frames go to -/

/-- The name a deliver frame goes to. -/
def Effect.handedTo? : Effect → Option Str
  | .send n _ _ (.deliver ..) => some n
  | _ => none

/-- The names the deliver frames of a log went to. -/
def handedTo (log : List Effect) : List Str := log.filterMap Effect.handedTo?

theorem countP_handedTo (n : Str) (log : List Effect) :
    (handedTo log).countP (fun m => decide (m = n)) = (deliveries n log).length := by
  induction log with
  | nil => rfl
  | cons e log ih =>
    have hcons : ∀ l : List Effect, handedTo (e :: l) = e.handedTo?.toList ++ handedTo l := by
      intro l
      rw [handedTo, List.filterMap_cons]
      cases e.handedTo? <;> rfl
    have hdel : deliveries n (e :: log) = (e.delivery? n).toList ++ deliveries n log := by
      rw [deliveries, List.filterMap_cons]
      cases e.delivery? n <;> rfl
    rw [hcons, hdel, List.countP_append, List.length_append, ih, Nat.add_right_cancel_iff]
    cases e with
    | send m c up f =>
      cases f with
      | deliver round ms =>
        by_cases hm : m = n
        · simp [Effect.handedTo?, Effect.delivery?, hm]
        · simp [Effect.handedTo?, Effect.delivery?, hm]
      | _ => rfl
    | _ => rfl

namespace Hub

/-- Nothing comes from an observer or makes one. -/
def agentsOnly : Filter := fun _ kind _ => kind ≠ observerKind

/-- The frames the registration `n` may still be handed. -/
def due (h : Hub) (n : Str) : Nat :=
  match h.box? n with
  | none => 0
  | some q => q.mail.due

/-- No observer's registration holds a queued message. -/
def IdleObservers (h : Hub) : Prop :=
  ∀ n q, h.box? n = some q → q.isObserver = true → q.queue = []

/-- Since `h₀` the hub has been frozen. -/
structure Chilled (h₀ h : Hub) : Prop where
  frozen : h.frozen = true
  said : said h.wire.log = said h₀.wire.log
  observers : h.IdleObservers
  queues : ∀ n q', h.box? n = some q' → q'.queue = [] ∨
    ∃ q, h₀.box? n = some q ∧ q'.queue.length ≤ q.queue.length
  frames : ∀ n, (deliveries n h.wire.log).length + h.due n ≤
    (deliveries n h₀.wire.log).length + h₀.due n

section
variable {env : Env} {h₀ h h' : Hub}

theorem due_of_box? {n : Str} {q : Participant} (hq : h.box? n = some q) : h.due n = q.mail.due := by
  rw [due, hq]

theorem due_of_none {n : Str} (hq : h.box? n = none) : h.due n = 0 := by
  rw [due, hq]

theorem Chilled.refl (hfrozen : h.frozen = true) (hobs : h.IdleObservers) : Chilled h h :=
  ⟨hfrozen, rfl, hobs, fun _ q' hq' => Or.inr ⟨q', hq', le_rfl⟩, fun _ => le_rfl⟩

/-- A step is chilled if it is so for every registration. -/
theorem Chilled.next (hc : Chilled h₀ h) (hfrozen : h'.frozen = true)
    (hsaid : Moot.said h'.wire.log = Moot.said h.wire.log)
    (hbox : ∀ n q', h'.box? n = some q' → (q'.isObserver = true → q'.queue = []) ∧
      (q'.queue = [] ∨ ∃ q, h.box? n = some q ∧ q'.queue.length ≤ q.queue.length))
    (hframes : ∀ n, (deliveries n h'.wire.log).length + h'.due n ≤
      (deliveries n h.wire.log).length + h.due n) : Chilled h₀ h' := by
  refine ⟨hfrozen, hsaid.trans hc.said, fun n q' hq' => (hbox n q' hq').1, fun n q' hq' => ?_,
    fun n => (hframes n).trans (hc.frames n)⟩
  rcases (hbox n q' hq').2 with hnil | ⟨q, hq, hle⟩
  · exact Or.inl hnil
  · rcases hc.queues n q hq with hnil | ⟨r, hr, hle'⟩
    · refine Or.inl (List.length_eq_zero_iff.mp ?_)
      rw [hnil] at hle
      exact Nat.le_zero.mp hle
    · exact Or.inr ⟨r, hr, hle.trans hle'⟩

/-- A step that touches no mail. -/
theorem Chilled.same (hc : Chilled h₀ h) (hs : SameMail h h') (hfrozen : h'.frozen = h.frozen)
    (hsaid : Moot.said h'.wire.log = Moot.said h.wire.log) : Chilled h₀ h' := by
  refine hc.next (hfrozen.trans hc.frozen) hsaid (fun n q' hq' => ?_) fun n => ?_
  · obtain ⟨q, hq, hkind, hmail⟩ := hs.mail n q' hq'
    have hqueue : q'.queue = q.queue := congrArg Mail.queue hmail
    refine ⟨fun hobs => ?_, Or.inr ⟨q, hq, by rw [hqueue]⟩⟩
    rw [hqueue]
    exact hc.observers n q hq (by rw [← isObserver_of_kind hkind]; exact hobs)
  · rw [hs.delivered n]
    refine Nat.add_le_add_left ?_ _
    cases hq' : h'.box? n with
    | none => rw [due_of_none hq']; exact Nat.zero_le _
    | some q' =>
      obtain ⟨q, hq, -, hmail⟩ := hs.mail n q' hq'
      rw [due_of_box? hq', due_of_box? hq, hmail]

/-- A step that touches the mail of `n` alone. -/
theorem Chilled.only {E : Prop} {n : Str} {p p' : Participant} (hc : Chilled h₀ h)
    (hk : Keeps {n} {n} E h h') (hfrozen : h'.frozen = true) (hp : h.get? n = some p)
    (hp' : h'.get? n = some p') (hobs : p'.isObserver = false)
    (hlen : p'.queue.length ≤ p.queue.length)
    (hframes : (deliveries n h'.wire.log).length + p'.mail.due ≤
      (deliveries n h.wire.log).length + p.mail.due) : Chilled h₀ h' := by
  refine hc.next hfrozen hk.said (fun m q' hq' => ?_) fun m => ?_
  · by_cases hm : m = n
    · subst hm
      rw [box?_of_get? hp', Option.some.injEq] at hq'
      rw [← hq']
      exact ⟨fun hobs' => absurd hobs' (by simp [hobs]), Or.inr ⟨p, box?_of_get? hp, hlen⟩⟩
    · have hstill : Still m h h' := hk.still hm hm
      cases hq : h.box? m with
      | none =>
        rw [hstill.absent hq] at hq'
        cases hq'
      | some q =>
        obtain ⟨r, hr, -, hkind, hmail⟩ := hstill.same q hq
        rw [hq', Option.some.injEq] at hr
        subst hr
        have hqueue : q'.queue = q.queue := congrArg Mail.queue hmail
        refine ⟨fun hobs' => ?_, Or.inr ⟨q, rfl, by rw [hqueue]⟩⟩
        rw [hqueue]
        exact hc.observers m q hq (by rw [← isObserver_of_kind hkind]; exact hobs')
  · by_cases hm : m = n
    · subst hm
      rw [due_of_box? (box?_of_get? hp), due_of_box? (box?_of_get? hp')]
      exact hframes
    · have hstill : Still m h h' := hk.still hm hm
      rw [hstill.delivered]
      refine Nat.add_le_add_left ?_ _
      cases hq : h.box? m with
      | none => rw [due_of_none (hstill.absent hq)]; exact Nat.zero_le _
      | some q =>
        obtain ⟨r, hr, -, -, hmail⟩ := hstill.same q hq
        rw [due_of_box? hr, due_of_box? hq, hmail]

/-! ## Strokes -/

variable (env)

theorem frozen_deliver (h : Hub) (n : Str) (msgs : List Msg) :
    (h.deliver env n msgs).frozen = h.frozen := by
  cases hp : h.get? n with
  | none => rw [deliver, hp]
  | some p =>
    rw [deliver_eq env hp]
    split <;> rfl

theorem frozen_notify (h : Hub) (title message : Str) :
    (h.notify env title message).frozen = h.frozen := by
  unfold notify
  split <;> rfl

theorem frozen_checkSessionDone (h : Hub) : (h.checkSessionDone env).frozen = h.frozen := by
  unfold checkSessionDone
  split
  · exact frozen_notify env { h.emitEvent env (.sessionDone h.round) none with
      sessionDoneAt := some h.wall } _ _
  · rfl

theorem frozen_flushQueue {n : Str} (hfrozen : h.frozen = true) :
    (h.flushQueue env n).frozen = true := by
  cases hp : h.get? n with
  | none => rw [flushQueue, hp]; exact hfrozen
  | some p =>
    by_cases hskip : p.queue = [] ∨ h.up p.client = false
    · rw [flushQueue_skip env hp hskip]
      exact hfrozen
    · simp only [not_or, Bool.not_eq_false] at hskip
      obtain ⟨h₁, hh₁, h₂, hh₂, heq⟩ := flushQueue_eq env hp hskip.1 hskip.2
      have hfirst : h₁.frozen = true := by rcases hh₁ with rfl | rfl <;> exact hfrozen
      have hdel : (h₁.deliver env n (p.flushBatch env.config)).frozen = true :=
        (frozen_deliver env h₁ n _).trans hfirst
      rw [heq, frozen_checkSessionDone]
      rcases hh₂ with rfl | rfl
      · exact hdel
      · rw [checkRoundLimit, if_neg (by simp [hdel])]
        exact hdel

theorem Chilled.flush (hc : Chilled h₀ h) (hn : h.Named) (n : Str) :
    Chilled h₀ (h.flushQueue env n) := by
  cases hp : h.get? n with
  | none => rw [flushQueue, hp]; exact hc
  | some p =>
    obtain ⟨as, p', hp', hs, hmail, hdel, hcases⟩ := flush_acts env hn hp
    rcases hcases with ⟨-, heq, -⟩ | ⟨rfl, hne, -⟩
    · rw [heq]
      exact hc
    · have hobs : p.isObserver = false := by
        by_contra hobs
        exact hne (hc.observers n p (box?_of_get? hp) (by simpa using hobs))
      obtain ⟨hdue, hlen⟩ := Mail.due_flush env.config (b := p.mail) hne
      have hk : Keeps {n} {n} True h (h.flushQueue env n) := keeps_flushQueue env hn n
      refine hc.only hk (frozen_flushQueue env hc.frozen) hp hp' (hs.isObserver.trans hobs) ?_ ?_
      · rw [show p'.queue = _ from congrArg Mail.queue hmail]
        exact hlen
      · rw [hdel, hmail, List.length_append]
        have hone : (p.mail.playFrames env.config [.flush]).length = 1 := rfl
        rw [hone, Mail.play_cons, Mail.play_nil]
        omega

theorem Chilled.enrolled (hc : Chilled h₀ h) {c : ClientId} {f : Hello}
    (hfree : h.get? f.name = none) (hkind : f.kind ≠ observerKind) :
    Chilled h₀ (h.enroll c f.name (admitted env h c f)) := by
  have hbox : ∀ n, n ≠ f.name →
      (h.enroll c f.name (admitted env h c f)).box? n = h.box? n := fun n hn => by
    rw [box?, box?, get?_enroll_of_ne _ _ hn, enroll_dead, Dict.get?_erase_of_ne _ hn]
  have hself : (h.enroll c f.name (admitted env h c f)).box? f.name =
      some (admitted env h c f) := box?_of_get? (get?_enroll_self ..)
  have hagent : (admitted env h c f).isObserver = false := by
    simpa [Participant.isObserver, admitted_kind env h c f] using hkind
  have hqueue : (admitted env h c f).queue = [] ∨ ∃ q, h.box? f.name = some q ∧
      (admitted env h c f).queue = q.queue ∧ (admitted env h c f).mail.due = q.mail.due := by
    unfold admitted
    split
    · next d hd => exact Or.inr ⟨d, by rw [box?_of_none hfree, hd], rfl, rfl⟩
    · exact Or.inl rfl
  refine hc.next hc.frozen rfl (fun n q' hq' => ?_) fun n => Nat.add_le_add_left ?_ _
  · by_cases hn : n = f.name
    · subst hn
      rw [hself, Option.some.injEq] at hq'
      rw [← hq']
      refine ⟨fun hobs => absurd hobs (by simp [hagent]), ?_⟩
      rcases hqueue with hnil | ⟨q, hq, heq, -⟩
      · exact Or.inl hnil
      · exact Or.inr ⟨q, hq, by rw [heq]⟩
    · rw [hbox n hn] at hq'
      exact ⟨hc.observers n q' hq', Or.inr ⟨q', hq', le_rfl⟩⟩
  · by_cases hn : n = f.name
    · subst hn
      rw [due_of_box? hself]
      rcases hqueue with hnil | ⟨q, hq, -, heq⟩
      · rw [Mail.due, if_pos (show (admitted env h c f).mail.queue = [] from hnil)]
        exact Nat.zero_le _
      · rw [due_of_box? hq, heq]
    · rw [due, due, hbox n hn]

theorem Chilled.caughtUp (hc : Chilled h₀ h) (hn : h.Named) {n : Str} {p : Participant}
    (hp : h.get? n = some p) (hobs : p.isObserver = false) : Chilled h₀ (h.giveBacklog env n) := by
  have hk : Keeps {n} {n} True h (h.giveBacklog env n) := keeps_giveBacklog env hn n
  obtain ⟨hget, hdel⟩ := giveBacklog_spec env hn hp
  have hprimed : (primed env p h.recent).mail.due = p.mail.due ∧
      (primed env p h.recent).queue = p.queue ∧ (primed env p h.recent).isObserver = false := by
    unfold primed
    split
    · exact ⟨rfl, rfl, hobs⟩
    · exact ⟨rfl, rfl, hobs⟩
  have hfrozen : (h.giveBacklog env n).frozen = true := by
    rw [giveBacklog, hp]
    simp only [hobs, Bool.false_eq_true, if_false]
    exact hc.frozen
  refine hc.only hk hfrozen hp hget hprimed.2.2 (by rw [hprimed.2.1]) ?_
  rw [hdel, backlogFrames, if_pos (Or.inl hobs), List.append_nil, hprimed.1]

theorem said_leave (h : Hub) (n : Str) (p : Participant) :
    said (h.leave env n p).wire.log = said h.wire.log := by
  have hk : Keeps ∅ ∅ True
      { h with
        dead := h.dead.insert n p
        participants := h.participants.erase n
        blockedNotified := h.blockedNotified.filter (· ≠ n) }.touchActivity (h.leave env n p) :=
    keeps_emitEvent env _ (.peerLeft n) none (Or.inl trivial)
  exact hk.said

/-- **A stroke that comes from no observer.** -/
theorem Chilled.stroke (hw : h.Wf) (hs : Stroke env agentsOnly Set.univ h h') (hc : Chilled h₀ h) :
    Chilled h₀ h' := by
  have hquiet : ∀ {k : Hub}, Keeps ∅ ∅ True h k → k.frozen = h.frozen → Chilled h₀ k :=
    fun hk hfrozen => hc.same hk.sameMail hfrozen hk.said
  cases hs with
  | talk ht => exact hquiet ht.toQuiet.keeps (ht.toQuiet.same Hub.frozen fun _ _ => rfl)
  | aside ha => exact hquiet ha.keeps ha.frozen
  | event e skip => exact hquiet (keeps_emitEvent env h e skip (Or.inl trivial)) rfl
  | declared => exact hquiet (keeps_append h _ rfl (Or.inl trivial)) rfl
  | touched hg =>
    exact hc.same (sameMail_modify h _ (fun q => (hg q).kind) fun q => (hg q).mail) rfl rfl
  | reported => exact hc.same (sameMail_modify h _ (fun _ => rfl) fun _ => rfl) rfl rfl
  | inferred => exact hc.same (sameMail_modify h _ (fun _ => rfl) fun _ => rfl) rfl rfl
  | flushed => exact hc.flush env hw.named _
  | @accepted _ p _ f hq hs hopen hA =>
    -- an agent's say is refused, and nothing comes from an observer
    have hobs : p.isObserver = false := by
      simpa [Participant.isObserver] using (show p.kind ≠ observerKind from hA)
    rw [hc.frozen] at hopen
    exact absurd (hopen hobs) (by simp)
  | wentOn => exact hc.same (sameMail_modify h _ (fun _ => rfl) fun _ => rfl) rfl rfl
  | finished =>
    exact hquiet (keeps_markDone env h _) (frozen_checkSessionDone env _)
  | @commanded _ p _ _ hp hobs hA => exact absurd (by simpa [Participant.isObserver] using hobs) hA
  | noted _ _ hobs hA => exact absurd hobs hA
  | goalTold hobs hA => exact absurd hobs hA
  | @left n p hp =>
    refine hc.same (sameMail_leave hp) (frozen_checkSessionDone env _) ?_
    have hk : Keeps ∅ ∅ True (h.leave env n p) ((h.leave env n p).checkSessionDone env) :=
      keeps_checkSessionDone env _
    exact hk.said.trans (said_leave env h n p)
  | enrolled _ hfree hA => exact hc.enrolled env hfree hA
  | caughtUp hp hkind hA =>
    refine hc.caughtUp env hw.named hp ?_
    simpa [Participant.isObserver, hkind] using (show _ ≠ observerKind from hA)

/-! ## Runs -/

variable {F : Type} [PyJson.PyFloat F]

variable {env} in
theorem Chilled.step (hw : h.Wf) (hc : Chilled h₀ h) {op : Op F}
    (hA : Admitted env agentsOnly h op) : Chilled h₀ (h.step env op) := by
  have hI : Handled env agentsOnly (Chilled h₀) := Strokes.rule fun _ _ hw hs hc => hc.stroke env hw hs
  refine hI.admitted (fun k f hk => ?_) hw hc hA (fun _ => hc.same ?_ rfl rfl) fun _ _ _ => ?_
  · have hroom : Keeps ∅ ∅ True k (k.declareRoom f) := keeps_declareRoom k f
    refine hk.same hroom.sameMail ?_ hroom.said
    unfold declareRoom
    split <;> rfl
  · exact sameMail_pruneDead env h
  · exact ⟨hc.frozen, hc.said, hc.observers, hc.queues, hc.frames⟩

variable {env} in
theorem Chilled.run (hw : h.Wf) (hc : Chilled h₀ h) {ops : List (Op F)}
    (hA : Run.Always (Hub.step env) (Admitted env agentsOnly) h ops) :
    Chilled h₀ (Run.after (Hub.step env) h ops) :=
  (Run.invariant (I := Sound (Chilled h₀))
    (fun _ op hs hop => ⟨hs.1.step env op, hs.2.step hs.1 hop⟩) ⟨hw, hc⟩ hA).2

/-- The registrations of agents, live and dead. -/
def agentRegistrations (h : Hub) : List Participant :=
  (h.participants.values ++ h.dead.values).filter (!·.isObserver)

/-- The frames the registrations of agents may be handed at most. -/
def allowance (h : Hub) : Nat := (h.agentRegistrations.map fun q => q.queue.length + 1).sum

/-- What is due is within the allowance. -/
theorem due_le_allowed (hobs : h.IdleObservers) (n : Str) :
    h.due n ≤ Tally.allowed (((h.participants.entries ++ h.dead.entries).filter
      fun e => !e.2.isObserver).map fun e => (e.1, e.2.queue.length + 1)) n := by
  cases hq : h.box? n with
  | none => rw [due_of_none hq]; exact Nat.zero_le _
  | some q =>
    rw [due_of_box? hq]
    by_cases hnil : q.queue = []
    · rw [Mail.due, if_pos (show q.mail.queue = [] from hnil)]
      exact Nat.zero_le _
    · have hagent : q.isObserver = false := by
        by_contra hob
        exact hnil (hobs n q hq (by simpa using hob))
      have hmem : (n, q) ∈ h.participants.entries ++ h.dead.entries := by
        cases hp : h.get? n with
        | some p =>
          rw [box?_of_get? hp, Option.some.injEq] at hq
          subst hq
          exact List.mem_append_left _ (Dict.get?_eq_some_iff.mp hp)
        | none =>
          rw [box?_of_none hp] at hq
          exact List.mem_append_right _ (Dict.get?_eq_some_iff.mp hq)
      refine q.mail.due_le.trans (Tally.le_allowed (List.mem_map.mpr ⟨(n, q), ?_, rfl⟩))
      exact List.mem_filter.mpr ⟨hmem, by simp [hagent]⟩

theorem total_allowance (h : Hub) :
    Tally.total (((h.participants.entries ++ h.dead.entries).filter
      fun e => !e.2.isObserver).map fun e => (e.1, e.2.queue.length + 1)) = h.allowance := by
  rw [Tally.total, allowance, agentRegistrations, Dict.values, Dict.values, ← List.map_append,
    List.filter_map, List.map_map, List.map_map]
  rfl

/-- The frames that were handed out since. -/
theorem Chilled.handed (hc : Chilled h₀ h) (hobs : h₀.IdleObservers)
    (hlog : h₀.wire.log <+: h.wire.log) :
    (handedTo h.wire.log).length ≤ (handedTo h₀.wire.log).length + h₀.allowance := by
  obtain ⟨es, hes⟩ := hlog
  have hsplit : handedTo h.wire.log = handedTo h₀.wire.log ++ handedTo es := by
    rw [← hes]
    exact List.filterMap_append
  have hcount : ∀ n, (handedTo es).countP (fun m => decide (m = n)) ≤ h₀.due n := by
    intro n
    have hframes := hc.frames n
    rw [← countP_handedTo, ← countP_handedTo, hsplit, List.countP_append] at hframes
    omega
  have hlen := Tally.length_le_allowance fun n => (hcount n).trans (due_le_allowed hobs n)
  rw [total_allowance] at hlen
  rw [hsplit, List.length_append]
  omega

/-- **The freeze holds.**  From a frozen state in which no observer's registration holds a queued
message, in a run without a frame of an observer and without a hello that registers one: the hub
stays frozen, no say is accepted, no queue grows, and at most as many deliver frames are sent as
messages are queued for agents, and one more for each of them. -/
theorem freeze_holds (records : List MsgRec) (now wall : Rat) (before ops : List (Op F)) :
    let h := Run.after (Hub.step env) (init env records now wall) before
    h.frozen = true → h.IdleObservers →
      Run.Always (Hub.step env) (Admitted env agentsOnly) h ops →
        let h' := Run.after (Hub.step env) h ops
        h'.frozen = true ∧ said h'.wire.log = said h.wire.log ∧
          (∀ pre post, ops = pre ++ post → ∀ n q', h'.box? n = some q' → q'.queue = [] ∨
            ∃ q, (Run.after (Hub.step env) h pre).box? n = some q ∧
              q'.queue.length ≤ q.queue.length) ∧
          (handedTo h'.wire.log).length ≤ (handedTo h.wire.log).length + h.allowance := by
  intro h hfrozen hobs hA h'
  have hw : h.Wf := wf_run env records now wall before
  have hc : Chilled h h' := (Chilled.refl hfrozen hobs).run hw hA
  refine ⟨hc.frozen, hc.said, fun pre post heq => ?_, hc.handed hobs (log_run hw ops)⟩
  subst heq
  have hsplit := Run.always_append.mp hA
  have hmid : Chilled h (Run.after (Hub.step env) h pre) := (Chilled.refl hfrozen hobs).run hw hsplit.1
  have hwmid : (Run.after (Hub.step env) h pre).Wf :=
    Run.preserved (fun _ op hw => hw.step env op) hw pre
  have hrest := (Chilled.refl hmid.frozen hmid.observers).run hwmid hsplit.2
  show ∀ n q', (Run.after (Hub.step env) h (pre ++ post)).box? n = some q' → _
  rw [Run.after_append]
  exact hrest.queues

/-- The freeze of an observer as it comes off the wire. -/
def freezeFrame : Obj PyJson.Token :=
  [(str "t", .str (str "cmd")), (str "cmd", .str (str "freeze"))]

theorem idleObservers_of_all {h : Hub} (hall : (h.participants.values ++ h.dead.values).all
    (fun q => !q.isObserver || q.queue.isEmpty) = true) : h.IdleObservers := by
  intro n q hq hobs
  have hmem : q ∈ h.participants.values ++ h.dead.values := by
    cases hp : h.get? n with
    | some p =>
      rw [box?_of_get? hp, Option.some.injEq] at hq
      exact List.mem_append_left _ (Dict.mem_values_iff.mpr ⟨n, by rw [← hq]; exact hp⟩)
    | none =>
      rw [box?_of_none hp] at hq
      exact List.mem_append_right _ (Dict.mem_values_iff.mpr ⟨n, hq⟩)
  simpa [hobs] using List.all_eq_true.mp hall q hmem

/-- One wake for each deliver frame. -/
def singleWake : Env := { Env.still with config := { Env.still.config with
  deliverWakeCap := 1, deliverWakeCap_pos := Nat.one_pos } }

/-- An agent is busy with one message, another one is queued, and the hub is frozen. -/
def oneQueued : List (Op PyJson.Token) :=
  [.handle 0 (helloFrame "frank" "observer" []), .handle 1 (helloFrame "bob" "agent" []),
    .handle 0 (sayFrame "bob" "claim" "one" false), .handle 0 (sayFrame "bob" "claim" "two" false),
    .handle 0 freezeFrame]

theorem freeze_holds_oneQueued :
    let h := Run.after (Hub.step .still) (init .still [] 0 0) oneQueued
    let h' := Run.after (Hub.step .still) h
      ([.clock 200 0, .watchdogTick] : List (Op PyJson.Token))
    (handedTo h'.wire.log).length = (handedTo h.wire.log).length + 1 ∧ h'.frozen = true ∧
      (handedTo h'.wire.log).length ≤ (handedTo h.wire.log).length + h.allowance := by
  intro h h'
  have hholds := freeze_holds .still [] 0 0 oneQueued [.clock 200 0, .watchdogTick]
    (by decide +kernel) (idleObservers_of_all (by decide +kernel))
    ⟨fun _ _ _ heq => (nomatch heq), fun _ _ _ heq => (nomatch heq), trivial⟩
  exact ⟨by decide +kernel, hholds.1, hholds.2.2.2⟩

theorem admitted_agent {env : Env} {h : Hub} {c : ClientId} {frame : Obj F} {kind : Str}
    (ht : field frame "t" = some (.str (str "hello")))
    (hkind : field frame "kind" = some (.str kind)) (hne : kind ≠ observerKind) :
    Admitted env agentsOnly h (.handle c frame) := by
  intro c' frame' f heq hv
  cases heq
  obtain ⟨g, rfl, hg⟩ := validate_of_hello ht hv
  rw [(validateHello_fields hg).2, Option.some.injEq, PyJson.Json.str.injEq] at hkind
  intro _
  show g.kind ≠ observerKind
  rw [hkind]
  exact hne

/-- An agent's queue outlives a reclaim by an observer, which is flushed once. -/
def inherited : List (Op PyJson.Token) :=
  [.handle 0 (helloFrame "bob" "agent" []), .handle 1 (helloFrame "frank" "observer" []),
    .handle 1 (sayFrame "bob" "claim" "one" false), .handle 1 (sayFrame "bob" "claim" "two" false),
    .handle 1 (sayFrame "bob" "claim" "three" false), .disconnect 0,
    .handle 2 (helloFrame "bob" "observer" []), .disconnect 2, .handle 1 freezeFrame]

/-- The queue that an observer's registration holds is handed out to an agent. -/
theorem inherited_queue_is_handed_out :
    ¬ ∀ before ops : List (Op PyJson.Token),
      let h := Run.after (Hub.step singleWake) (init singleWake [] 0 0) before
      h.frozen = true → Run.Always (Hub.step singleWake) (Admitted singleWake agentsOnly) h ops →
        (handedTo (Run.after (Hub.step singleWake) h ops).wire.log).length ≤
          (handedTo h.wire.log).length + h.allowance := by
  intro hall
  have hle := hall inherited [.handle 3 (helloFrame "bob" "agent" [])] (by decide +kernel)
    ⟨admitted_agent rfl rfl (by decide), trivial⟩
  revert hle
  decide +kernel

end

end Hub

end Moot
