import Moot.Hub.Passage

/-!
# The integrity of the registry

A name is live or dead, never both.  Only a hello under its name wakes a dead
registration, and what it wakes is what fell asleep; a hello under the name of a
connected participant is turned away.

Proved here: `registry_intact`, over every run, whatever frames closed or stale
connections still present.
-/

namespace Moot
open Py Proto

namespace Hub

/-- The dead registration `n`, if it is one, stays dead and is sent nothing. -/
structure Asleep (n : Str) (h h' : Hub) : Prop where
  away : h.get? n = none → h'.get? n = none
  dead : h.get? n = none → h'.dead.get? n = h.dead.get? n
  delivered : h.get? n = none → deliveries n h'.wire.log = deliveries n h.wire.log

section
variable {env : Env} {n : Str} {h h' h'' : Hub}

theorem Asleep.refl (h : Hub) : Asleep n h h := ⟨id, fun _ => rfl, fun _ => rfl⟩

theorem Asleep.trans (hab : Asleep n h h') (hbc : Asleep n h' h'') : Asleep n h h'' :=
  ⟨fun hn => hbc.away (hab.away hn), fun hn => (hbc.dead (hab.away hn)).trans (hab.dead hn),
    fun hn => (hbc.delivered (hab.away hn)).trans (hab.delivered hn)⟩

theorem Turn.asleep {created : List Msg} (ht : Turn env n created h h') : Asleep n h h' :=
  ⟨ht.roster.none, fun _ => by rw [ht.roster.dead], fun hn => (ht.absent hn).1⟩

theorem Keeps.asleep {S T : Set Str} {E : Prop} (hk : Keeps S T E h h') (hT : n ∉ T) :
    Asleep n h h' :=
  ⟨hk.toRoster.none, fun _ => by rw [hk.dead], fun _ => hk.delivered n hT⟩

theorem Keeps.quietAsleep {E : Prop} (hk : Keeps ∅ ∅ E h h') : Asleep n h h' :=
  hk.asleep (Set.notMem_empty n)

variable (env)

theorem asleep_disconnect (h : Hub) (c : ClientId) (n : Str) :
    Asleep n h (h.disconnect env c) := by
  have hclose : ∀ k : Hub, Asleep n k (k.close c) := fun k =>
    (keeps_close (S := ∅) (T := ∅) (E := True) k c).quietAsleep
  rcases disconnect_cases env h c with ⟨p, hp, -, heq⟩ | ⟨-, heq⟩
  · rw [heq]
    have hleave : Asleep n h (h.leave env (h.wire.clients c).name p) := by
      have hother : h.get? n = none → n ≠ (h.wire.clients c).name := by
        rintro hn rfl
        rw [hn] at hp
        cases hp
      refine ⟨fun hn => ?_, fun hn => ?_, fun _ => deliveries_leave env h _ p n⟩
      · rw [get?_leave_of_ne env h (hother hn), hn]
      · rw [leave_dead, Dict.get?_insert_of_ne _ (hother hn)]
    have hdone : Asleep n (h.leave env (h.wire.clients c).name p) _ :=
      (keeps_checkSessionDone (S := ∅) (T := ∅) env _).quietAsleep
    exact (hleave.trans hdone).trans (hclose _)
  · rw [heq]
    exact hclose h

theorem asleep_reap (h : Hub) (m n : Str) : Asleep n h (h.reap env m) := by
  unfold reap
  split
  · split
    · exact .refl h
    · exact asleep_disconnect env h _ n
  · exact .refl h

theorem asleep_handleHello (hw : h.Wf) (c : ClientId) {f : Hello} (hn : n ≠ f.name) :
    Asleep n h (h.handleHello env c f) := by
  have hready : Asleep n h ((h.reap env f.name).declareRoom f) :=
    (asleep_reap env h f.name n).trans
      (keeps_declareRoom (S := ∅) (T := ∅) (E := True) _ f).quietAsleep
  have hw' : ((h.reap env f.name).declareRoom f).Wf :=
    (hw.reap env f.name).keeps (keeps_declareRoom (S := ∅) (T := ∅) (E := True) _ f)
  rcases handleHello_cases env h c f with
    ⟨-, detail, heq⟩ | ⟨hname, ⟨p, -, heq⟩ | ⟨-, heq⟩⟩
  · rw [heq]
    exact ((quiet_errRaw env h c _ _ _).keeps (S := ∅) (T := ∅) (E := True)).quietAsleep
  · rw [heq]
    exact hready.trans (keeps_turnAway (S := ∅) (T := ∅) (E := True) env _ c f.name).quietAsleep
  · rw [heq]
    have hc : (((h.reap env f.name).declareRoom f).wire.clients c).name = [] := by
      rw [name_declareRoom, name_reap]
      exact hname
    have henroll : Asleep n ((h.reap env f.name).declareRoom f)
        (((h.reap env f.name).declareRoom f).enroll c f.name
          (admitted env ((h.reap env f.name).declareRoom f) c f)) :=
      ⟨fun hnone => by rw [get?_enroll_of_ne _ _ hn, hnone],
        fun _ => by rw [enroll_dead, Dict.get?_erase_of_ne _ hn], fun _ => rfl⟩
    exact (hready.trans henroll).trans ((keeps_register env hw' hc f).asleep hn)

theorem asleep_dispatch (hw : h.Wf) (c : ClientId) (f : Inbound) (n : Str) :
    Asleep n h (h.dispatch env c f) := by
  by_cases hbye : f = .bye
  · subst hbye
    rcases dispatch_bye env h c with ⟨detail, heq⟩ | heq
    · rw [heq]
      exact ((quiet_errRaw env h c _ _ _).keeps (S := ∅) (T := ∅) (E := True)).quietAsleep
    · rw [heq]
      exact (keeps_lifeSign (S := ∅) (T := ∅) (E := True) h _).quietAsleep.trans
        (asleep_disconnect env _ c n)
  · exact (turn_dispatch env hw.named c hbye n).asleep

theorem asleep_tickOne (hn : h.Named) (m n : Str) : Asleep n h (h.tickOne env m) := by
  rcases tickOne_cases env h m with ⟨-, heq⟩ | ⟨p, -, heq | heq | ⟨-, heq⟩⟩
  · rw [heq]
    exact .refl h
  · rw [heq]
    exact asleep_disconnect env h _ n
  · rw [heq]
    exact (keeps_pingSilent (S := ∅) (T := ∅) (E := True) env h m p).quietAsleep
  · rw [heq]
    exact (turn_tickAgent env hn m p n).asleep

/-- A tick leaves a dead registration asleep, or expires it. -/
theorem asleep_watchdogTick (hw : h.Wf) (n : Str) : Asleep n (h.pruneDead env) (h.watchdogTick env) := by
  have hticks := (tick_invariant env (I := fun k => k.Wf ∧ Asleep n (h.pruneDead env) k)
    (fun _ m hk => ⟨hk.1.tickOne env m, hk.2.trans (asleep_tickOne env hk.1.named m n)⟩)
    ⟨hw.pruneDead env, .refl _⟩ (h.pruneDead env).participants.keys).2
  exact hticks.trans (keeps_checks (S := ∅) (T := ∅) (E := True) env _).quietAsleep

variable {F : Type} [PyJson.PyFloat F]

/-- The operation is a hello under the name `n`. -/
def IsHello (n : Str) (op : Op F) : Prop :=
  ∃ c frame f, op = .handle c frame ∧ validate env.isPrintable frame = .ok (.hello f) ∧ f.name = n

/-- **Nothing reaches a dead registration** but a hello under its name and its expiry. -/
theorem asleep_step (hw : h.Wf) (op : Op F) (hop : ¬ IsHello env n op) {d : Participant}
    (hd : h.dead.get? n = some d) :
    (h.step env op).get? n = none ∧
      deliveries n (h.step env op).wire.log = deliveries n h.wire.log ∧
      ((h.step env op).dead.get? n = some d ∨
        (h.step env op).dead.get? n = none ∧ op = .watchdogTick) := by
  have haway : h.get? n = none := by
    cases hp : h.get? n with
    | none => rfl
    | some p =>
      rw [hw.apart n p hp] at hd
      cases hd
  have hsleep : ∀ k, Asleep n h k → k.get? n = none ∧
      deliveries n k.wire.log = deliveries n h.wire.log ∧ k.dead.get? n = some d := fun k hk =>
    ⟨hk.away haway, hk.delivered haway, (hk.dead haway).trans hd⟩
  cases op with
  | handle c frame =>
    have hk : Asleep n h (h.handle env c frame) := by
      rcases handle_cases env h c frame with ⟨e, -, heq⟩ | ⟨f, hv, heq⟩
      · rw [heq]
        exact ((quiet_errRaw env h c e.code e.detail e.seq).keeps (S := ∅) (T := ∅)
          (E := True)).quietAsleep
      · rw [heq]
        rcases handleInbound_cases env h c f with ⟨g, rfl, hg⟩ | ⟨-, hg⟩
        · rw [hg]
          refine asleep_handleHello env hw c fun hn => hop ⟨c, frame, g, rfl, hv, hn.symm⟩
        · rw [hg]
          exact asleep_dispatch env hw c f n
    obtain ⟨hget, hdel, hdead⟩ := hsleep _ hk
    exact ⟨hget, hdel, Or.inl hdead⟩
  | disconnect c =>
    obtain ⟨hget, hdel, hdead⟩ := hsleep _ (asleep_disconnect env h c n)
    exact ⟨hget, hdel, Or.inl hdead⟩
  | watchdogTick =>
    have hk := asleep_watchdogTick env hw n
    refine ⟨hk.away haway, hk.delivered haway, ?_⟩
    show (h.watchdogTick env).dead.get? n = some d ∨ (h.watchdogTick env).dead.get? n = none ∧ _
    rw [hk.dead haway]
    cases hq : (h.pruneDead env).dead.get? n with
    | none => exact Or.inr ⟨rfl, rfl⟩
    | some q =>
      have hsame := (Dict.get?_filter_eq_some_iff.mp hq).1
      rw [hd] at hsame
      exact Or.inl hsame.symm
  | clock now wall => exact ⟨haway, rfl, Or.inl hd⟩
  | fail c =>
    obtain ⟨hget, hdel, hdead⟩ :=
      hsleep _ (keeps_fail (S := ∅) (T := ∅) (E := True) h c).quietAsleep
    exact ⟨hget, hdel, Or.inl hdead⟩

/-! ## What a hello hands over -/

/-- The hello is answered with `name_taken`, and the registry is as it was. -/
structure TurnedAway (c : ClientId) (f : Hello) (h h' : Hub) : Prop where
  participants : h'.participants = h.participants
  dead : h'.dead = h.dead
  answer : (h.wire.clients c).name = [] → ∃ rooms up suggestion,
    h'.wire.log = h.wire.log ++ rooms ++
      [.send [] c up (.err errNameTaken suggestion none none), .close c] ∧
    ∀ e ∈ rooms, ∃ room, e = .append h.wall (.roomDeclared room f.name h.wall)

theorem log_turnAway (h : Hub) {c : ClientId} (hname : (h.wire.clients c).name = []) (n : Str) :
    ∃ suggestion, (h.turnAway env c n).wire.log = h.wire.log ++
      [.send [] c (h.up c) (.err errNameTaken suggestion none none), .close c] := by
  unfold turnAway
  simp only
  generalize Option.getD _ _ = suggestion
  refine ⟨suggestion, ?_⟩
  simp only [errRaw, close, setWire_wire, Wire.close, Wire.send, Wire.tick, Wire.effect, hname,
    List.append_assoc, List.cons_append, List.nil_append]
  rfl

theorem turnedAway (c : ClientId) {f : Hello} {p : Participant} (hp : h.get? f.name = some p)
    (hup : h.up p.client = true) : TurnedAway c f h (h.handleHello env c f) := by
  have hreap : h.reap env f.name = h := by
    rw [reap, hp]
    simp only [hup, if_true]
  have htaken : h.participants.contains f.name = true := contains_of_get? hp
  unfold handleHello
  by_cases hname : (h.wire.clients c).name = []
  · simp only [hname, ne_eq, not_true_eq_false, if_false, hreap]
    cases hroom : f.room with
    | none =>
      simp only [declareRoom, hroom, htaken, if_true]
      obtain ⟨suggestion, hlog⟩ := log_turnAway env h hname f.name
      refine ⟨rfl, rfl, fun _ => ⟨[], h.up c, suggestion, ?_, by simp⟩⟩
      rw [hlog, List.append_nil]
    | some room =>
      have htaken' : (h.append (.roomDeclared room f.name h.wall)).participants.contains f.name =
          true := htaken
      simp only [declareRoom, hroom, htaken', if_true]
      obtain ⟨suggestion, hlog⟩ :=
        log_turnAway env (h.append (.roomDeclared room f.name h.wall)) hname f.name
      exact ⟨rfl, rfl, fun _ => ⟨[.append h.wall (.roomDeclared room f.name h.wall)], _, suggestion,
        hlog, fun e he => ⟨room, List.mem_singleton.mp he⟩⟩⟩
  · simp only [ne_eq, hname, not_false_eq_true, if_true]
    exact ⟨rfl, rfl, fun hnil => absurd hnil hname⟩

/-- The participant `p` is the registration `d`, on the connection of the hello. -/
structure HandedOver (c : ClientId) (f : Hello) (d p : Participant) : Prop where
  queue : p.queue = d.queue
  context : p.context = d.context
  dropped : p.queueDropped = d.queueDropped
  bucket : p.bucket = d.bucket
  dedup : p.dedup = d.dedup
  client : p.client = c
  kind : p.kind = f.kind
  finished : p.finished = false
  blockedSince : p.blockedSince = none
  blockedDetail : p.blockedDetail = none
  awaitingPong : p.awaitingPong = false

theorem blockedNotified_deliver (h : Hub) (n : Str) (msgs : List Msg) :
    (h.deliver env n msgs).blockedNotified = h.blockedNotified := by
  unfold deliver
  split
  · rfl
  · simp only
    split <;> rfl

theorem blockedNotified_greet (h : Hub) (n : Str) (p : Participant) (rejoined : Bool) :
    (h.greet env n p rejoined).blockedNotified = h.blockedNotified := by
  have hlog : ∀ k : Hub, (k.giveBacklog env n).blockedNotified = k.blockedNotified := fun k => by
    unfold giveBacklog
    split
    · rfl
    · simp only
      split
      · split
        · rfl
        · exact blockedNotified_deliver env k n _
      · rfl
  unfold greet
  simp only
  split
  · exact hlog _
  · rfl

/-- The hub that a reclaim hands to the flush. -/
theorem handedOver_register (hw : h.Wf) {c : ClientId} (hc : (h.wire.clients c).name = [])
    {f : Hello} {d : Participant} (hd : h.dead.get? f.name = some d) :
    ∃ k p, k.get? f.name = some p ∧ HandedOver c f d p ∧ k.dead.get? f.name = none ∧
      f.name ∉ k.blockedNotified ∧
      h.register env c f = if d.queue = [] then k else k.flushQueue env f.name := by
  have hwf := hw.enroll hc (admitted_name env hw c f) (nameRe_ne_nil f.name_ok.2)
    (admitted_client env h c f)
  have hadm : admitted env h c f = reclaimed h f c d := by rw [admitted, hd]
  have hcontains := contains_of_get? hd
  have hget := (greet_spec env hwf.named
    (get?_enroll_self h c f.name (admitted env h c f)) (h.dead.contains f.name)).1
  have hkeep := keeps_greet env hwf.named f.name (admitted env h c f) (h.dead.contains f.name)
  rw [hcontains, if_pos rfl] at hget
  rw [hcontains] at hkeep
  refine ⟨registered env c f h, reclaimed h f c d, ?_, ⟨rfl, rfl, rfl, rfl, rfl, rfl, rfl, rfl, rfl,
    rfl, rfl⟩, ?_, ?_, ?_⟩
  · rw [registered, hcontains, hget, hadm]
  · rw [registered, hcontains, hkeep.dead, enroll_dead, Dict.get?_erase_self]
  · rw [registered, hcontains, blockedNotified_greet]
    simp [enroll, hcontains]
  · rw [register_eq, hcontains, hadm, Bool.true_and]
    by_cases hqueue : d.queue = []
    · have hnil : (reclaimed h f c d).queue = [] := hqueue
      rw [if_pos hqueue, hnil]
      rfl
    · have hne : (reclaimed h f c d).queue.isEmpty = false := by
        simpa [reclaimed] using hqueue
      rw [if_neg hqueue, hne]
      rfl

/-- The registration a hello under the name `n` wakes: a dead one, or one whose connection is
gone. -/
def Claimable (h : Hub) (n : Str) (d : Participant) : Prop :=
  h.dead.get? n = some d ∨ h.get? n = some d ∧ h.up d.client = false

theorem reap_claimable (hw : h.Wf) {n : Str} {d : Participant} (hd : h.Claimable n d) :
    (h.reap env n).get? n = none ∧ (h.reap env n).dead.get? n = some d := by
  rcases hd with hd | ⟨hp, hdown⟩
  · have haway : h.get? n = none := by
      cases hp : h.get? n with
      | none => rfl
      | some p =>
        rw [hw.apart n p hp] at hd
        cases hd
    have hreap : h.reap env n = h := by rw [reap, haway]
    rw [hreap]
    exact ⟨haway, hd⟩
  · have hreap : h.reap env n = h.disconnect env d.client := by
      rw [reap, hp]
      simp only [hdown, Bool.false_eq_true, if_false]
    have hname := hw.owns n d hp
    rcases disconnect_cases env h d.client with ⟨p, hp', -, heq⟩ | ⟨hother, -⟩
    · rw [hname, hp, Option.some.injEq] at hp'
      subst hp'
      rw [hname] at heq
      have hdone : Keeps ∅ ∅ True (h.leave env n d) ((h.leave env n d).checkSessionDone env) :=
        keeps_checkSessionDone env _
      have hclose := keeps_close (S := ∅) (T := ∅) (E := True)
        ((h.leave env n d).checkSessionDone env) d.client
      rw [hreap, heq]
      refine ⟨(hdone.trans hclose).toRoster.none (get?_leave_self env h n d), ?_⟩
      rw [(hdone.trans hclose).dead, leave_dead, Dict.get?_insert_self]
    · exact absurd rfl (hother d (by rw [hname]; exact hp))

/-- **A hello hands over exactly what the registration held.** -/
theorem handedOver (hw : h.Wf) {c : ClientId} (hc : (h.wire.clients c).name = []) {f : Hello}
    {d : Participant} (hd : h.Claimable f.name d) :
    ∃ k p, k.get? f.name = some p ∧ HandedOver c f d p ∧ k.dead.get? f.name = none ∧
      f.name ∉ k.blockedNotified ∧
      h.handleHello env c f = if d.queue = [] then k else k.flushQueue env f.name := by
  obtain ⟨haway, hdead⟩ := reap_claimable env hw hd
  have hroom : Keeps ∅ ∅ True (h.reap env f.name) ((h.reap env f.name).declareRoom f) :=
    keeps_declareRoom _ f
  have hw' := (hw.reap env f.name).keeps hroom
  have hc' : (((h.reap env f.name).declareRoom f).wire.clients c).name = [] := by
    rw [name_declareRoom, name_reap]
    exact hc
  have hdead' : ((h.reap env f.name).declareRoom f).dead.get? f.name = some d := by
    rw [hroom.dead, hdead]
  rcases handleHello_cases env h c f with
    ⟨hname, -⟩ | ⟨-, ⟨p, hp, -⟩ | ⟨-, heq⟩⟩
  · exact absurd hc hname
  · rw [hroom.toRoster.none haway] at hp
    cases hp
  · rw [heq]
    exact handedOver_register env hw' hc' hdead'

/-- **The registry is intact**, in every state of every run. -/
theorem registry_intact (records : List MsgRec) (now wall : Rat) (ops : List (Op F)) :
    let h := Run.after (Hub.step env) (init env records now wall) ops
    (∀ n p, h.get? n = some p →
      p.name = n ∧ (h.wire.clients p.client).name = n ∧ h.dead.get? n = none) ∧
    (∀ n d, h.dead.get? n = some d → d.name = n ∧ h.get? n = none) ∧
    (∀ n m p q, h.get? n = some p → h.get? m = some q → p.client = q.client → n = m) ∧
    (∀ n d, h.dead.get? n = some d → ∀ op : Op F, ¬ IsHello env n op →
      (h.step env op).get? n = none ∧
        deliveries n (h.step env op).wire.log = deliveries n h.wire.log ∧
        ((h.step env op).dead.get? n = some d ∨
          (h.step env op).dead.get? n = none ∧ op = .watchdogTick)) ∧
    ∀ c (frame : Obj F) f, validate env.isPrintable frame = .ok (.hello f) →
      (∀ p, h.get? f.name = some p → h.up p.client = true →
        TurnedAway c f h (h.step env (.handle c frame))) ∧
      ∀ d, h.Claimable f.name d → (h.wire.clients c).name = [] →
        ∃ k p, k.get? f.name = some p ∧ HandedOver c f d p ∧ k.dead.get? f.name = none ∧
          f.name ∉ k.blockedNotified ∧
          h.step env (.handle c frame) = if d.queue = [] then k else k.flushQueue env f.name := by
  intro h
  have hw : h.Wf := wf_run env records now wall ops
  refine ⟨fun n p hp => ⟨hw.named n p hp, hw.owns n p hp, hw.apart n p hp⟩,
    fun n d hd => ⟨hw.deadNamed n d hd, ?_⟩, fun n m p q hp hq hc => hw.client_inj hp hq hc,
    fun n d hd op hop => asleep_step env hw op hop hd, fun c frame f hv => ?_⟩
  · cases hp : h.get? n with
    | none => rfl
    | some p =>
      rw [hw.apart n p hp] at hd
      cases hd
  · have hstep : h.step env (.handle c frame) = h.handleHello env c f := by
      show h.handle env c frame = _
      rw [handle, hv]
      rfl
    rw [hstep]
    exact ⟨fun p hp hup => turnedAway env c hp hup, fun d hd hc => handedOver env hw hc hd⟩

end

end Hub

end Moot
