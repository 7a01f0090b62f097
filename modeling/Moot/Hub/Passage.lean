import Moot.Hub.Turn

/-!
# A registration from step to step

A registration is on the roster or among the dead; `box?` finds it in both.
`Hub.Passage n created h h'`: the registration under `n` is still the same one,
the copies `created` were put into its mail, and the frames its acts hand out are
the ones delivered to `n`.

Proved here: `fate_step`, every operation is such a passage for a name, or a hello
under that name, or the tick that expires it.
-/

namespace Moot
open Py Proto

namespace Hub

/-- The registration under a name, live or dead. -/
def box? (h : Hub) (n : Str) : Option Participant := (h.get? n).or (h.dead.get? n)

/-- What happens to the mail of the registration `n` from `h` to `h'`. -/
structure Passage (env : Env) (n : Str) (created : List Msg) (h h' : Hub) : Prop where
  counter : h.msgCounter ≤ h'.msgCounter
  rested : h.Rested n → h'.Rested n
  absent : h.box? n = none → h'.box? n = none ∧ created = [] ∧
    deliveries n h'.wire.log = deliveries n h.wire.log
  acts : ∀ q, h.box? n = some q → ∃ as q', h'.box? n = some q' ∧ q'.name = q.name ∧
    q'.kind = q.kind ∧ as.flatMap Act.msgs = created ∧ q'.mail = q.mail.play env.config as ∧
    (q.isObserver = false →
      deliveries n h'.wire.log = deliveries n h.wire.log ++ q.mail.playFrames env.config as) ∧
    (q.isObserver = false → h.Rested n →
      FollowsAll env.config h.msgCounter q.mail as ∧
        as.foldl Act.raise h.msgCounter ≤ h'.msgCounter)

section
variable {env : Env} {n : Str} {h h' h'' : Hub}

theorem isObserver_of_kind {p q : Participant} (hk : p.kind = q.kind) :
    p.isObserver = q.isObserver := by
  simp [Participant.isObserver, hk]

theorem box?_of_get? {p : Participant} (hp : h.get? n = some p) : h.box? n = some p := by
  rw [box?, hp]
  rfl

theorem box?_of_none (hp : h.get? n = none) : h.box? n = h.dead.get? n := by
  rw [box?, hp]
  rfl

theorem get?_of_box?_none (hb : h.box? n = none) : h.get? n = none ∧ h.dead.get? n = none := by
  unfold box? at hb
  exact Option.or_eq_none_iff.mp hb

theorem Passage.refl (h : Hub) : Passage env n [] h h :=
  ⟨le_rfl, id, fun hb => ⟨hb, rfl, rfl⟩,
    fun q hq => ⟨[], q, hq, rfl, rfl, rfl, rfl, by simp, fun _ _ => ⟨trivial, le_rfl⟩⟩⟩

theorem Passage.trans {created created' : List Msg} (hab : Passage env n created h h')
    (hbc : Passage env n created' h' h'') : Passage env n (created ++ created') h h'' := by
  refine ⟨hab.counter.trans hbc.counter, fun hr => hbc.rested (hab.rested hr), fun hnone => ?_,
    fun q hq => ?_⟩
  · obtain ⟨hnone', rfl, hdel⟩ := hab.absent hnone
    obtain ⟨hnone'', rfl, hdel'⟩ := hbc.absent hnone'
    exact ⟨hnone'', rfl, hdel'.trans hdel⟩
  obtain ⟨as, q₁, hq₁, hname₁, hkind₁, hmsgs₁, hmail₁, hlog₁, hfol₁⟩ := hab.acts q hq
  obtain ⟨bs, q₂, hq₂, hname₂, hkind₂, hmsgs₂, hmail₂, hlog₂, hfol₂⟩ := hbc.acts q₁ hq₁
  have hobs₁ := isObserver_of_kind hkind₁
  refine ⟨as ++ bs, q₂, hq₂, hname₂.trans hname₁, hkind₂.trans hkind₁, ?_, ?_, fun hobs => ?_,
    fun hobs hr => ?_⟩
  · rw [List.flatMap_append, hmsgs₁, hmsgs₂]
  · rw [hmail₂, hmail₁, Mail.play_append]
  · rw [hlog₂ (by rw [hobs₁]; exact hobs), hlog₁ hobs, hmail₁, Mail.playFrames_append,
      List.append_assoc]
  · obtain ⟨hf₁, hr₁⟩ := hfol₁ hobs hr
    obtain ⟨hf₂, hr₂⟩ := hfol₂ (by rw [hobs₁]; exact hobs) (hab.rested hr)
    rw [hmail₁] at hf₂
    refine ⟨hf₁.append (hf₂.mono hr₁), ?_⟩
    rw [List.foldl_append]
    exact (raise_le hr₁).trans hr₂

theorem Passage.andThen {created : List Msg} (hab : Passage env n [] h h')
    (hbc : Passage env n created h' h'') : Passage env n created h h'' := hab.trans hbc

/-- The registration is as it was, as far as its mail is concerned. -/
structure Still (n : Str) (h h' : Hub) : Prop where
  counter : h.msgCounter ≤ h'.msgCounter
  recent : h'.recent = h.recent
  rested : h.Rested n → h'.Rested n
  delivered : deliveries n h'.wire.log = deliveries n h.wire.log
  absent : h.box? n = none → h'.box? n = none
  same : ∀ q, h.box? n = some q → ∃ q', h'.box? n = some q' ∧ q'.name = q.name ∧
    q'.kind = q.kind ∧ q'.mail = q.mail

theorem Still.trans (hab : Still n h h') (hbc : Still n h' h'') : Still n h h'' := by
  refine ⟨hab.counter.trans hbc.counter, hbc.recent.trans hab.recent,
    fun hr => hbc.rested (hab.rested hr), hbc.delivered.trans hab.delivered,
    fun hnone => hbc.absent (hab.absent hnone), fun q hq => ?_⟩
  obtain ⟨q₁, hq₁, hname₁, hkind₁, hmail₁⟩ := hab.same q hq
  obtain ⟨q₂, hq₂, hname₂, hkind₂, hmail₂⟩ := hbc.same q₁ hq₁
  exact ⟨q₂, hq₂, hname₂.trans hname₁, hkind₂.trans hkind₁, hmail₂.trans hmail₁⟩

/-- A registration that is moved, not touched. -/
theorem still_moved (hbox : h'.box? n = h.box? n) (hcount : h.msgCounter ≤ h'.msgCounter)
    (hrecent : h'.recent = h.recent) (hrest : h.Rested n → h'.Rested n)
    (hdel : deliveries n h'.wire.log = deliveries n h.wire.log) : Still n h h' :=
  ⟨hcount, hrecent, hrest, hdel, fun hnone => hbox.trans hnone,
    fun q hq => ⟨q, hbox.trans hq, rfl, rfl, rfl⟩⟩

/-- A step that does not affect `n`. -/
theorem Keeps.still {S T : Set Str} {E : Prop} (hk : Keeps S T E h h') (hS : n ∉ S) (hT : n ∉ T) :
    Still n h h' := by
  refine ⟨hk.counter, hk.recent, hk.rested hS, hk.delivered n hT, fun hnone => ?_, fun q hq => ?_⟩
  · obtain ⟨hlive, hdead⟩ := get?_of_box?_none hnone
    rw [box?_of_none (hk.toRoster.none hlive), hk.dead]
    exact hdead
  · cases hp : h.get? n with
    | none =>
      rw [box?_of_none hp] at hq
      exact ⟨q, by rw [box?_of_none (hk.toRoster.none hp), hk.dead, hq], rfl, rfl, rfl⟩
    | some p =>
      rw [box?_of_get? hp, Option.some.injEq] at hq
      subst hq
      obtain ⟨p', hp', hs, hcalm⟩ := hk.spec hp
      exact ⟨p', box?_of_get? hp', hs.name, hs.kind, (hcalm hS).mail⟩

theorem Keeps.quietStill {E : Prop} (hk : Keeps ∅ ∅ E h h') : Still n h h' :=
  hk.still (Set.notMem_empty n) (Set.notMem_empty n)

theorem Still.passage (hs : Still n h h') : Passage env n [] h h' := by
  refine ⟨hs.counter, hs.rested, fun hnone => ⟨hs.absent hnone, rfl, hs.delivered⟩, fun q hq => ?_⟩
  obtain ⟨q', hq', hname, hkind, hmail⟩ := hs.same q hq
  refine ⟨[], q', hq', hname, hkind, rfl, hmail, fun _ => ?_, fun _ _ => ⟨trivial, hs.counter⟩⟩
  rw [hs.delivered, Mail.playFrames_nil, List.append_nil]

/-- What a step does to a participant, it does to its registration. -/
theorem Turn.passage {created : List Msg} (ht : Turn env n created h h') :
    Passage env n created h h' := by
  refine ⟨ht.counter, ht.rested, fun hnone => ?_, fun q hq => ?_⟩
  · obtain ⟨hlive, hdead⟩ := get?_of_box?_none hnone
    obtain ⟨hdel, hcreated⟩ := ht.absent hlive
    refine ⟨?_, hcreated, hdel⟩
    rw [box?_of_none (ht.roster.none hlive), ht.roster.dead]
    exact hdead
  · cases hp : h.get? n with
    | none =>
      obtain ⟨hdel, rfl⟩ := ht.absent hp
      rw [box?_of_none hp] at hq
      refine ⟨[], q, by rw [box?_of_none (ht.roster.none hp), ht.roster.dead, hq], rfl, rfl, rfl, rfl,
        fun _ => ?_, fun _ _ => ⟨trivial, ht.counter⟩⟩
      rw [hdel, Mail.playFrames_nil, List.append_nil]
    | some p =>
      rw [box?_of_get? hp, Option.some.injEq] at hq
      subst hq
      obtain ⟨as, q', hq', hs, hmsgs, hmail, hdel, hfol⟩ := ht.acts p hp
      exact ⟨as, q', box?_of_get? hq', hs.name, hs.kind, hmsgs, hmail, hdel, hfol⟩

/-! ## Leaving -/

variable (env)

theorem deliveries_leave (h : Hub) (m : Str) (p : Participant) (n : Str) :
    deliveries n (h.leave env m p).wire.log = deliveries n h.wire.log := by
  have hk : Keeps ∅ ∅ True
      { h with
        dead := h.dead.insert m p
        participants := h.participants.erase m
        blockedNotified := h.blockedNotified.filter (· ≠ m) }.touchActivity (h.leave env m p) :=
    keeps_emitEvent env _ (.peerLeft m) none (Or.inl trivial)
  exact hk.delivered n (Set.notMem_empty n)

theorem still_leave {m : Str} {p : Participant} (hp : h.get? m = some p) (n : Str) :
    Still n h (h.leave env m p) := by
  refine still_moved ?_ le_rfl rfl (fun hr q hq hobs hidle hup => ?_) (deliveries_leave env h m p n)
  · by_cases hn : n = m
    · subst hn
      rw [box?_of_none (get?_leave_self env h n p), leave_dead, Dict.get?_insert_self,
        box?_of_get? hp]
    · rw [box?, box?, get?_leave_of_ne env h hn, leave_dead, Dict.get?_insert_of_ne _ hn]
  · rw [get?_leave] at hq
    split at hq
    · cases hq
    · exact hr q hq hobs hidle ((le_leave env h m p).down q.client hup)

theorem still_disconnect (h : Hub) (c : ClientId) (n : Str) : Still n h (h.disconnect env c) := by
  have hclose : ∀ k : Hub, Still n k (k.close c) := fun k =>
    (keeps_close (S := ∅) (T := ∅) (E := True) k c).quietStill
  rcases disconnect_cases env h c with ⟨p, hp, -, heq⟩ | ⟨-, heq⟩
  · rw [heq]
    have hdone : Still n (h.leave env (h.wire.clients c).name p) _ :=
      (keeps_checkSessionDone (S := ∅) (T := ∅) env _).quietStill
    exact ((still_leave env hp n).trans hdone).trans (hclose _)
  · rw [heq]
    exact hclose h

/-! ## The watchdog -/

theorem passage_tickOne (hn : h.Named) (m : Str) (n : Str) :
    Passage env n [] h (h.tickOne env m) := by
  rcases tickOne_cases env h m with ⟨-, heq⟩ | ⟨p, -, heq | heq | ⟨-, heq⟩⟩
  · rw [heq]
    exact .refl h
  · rw [heq]
    exact (still_disconnect env h _ n).passage
  · rw [heq]
    exact (keeps_pingSilent (S := ∅) (T := ∅) (E := True) env h m p).quietStill.passage
  · rw [heq]
    exact (turn_tickAgent env hn m p n).passage

theorem passage_ticks (hw : h.Wf) (ms : List Str) (n : Str) :
    Passage env n [] h (ms.foldl (tickOne env) h) :=
  (tick_invariant env (I := fun k => k.Wf ∧ Passage env n [] h k)
    (fun _ m hk => ⟨hk.1.tickOne env m, hk.2.andThen (passage_tickOne env hk.1.named m n)⟩)
    ⟨hw, .refl h⟩ ms).2

/-- The registration is gone. -/
structure Expired (n : Str) (h h' : Hub) : Prop where
  there : ∃ q, h.box? n = some q
  gone : h'.box? n = none
  counter : h.msgCounter ≤ h'.msgCounter
  delivered : deliveries n h'.wire.log = deliveries n h.wire.log

/-- A tick expires a registration or is a passage. -/
theorem passage_watchdogTick (hw : h.Wf) (n : Str) :
    Passage env n [] h (h.watchdogTick env) ∨ Expired n h (h.watchdogTick env) := by
  have hrest : Passage env n [] (h.pruneDead env) (h.watchdogTick env) :=
    (passage_ticks env (hw.pruneDead env) _ n).andThen
      (keeps_checks (S := ∅) (T := ∅) (E := True) env _).quietStill.passage
  by_cases hbox : (h.pruneDead env).box? n = h.box? n
  · exact Or.inl ((still_moved hbox le_rfl rfl id rfl).passage.andThen hrest)
  · have hsub : ∀ q, (h.pruneDead env).box? n = some q → h.box? n = some q := by
      intro q hq
      cases hp : h.get? n with
      | some p =>
        have hp' : (h.pruneDead env).get? n = some p := hp
        rwa [box?_of_get? hp, ← box?_of_get? hp']
      | none =>
        have hp' : (h.pruneDead env).get? n = none := hp
        rw [box?_of_none hp'] at hq
        rw [box?_of_none hp]
        exact (Dict.get?_filter_eq_some_iff.mp hq).1
    have hgone : (h.pruneDead env).box? n = none := by
      cases hq : (h.pruneDead env).box? n with
      | none => rfl
      | some q => exact absurd (hq.trans (hsub q hq).symm) hbox
    have hthere : ∃ q, h.box? n = some q := by
      cases hq : h.box? n with
      | none => exact absurd (hgone.trans hq.symm) hbox
      | some q => exact ⟨q, rfl⟩
    obtain ⟨hnone, -, hdel⟩ := hrest.absent hgone
    exact Or.inr ⟨hthere, hnone, hrest.counter, hdel⟩

/-! ## Joining -/

/-- The backlog of an agent, as it overhears it. -/
def overheardBacklog (env : Env) (n : Str) (recent : List MsgRec) : List Msg :=
  (backlog env n false recent).map (·.tag .overheard)

/-- A backlog is in the order of the recent window. -/
theorem ids_backlog (env : Env) (n : Str) (obs : Bool) (recent : List MsgRec) :
    ((backlog env n obs recent).map Msg.id).Sublist (recent.map MsgRec.id) := by
  have hids : (backlog env n obs recent).map Msg.id =
      ((lastN env.config.backlogOnJoin (visible n obs recent)).filter
        (·.sender ≠ n)).map MsgRec.id := by
    rw [backlog, List.map_map]
    rfl
  rw [hids]
  exact ((List.filter_sublist.trans (lastN_suffix _ _).sublist).trans
    List.filter_sublist).map MsgRec.id

/-- The backlog frame of an observer. -/
def backlogFrames (env : Env) (p : Participant) (recent : List MsgRec) : List (List Msg) :=
  if p.isObserver = false ∨ backlog env p.name true recent = [] then []
  else [sortById ((backlog env p.name true recent).map fun m => m.tag (p.addressing m.addressee))]

/-- The context of a fresh registration. -/
def emptyContext (config : Config) : ContextBuffer :=
  { cap := config.contextCap, cap_pos := config.contextCap_pos, bounded := Nat.zero_le _ }

/-- The mail of a fresh registration. -/
def emptyMail (env : Env) (n : Str) : Mail where
  owner := n
  queue := []
  dropped := 0
  context := emptyContext env.config

/-- The participant after the backlog of a join. -/
def primed (env : Env) (p : Participant) (recent : List MsgRec) : Participant :=
  if p.isObserver then p
  else { p with context := (overheardBacklog env p.name recent).foldl .append p.context }

theorem giveBacklog_spec (hn : h.Named) {p : Participant} (hp : h.get? n = some p) :
    (h.giveBacklog env n).get? n = some (primed env p h.recent) ∧
      deliveries n (h.giveBacklog env n).wire.log =
        deliveries n h.wire.log ++ backlogFrames env p h.recent := by
  obtain rfl := hn n p hp
  rw [giveBacklog, hp]
  by_cases hobs : p.isObserver = true
  · simp only [hobs, if_true]
    by_cases hnil : backlog env p.name true h.recent = []
    · simp [hnil, hp, primed, backlogFrames, hobs]
    · rw [if_neg (by simpa using hnil), get?_deliver env hp, deliveries_deliver env hn hp]
      simp [primed, backlogFrames, hobs, hnil]
  · simp only [hobs, Bool.false_eq_true, if_false]
    refine ⟨?_, by simp [backlogFrames, hobs, modify]⟩
    rw [get?_modify_self, hp]
    simp only [Option.map_some, primed, hobs, overheardBacklog, List.foldl_map,
      Bool.false_eq_true, if_false]

/-- The greeting of a join, seen from the newcomer. -/
theorem greet_spec (hn : h.Named) {p : Participant} (hp : h.get? n = some p) (rejoined : Bool) :
    (h.greet env n p rejoined).get? n =
        some (if rejoined then p else primed env p h.recent) ∧
      deliveries n (h.greet env n p rejoined).wire.log =
        deliveries n h.wire.log ++ backlogFrames env p h.recent := by
  have hwelcome : Keeps ∅ ∅ True h (h.send env p (welcome env h p)) :=
    (quiet_send env h p (by simp [welcome])).keeps
  have hevent : ∀ k : Hub, Keeps ∅ ∅ True k
      (k.touchActivity.emitEvent env (.peerJoined n p.kind p.role) (some n)) := fun k =>
    (keeps_touchActivity k).trans (keeps_emitEvent env _ _ _ (Or.inl trivial))
  have hp₁ : (h.send env p (welcome env h p)).get? n = some p := hp
  obtain ⟨hget, hdel⟩ := giveBacklog_spec env (hwelcome.named hn) hp₁
  have hdel₁ := hwelcome.delivered n (Set.notMem_empty n)
  have hrecent : (h.send env p (welcome env h p)).recent = h.recent := rfl
  unfold greet
  by_cases hlog : (!rejoined || p.isObserver) = true
  · simp only [hlog, if_true]
    refine ⟨hget.trans ?_, ?_⟩
    · rw [hrecent]
      cases rejoined with
      | false => rfl
      | true => simp only [primed, show p.isObserver = true by simpa using hlog, if_true]
    · rw [(hevent _).delivered n (Set.notMem_empty n), hdel, hdel₁, hrecent]
  · simp only [hlog, Bool.false_eq_true, if_false]
    simp only [Bool.or_eq_true, Bool.not_eq_true', not_or, Bool.not_eq_false,
      Bool.not_eq_true] at hlog
    refine ⟨?_, ?_⟩
    · rw [if_pos hlog.1]
      exact hp₁
    · rw [(hevent _).delivered n (Set.notMem_empty n), hdel₁]
      simp [backlogFrames, hlog.2]

variable (c : ClientId) (f : Hello)

/-- The hub just before the flush of a hello. -/
def registered (h : Hub) : Hub :=
  (h.enroll c f.name (admitted env h c f)).greet env f.name (admitted env h c f)
    (h.dead.contains f.name)

theorem register_eq (h : Hub) :
    h.register env c f =
      if h.dead.contains f.name && !(admitted env h c f).queue.isEmpty then
        (registered env c f h).flushQueue env f.name
      else registered env c f h := rfl

variable {c f}

theorem contains_of_get? {d : Dict Str Participant} {q : Participant} (hd : d.get? n = some q) :
    d.contains n = true := Dict.contains_iff.mpr ⟨q, hd⟩

theorem not_contains_of_get? {d : Dict Str Participant} (hd : d.get? n = none) :
    d.contains n = false := by
  rw [Bool.eq_false_iff]
  intro hc
  obtain ⟨q, hq⟩ := Dict.contains_iff.mp hc
  rw [hd] at hq
  cases hq

/-- **A reclaim**, seen from its registration `q`. -/
structure Reclaimed (env : Env) (f : Hello) (q : Participant) (h h' : Hub) : Prop where
  counter : h.msgCounter ≤ h'.msgCounter
  rested : h'.Rested f.name
  acts : ∃ as q', h'.get? f.name = some q' ∧ q'.name = f.name ∧ q'.kind = f.kind ∧
    (as = [] ∨ as = [.flush] ∧ q.queue ≠ []) ∧ q'.mail = q.mail.play env.config as ∧
    deliveries f.name h'.wire.log = deliveries f.name h.wire.log ++
      (backlogFrames env q' h.recent ++ q.mail.playFrames env.config as)

theorem backlogFrames_same {p q : Participant} (hs : p.Same q) (recent : List MsgRec) :
    backlogFrames env p recent = backlogFrames env q recent := by
  have haddr : p.addressing = q.addressing := funext fun a => by
    simp only [Participant.addressing, hs.name]
  simp only [backlogFrames, hs.isObserver, hs.name, haddr]

/-- An agent that nothing is queued for is rested. -/
theorem rested_of_queue {p : Participant} (hp : h.get? n = some p) (hq : p.queue = []) :
    h.Rested n := by
  intro q' hq' _ _ _
  rw [hp, Option.some.injEq] at hq'
  rw [← hq', hq]

theorem reclaimed_register (hw : h.Wf) (hc : (h.wire.clients c).name = []) {q : Participant}
    (hd : h.dead.get? f.name = some q) : Reclaimed env f q h (h.register env c f) := by
  have hwf := hw.enroll hc (admitted_name env hw c f) (nameRe_ne_nil f.name_ok.2)
    (admitted_client env h c f)
  have hadm : admitted env h c f = reclaimed h f c q := by rw [admitted, hd]
  have hcontains := contains_of_get? hd
  obtain ⟨hget, hdel⟩ := greet_spec env hwf.named
    (get?_enroll_self h c f.name (admitted env h c f)) (h.dead.contains f.name)
  rw [hcontains, if_pos rfl, hadm] at hget
  rw [hcontains, hadm] at hdel
  have hreg : registered env c f h =
      (h.enroll c f.name (reclaimed h f c q)).greet env f.name (reclaimed h f c q) true := by
    rw [registered, hadm, hcontains]
  have hkeep : Keeps {f.name} {f.name} True (h.enroll c f.name (reclaimed h f c q))
      (registered env c f h) := by
    rw [hreg]
    rw [hadm] at hwf
    exact keeps_greet env hwf.named f.name _ true
  have hcount : h.msgCounter ≤ (registered env c f h).msgCounter := hkeep.counter
  have hname : (reclaimed h f c q).name = f.name := by rw [← hadm]; exact admitted_name env hw c f
  rw [← hreg] at hget hdel
  have hnamed : (registered env c f h).Named := hkeep.named (by rw [← hadm]; exact hwf.named)
  rw [register_eq]
  by_cases hqueue : (reclaimed h f c q).queue = []
  · rw [if_neg (by rw [hadm, hqueue]; simp)]
    refine ⟨hcount, rested_of_queue hget hqueue, [], _, hget, hname, rfl, Or.inl rfl, ?_, ?_⟩
    · rw [Mail.play_nil]
      rfl
    · rw [hdel]
      simp [enroll]
  · rw [if_pos (by rw [hcontains, hadm]; simpa using hqueue)]
    obtain ⟨as, p', hp', hs, hplay, hframes, hcases⟩ := flush_acts env hnamed hget
    refine ⟨hcount.trans (keeps_flushQueue env hnamed f.name).counter, ?_, as, p', hp',
      hs.name.trans hname, hs.kind, ?_, hplay, ?_⟩
    · intro r hr hobs hidle hup
      rw [hp', Option.some.injEq] at hr
      subst hr
      rcases hcases with ⟨rfl, heq, hnil | hdown⟩ | ⟨rfl, -, -, hbusy⟩
      · exact absurd hnil hqueue
      · rw [heq, hs.client, hdown] at hup
        cases hup
      · rw [hbusy (by rw [← hs.isObserver]; exact hobs)] at hidle
        cases hidle
    · rcases hcases with ⟨rfl, -⟩ | ⟨rfl, hne, -⟩
      · exact Or.inl rfl
      · exact Or.inr ⟨rfl, hne⟩
    · rw [hframes, hdel, backlogFrames_same env hs, List.append_assoc]
      rfl

/-- **A fresh registration.** -/
structure Joined (env : Env) (f : Hello) (h h' : Hub) : Prop where
  counter : h.msgCounter ≤ h'.msgCounter
  rested : h'.Rested f.name
  acts : ∃ q', h'.get? f.name = some q' ∧ q'.name = f.name ∧ q'.kind = f.kind ∧
    q'.mail = (emptyMail env f.name).play env.config
      (if q'.isObserver then [] else (overheardBacklog env f.name h.recent).map .overhear) ∧
    deliveries f.name h'.wire.log =
      deliveries f.name h.wire.log ++ backlogFrames env q' h.recent

theorem mail_overhears (b : Mail) (ms : List Msg) :
    b.play env.config (ms.map .overhear) = { b with context := ms.foldl .append b.context } := by
  induction ms generalizing b with
  | nil => rfl
  | cons m ms ih =>
    rw [List.map_cons, Mail.play_cons, ih]
    rfl

theorem joined_register (hw : h.Wf) (hc : (h.wire.clients c).name = [])
    (hd : h.dead.get? f.name = none) :
    Joined env f h (h.register env c f) := by
  have hwf := hw.enroll hc (admitted_name env hw c f) (nameRe_ne_nil f.name_ok.2)
    (admitted_client env h c f)
  have hadm : admitted env h c f = fresh env h f c := by rw [admitted, hd]
  have hcontains := not_contains_of_get? hd
  obtain ⟨hget, hdel⟩ := greet_spec env hwf.named
    (get?_enroll_self h c f.name (admitted env h c f)) (h.dead.contains f.name)
  have hkeep := keeps_greet env hwf.named f.name (admitted env h c f) (h.dead.contains f.name)
  rw [register_eq, hcontains, Bool.false_and, if_neg Bool.false_ne_true, registered, hcontains]
  rw [hcontains] at hget hdel hkeep
  rw [if_neg Bool.false_ne_true] at hget
  have hsame : (primed env (admitted env h c f) (h.enroll c f.name
      (admitted env h c f)).recent).Same (admitted env h c f) := by
    unfold primed
    split
    · exact .refl _
    · exact ⟨rfl, rfl, rfl, rfl, rfl⟩
  have hname := hsame.name.trans (admitted_name env hw c f)
  have hkind := hsame.kind.trans (admitted_kind env h c f)
  refine ⟨hkeep.counter, rested_of_queue hget ?_, _, hget, hname, hkind, ?_, ?_⟩
  · rw [hadm]
    unfold primed
    split <;> rfl
  · rw [hsame.isObserver]
    unfold primed
    split
    · rw [hadm]
      rfl
    · rw [mail_overhears, hadm]
      rfl
  · rw [hdel, backlogFrames_same env hsame]
    rfl

/-! ## Operations -/

theorem still_errRaw (h : Hub) (c : ClientId) (code detail : Str) (seq : Option Int) (n : Str) :
    Still n h (h.errRaw env c code detail seq) :=
  (quiet_errRaw env h c code detail seq).keeps.quietStill (E := True)

theorem still_reap (h : Hub) (m n : Str) : Still n h (h.reap env m) := by
  unfold reap
  split
  · split
    · exact still_moved rfl le_rfl rfl id rfl
    · exact still_disconnect env h _ n
  · exact still_moved rfl le_rfl rfl id rfl

/-- A registration does not affect the others. -/
theorem still_register (hw : h.Wf) (hc : (h.wire.clients c).name = []) (hn : n ≠ f.name) :
    Still n h (h.register env c f) := by
  have henroll : Still n h (h.enroll c f.name (admitted env h c f)) := by
    have hget := get?_enroll_of_ne h c hn (admitted env h c f)
    refine still_moved ?_ le_rfl rfl (fun hr q hq hobs hidle hup => ?_) rfl
    · rw [box?, box?, hget, enroll_dead, Dict.get?_erase_of_ne _ hn]
    · refine hr q (hget.symm.trans hq) hobs hidle ?_
      by_cases hcl : q.client = c
      · subst hcl
        simpa [Hub.enroll, Hub.up] using hup
      · simpa [Hub.enroll, Hub.up, Function.update_of_ne hcl] using hup
  exact henroll.trans ((keeps_register env hw hc f).still hn hn)

/-- What becomes of the registration under a name. -/
inductive Fate (env : Env) (n : Str) (created : List Msg) (h h' : Hub) : Prop
  | kept (passage : Passage env n created h h')
  | expired (none : created = []) (expired : Expired n h h')
  | reclaimed (f : Hello) (q : Participant) (name : f.name = n) (none : created = [])
      (found : h.box? n = some q) (reclaimed : Reclaimed env f q h h')
  | joined (f : Hello) (name : f.name = n) (none : created = []) (absent : h.box? n = .none)
      (joined : Joined env f h h')

theorem Reclaimed.of_still {q q₁ : Participant} (hs : Still f.name h h')
    (hq : h.box? f.name = some q) (hq₁ : h'.box? f.name = some q₁)
    (hr : Reclaimed env f q₁ h' h'') : Reclaimed env f q h h'' := by
  obtain ⟨q₂, hq₂, -, -, hmail⟩ := hs.same q hq
  rw [hq₁, Option.some.injEq] at hq₂
  subst hq₂
  obtain ⟨as, q', hq', hname, hkind, has, hplay, hdel⟩ := hr.acts
  have hqueue : q₁.queue = q.queue := congrArg Mail.queue hmail
  rw [hqueue] at has
  rw [hmail] at hplay
  rw [hs.recent, hs.delivered, hmail] at hdel
  exact ⟨hs.counter.trans hr.counter, hr.rested, as, q', hq', hname, hkind, has, hplay, hdel⟩

theorem Joined.of_still (hs : Still f.name h h') (hj : Joined env f h' h'') :
    Joined env f h h'' := by
  obtain ⟨q', hq', hname, hkind, hplay, hdel⟩ := hj.acts
  rw [hs.recent] at hplay
  rw [hs.recent, hs.delivered] at hdel
  exact ⟨hs.counter.trans hj.counter, hj.rested, q', hq', hname, hkind, hplay, hdel⟩

theorem fate_handleHello (hw : h.Wf) (c : ClientId) (f : Hello) (n : Str) :
    Fate env n [] h (h.handleHello env c f) := by
  have hready : Still n h ((h.reap env f.name).declareRoom f) :=
    (still_reap env h f.name n).trans
      (keeps_declareRoom (S := ∅) (T := ∅) (E := True) _ f).quietStill
  have hw' : ((h.reap env f.name).declareRoom f).Wf :=
    (hw.reap env f.name).keeps (keeps_declareRoom (S := ∅) (T := ∅) (E := True) _ f)
  rcases handleHello_cases env h c f with
    ⟨-, detail, heq⟩ | ⟨hname, ⟨p, -, heq⟩ | ⟨hfree, heq⟩⟩
  · rw [heq]
    exact .kept (still_errRaw env h c _ _ _ n).passage
  · rw [heq]
    exact .kept (hready.trans
      (keeps_turnAway (S := ∅) (T := ∅) (E := True) env _ c f.name).quietStill).passage
  · rw [heq]
    have hc : (((h.reap env f.name).declareRoom f).wire.clients c).name = [] := by
      rw [name_declareRoom, name_reap]
      exact hname
    by_cases hn : n = f.name
    · subst hn
      cases hd : ((h.reap env f.name).declareRoom f).dead.get? f.name with
      | none =>
        have hnone : h.box? f.name = none := by
          cases hq : h.box? f.name with
          | none => rfl
          | some q =>
            obtain ⟨q', hq', -⟩ := hready.same q hq
            rw [box?_of_none hfree, hd] at hq'
            cases hq'
        exact .joined f rfl rfl hnone ((joined_register env hw' hc hd).of_still env hready)
      | some q₁ =>
        have hq₁ : ((h.reap env f.name).declareRoom f).box? f.name = some q₁ := by
          rw [box?_of_none hfree, hd]
        cases hq : h.box? f.name with
        | none =>
          rw [hready.absent hq] at hq₁
          cases hq₁
        | some q =>
          exact .reclaimed f q rfl rfl hq
            ((reclaimed_register env hw' hc hd).of_still env hready hq hq₁)
    · exact .kept (hready.trans (still_register env hw' hc hn)).passage

variable {F : Type} [PyJson.PyFloat F]

/-- The copies an operation creates for `n`: those that the table of the floor prescribes for an
accepted say, the notes and the goal line of a command. -/
def prescribed (env : Env) (h : Hub) (op : Op F) (n : Str) : List Msg :=
  match op with
  | .handle c frame =>
    match validate env.isPrintable frame with
    | .error _ => []
    | .ok f => frameCopies env h (h.wire.clients c).name f n
  | _ => []

theorem fate_handle (hw : h.Wf) (c : ClientId) (frame : Obj F) (n : Str) :
    Fate env n (prescribed env h (.handle c frame) n) h (h.handle env c frame) := by
  rcases handle_cases env h c frame with ⟨e, hv, heq⟩ | ⟨f, hv, heq⟩
  · simp only [prescribed, hv, heq]
    exact .kept (still_errRaw env h c e.code e.detail e.seq n).passage
  · simp only [prescribed, hv, heq]
    rcases handleInbound_cases env h c f with ⟨g, rfl, hg⟩ | ⟨-, hg⟩
    · rw [hg]
      exact fate_handleHello env hw c g n
    · rw [hg]
      by_cases hbye : f = .bye
      · subst hbye
        have hlife : Still n h (h.lifeSign (h.wire.clients c).name) :=
          (keeps_lifeSign (S := ∅) (T := ∅) (E := True) h _).quietStill
        rcases dispatch_bye env h c with ⟨detail, hd⟩ | hd
        · rw [hd]
          exact .kept (still_errRaw env h c _ _ _ n).passage
        · rw [hd]
          exact .kept (hlife.trans (still_disconnect env _ c n)).passage
      · exact .kept (turn_dispatch env hw.named c hbye n).passage

/-- **What an operation does to the registration under a name.** -/
theorem fate_step (hw : h.Wf) (op : Op F) (n : Str) :
    Fate env n (prescribed env h op n) h (h.step env op) := by
  cases op with
  | handle c frame => exact fate_handle env hw c frame n
  | disconnect c => exact .kept (still_disconnect env h c n).passage
  | watchdogTick =>
    rcases passage_watchdogTick env hw n with hp | he
    · exact .kept hp
    · exact .expired rfl he
  | clock now wall =>
    have hclock : Still n h { h with now := now, wall := wall } :=
      still_moved rfl le_rfl rfl id rfl
    exact .kept hclock.passage
  | fail c => exact .kept (keeps_fail (S := ∅) (T := ∅) (E := True) h c).quietStill.passage

end

end Hub

end Moot
