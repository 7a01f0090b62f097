import Moot.Hub.Clean
import Moot.Hub.Stall

/-!
# The blocked alarm

A participant that reports itself blocked gets a spell: it starts when the report
turns the participant blocked or changes what it says of it, and it ends with the
blockage.  The watchdog raises one alarm for each spell that lasts too long.

Proved here: `unalarmed_step`, only the watchdog raises alarms; `Deed.blockage`, what a
deed does to a blockage; `alarm_exact`, in every run on clean strings one alarm for each
spell, not before its time and not missed.
-/

namespace Moot
open Py Proto

/-- The event is an alarm of the watchdog. -/
def HubEvent.alarm : HubEvent → Bool
  | .stall _ | .blocked .. | .quorum _ => true
  | _ => false

namespace Hub

/-- No alarm is raised on the way. -/
abbrev Unalarmed (h h' : Hub) : Prop := Emits (fun e => e.alarm = false) h h'

section
variable (env : Env) {h h' : Hub}

/-! ## Handlers raise no alarms -/

theorem unalarmed_checkRoundLimit (h : Hub) : Unalarmed h (h.checkRoundLimit env) := by
  have hlimit : Unalarmed h (h.announceLimit env) := by
    have hfrozen : Unalarmed h { h with frozen := true } := emits_nothing rfl
    exact (hfrozen.trans (emits_emitEvent env _ none rfl)).trans (emits_notify env _ _ _)
  unfold checkRoundLimit
  split
  · split
    · exact hlimit
    · exact hlimit.trans (emits_one rfl rfl)
  · exact emits_nothing rfl

theorem unalarmed_checkSessionDone (h : Hub) : Unalarmed h (h.checkSessionDone env) := by
  unfold checkSessionDone
  split
  · have hevent : Unalarmed h
        { h.emitEvent env (.sessionDone h.round) none with sessionDoneAt := some h.wall } :=
      emits_emitEvent env h (e := .sessionDone h.round) none rfl
    have hall : Unalarmed h (h.announceDone env) := hevent.trans (emits_notify env _ _ _)
    exact hall.trans (wrote_nothing rfl)
  · exact emits_nothing rfl

theorem unalarmed_flushQueue (h : Hub) (n : Str) : Unalarmed h (h.flushQueue env n) := by
  unfold flushQueue
  split
  · exact emits_nothing rfl
  · next p hp =>
    split
    · exact emits_nothing rfl
    · have hdrained : ∀ k : Hub, k.wire = h.wire →
          Unalarmed h (k.deliver env n (p.flushBatch env.config)) := fun k hk =>
        (emits_nothing (congrArg Wire.log hk)).trans (emits_deliver env k n _)
      simp only
      apply Wrote.trans _ (unalarmed_checkSessionDone env _)
      split
      · apply Wrote.trans _ (unalarmed_checkRoundLimit env _)
        exact hdrained _ rfl
      · exact hdrained _ rfl

theorem unalarmed_systemMessage (h : Hub) (text : Str) : Unalarmed h (h.systemMessage env text) := by
  have hnote : ∀ (k : Hub) (n : Str), Unalarmed k (k.systemNote env text n) := by
    intro k n
    unfold systemNote
    split
    · exact emits_nothing rfl
    · split
      · exact emits_nothing rfl
      · simp only
        split
        · exact Wrote.trans (wrote_nothing rfl) (emits_deliver env _ n _)
        · exact emits_nothing rfl
  unfold systemMessage
  generalize h.participants.keys = ns
  induction ns generalizing h with
  | nil => exact emits_nothing rfl
  | cons n ns ih => exact (hnote h n).trans (ih _)

theorem unalarmed_disconnect (h : Hub) (c : ClientId) : Unalarmed h (h.disconnect env c) := by
  have hclose : ∀ k : Hub, Unalarmed k (k.close c) := fun k => emits_one rfl rfl
  have hleave : ∀ n p, Unalarmed h (h.leave env n p) := fun n p =>
    Wrote.trans (wrote_nothing rfl) (emits_emitEvent env _ (e := .peerLeft n) none rfl)
  unfold disconnect
  simp only
  split
  · exact hclose h
  · split
    · exact ((hleave _ _).trans (unalarmed_checkSessionDone env _)).trans (hclose _)
    · exact hclose h

theorem unalarmed_route (h : Hub) (msg : Msg) : Unalarmed h (h.route env msg).1 := by
  have hall : ∀ (bs : List (Str × List Msg)) (k : Hub), Unalarmed k (k.deliverAll env bs) := by
    intro bs
    induction bs with
    | nil => exact fun k => emits_nothing rfl
    | cons b bs ih => exact fun k => (emits_deliver env k b.1 b.2).trans (ih _)
  unfold route
  simp only
  generalize batches (fun q => (routeOne env h.up msg q).woken) h = bw
  generalize batches (fun q => (routeOne env h.up msg q).observed) h = bo
  have hgiven : ∀ k : Hub, k.wire = h.wire → Unalarmed h ((k.deliverAll env bo).deliverAll env bw) :=
    fun k hk => ((wrote_nothing (congrArg Wire.log hk)).trans (hall bo k)).trans (hall bw _)
  split
  · exact hgiven _ rfl
  · apply Wrote.trans _ (unalarmed_checkRoundLimit env _)
    exact hgiven _ rfl

theorem unalarmed_accept (h : Hub) (p : Participant) (f : Say) : Unalarmed h (h.accept env p f) := by
  have hwire : (h.countSay p f).wire = h.wire := by
    unfold countSay noteSay
    simp only
    split_ifs <;> rfl
  have hcounted : Unalarmed h (h.countSay p f) := wrote_nothing (congrArg Wire.log hwire)
  have hremembered : Unalarmed h (h.remember env p f) := hcounted.trans (emits_one rfl rfl)
  have hanswer : ∀ (k : Hub) (id queued : Nat), Unalarmed k (k.answer env p f id queued) := by
    intro k id queued
    have hsent : Unalarmed k (k.send env p (.said id queued f.seq)) := emits_one rfl rfl
    unfold answer
    simp only
    split
    · exact (hsent.trans (emits_notify env _ _ _)).trans (emits_nothing rfl)
    · exact hsent.trans (emits_nothing rfl)
  exact (hremembered.trans (unalarmed_route env _ (h.sayMsg p f))).trans (hanswer _ _ _)

theorem unalarmed_routeSay {n : Str} {p : Participant} (hp : h.get? n = some p) (f : Say) :
    Unalarmed h (h.routeSay env n f).2 := by
  obtain ⟨k, hc, hcases⟩ := routeSay_cases env hp f
  have hcharged : Unalarmed h k := by
    cases hc with
    | free => exact emits_nothing rfl
    | rated => exact emits_nothing rfl
    | seen => exact emits_one rfl rfl
  rcases hcases with heq | ⟨code, detail, retry, heq⟩
  · rw [heq]
    exact hcharged.trans (unalarmed_accept env k p f)
  · rw [heq]
    have herr : Unalarmed k (k.err env p code detail (some f.seq) retry) := emits_one rfl rfl
    have hrejected : ∀ l : Hub, Unalarmed l
        (l.emitRejected env p code f.addressee f.kind f.text retry f.priv) := by
      intro l
      unfold emitRejected
      split
      · exact emits_nothing rfl
      · have hencoded : Unalarmed l (l.encodeText f.text) := emits_one rfl rfl
        exact hencoded.trans (emits_emitEvent env _ none rfl)
    exact (hcharged.trans herr).trans (hrejected _)

theorem unalarmed_inferIdle (h : Hub) (n : Str) : Unalarmed h (h.inferIdle env n) := by
  unfold inferIdle
  split
  · exact emits_nothing rfl
  · split
    · exact Wrote.trans (wrote_nothing rfl) (unalarmed_flushQueue env _ n)
    · exact emits_nothing rfl

theorem unalarmed_settle (h : Hub) (n : Str) (f : Say) (accepted : Bool) :
    Unalarmed h (h.settle env n f accepted) := by
  have hinfer := unalarmed_inferIdle env h n
  unfold settle
  simp only
  split
  · exact hinfer
  · split
    · split
      · exact hinfer.trans (Wrote.trans (wrote_nothing rfl) (unalarmed_checkSessionDone env _))
      · exact hinfer.trans (emits_nothing rfl)
    · exact hinfer

theorem unalarmed_handleState (h : Hub) (n : Str) (f : Report) :
    Unalarmed h (h.handleState env n f) := by
  unfold handleState
  split
  · exact emits_nothing rfl
  · simp only
    split
    · split <;> exact emits_nothing rfl
    · split
      · exact Wrote.trans (wrote_nothing rfl) (unalarmed_flushQueue env _ n)
      · exact emits_nothing rfl

theorem unalarmed_handleCmd (h : Hub) (n : Str) (c : Command) (seq : Option Int) :
    Unalarmed h (h.handleCmd env n c seq) := by
  have htold : ∀ (k : Hub) (e : HubEvent), k.wire = h.wire → e.alarm = false →
      Unalarmed h (k.emitEvent env e none) := fun k e hk he =>
    (wrote_nothing (congrArg Wire.log hk)).trans (emits_emitEvent env k none he)
  have hran : Unalarmed h (h.runCommand env c) := by
    cases c with
    | freeze => exact htold _ _ rfl rfl
    | resume k => exact htold _ _ rfl rfl
    | reset => exact htold _ _ rfl rfl
    | mute => exact (htold { h with muted := true } _ rfl rfl).trans (unalarmed_systemMessage env _ _)
    | unmute => exact (htold { h with muted := false } _ rfl rfl).trans (unalarmed_systemMessage env _ _)
    | goal text => exact (htold { h with goal := text } _ rfl rfl).trans (emits_one rfl rfl)
  unfold handleCmd
  split
  · exact emits_nothing rfl
  · split
    · exact emits_one rfl rfl
    · exact (hran.trans (emits_nothing rfl)).trans (emits_one rfl rfl)

theorem unalarmed_handleRoster (h : Hub) (n : Str) (seq : Option Int) :
    Unalarmed h (h.handleRoster env n seq) := by
  unfold handleRoster
  split
  · exact emits_nothing rfl
  · exact emits_one rfl rfl

theorem unalarmed_handleHello (h : Hub) (c : ClientId) (f : Hello) :
    Unalarmed h (h.handleHello env c f) := by
  have hreap : Unalarmed h (h.reap env f.name) := by
    unfold reap
    split
    · split
      · exact emits_nothing rfl
      · exact unalarmed_disconnect env h _
    · exact emits_nothing rfl
  have hroom : ∀ k : Hub, Unalarmed k (k.declareRoom f) := by
    intro k
    unfold declareRoom
    split
    · exact emits_one rfl rfl
    · exact emits_nothing rfl
  have hgreet : ∀ (k : Hub) (p : Participant) (rejoined : Bool),
      Unalarmed k (k.greet env f.name p rejoined) := by
    intro k p rejoined
    have hsent : Unalarmed k (k.send env p (welcome env k p)) := emits_one rfl rfl
    have hend : ∀ l : Hub, Unalarmed k l → Unalarmed k
        (l.touchActivity.emitEvent env (.peerJoined f.name p.kind p.role) (some f.name)) := fun l hl =>
      (hl.trans (wrote_nothing rfl)).trans (emits_emitEvent env l.touchActivity (some f.name) rfl)
    unfold greet
    apply hend
    split
    · exact hsent.trans (emits_giveBacklog env _ _)
    · exact hsent
  have hready := hreap.trans (hroom _)
  unfold handleHello
  simp only
  split
  · exact emits_one rfl rfl
  · split
    · have herr : Unalarmed ((h.reap env f.name).declareRoom f)
          (((h.reap env f.name).declareRoom f).turnAway env c f.name) := by
        unfold turnAway
        have hclosed : ∀ k : Hub, Unalarmed k (k.close c) := fun k => emits_one rfl rfl
        exact Wrote.trans (emits_one rfl rfl) (hclosed _)
      exact hready.trans herr
    · have hjoined : Unalarmed ((h.reap env f.name).declareRoom f)
          (((h.reap env f.name).declareRoom f).register env c f) := by
        have hfirst : ∀ rejoined, Unalarmed ((h.reap env f.name).declareRoom f)
            ((((h.reap env f.name).declareRoom f).enroll c f.name
              (admitted env ((h.reap env f.name).declareRoom f) c f)).greet env f.name
                (admitted env ((h.reap env f.name).declareRoom f) c f) rejoined) := fun rejoined =>
          Wrote.trans (wrote_nothing rfl) (hgreet _ _ rejoined)
        unfold register
        simp only
        split
        · exact (hfirst _).trans (unalarmed_flushQueue env _ f.name)
        · exact hfirst _
      exact hready.trans hjoined

variable {F : Type} [PyJson.PyFloat F]

/-- **Only the watchdog raises alarms.** -/
theorem unalarmed_step (h : Hub) {op : Op F} (htick : op ≠ .watchdogTick) :
    Unalarmed h (h.step env op) := by
  cases op with
  | watchdogTick => exact absurd rfl htick
  | clock => exact emits_nothing rfl
  | fail => exact emits_nothing rfl
  | disconnect c => exact unalarmed_disconnect env h c
  | handle c frame =>
    show Unalarmed h (h.handle env c frame)
    unfold handle
    split
    · exact emits_one rfl rfl
    · next i hv =>
      rcases handleInbound_cases env h c i with ⟨g, -, heq⟩ | ⟨-, heq⟩
      · rw [heq]
        exact unalarmed_handleHello env h c g
      rw [heq]
      cases hp : h.get? (h.wire.clients c).name with
      | none =>
        rw [dispatch, hp]
        exact emits_one rfl rfl
      | some p =>
        have hp' : (h.lifeSign (h.wire.clients c).name).get? (h.wire.clients c).name =
            some { p with lastRx := h.now, awaitingPong := false } := by
          rw [lifeSign, get?_modify_self, hp]
          rfl
        have hlife : Unalarmed h (h.lifeSign (h.wire.clients c).name) := emits_nothing rfl
        rw [dispatch, hp]
        refine hlife.trans ?_
        cases i with
        | hello => exact emits_nothing rfl
        | say f => exact (unalarmed_routeSay env hp' f).trans (unalarmed_settle env _ _ f _)
        | state f => exact unalarmed_handleState env _ _ f
        | cmd cmd seq => exact unalarmed_handleCmd env _ _ cmd seq
        | roster seq => exact unalarmed_handleRoster env _ _ seq
        | bye => exact unalarmed_disconnect env _ c
        | pong => exact emits_nothing rfl

end

section
variable {env : Env} {A : Filter} {h h' h'' : Hub} {n : Str} {p q q' : Participant}

/-! ## Blockages -/

/-- The alarms about `n` that go on record from `h` to `h'`. -/
def alarmsOf (n : Str) (h h' : Hub) : List HubEvent :=
  (eventsOf (newEffects h h')).filter fun
    | .blocked m _ => m = n
    | _ => false

/-- From `h` to `h'` the participant `n` gets into no new blockage: if it is blocked, it was blocked
before, since the same time and for the same reason, and has been announced or not as before. -/
def Blockage (n : Str) (h h' : Hub) : Prop :=
  ∀ q', h'.get? n = some q' → q'.state = .blocked →
    ∃ q, h.get? n = some q ∧ q'.Same q ∧ q.state = .blocked ∧ q'.blockedSince = q.blockedSince ∧
      q'.blockedDetail = q.blockedDetail ∧ (n ∈ h'.blockedNotified ↔ n ∈ h.blockedNotified)

theorem Blockage.refl (h : Hub) : Blockage n h h := fun q' hq' hblocked =>
  ⟨q', hq', .refl q', hblocked, rfl, rfl, Iff.rfl⟩

theorem Blockage.trans (hab : Blockage n h h') (hbc : Blockage n h' h'') : Blockage n h h'' := by
  intro q'' hq'' hblocked
  obtain ⟨q', hq', hs', hblocked', hsince', hdetail', hnote'⟩ := hbc q'' hq'' hblocked
  obtain ⟨q, hq, hs, hblocked, hsince, hdetail, hnote⟩ := hab q' hq' hblocked'
  exact ⟨q, hq, hs.trans hs', hblocked, hsince'.trans hsince, hdetail'.trans hdetail,
    hnote'.trans hnote⟩

/-- No report says that `n` is blocked. -/
def notBlockedOf (n : Str) : Filter := fun m _ i => ∀ f, i = .state f → m = n → f.state ≠ .blocked

theorem mem_filter_ne {m : Str} {ns : List Str} (hne : n ≠ m) :
    n ∈ ns.filter (· ≠ m) ↔ n ∈ ns := by
  rw [List.mem_filter]
  simp [hne]

theorem notified_deliver (h : Hub) (m : Str) (msgs : List Msg) :
    (h.deliver env m msgs).blockedNotified = h.blockedNotified := by
  cases hp : h.get? m with
  | none => rw [deliver, hp]
  | some p =>
    rw [deliver_eq env hp]
    split <;> rfl

theorem notified_greet (h : Hub) (m : Str) (p : Participant) (rejoined : Bool) :
    (h.greet env m p rejoined).blockedNotified = h.blockedNotified := by
  have hback : ∀ k : Hub, (k.giveBacklog env m).blockedNotified = k.blockedNotified := by
    intro k
    unfold giveBacklog
    split
    · rfl
    · simp only
      split
      · split
        · rfl
        · exact notified_deliver k m _
      · rfl
  have hend : ∀ k : Hub, k.blockedNotified = h.blockedNotified →
      (k.touchActivity.emitEvent env (.peerJoined m p.kind p.role) (some m)).blockedNotified =
        h.blockedNotified := fun k hk => hk
  unfold greet
  apply hend
  split
  · exact (hback _).trans rfl
  · rfl

/-- What a deed does to the announcements. -/
theorem Deed.notified (hd : Deed env (notBlockedOf n) h h') (hq : h.get? n = some q)
    (hq' : h'.get? n = some q') (hlog : alarmsOf n h h' = []) :
    n ∈ h'.blockedNotified ↔ n ∈ h.blockedNotified := by
  have hsame : ∀ {k : Hub}, k.blockedNotified = h.blockedNotified →
      (n ∈ k.blockedNotified ↔ n ∈ h.blockedNotified) := fun hk => by rw [hk]
  have hquiet : ∀ {k l : Hub}, k.Quiet l → l.blockedNotified = k.blockedNotified :=
    fun hq => hq.same Hub.blockedNotified fun _ _ => rfl
  cases hd with
  | murmured hm => exact hsame (hquiet hm.toQuiet)
  | counted hc =>
    rw [hc.rest]
  | @reported m p f hp hA =>
    rw [report, hp]
    simp only
    split
    · next hspell =>
      have hne : n ≠ m := fun heq => hA f rfl heq.symm hspell.1
      exact mem_filter_ne hne
    · exact Iff.rfl
  | @delivered m p msgs hp =>
    rw [deliver_eq env hp]
    split <;> exact Iff.rfl
  | limited => exact hsame ((hquiet (quiet_notify env _ _ _)).trans rfl)
  | ended hall =>
    rw [checkSessionDone, if_pos hall]
    have hdone : (h.announceDone env).blockedNotified = h.blockedNotified :=
      (hquiet (quiet_notify env
        { h.emitEvent env (.sessionDone h.round) none with sessionDoneAt := some h.wall } _ _)).trans rfl
    exact hsame hdone
  | @remembered m p q f =>
    have hcount : (h.countSay p f).blockedNotified = h.blockedNotified := by
      unfold countSay noteSay
      simp only
      split_ifs <;> rfl
    exact hsame hcount
  | @answered m p q f id k =>
    unfold answer
    simp only
    split
    · have hnote := hquiet (quiet_notify env (h.send env p (.said id k f.seq)) (str "moot")
        (p.name ++ str " → " ++ f.addressee ++ str " · " ++ f.kind ++ str ": " ++ headline f.text))
      exact hsame (hnote.trans rfl)
    · exact Iff.rfl
  | @flagged m p c seq =>
    cases c <;> exact Iff.rfl
  | polled m seq => exact hsame (hquiet (quiet_handleRoster env h m seq))
  | alarmed m =>
    by_cases hdue : AlarmDue env h m
    · obtain ⟨detail, title, message, heq⟩ := notifyBlocked_due hdue
      rw [heq] at hlog ⊢
      have hne : n ≠ m := by
        rintro rfl
        have hlogs : Logs [.blocked n detail] h (({ h with
            blockedNotified := h.blockedNotified ++ [n] }.emitEvent env (.blocked n detail)
              none).notify env title message) :=
          ((logs_nothing (show ({ h with blockedNotified := h.blockedNotified ++ [n] } : Hub).wire.log =
            h.wire.log from rfl)).trans (logs_emitEvent env _ _ none)).trans (logs_notify env _ title message)
        rw [alarmsOf, hlogs.new] at hlog
        simp at hlog
      rw [hquiet (quiet_notify env _ _ _)]
      show n ∈ h.blockedNotified ++ [m] ↔ _
      simp [hne]
    · rw [notifyBlocked_not_due hdue]
  | @left m p hp =>
    have hne : n ≠ m := by
      rintro rfl
      rw [get?_leave_self] at hq'
      cases hq'
    exact mem_filter_ne hne
  | @joined c f hc hfree =>
    have hne : n ≠ f.name := by
      rintro rfl
      rw [hfree] at hq
      cases hq
    rw [registered, notified_greet, enroll]
    simp only
    split
    · exact mem_filter_ne hne
    · exact Iff.rfl
  | _ => exact Iff.rfl

/-- **A deed** starts no blockage but by a report, and announces none without an alarm. -/
theorem Deed.blockage (hw : h.Wf) (hd : Deed env (notBlockedOf n) h h')
    (hlog : alarmsOf n h h' = []) : Blockage n h h' := by
  intro q' hq' hblocked
  cases hd.turned hw hq' with
  | steady q found same =>
    exact ⟨q, found, same.toSame, same.state.symm.trans hblocked, same.blockedSince,
      same.blockedDetail, hd.notified found hq' hlog⟩
  | woken q found agent idle now =>
    rw [now] at hblocked
    cases hblocked
  | reported q f found meets now =>
    have hstate : q'.state = f.state := by
      rw [now, Hub.reported]
      split
      · split <;> rfl
      · rfl
    exact absurd (hstate.symm.trans hblocked) (meets f rfl rfl)
  | inferred q found caps busy now =>
    rw [now] at hblocked
    cases hblocked
  | came f absent meets idle =>
    rw [idle] at hblocked
    cases hblocked

theorem alarmsOf_append (hab : h.wire.log <+: h'.wire.log) (hbc : h'.wire.log <+: h''.wire.log) :
    alarmsOf n h h'' = alarmsOf n h h' ++ alarmsOf n h' h'' := by
  obtain ⟨xs, hxs⟩ := hab
  obtain ⟨ys, hys⟩ := hbc
  rw [alarmsOf, alarmsOf, alarmsOf, newEffects, newEffects, newEffects, ← hys, ← hxs, List.drop_left,
    List.append_assoc, List.drop_left, ← List.append_assoc, List.drop_left, eventsOf_append,
    List.filter_append]

/-- On the way from `h` no alarm about `n` is raised, and `n` gets into no new blockage. -/
structure Unraised (n : Str) (h h' : Hub) : Prop where
  now : h'.now = h.now
  log : h.wire.log <+: h'.wire.log
  quiet : alarmsOf n h h' = []
  blockage : Blockage n h h'

theorem Unraised.refl (h : Hub) : Unraised n h h :=
  ⟨rfl, List.prefix_refl _, by rw [alarmsOf, newEffects, List.drop_length]; rfl, .refl h⟩

theorem Unraised.trans (hab : Unraised n h h') (hbc : Unraised n h' h'') : Unraised n h h'' :=
  ⟨hbc.now.trans hab.now, hab.log.trans hbc.log,
    by rw [alarmsOf_append hab.log hbc.log, hab.quiet, hbc.quiet]; rfl, hab.blockage.trans hbc.blockage⟩

theorem Logs.unheard {es : List HubEvent} (hl : Logs es h h')
    (hne : ∀ e ∈ es, ∀ detail, e ≠ .blocked n detail) : alarmsOf n h h' = [] := by
  rw [alarmsOf, hl.new, List.filter_eq_nil_iff]
  intro e hmem
  have hne := hne e hmem
  cases e with
  | blocked m detail =>
    have hmn : m ≠ n := fun heq => hne detail (by rw [heq])
    simpa using hmn
  | _ => exact Bool.false_ne_true

theorem alarmsOf_of_emits (he : Emits (fun e => ∀ detail, e ≠ .blocked n detail) h h') :
    alarmsOf n h h' = [] := by
  obtain ⟨es, hes, hne⟩ := he.logs
  exact hes.unheard hne

/-- A sequence of deeds only adds to the log. -/
theorem Deeds.log (hw : h.Wf) (hds : Deeds env A h h') : h.wire.log <+: h'.wire.log := by
  induction hds with
  | refl => exact List.prefix_refl _
  | tail hks hd ih => exact ih.trans (hd.log (Deeds.wf hw hks))

/-- A sequence of deeds that raises no alarm about `n`. -/
theorem Deeds.unraised (hw : h.Wf) (hds : Deeds env (notBlockedOf n) h h')
    (hlog : alarmsOf n h h' = []) : Unraised n h h' := by
  induction hds with
  | refl => exact .refl h
  | @tail k k' hks hd ih =>
    have hwk : k.Wf := Deeds.wf hw hks
    have hpre : h.wire.log <+: k.wire.log := Deeds.log hw hks
    have hpost := hd.log hwk
    rw [alarmsOf_append hpre hpost, List.append_eq_nil_iff] at hlog
    exact (ih hlog.1).trans ⟨hd.now hwk, hpost, hlog.2, hd.blockage hwk hlog.2⟩

/-! ## The rounds of a tick -/

theorem Unalarmed.unheard (hu : Unalarmed h h') :
    Emits (fun e => ∀ detail, e ≠ .blocked n detail) h h' := by
  obtain ⟨es, hes, hall⟩ := hu
  refine ⟨es, hes, fun x hx e hxe detail heq => ?_⟩
  have hnone := hall x hx e hxe
  rw [heq] at hnone
  cases hnone

variable (env) in
/-- The round of a participant raises no alarm before its last check. -/
theorem unheard_assumeIdle (h : Hub) (m : Str) (p : Participant) :
    Emits (fun e => ∀ detail, e ≠ .blocked n detail) h ((h.pingSilent env m p).assumeIdle env m p) := by
  have hping : Emits (fun e => ∀ detail, e ≠ .blocked n detail) h (h.pingSilent env m p) := by
    unfold pingSilent
    split
    · exact emits_one rfl rfl
    · exact emits_nothing rfl
  refine hping.trans ?_
  unfold assumeIdle
  split
  · have hidle : Emits (fun e => ∀ detail, e ≠ .blocked n detail) (h.pingSilent env m p)
        ((h.pingSilent env m p).modify m (·.setIdle)) := emits_nothing rfl
    have hevent := emits_emitEvent (P := fun e => ∀ detail, e ≠ .blocked n detail) env
      ((h.pingSilent env m p).modify m (·.setIdle))
      (e := .stall (str "no sign of life from " ++ p.name ++ str ", assumed idle")) none (by simp)
    exact (hidle.trans hevent).trans (unalarmed_flushQueue env _ m).unheard
  · exact emits_nothing rfl

variable (env) in
theorem unheard_tickOne (h : Hub) {m : Str} (hne : n ≠ m) :
    Emits (fun e => ∀ detail, e ≠ .blocked n detail) h (h.tickOne env m) := by
  rcases tickOne_cases env h m with ⟨-, heq⟩ | ⟨p, -, heq | heq | ⟨-, heq⟩⟩
  · rw [heq]
    exact emits_nothing rfl
  · rw [heq]
    exact (unalarmed_disconnect env h _).unheard
  · rw [heq, pingSilent]
    split
    · exact emits_one rfl rfl
    · exact emits_nothing rfl
  · rw [heq]
    refine (unheard_assumeIdle env h m p).trans ?_
    generalize (h.pingSilent env m p).assumeIdle env m p = k
    by_cases hdue : AlarmDue env k m
    · obtain ⟨detail, title, message, heq⟩ := notifyBlocked_due hdue
      rw [heq]
      have hlatch : Emits (fun e => ∀ d, e ≠ .blocked n d) k
          ({ k with blockedNotified := k.blockedNotified ++ [m] }.emitEvent env (.blocked m detail)
            none) := by
        refine Wrote.trans (wrote_nothing rfl) (emits_emitEvent env _ none fun d heq => ?_)
        exact hne (HubEvent.blocked.inj heq).1.symm
      exact hlatch.trans (emits_notify env _ _ _)
    · rw [notifyBlocked_not_due hdue]
      exact emits_nothing rfl

/-- The round of another participant. -/
theorem unraised_tickOne (hw : h.Wf) {m : Str} (hne : n ≠ m) : Unraised n h (h.tickOne env m) :=
  Deeds.unraised hw (deeds_ticks hw [m]) (alarmsOf_of_emits (unheard_tickOne env h hne))

theorem present_tickOne (hw : h.Wf) {m : Str} (hne : n ≠ m) (hq : h.get? n = some q) :
    ∃ q', (h.tickOne env m).get? n = some q' := by
  rcases tickOne_cases env h m with ⟨-, heq⟩ | ⟨p, hp, heq | heq | ⟨-, heq⟩⟩
  · rw [heq]
    exact ⟨q, hq⟩
  · have hname := hw.owns m p hp
    rw [heq]
    rcases disconnect_cases env h p.client with ⟨r, hr, -, heq⟩ | ⟨-, heq⟩
    · rw [heq, hname]
      have hleft : (h.leave env m r).get? n = some q := by rw [get?_leave_of_ne env h hne, hq]
      exact ⟨_, (get?_checkSessionDone env (h.leave env m r) n).trans (congrArg (Option.map _) hleft)⟩
    · rw [heq]
      exact ⟨q, hq⟩
  · rw [heq]
    obtain ⟨q', hq', -⟩ := (keeps_pingSilent (S := ∅) (T := ∅) (E := True) env h m p).same n q hq
    exact ⟨q', hq'⟩
  · rw [heq]
    obtain ⟨q', hq', -⟩ := (keeps_tickAgent env hw.named m p).same n q hq
    exact ⟨q', hq'⟩

theorem unraised_ticks (hw : h.Wf) {ms : List Str} (hnot : n ∉ ms) :
    Unraised n h (ms.foldl (tickOne env) h) ∧
      ∀ q, h.get? n = some q → ∃ q', (ms.foldl (tickOne env) h).get? n = some q' := by
  induction ms generalizing h with
  | nil => exact ⟨.refl h, fun q hq => ⟨q, hq⟩⟩
  | cons m ms ih =>
    rw [List.mem_cons, not_or] at hnot
    obtain ⟨hunraised, hthere⟩ := ih (hw.tickOne env m) hnot.2
    refine ⟨(unraised_tickOne hw hnot.1).trans hunraised, fun q hq => ?_⟩
    obtain ⟨q₁, hq₁⟩ := present_tickOne hw hnot.1 hq
    exact hthere q₁ hq₁

variable (env) in
/-- On the way from `h` one alarm about `n` is raised: its blockage, of which `q` and `q'` show the
same, has lasted too long and has not been announced. -/
structure Raised (n : Str) (h h' : Hub) (q q' : Participant) (t : Rat) : Prop where
  now : h'.now = h.now
  log : h.wire.log <+: h'.wire.log
  before : h.get? n = some q
  after : h'.get? n = some q'
  agent : q'.isObserver = false
  blocked : q.state = .blocked
  blocked' : q'.state = .blocked
  since : q.blockedSince = some t
  since' : q'.blockedSince = some t
  detail : q'.blockedDetail = q.blockedDetail
  due : env.config.blockedAfter < h.now - t
  fresh : n ∉ h.blockedNotified
  told : n ∈ h'.blockedNotified
  raised : alarmsOf n h h' = [.blocked n (q.blockedDetail.getD [])]

theorem Unraised.raised {t : Rat} (hu : Unraised n h h') (hr : Raised env n h' h'' q q' t) :
    ∃ p, Raised env n h h'' p q' t := by
  obtain ⟨p, hp, hsame, hblocked, hsince, hdetail, hnote⟩ := hu.blockage q hr.before hr.blocked
  exact ⟨p, {
    now := hr.now.trans hu.now
    log := hu.log.trans hr.log
    before := hp
    after := hr.after
    agent := hr.agent
    blocked := hblocked
    blocked' := hr.blocked'
    since := hsince.symm.trans hr.since
    since' := hr.since'
    detail := hr.detail.trans hdetail
    due := by rw [← hu.now]; exact hr.due
    fresh := fun hmem => hr.fresh (hnote.mpr hmem)
    told := hr.told
    raised := by rw [alarmsOf_append hu.log hr.log, hu.quiet, hr.raised, hdetail]; rfl }⟩

theorem Raised.unraised {t : Rat} (hr : Raised env n h h' q p t) (hu : Unraised n h' h'')
    (hq' : h''.get? n = some q') (hs : q'.Steady p) : Raised env n h h'' q q' t := by
  have hblocked : q'.state = .blocked := hs.state.trans hr.blocked'
  obtain ⟨r, hr', -, -, hsince, hdetail, hnote⟩ := hu.blockage q' hq' hblocked
  rw [hr.after, Option.some.injEq] at hr'
  subst hr'
  exact {
    now := hu.now.trans hr.now
    log := hr.log.trans hu.log
    before := hr.before
    after := hq'
    agent := by rw [hs.isObserver]; exact hr.agent
    blocked := hr.blocked
    blocked' := hblocked
    since := hr.since
    since' := hsince.trans hr.since'
    detail := hdetail.trans hr.detail
    due := hr.due
    fresh := hr.fresh
    told := hnote.mpr hr.told
    raised := by rw [alarmsOf_append hr.log hu.log, hr.raised, hu.quiet]; rfl }

theorem gone_disconnect (hw : h.Wf) (hq : h.get? n = some q) :
    (h.disconnect env q.client).get? n = none := by
  have hname := hw.owns n q hq
  rcases disconnect_cases env h q.client with ⟨p, hp, -, heq⟩ | ⟨hnot, -⟩
  · rw [heq, hname]
    refine (get?_checkSessionDone env _ n).trans ?_
    rw [get?_leave_self]
    rfl
  · exact absurd rfl (hnot q (by rw [hname]; exact hq))

/-- The last check of a round. -/
theorem raised_notifyBlocked (hq : h.get? n = some q) (hagent : q.isObserver = false)
    (hdue : AlarmDue env h n) : ∃ t, Raised env n h (h.notifyBlocked env n) q q t := by
  obtain ⟨p, hp, hblocked, hlong, hfresh⟩ := hdue
  rw [hq, Option.some.injEq] at hp
  subst hp
  obtain ⟨t, hsince, hlong'⟩ := Option.any_eq_true _ _ |>.mp hlong
  have heq : h.notifyBlocked env n = ({ h with blockedNotified := h.blockedNotified ++ [n] }.emitEvent
      env (.blocked n (q.blockedDetail.getD [])) none).notify env (str "moot")
        (n ++ str " blocked: " ++ q.blockedDetail.getD []) := by
    rw [notifyBlocked, hq]
    exact if_pos ⟨hblocked, hlong, hfresh⟩
  have hlogs : Logs [.blocked n (q.blockedDetail.getD [])] h (h.notifyBlocked env n) := by
    rw [heq]
    exact ((logs_nothing (show ({ h with blockedNotified := h.blockedNotified ++ [n] } : Hub).wire.log =
      h.wire.log from rfl)).trans (logs_emitEvent env _ _ none)).trans (logs_notify env _ _ _)
  have hkeeps : Keeps ∅ ∅ True h (h.notifyBlocked env n) := keeps_notifyBlocked env h n
  have hquiet := quiet_notify env ({ h with blockedNotified := h.blockedNotified ++ [n] }.emitEvent
      env (.blocked n (q.blockedDetail.getD [])) none) (str "moot")
        (n ++ str " blocked: " ++ q.blockedDetail.getD [])
  refine ⟨t, {
    now := hkeeps.now
    log := hkeeps.wire.log
    before := hq
    after := ?_
    agent := hagent
    blocked := hblocked
    blocked' := hblocked
    since := hsince
    since' := hsince
    detail := rfl
    due := of_decide_eq_true hlong'
    fresh := hfresh
    told := ?_
    raised := ?_ }⟩
  · rw [get?, heq, hquiet.participants]
    exact hq
  · rw [heq, hquiet.same Hub.blockedNotified fun _ _ => rfl]
    exact List.mem_append_right _ (List.mem_singleton_self n)
  · rw [alarmsOf, hlogs.new]
    simp

/-- The round of the participant itself: it raises the alarm, or leaves none that is due. -/
theorem alarm_self (hw : h.Wf) : Unraised n h (h.tickOne env n) ∧
      (∀ q', (h.tickOne env n).get? n = some q' → q'.isObserver = false →
        ¬AlarmDue env (h.tickOne env n) n) ∨
    ∃ q q' t, Raised env n h (h.tickOne env n) q q' t := by
  cases hq : h.get? n with
  | none =>
    have heq : h.tickOne env n = h := by rw [tickOne, hq]
    rw [heq]
    exact Or.inl ⟨.refl h, fun q' hq' => by rw [hq] at hq'; cases hq'⟩
  | some q =>
    have hclosed : Unraised n h (h.disconnect env q.client) ∧
        ∀ q', (h.disconnect env q.client).get? n = some q' → q'.isObserver = false →
          ¬AlarmDue env (h.disconnect env q.client) n := by
      refine ⟨Deeds.unraised hw (deeds_disconnect h _)
        (alarmsOf_of_emits (unalarmed_disconnect env h _).unheard), fun q' hq' => ?_⟩
      rw [gone_disconnect hw hq] at hq'
      cases hq'
    rw [tickOne, hq]
    simp only
    split
    · exact Or.inl hclosed
    split
    · exact Or.inl hclosed
    obtain ⟨r, hr, hsame, hstate, -⟩ : ∃ r, (h.pingSilent env n q).get? n = some r ∧ r.Same q ∧
        r.state = q.state ∧ r.busySince = q.busySince := get?_pingSilent env h hq
    split
    · next hobs =>
      have hping : Emits (fun e => ∀ detail, e ≠ .blocked n detail) h (h.pingSilent env n q) := by
        unfold pingSilent
        split
        · exact emits_one rfl rfl
        · exact emits_nothing rfl
      refine Or.inl ⟨Deeds.unraised hw (deeds_pingSilent h n q) (alarmsOf_of_emits hping), ?_⟩
      intro q' hq' hagent
      rw [hr, Option.some.injEq] at hq'
      rw [← hq', hsame.isObserver, hobs] at hagent
      cases hagent
    · next hobs =>
      have hds : Deeds env (notBlockedOf n) h ((h.pingSilent env n q).assumeIdle env n q) :=
        (deeds_pingSilent h n q).trans (deeds_assumeIdle hr hsame hstate)
      have hu : Unraised n h ((h.pingSilent env n q).assumeIdle env n q) :=
        Deeds.unraised hw hds (alarmsOf_of_emits (unheard_assumeIdle env h n q))
      by_cases hdue : AlarmDue env ((h.pingSilent env n q).assumeIdle env n q) n
      · have hthis := hdue
        obtain ⟨q₁, hq₁, hblocked, -⟩ := hthis
        obtain ⟨p, hp, hsame₁, -⟩ := hu.blockage q₁ hq₁ hblocked
        rw [hq, Option.some.injEq] at hp
        subst hp
        have hagent : q₁.isObserver = false := by rw [hsame₁.isObserver]; simpa using hobs
        obtain ⟨t, hraised⟩ := raised_notifyBlocked hq₁ hagent hdue
        obtain ⟨q₀, hboth⟩ := hu.raised hraised
        exact Or.inr ⟨q₀, q₁, t, hboth⟩
      · rw [notifyBlocked_not_due hdue]
        exact Or.inl ⟨hu, fun _ _ _ => hdue⟩

theorem Unraised.due (hu : Unraised n h h') (hd : AlarmDue env h' n) : AlarmDue env h n := by
  obtain ⟨q', hq', hblocked, hlong, hfresh⟩ := hd
  obtain ⟨q, hq, -, hblocked, hsince, -, hnote⟩ := hu.blockage q' hq' hblocked
  exact ⟨q, hq, hblocked, by rw [← hsince, ← hu.now]; exact hlong, fun hmem => hfresh (hnote.mpr hmem)⟩

variable (env) in
/-- The checks at the end of a tick are not about `n`. -/
theorem unraised_checks (k : Hub) : Unraised n k ((k.checkQuorum env).checkStall env) := by
  have hkeeps : Keeps ∅ ∅ True k ((k.checkQuorum env).checkStall env) := keeps_checks env k
  have hquorum : (k.checkQuorum env).blockedNotified = k.blockedNotified := by
    by_cases hdue : k.QuorumDue
    · obtain ⟨detail, l, rfl, heq | ⟨title, message, heq⟩⟩ := checkQuorum_due env hdue
      · rw [heq]
        rfl
      · rw [heq, (quiet_notify env _ _ _).same Hub.blockedNotified fun _ _ => rfl]
        rfl
    · rw [checkQuorum_not_due hdue]
  have hstall : ((k.checkQuorum env).checkStall env).blockedNotified = k.blockedNotified := by
    refine Eq.trans ?_ hquorum
    by_cases hdue : StallDue env (k.checkQuorum env)
    · obtain ⟨title, message, heq⟩ := checkStall_due hdue
      rw [heq, (quiet_notify env _ _ _).same Hub.blockedNotified fun _ _ => rfl]
      rfl
    · rw [checkStall_not_due hdue]
  refine ⟨hkeeps.now, hkeeps.wire.log, ?_, fun q' hq' hblocked => ?_⟩
  · obtain ⟨es, hes, hfirst⟩ : ∃ es, Logs es k (k.checkQuorum env) ∧
        ∀ e ∈ es, ∀ detail, e ≠ .blocked n detail := by
      rcases checkQuorum_logs env k with ⟨-, detail, hl⟩ | ⟨-, hl⟩
      · exact ⟨_, hl, by simp⟩
      · exact ⟨_, hl, by simp⟩
    obtain ⟨fs, hfs, hlast⟩ : ∃ fs, Logs fs (k.checkQuorum env) ((k.checkQuorum env).checkStall env) ∧
        ∀ e ∈ fs, ∀ detail, e ≠ .blocked n detail := by
      rcases checkStall_logs env (k.checkQuorum env) with ⟨-, hl⟩ | ⟨-, hl⟩
      · exact ⟨_, hl, by simp⟩
      · exact ⟨_, hl, by simp⟩
    exact (hes.trans hfs).unheard fun e hmem =>
      (List.mem_append.mp hmem).elim (hfirst e) (hlast e)
  · rw [get?_checks] at hq'
    exact ⟨q', hq', .refl q', hblocked, rfl, rfl, by rw [hstall]⟩

variable (env) in
/-- **A tick** raises the alarm about `n` that is due, once, or leaves none that is due. -/
theorem alarm_tick (hw : h.Wf) : Unraised n h (h.watchdogTick env) ∧
      (∀ q', (h.watchdogTick env).get? n = some q' → q'.isObserver = false →
        ¬AlarmDue env (h.watchdogTick env) n) ∨
    ∃ q q' t, Raised env n h (h.watchdogTick env) q q' t := by
  have hwp := hw.pruneDead env
  have hprune : Unraised n h (h.pruneDead env) :=
    ⟨rfl, List.prefix_refl _, (Unraised.refl (n := n) h).quiet, Blockage.refl h⟩
  by_cases hkeys : n ∈ (h.pruneDead env).participants.keys
  · obtain ⟨pre, post, hsplit⟩ := List.append_of_mem hkeys
    have hnodup : (pre ++ n :: post).Nodup := by
      rw [← hsplit]
      exact (h.pruneDead env).participants.nodup_keys
    have hpre : n ∉ pre := fun hmem => (List.nodup_append.mp hnodup).2.2 n hmem n (by simp) rfl
    have hpost : n ∉ post := (List.nodup_cons.mp (List.nodup_append.mp hnodup).2.1).1
    have htick : h.watchdogTick env =
        (((post.foldl (tickOne env) ((pre.foldl (tickOne env) (h.pruneDead env)).tickOne env n)).checkQuorum
          env).checkStall env) := by
      rw [watchdogTick, hsplit, List.foldl_append]
      rfl
    have hbefore : Unraised n h (pre.foldl (tickOne env) (h.pruneDead env)) :=
      hprune.trans (unraised_ticks hwp hpre).1
    have hw₁ : (pre.foldl (tickOne env) (h.pruneDead env)).Wf :=
      tick_invariant env (I := Wf) (fun _ m hk => hk.tickOne env m) hwp pre
    generalize pre.foldl (tickOne env) (h.pruneDead env) = h₁ at htick hbefore hw₁
    have hw₂ := hw₁.tickOne env n
    obtain ⟨hafter, hthere⟩ := unraised_ticks hw₂ hpost
    have hsteady : Undisturbed n (h₁.tickOne env n) (post.foldl (tickOne env) (h₁.tickOne env n)) :=
      undisturbed_ticks hw₂ hpost
    have hchecks := unraised_checks (n := n) env (post.foldl (tickOne env) (h₁.tickOne env n))
    have hrest := hafter.trans hchecks
    rw [← htick] at hrest
    rcases alarm_self (n := n) hw₁ with ⟨hself, hnone⟩ | ⟨q, p, t, hraised⟩
    · refine Or.inl ⟨(hbefore.trans hself).trans hrest, fun q' hq' hagent hdue => ?_⟩
      obtain ⟨r, hr, hblocked, -⟩ := id hdue
      obtain ⟨p, hp, hsame, -⟩ := hrest.blockage r hr hblocked
      rw [hq', Option.some.injEq] at hr
      subst hr
      exact hnone p hp (by rw [← hsame.isObserver]; exact hagent) (hrest.due hdue)
    · obtain ⟨p', hp'⟩ := hthere p hraised.after
      obtain ⟨r, hr, hs⟩ := hsteady.back p' hp'
      rw [hraised.after, Option.some.injEq] at hr
      subst hr
      have hend : (h.watchdogTick env).get? n = some p' := by
        rw [htick, get?_checks]
        exact hp'
      obtain ⟨q₀, hall⟩ := hbefore.raised (hraised.unraised hrest hend hs)
      exact Or.inr ⟨q₀, p', t, hall⟩
  · have hticks : Unraised n (h.pruneDead env) (h.tickFloor env) :=
      (unraised_ticks hwp fun hmem => hkeys hmem).1
    have hall : Unraised n h (h.watchdogTick env) :=
      (hprune.trans hticks).trans (unraised_checks env (h.tickFloor env))
    refine Or.inl ⟨hall, fun q' hq' _ hdue => ?_⟩
    obtain ⟨q, hq, -⟩ := hall.due hdue
    exact hkeys (Dict.mem_keys_iff.mpr ⟨q, hq⟩)

/-! ## Runs -/

/-- A stretch in which a participant says that it is blocked, for one reason: since when, what it
said, and whether that has been announced. -/
structure Spell where
  since : Rat
  detail : Option Str
  alarmed : Bool

/-- The spell after the alarms `es`. -/
def Spell.told (es : List HubEvent) (s : Spell) : Spell :=
  { s with alarmed := s.alarmed || !es.isEmpty }

/-- The hub shows this spell of `n`. -/
def Shows (h : Hub) (n : Str) : Option Spell → Prop
  | none => ∀ q, h.get? n = some q → q.state ≠ .blocked
  | some s => ∃ q, h.get? n = some q ∧ q.state = .blocked ∧ q.blockedSince = some s.since ∧
      q.blockedDetail = s.detail ∧ (n ∈ h.blockedNotified ↔ s.alarmed = true)

/-- The participant `n` is there and blocked. -/
def isBlocked (h : Hub) (n : Str) : Bool := (h.get? n).any (·.state = .blocked)

theorem isBlocked_iff : h.isBlocked n = true ↔ ∃ q, h.get? n = some q ∧ q.state = .blocked := by
  rw [isBlocked]
  cases hq : h.get? n with
  | none => simp
  | some q => simp

/-- The spell of `n` at `h'`, if it has not begun on the way from `h`. -/
def continued (n : Str) (g : Option Spell) (h h' : Hub) : Option Spell :=
  if h'.isBlocked n = true then g.map (Spell.told (alarmsOf n h h')) else none

theorem shows_none (hnot : ¬h.isBlocked n = true) : Shows h n none := fun q hq hblocked =>
  hnot (isBlocked_iff.mpr ⟨q, hq, hblocked⟩)

theorem Shows.quiet {g : Option Spell} (hs : Shows h n g) (hb : Blockage n h h')
    (hquiet : alarmsOf n h h' = []) : Shows h' n (continued n g h h') := by
  unfold continued
  split
  · next hnow =>
    obtain ⟨q', hq', hblocked'⟩ := isBlocked_iff.mp hnow
    obtain ⟨q, hq, -, hblocked, hsince, hdetail, hnote⟩ := hb q' hq' hblocked'
    cases g with
    | none => exact absurd hblocked (hs q hq)
    | some s =>
      obtain ⟨p, hp, -, hs, hd, hn⟩ := hs
      rw [hq, Option.some.injEq] at hp
      subst hp
      refine ⟨q', hq', hblocked', hsince.trans hs, hdetail.trans hd, hnote.trans (hn.trans ?_)⟩
      rw [hquiet]
      simp [Spell.told]
  · next hb => exact shows_none hb

theorem Shows.raised {g : Option Spell} {t : Rat} (hs : Shows h n g)
    (hr : Raised env n h h' q q' t) : Shows h' n (continued n g h h') := by
  rw [continued, if_pos (isBlocked_iff.mpr ⟨q', hr.after, hr.blocked'⟩)]
  cases g with
  | none => exact absurd hr.blocked (hs q hr.before)
  | some s =>
    obtain ⟨p, hp, -, hs, hd, hn⟩ := hs
    rw [hr.before, Option.some.injEq] at hp
    subst hp
    have hsince : q'.blockedSince = some s.since := by rw [hr.since', ← hr.since, hs]
    refine ⟨q', hr.after, hr.blocked', hsince, hr.detail.trans hd, ?_⟩
    rw [hr.raised]
    simp [Spell.told, hr.told]

variable {F : Type} [PyJson.PyFloat F]

variable (env) in
/-- The spell that begins with the operation: `n` reports that it is blocked, and not for the reason
of the spell `g`. -/
def begun (g : Option Spell) (h : Hub) (op : Op F) (n : Str) : Option Spell :=
  match reportOf env h op with
  | some (m, f) =>
    if m = n ∧ f.state = .blocked ∧ g.all (·.detail ≠ f.detail) = true then
      some ⟨h.now, f.detail, false⟩
    else none
  | none => none

variable (env) in
/-- The spells of the participants, with one operation more. -/
def writeSpells (g : Str → Option Spell) (h : Hub) (op : Op F) : Str → Option Spell := fun n =>
  (begun env (g n) h op n).or (continued n (g n) h (h.attempt env op))

variable (env) in
theorem alarmsOf_step (h : Hub) {op : Op F} (htick : op ≠ .watchdogTick) :
    alarmsOf n h (h.step env op) = [] :=
  alarmsOf_of_emits (unalarmed_step env h htick).unheard

/-- What reporting does, in the words of `report`. -/
theorem step_reportOf {op : Op F} {f : Report} (hreport : reportOf env h op = some (n, f))
    (hne : f.state ≠ .idle) :
    ∃ p, h.get? n = some p ∧ h.step env op = (h.lifeSign n).report n f := by
  cases op with
  | handle c frame =>
    cases hv : validate env.isPrintable frame with
    | error e => simp [reportOf, hv] at hreport
    | ok i =>
      cases i with
      | state g =>
        simp only [reportOf, hv] at hreport
        split at hreport
        · next hsome =>
          obtain ⟨p, hp⟩ := Option.isSome_iff_exists.mp hsome
          rw [Option.some.injEq, Prod.mk.injEq] at hreport
          obtain ⟨rfl, rfl⟩ := hreport
          refine ⟨p, hp, ?_⟩
          show h.handle env c frame = _
          rw [handle, hv]
          show h.dispatch env c (.state g) = _
          rw [dispatch, hp]
          show (h.lifeSign _).handleState env _ g = _
          rw [handleState_eq, if_neg hne]
        · cases hreport
      | _ => simp [reportOf, hv] at hreport
  | _ => cases hreport

/-- A report of blockage. -/
theorem Shows.report {g : Option Spell} (hs : Shows h n g) {op : Op F} {f : Report}
    (hreport : reportOf env h op = some (n, f)) (hf : f.state = .blocked) :
    Shows (h.step env op) n ((begun env g h op n).or (continued n g h (h.step env op))) := by
  have htick : op ≠ .watchdogTick := by
    rintro rfl
    cases hreport
  have hquiet := alarmsOf_step (n := n) env h htick
  obtain ⟨p, hp, hstep⟩ := step_reportOf hreport (by rw [hf]; decide)
  have hlife : (h.lifeSign n).get? n = some { p with lastRx := h.now, awaitingPong := false } := by
    rw [lifeSign, get?_modify_self, hp]
    rfl
  have hget : (h.step env op).get? n =
      some (Hub.reported h.now f { p with lastRx := h.now, awaitingPong := false }) := by
    rw [hstep, Hub.report, hlife]
    exact (get?_modify_self _ n _).trans (congrArg (Option.map _) hlife)
  have hnote : (h.step env op).blockedNotified =
      if f.state = .blocked ∧ (p.state ≠ .blocked ∨ p.blockedDetail ≠ f.detail) then
        h.blockedNotified.filter (· ≠ n)
      else h.blockedNotified := by
    rw [hstep, Hub.report, hlife]
    rfl
  have hblocked : (Hub.reported h.now f { p with lastRx := h.now, awaitingPong := false }).state =
      .blocked := by
    rw [Hub.reported, if_pos hf]
    split <;> exact hf
  have hnow : (h.step env op).isBlocked n = true := isBlocked_iff.mpr ⟨_, hget, hblocked⟩
  -- a new spell
  have hnew : p.state ≠ .blocked ∨ p.blockedDetail ≠ f.detail →
      g.all (·.detail ≠ f.detail) = true →
      Shows (h.step env op) n ((begun env g h op n).or (continued n g h (h.step env op))) := by
    intro hdiff hall
    rw [begun, hreport]
    simp only
    rw [if_pos ⟨trivial, hf, hall⟩]
    refine ⟨_, hget, hblocked, ?_, ?_, ?_⟩
    · rw [Hub.reported, if_pos hf, if_pos hdiff]
    · rw [Hub.reported, if_pos hf, if_pos hdiff]
    · rw [hnote, if_pos ⟨hf, hdiff⟩, List.mem_filter]
      simp
  cases g with
  | none => exact hnew (Or.inl (hs p hp)) rfl
  | some s =>
    obtain ⟨q, hq, hold, hsince, hdetail, hn⟩ := hs
    rw [hp, Option.some.injEq] at hq
    subst hq
    by_cases hsame : s.detail = f.detail
    · have hdiff : ¬(p.state ≠ .blocked ∨ p.blockedDetail ≠ f.detail) := by
        rintro (hne | hne)
        · exact hne hold
        · exact hne (hdetail.trans hsame)
      rw [begun, hreport]
      simp only
      rw [if_neg (by simp [hsame]), continued, if_pos hnow, hquiet]
      refine ⟨_, hget, hblocked, ?_, ?_, ?_⟩
      · rw [Hub.reported, if_pos hf, if_neg hdiff]
        exact hsince
      · rw [Hub.reported, if_pos hf, if_neg hdiff]
        exact hdetail
      · rw [hnote, if_neg fun hboth => hdiff hboth.2]
        simpa [Spell.told] using hn
    · exact hnew (Or.inr fun heq => hsame (hdetail.symm.trans heq)) (by simp [hsame])

/-- **One operation** keeps the spells. -/
theorem Shows.step (hw : h.Wf) {g : Str → Option Spell} (hs : Shows h n (g n)) {op : Op F}
    (hends : h.Ends env op) : Shows (h.attempt env op) n (writeSpells env g h op n) := by
  show Shows _ n ((begun env (g n) h op n).or (continued n (g n) h (h.attempt env op)))
  rw [hends.same]
  by_cases hblocked : ∃ f, reportOf env h op = some (n, f) ∧ f.state = .blocked
  · obtain ⟨f, hreport, hf⟩ := hblocked
    exact hs.report hreport hf
  have hnone : begun env (g n) h op n = none := by
    unfold begun
    split
    · next m f hreport =>
      refine if_neg ?_
      rintro ⟨rfl, hf, -⟩
      exact hblocked ⟨f, hreport, hf⟩
    · rfl
  rw [hnone, Option.none_or]
  by_cases htick : op = .watchdogTick
  · subst htick
    rcases alarm_tick (n := n) env hw with ⟨hu, -⟩ | ⟨q, q', t, hr⟩
    · exact hs.quiet hu.blockage hu.quiet
    · exact hs.raised hr
  · by_cases hclock : ∃ now wall, op = .clock now wall
    · obtain ⟨now, wall, rfl⟩ := hclock
      exact hs.quiet (Blockage.refl h) (alarmsOf_step env h htick)
    · have hA : Allowed env (notBlockedOf n) h op := by
        have hreports := allowed_reportOf env h op
        rintro c frame i rfl hv
        have hmeets := hreports c frame i rfl hv
        have hfree : ∀ m kind, (∀ f, i = .state f → reportOf env h (.handle c frame) = some (m, f) ∧
            ∃ q, h.get? m = some q ∧ kind = q.kind) → notBlockedOf n m kind i := by
          rintro m kind hall f rfl rfl hf
          exact hblocked ⟨f, (hall f rfl).1, hf⟩
        cases i with
        | hello f => exact hfree _ _ hmeets
        | _ => exact fun p hp => hfree _ _ (hmeets p hp)
      have hu : Unraised n h (h.step env op) := Deeds.unraised hw
        (deeds_step hw hA htick fun now wall heq => hclock ⟨now, wall, heq⟩) (alarmsOf_step env h htick)
      exact hs.quiet hu.blockage hu.quiet

variable (env) in
/-- The spell of `n` has lasted too long at the end of the tick, and nobody has said so. -/
structure Overlong (n : Str) (g : Option Spell) (tick : Hub) (s : Spell) : Prop where
  spell : g = some s
  blocked : ∃ q, tick.get? n = some q ∧ q.isObserver = false ∧ q.state = .blocked
  due : env.config.blockedAfter < tick.now - s.since
  fresh : s.alarmed = false

/-- What a tick does about the spell of `n`. -/
theorem alarm_spell (hw : h.Wf) {g : Option Spell} (hs : Shows h n g) :
    (∃ s, Overlong env n g (h.watchdogTick env) s ∧
      alarmsOf n h (h.watchdogTick env) = [.blocked n (s.detail.getD [])]) ∨
    (∀ s, ¬Overlong env n g (h.watchdogTick env) s) ∧ alarmsOf n h (h.watchdogTick env) = [] := by
  rcases alarm_tick (n := n) env hw with ⟨hu, hnone⟩ | ⟨q, q', t, hr⟩
  · refine Or.inr ⟨fun s hlong => ?_, hu.quiet⟩
    obtain ⟨q, hq, hagent, hblocked⟩ := hlong.blocked
    obtain ⟨p, hp, -, hpblocked, hsince, -, hnote⟩ := hu.blockage q hq hblocked
    rw [hlong.spell] at hs
    obtain ⟨r, hr, -, hs, -, hn⟩ := hs
    rw [hp, Option.some.injEq] at hr
    subst hr
    refine hnone q hq hagent ⟨q, hq, hblocked, ?_, ?_⟩
    · rw [hsince, hs, Option.any_some]
      exact decide_eq_true hlong.due
    · rw [hnote, hn, hlong.fresh]
      exact Bool.false_ne_true
  · cases g with
    | none => exact absurd hr.blocked (hs q hr.before)
    | some s =>
      obtain ⟨r, hr', -, hs, hd, hn⟩ := hs
      rw [hr.before, Option.some.injEq] at hr'
      subst hr'
      have hsince : t = s.since := Option.some.inj (hr.since.symm.trans hs)
      have hfresh : s.alarmed = false := by
        have hnot := mt hn.mpr hr.fresh
        simpa using hnot
      refine Or.inl ⟨s, ⟨rfl, ⟨q', hr.after, hr.agent, hr.blocked'⟩, ?_, hfresh⟩, ?_⟩
      · rw [hr.now, ← hsince]
        exact hr.due
      · rw [hr.raised, hd]

variable (env) in
/-- **The alarm comes once for every spell that lasts too long.**  In every run on clean strings,
whoever is blocked has a spell; nothing but a tick raises an alarm about it; and a tick raises one,
with what the participant said, exactly if the participant is an agent that is still blocked, its
spell began more than `blocked_after` ago, and no alarm has been raised in this spell. -/
theorem alarm_exact (records : List MsgRec) (now wall : Rat) (ops : List (Op F))
    (hc : CleanRun env records ops) (n : Str) :
    let s := Run.after (Run.withGhost (Hub.attempt env) (writeSpells env))
      (fun _ => none, init env records now wall) ops
    let tick := s.2.attempt env (.watchdogTick : Op F)
    (∀ q, s.2.get? n = some q → (q.state = .blocked ↔ (s.1 n).isSome = true)) ∧
    (∀ op : Op F, op ≠ .watchdogTick → op.Clean env → alarmsOf n s.2 (s.2.attempt env op) = []) ∧
    ((∃ s', Overlong env n (s.1 n) tick s' ∧
        alarmsOf n s.2 tick = [.blocked n (s'.detail.getD [])]) ∨
      (∀ s', ¬Overlong env n (s.1 n) tick s') ∧ alarmsOf n s.2 tick = []) := by
  intro s tick
  have hrun : s.2 = Run.after (Hub.attempt env) (init env records now wall) ops :=
    Run.after_withGhost _ _ ops
  obtain ⟨hw, hclean⟩ := hc.sound now wall
  rw [← hrun] at hw hclean
  have hshows : Shows s.2 n (s.1 n) := by
    have hall := hc.preserved (I := fun g k => Shows k n (g n)) (g := fun _ => none) now wall
      (writeSpells env) (by rintro q ⟨⟩) fun _ _ _ hw hs hends => hs.step hw hends
    rw [← hrun] at hall
    exact hall
  have htick : tick = s.2.watchdogTick env :=
    (ends_of_clean hc.time hclean (.watchdogTick : Op F) allClean_nil).same
  rw [htick]
  refine ⟨fun q hq => ?_, fun op hop hopc => ?_, alarm_spell hw hshows⟩
  · cases hg : s.1 n with
    | none =>
      rw [hg] at hshows
      simpa using hshows q hq
    | some s' =>
      rw [hg] at hshows
      obtain ⟨r, hr, hblocked, -⟩ := hshows
      rw [hq, Option.some.injEq] at hr
      subst hr
      simpa using hblocked
  · rw [(ends_of_clean hc.time hclean op hopc).same]
    exact alarmsOf_step env s.2 hop

/-- Alice is blocked, for one reason and then for another. -/
def blockedTwice : List (Op PyJson.Token) :=
  [.handle 0 (helloFrame "alice" "agent" ["idle-events"]), .handle 0 (stateFrame "blocked"),
    .clock 1000 1000,
    .handle 0 (stateFrame "blocked" ++ [(str "detail", .str (str "no key"))]), .clock 2000 2000]

theorem alarm_exact_blockedTwice :
    let s := Run.after (Run.withGhost (Hub.attempt .still) (writeSpells .still))
      (fun _ => none, init .still [] 0 0) blockedTwice
    let tick := s.2.attempt .still (.watchdogTick : Op PyJson.Token)
    ∃ s', Overlong .still (str "alice") (s.1 (str "alice")) tick s' ∧ s'.since = 1000 ∧
      alarmsOf (str "alice") s.2 tick = [.blocked (str "alice") (str "no key")] := by
  intro s tick
  have hrung : alarmsOf (str "alice") s.2 tick = [.blocked (str "alice") (str "no key")] := by
    decide +kernel
  have hsince : (s.1 (str "alice")).map Spell.since = some 1000 := by decide +kernel
  rcases (alarm_exact .still [] 0 0 blockedTwice ⟨fun _ => clean_nil, by simp, by decide +kernel⟩
    (str "alice")).2.2 with ⟨s', hlong, -⟩ | ⟨-, hnone⟩
  · rw [hlong.spell, Option.map_some, Option.some.injEq] at hsince
    exact ⟨s', hlong, hsince, hrung⟩
  · exact absurd (hrung.symm.trans hnone) (by simp)

end

end Hub

end Moot
