import Moot.Hub.Accounting
import Moot.Hub.Clean
import Moot.Hub.Deed
import Moot.Hub.Spend
import Moot.Lib.Ghost

/-!
# The timer of a turn

`busy_since` starts at every delivery to an agent and at every report of a state
that is not idle; the watchdog counts from it, and the roster shows it.

Proved here: `Deed.turned`, what a deed does to the state and the timers of a
participant; `watchdog_infers`, in every run on clean strings the watchdog assumes an
agent idle when and only when the time has passed since the last of these events (a
report that cannot be encoded ends the tick before the others' turn); `busyFor_age`, the roster
shows the age of a turn as long as no agent that is not idle reports anew.
-/

namespace Moot
open Py Proto

/-- The same state, since the same time. -/
structure Participant.Steady (p' p : Participant) : Prop extends p'.Same p where
  state : p'.state = p.state
  since : p'.busySince = p.busySince
  blockedSince : p'.blockedSince = p.blockedSince
  blockedDetail : p'.blockedDetail = p.blockedDetail

theorem Participant.Steady.refl (p : Participant) : p.Steady p := ⟨.refl p, rfl, rfl, rfl, rfl⟩

theorem Participant.Steady.trans {p p' p'' : Participant} (h : p'.Steady p) (h' : p''.Steady p') :
    p''.Steady p :=
  ⟨h.toSame.trans h'.toSame, h'.state.trans h.state, h'.since.trans h.since,
    h'.blockedSince.trans h.blockedSince, h'.blockedDetail.trans h.blockedDetail⟩

theorem Participant.Timed.steady {p' p : Participant} (ht : p'.Timed p) : p'.Steady p := by
  rw [ht]
  exact ⟨⟨rfl, rfl, rfl, rfl, rfl⟩, rfl, rfl, rfl, rfl⟩

theorem Participant.Mailed.steady {p' p : Participant} (hm : p'.Mailed p) : p'.Steady p := by
  rw [hm]
  exact ⟨⟨rfl, rfl, rfl, rfl, rfl⟩, rfl, rfl, rfl, rfl⟩

namespace Hub

section
variable {env : Env} {A : Filter} {h h' h'' : Hub} {n : Str} {p q' : Participant}

/-! ## One deed -/

/-- What has become of the participant `n`, which is now `q'`: it is as it was, a delivery has woken
it, it has reported a state, it has been assumed idle, or it has come in. -/
inductive Turned (env : Env) (A : Filter) (h h' : Hub) (n : Str) (q' : Participant) : Prop
  | steady (q : Participant) (found : h.get? n = some q) (same : q'.Steady q)
      (delivered : q.isObserver = false → deliveries n h'.wire.log = deliveries n h.wire.log)
  | woken (q : Participant) (found : h.get? n = some q) (agent : q.isObserver = false)
      (idle : q.state = .idle) (now : q' = { q with state := .busy, busySince := h.now })
      (delivered : ∃ f, deliveries n h'.wire.log = deliveries n h.wire.log ++ [f])
  | reported (q : Participant) (f : Report) (found : h.get? n = some q) (meets : A n q.kind (.state f))
      (now : q' = Hub.reported h.now f q) (delivered : deliveries n h'.wire.log = deliveries n h.wire.log)
  | inferred (q : Participant) (found : h.get? n = some q) (caps : q.hasIdleEvents = false)
      (busy : q.state ≠ .idle) (now : q' = q.setIdle)
      (delivered : deliveries n h'.wire.log = deliveries n h.wire.log)
  | came (f : Hello) (absent : h.get? n = none) (meets : A n f.kind (.hello f)) (idle : q'.state = .idle)

/-- A step that leaves the participants alone. -/
theorem turned_same (hpart : h'.participants = h.participants)
    (hdel : deliveries n h'.wire.log = deliveries n h.wire.log) (hq' : h'.get? n = some q') :
    Turned env A h h' n q' := by
  refine .steady q' ?_ (.refl q') fun _ => hdel
  rw [get?, ← hpart]
  exact hq'

/-- A step that changes the participants by a function that keeps them steady. -/
theorem turned_map {g : Participant → Participant} (hg : ∀ q, (g q).Steady q)
    (hget : h'.get? n = (h.get? n).map g) (hdel : deliveries n h'.wire.log = deliveries n h.wire.log)
    (hq' : h'.get? n = some q') : Turned env A h h' n q' := by
  rw [hget] at hq'
  obtain ⟨q, hq, rfl⟩ := Option.map_eq_some_iff.mp hq'
  exact .steady q hq (hg q) fun _ => hdel

theorem turned_modify {m : Str} {g : Participant → Participant} (hg : ∀ q, (g q).Steady q)
    (hq' : (h.modify m g).get? n = some q') : Turned env A h (h.modify m g) n q' := by
  by_cases hnm : n = m
  · subst hnm
    exact turned_map hg (get?_modify_self h n g) rfl hq'
  · exact turned_map (g := id) Participant.Steady.refl
      (by rw [get?_modify_of_ne _ hnm, Option.map_id]; rfl) rfl hq'

theorem steady_remember (h : Hub) (p : Participant) (f : Say) (hq' : (h.remember env p f).get? n = some q') :
    ∃ q, h.get? n = some q ∧ q'.Steady q := by
  have hget : (h.remember env p f).get? n =
      (h.modify p.name fun p => { p with lastSay := h.now }).get? n := by
    show (h.countSay p f).get? n = _
    unfold countSay noteSay
    simp only
    split_ifs <;> rfl
  rw [hget] at hq'
  by_cases hn : n = p.name
  · subst hn
    rw [get?_modify_self] at hq'
    obtain ⟨q, hq, rfl⟩ := Option.map_eq_some_iff.mp hq'
    exact ⟨q, hq, ⟨⟨rfl, rfl, rfl, rfl, rfl⟩, rfl, rfl, rfl, rfl⟩⟩
  · rw [get?_modify_of_ne _ hn] at hq'
    exact ⟨q', hq', .refl q'⟩

theorem get?_greet_of_ne {m : Str} (hn : n ≠ m) {rejoined : Bool} :
    (h.greet env m p rejoined).get? n = h.get? n := by
  have hend : ∀ k : Hub, k.get? n = h.get? n →
      (k.touchActivity.emitEvent env (.peerJoined m p.kind p.role) (some m)).get? n = h.get? n :=
    fun _ hk => hk
  unfold greet
  apply hend
  split
  · unfold giveBacklog
    split
    · rfl
    · simp only
      split
      · split
        · rfl
        · exact get?_deliver_of_ne env _ hn _
      · exact get?_modify_of_ne _ hn _
  · rfl

/-- **What a deed does to a participant.** -/
theorem Deed.turned (hw : h.Wf) (hd : Deed env A h h') (hq' : h'.get? n = some q') :
    Turned env A h h' n q' := by
  have hquiet : ∀ {E : Prop} {k : Hub}, Keeps ∅ ∅ E h k →
      deliveries n k.wire.log = deliveries n h.wire.log :=
    fun hk => hk.delivered n (Set.notMem_empty n)
  cases hd with
  | murmured hm =>
    exact turned_same hm.toQuiet.participants (hquiet (E := True) hm.toQuiet.keeps) hq'
  | told e => exact turned_same rfl (hquiet (keeps_emitEvent env h e none (E := True) (Or.inl trivial))) hq'
  | recorded r hr => exact turned_same rfl ((deliveries_append n _ _).trans (List.append_nil _)) hq'
  | timed hg => exact turned_modify (fun q => (hg q).steady) hq'
  | mailed hg => exact turned_modify (fun q => (hg q).steady) hq'
  | @mailedAll g hg =>
    exact turned_map (fun q => (hg q).steady) (get?_mapParticipants h g n) rfl hq'
  | counted hc =>
    rw [hc.rest] at hq' ⊢
    exact turned_same rfl rfl hq'
  | @reported m p f hp hA =>
    rw [report, hp] at hq' ⊢
    by_cases hn : n = m
    · subst hn
      have hself : (h.modify n (Hub.reported h.now f)).get? n = some q' := hq'
      rw [get?_modify_self, hp, Option.map_some, Option.some.injEq] at hself
      exact .reported p f hp hA hself.symm rfl
    · have hother : (h.modify m (Hub.reported h.now f)).get? n = some q' := hq'
      rw [get?_modify_of_ne _ hn] at hother
      exact .steady q' hother (.refl q') fun _ => rfl
  | @inferred m p hp hcaps hbusy =>
    by_cases hn : n = m
    · subst hn
      rw [get?_modify_self, hp, Option.map_some, Option.some.injEq] at hq'
      exact .inferred p hp hcaps hbusy hq'.symm rfl
    · rw [get?_modify_of_ne _ hn] at hq'
      exact .steady q' hq' (.refl q') fun _ => rfl
  | @delivered m p msgs hp hidle =>
    by_cases hn : n = m
    · subst hn
      rw [get?_deliver env hp, Option.some.injEq] at hq'
      have hname := hw.named n p hp
      cases hobs : p.isObserver with
      | true =>
        rw [hobs, if_pos rfl] at hq'
        exact .steady p hp (by rw [← hq']; exact .refl p) fun hagent => absurd hagent (by simp [hobs])
      | false =>
        rw [hobs, if_neg Bool.false_ne_true] at hq'
        refine .woken p hp hobs (hidle hobs) hq'.symm ⟨sortById msgs, ?_⟩
        rw [deliveries_deliver env hw.named hp]
    · rw [get?_deliver_of_ne env h hn] at hq'
      refine .steady q' hq' (.refl q') fun _ => ?_
      exact (keeps_deliver env (E := True) hw.named m msgs).delivered n hn
  | limited =>
    exact turned_same (quiet_notify env _ _ _).participants
      (hquiet (E := True) (keeps_announceLimit env h)) hq'
  | ended =>
    refine turned_map (fun q => ?_) (get?_checkSessionDone env h n) (hquiet (keeps_checkSessionDone env h)) hq'
    split
    · exact ⟨⟨rfl, rfl, rfl, rfl, rfl⟩, rfl, rfl, rfl, rfl⟩
    · exact .refl q
  | marked b => exact turned_modify (fun q => ⟨⟨rfl, rfl, rfl, rfl, rfl⟩, rfl, rfl, rfl, rfl⟩) hq'
  | remembered =>
    obtain ⟨q, hq, hs⟩ := steady_remember h _ _ hq'
    exact .steady q hq hs fun _ => deliveries_remember env h _ _ n
  | @answered m p q f id k =>
    have hk : Keeps ∅ ∅ False h (h.answer env p f id k) := keeps_answer env h p f id k
    refine turned_same ?_ (hquiet hk) hq'
    unfold answer
    simp only
    split
    · exact (quiet_notify env _ _ _).participants
    · rfl
  | @flagged m p c seq =>
    have hemit : Keeps ∅ ∅ True (h.flags env c) _ :=
      keeps_emitEvent env (h.flags env c) (h.commandEvent env c) none (Or.inl trivial)
    have hflags : (h.flags env c).participants = h.participants ∧
        deliveries n (h.flags env c).wire.log = deliveries n h.wire.log := by
      cases c <;> exact ⟨rfl, rfl⟩
    exact turned_same hflags.1 ((hemit.delivered n (Set.notMem_empty n)).trans hflags.2) hq'
  | @okayed m p q c seq =>
    have hk : Keeps ∅ ∅ True h (h.touchActivity.send env p (.ok seq)) :=
      (keeps_touchActivity h).trans (quiet_send env h.touchActivity _ (by simp)).keeps
    exact turned_same rfl (hquiet hk) hq'
  | polled m seq =>
    exact turned_same (quiet_handleRoster env h m seq).participants
      (hquiet (E := True) (quiet_handleRoster env h m seq).keeps) hq'
  | alarmed m =>
    refine turned_same ?_ (hquiet (E := True) (keeps_notifyBlocked env h m)) hq'
    by_cases hdue : AlarmDue env h m
    · obtain ⟨detail, title, message, heq⟩ := notifyBlocked_due hdue
      rw [heq]
      exact (quiet_notify env _ _ _).participants
    · rw [notifyBlocked_not_due hdue]
  | @left m p hp =>
    by_cases hn : n = m
    · subst hn
      rw [get?_leave_self] at hq'
      cases hq'
    · rw [get?_leave_of_ne env h hn] at hq'
      exact .steady q' hq' (.refl q') fun _ => deliveries_leave env h m p n
  | @joined c f hc hfree hA =>
    have hwf := hw.enroll hc (admitted_name env hw c f) (nameRe_ne_nil f.name_ok.2)
      (admitted_client env h c f)
    by_cases hn : n = f.name
    · subst hn
      refine .came f hfree hA ?_
      obtain ⟨hget, -⟩ := greet_spec env hwf.named
        (get?_enroll_self h c f.name (admitted env h c f)) (h.dead.contains f.name)
      rw [registered, hget, Option.some.injEq] at hq'
      rw [← hq']
      split
      · exact admitted_state h c f
      · rw [state_primed]
        exact admitted_state h c f
    · have hk := keeps_greet env hwf.named f.name (admitted env h c f) (h.dead.contains f.name)
      rw [registered, get?_greet_of_ne hn, get?_enroll_of_ne h c hn] at hq'
      exact .steady q' hq' (.refl q') fun _ => hk.delivered n hn

theorem Deed.log (hw : h.Wf) (hd : Deed env A h h') : h.wire.log <+: h'.wire.log := by
  rcases hd.roster hw.named with hr | ⟨m, p, -, rfl⟩ | ⟨c, f, hc, -, -, rfl⟩
  · exact hr.wire.log
  · exact (le_leave env h m p).log
  · have hwf := hw.enroll hc (admitted_name env hw c f) (nameRe_ne_nil f.name_ok.2)
      (admitted_client env h c f)
    exact (keeps_greet env hwf.named f.name _ _).wire.log

/-! ## One operation -/

/-- From `h` to `h'` the participant `n` was handed a frame. -/
def Served (n : Str) (h h' : Hub) : Prop :=
  (deliveries n h.wire.log).length < (deliveries n h'.wire.log).length

/-- Where the timers of the agents that are not idle come from: from before, or from a delivery or a
report since. -/
def Aged (A : Filter) (h h' : Hub) : Prop :=
  ∀ n q', h'.get? n = some q' → q'.isObserver = false → q'.state ≠ .idle →
    (∃ q, h.get? n = some q ∧ q'.Same q ∧ q.state ≠ .idle ∧ q'.busySince = q.busySince ∧
      deliveries n h'.wire.log = deliveries n h.wire.log) ∨
    q'.busySince = h.now ∧
      (Served n h h' ∨ ∃ f, A n q'.kind (.state f) ∧ f.state ≠ .idle)

theorem length_deliveries_le (hlog : h.wire.log <+: h'.wire.log) (n : Str) :
    (deliveries n h.wire.log).length ≤ (deliveries n h'.wire.log).length :=
  (hlog.filterMap _).length_le

theorem Aged.refl (h : Hub) : Aged A h h := fun _ q' hq' _ hbusy =>
  Or.inl ⟨q', hq', .refl q', hbusy, rfl, rfl⟩

theorem Aged.deed (hi : Aged A h h') (hw : h'.Wf) (hnow : h'.now = h.now)
    (hlog : h.wire.log <+: h'.wire.log) (hd : Deed env A h' h'') : Aged A h h'' := by
  intro n q' hq' hagent hbusy
  cases hd.turned hw hq' with
  | steady q found same delivered =>
    have hobs : q.isObserver = false := by rw [← same.isObserver]; exact hagent
    have hdel := delivered hobs
    rcases hi n q found hobs (by rw [← same.state]; exact hbusy) with
      ⟨p, hp, hsame, hpbusy, hsince, hsent⟩ | ⟨hsince, hwhy⟩
    · exact Or.inl ⟨p, hp, hsame.trans same.toSame, hpbusy, same.since.trans hsince, hdel.trans hsent⟩
    · refine Or.inr ⟨same.since.trans hsince, hwhy.imp (fun hhanded => ?_) fun hf => ?_⟩
      · rw [Served, hdel]
        exact hhanded
      · rw [same.kind]
        exact hf
  | woken q found agent idle now delivered =>
    obtain ⟨f, hf⟩ := delivered
    refine Or.inr ⟨by rw [now, hnow], Or.inl ?_⟩
    have hle := length_deliveries_le hlog n
    rw [Served, hf, List.length_append, List.length_singleton]
    omega
  | reported q f found meets now =>
    have hstate : q'.state = f.state := by
      rw [now, Hub.reported]
      split
      · split <;> rfl
      · rfl
    have hne : f.state ≠ .idle := by rw [← hstate]; exact hbusy
    have hkind : q'.kind = q.kind := by
      rw [now, Hub.reported]
      split
      · split <;> rfl
      · rfl
    refine Or.inr ⟨?_, Or.inr ⟨f, by rw [hkind]; exact meets, hne⟩⟩
    rw [now, Hub.reported, ← hnow]
    have hset : (q.setState h'.now f.state).busySince = h'.now := by
      rw [Participant.setState]
      exact if_neg hne
    split
    · split
      · exact hset
      · exact hset
    · exact hset
  | inferred q _ _ _ now =>
    rw [now] at hbusy
    exact absurd rfl hbusy
  | came _ _ _ idle => exact absurd idle hbusy

theorem Aged.deeds (hw : h.Wf) (hds : Deeds env A h h') : Aged A h h' := by
  have hall : h'.Wf ∧ h'.now = h.now ∧ h.wire.log <+: h'.wire.log ∧ Aged A h h' := by
    induction hds with
    | refl => exact ⟨hw, rfl, List.prefix_refl _, .refl h⟩
    | tail _ hd ih =>
      obtain ⟨hwf, hnow, hlog, hi⟩ := ih
      exact ⟨hd.wf hwf, (hd.now hwf).trans hnow, hlog.trans (hd.log hwf), hi.deed hwf hnow hlog hd⟩
  exact hall.2.2.2

variable {F : Type} [PyJson.PyFloat F]

variable (env) in
/-- The state that an operation reports, with the name of the participant. -/
def reportOf (h : Hub) : Op F → Option (Str × Report)
  | .handle c frame =>
    match validate env.isPrintable frame with
    | .ok (.state f) =>
      if (h.get? (h.wire.clients c).name).isSome then some ((h.wire.clients c).name, f) else none
    | _ => none
  | _ => none

variable (env) in
/-- Only reports of the operation. -/
theorem allowed_reportOf (h : Hub) (op : Op F) :
    Allowed env (fun n kind i => ∀ f, i = .state f → reportOf env h op = some (n, f) ∧
      ∃ q, h.get? n = some q ∧ kind = q.kind) h op := by
  rintro c frame i rfl hv
  cases i with
  | hello g => exact fun f hf => nomatch hf
  | state f =>
    intro p hp g hg
    cases hg
    exact ⟨by simp [reportOf, hv, hp], p, hp, rfl⟩
  | _ => exact fun p _ f hf => nomatch hf

theorem newFrames_ne_nil (hh : Served n h h') : newFrames n h h' ≠ [] := by
  intro hnil
  have hlen := congrArg List.length hnil
  rw [newFrames, List.length_drop, List.length_nil] at hlen
  unfold Served at hh
  omega

theorem get?_checks (h : Hub) (n : Str) : ((h.checkQuorum env).checkStall env).get? n = h.get? n := by
  rw [get?, participants_checkStall env, participants_checkQuorum env]
  rfl

/-- **What an operation does to the timers** of the agents that are not idle. -/
theorem aged_step (hw : h.Wf) (op : Op F) (hq' : (h.step env op).get? n = some q')
    (hagent : q'.isObserver = false) (hbusy : q'.state ≠ .idle) :
    (∃ q, h.get? n = some q ∧ q'.Same q ∧ q.state ≠ .idle ∧ q'.busySince = q.busySince ∧
      newFrames n h (h.step env op) = []) ∨
    q'.busySince = h.now ∧ (newFrames n h (h.step env op) ≠ [] ∨
      ∃ f, reportOf env h op = some (n, f) ∧ f.state ≠ .idle ∧
        ∃ q, h.get? n = some q ∧ q'.kind = q.kind) := by
  have hclose : ∀ {B : Filter} (k : Hub), Aged B h k → k.get? n = some q' →
      deliveries n (h.step env op).wire.log = deliveries n k.wire.log →
      (∀ f, B n q'.kind (.state f) → reportOf env h op = some (n, f) ∧
        ∃ q, h.get? n = some q ∧ q'.kind = q.kind) →
      (∃ q, h.get? n = some q ∧ q'.Same q ∧ q.state ≠ .idle ∧ q'.busySince = q.busySince ∧
        newFrames n h (h.step env op) = []) ∨
      q'.busySince = h.now ∧ (newFrames n h (h.step env op) ≠ [] ∨
        ∃ f, reportOf env h op = some (n, f) ∧ f.state ≠ .idle ∧
          ∃ q, h.get? n = some q ∧ q'.kind = q.kind) := by
    intro B k hi hk hdel hB
    rcases hi n q' hk hagent hbusy with ⟨q, hq, hs, hqbusy, hsince, hsent⟩ | ⟨hsince, hwhy⟩
    · refine Or.inl ⟨q, hq, hs, hqbusy, hsince, ?_⟩
      rw [newFrames, hdel, hsent, List.drop_length]
    · refine Or.inr ⟨hsince, ?_⟩
      rcases hwhy with hh | ⟨f, hf, hne⟩
      · left
        apply newFrames_ne_nil
        rw [Served, hdel]
        exact hh
      · exact Or.inr ⟨f, (hB f hf).1, hne, (hB f hf).2⟩
  by_cases htick : op = .watchdogTick
  · subst htick
    have hds : Deeds env (fun _ _ _ => False) (h.pruneDead env)
        ((h.pruneDead env).participants.keys.foldl (tickOne env) (h.pruneDead env)) :=
      deeds_ticks (hw.pruneDead env) _
    have hchecks : Keeps ∅ ∅ True
        ((h.pruneDead env).participants.keys.foldl (tickOne env) (h.pruneDead env)) (h.watchdogTick env) :=
      keeps_checks env _
    have hi := Aged.deeds (hw.pruneDead env) hds
    have hi : Aged (fun _ _ _ => False) h
        ((h.pruneDead env).participants.keys.foldl (tickOne env) (h.pruneDead env)) := hi
    refine hclose _ hi ?_ (hchecks.delivered n (Set.notMem_empty n)) fun _ hF => hF.elim
    exact (@get?_checks env _ n).symm.trans hq'
  · by_cases hclock : ∃ now wall, op = .clock now wall
    · obtain ⟨now, wall, rfl⟩ := hclock
      exact hclose (B := fun _ _ _ => False) _ (Aged.refl h) hq' rfl fun _ hF => hF.elim
    · have hds := deeds_step hw (allowed_reportOf env h op) htick fun now wall heq => hclock ⟨now, wall, heq⟩
      exact hclose _ (Aged.deeds hw hds) hq' rfl fun f hf => hf f rfl

/-! ## The tick -/

/-- The participant `n`, if it is still there, is as it was. -/
structure Undisturbed (n : Str) (h h' : Hub) : Prop where
  now : h'.now = h.now
  back : ∀ q', h'.get? n = some q' → ∃ q, h.get? n = some q ∧ q'.Steady q
  delivered : deliveries n h'.wire.log = deliveries n h.wire.log

theorem Undisturbed.refl (h : Hub) : Undisturbed n h h := ⟨rfl, fun q' hq' => ⟨q', hq', .refl q'⟩, rfl⟩

theorem Undisturbed.trans (hab : Undisturbed n h h') (hbc : Undisturbed n h' h'') :
    Undisturbed n h h'' := by
  refine ⟨hbc.now.trans hab.now, fun q'' hq'' => ?_, hbc.delivered.trans hab.delivered⟩
  obtain ⟨q', hq', hs'⟩ := hbc.back q'' hq''
  obtain ⟨q, hq, hs⟩ := hab.back q' hq'
  exact ⟨q, hq, hs.trans hs'⟩

theorem undisturbed_same {E : Prop} (hk : Keeps ∅ ∅ E h h') (hpart : h'.participants = h.participants) :
    Undisturbed n h h' := by
  refine ⟨hk.now, fun q' hq' => ⟨q', ?_, .refl q'⟩, hk.delivered n (Set.notMem_empty n)⟩
  rw [get?, ← hpart]
  exact hq'

theorem undisturbed_checkSessionDone (h : Hub) : Undisturbed n h (h.checkSessionDone env) := by
  have hk : Keeps ∅ ∅ True h (h.checkSessionDone env) := keeps_checkSessionDone env h
  refine ⟨hk.now, fun q' hq' => ?_, hk.delivered n (Set.notMem_empty n)⟩
  rw [get?_checkSessionDone] at hq'
  obtain ⟨q, hq, rfl⟩ := Option.map_eq_some_iff.mp hq'
  refine ⟨q, hq, ?_⟩
  split
  · exact ⟨⟨rfl, rfl, rfl, rfl, rfl⟩, rfl, rfl, rfl, rfl⟩
  · exact .refl q

theorem undisturbed_checkRoundLimit (h : Hub) : Undisturbed n h (h.checkRoundLimit env) := by
  have hlimit : Undisturbed n h (h.announceLimit env) :=
    undisturbed_same (E := True) (keeps_announceLimit env h) (quiet_notify env _ _ _).participants
  unfold checkRoundLimit
  split
  · split
    · exact hlimit
    · exact hlimit.trans (undisturbed_same (E := True)
        (keeps_append _ _ rfl (Or.inl trivial)) rfl)
  · exact .refl h

theorem undisturbed_flushQueue (hn : h.Named) {m : Str} (hne : n ≠ m) :
    Undisturbed n h (h.flushQueue env m) := by
  cases hp : h.get? m with
  | none =>
    rw [flushQueue, hp]
    exact .refl h
  | some p =>
    by_cases hskip : p.queue = [] ∨ h.up p.client = false
    · rw [flushQueue_skip env hp hskip]
      exact .refl h
    · simp only [not_or, Bool.not_eq_false] at hskip
      have hmod : Undisturbed n h (h.modify m (·.flushed env.config)) :=
        ⟨rfl, fun q' hq' => ⟨q', by rw [← get?_modify_of_ne h hne]; exact hq', .refl q'⟩, rfl⟩
      have hdeliver : ∀ k : Hub, k.Named → Undisturbed n k (k.deliver env m (p.flushBatch env.config)) :=
        fun k hk => ⟨(keeps_deliver env (E := True) hk m _).now,
          fun q' hq' => ⟨q', by rw [← get?_deliver_of_ne env k hne]; exact hq', .refl q'⟩,
          (keeps_deliver env (E := True) hk m _).delivered n hne⟩
      have hnamed : (h.modify m (·.flushed env.config)).Named := by
        have hr := roster_modify h m (f := (·.flushed env.config)) fun _ => ⟨rfl, rfl, rfl, rfl, rfl⟩
        exact hr.named hn
      obtain ⟨h₁, hh₁, h₂, hh₂, heq⟩ := flushQueue_eq env hp hskip.1 hskip.2
      have hfirst : Undisturbed n h (h₁.deliver env m (p.flushBatch env.config)) := by
        rcases hh₁ with rfl | rfl
        · exact hmod.trans (hdeliver _ hnamed)
        · have hround : Undisturbed n h
              { h.modify m (·.flushed env.config) with round := h.round + 1 } :=
            ⟨hmod.now, hmod.back, hmod.delivered⟩
          exact hround.trans (hdeliver _ hnamed)
      rw [heq]
      rcases hh₂ with rfl | rfl
      · exact hfirst.trans (undisturbed_checkSessionDone _)
      · exact (hfirst.trans (undisturbed_checkRoundLimit _)).trans (undisturbed_checkSessionDone _)

theorem undisturbed_disconnect (h : Hub) (c : ClientId) : Undisturbed n h (h.disconnect env c) := by
  have hclose : ∀ k : Hub, Undisturbed n k (k.close c) := fun k =>
    undisturbed_same (E := True) (keeps_close k c) rfl
  rcases disconnect_cases env h c with ⟨p, hp, -, heq⟩ | ⟨-, heq⟩
  · rw [heq]
    have hleave : Undisturbed n h (h.leave env (h.wire.clients c).name p) := by
      refine ⟨rfl, fun q' hq' => ?_, deliveries_leave env h _ p n⟩
      rw [get?_leave] at hq'
      split at hq'
      · cases hq'
      · exact ⟨q', hq', .refl q'⟩
    exact (hleave.trans (undisturbed_checkSessionDone _)).trans (hclose _)
  · rw [heq]
    exact hclose h

theorem undisturbed_modify (h : Hub) (m : Str) {g : Participant → Participant}
    (hg : ∀ q, (g q).Steady q) : Undisturbed n h (h.modify m g) := by
  refine ⟨rfl, fun q' hq' => ?_, rfl⟩
  by_cases hnm : n = m
  · subst hnm
    rw [get?_modify_self] at hq'
    obtain ⟨q, hq, rfl⟩ := Option.map_eq_some_iff.mp hq'
    exact ⟨q, hq, hg q⟩
  · rw [get?_modify_of_ne _ hnm] at hq'
    exact ⟨q', hq', .refl q'⟩

theorem undisturbed_pingSilent (h : Hub) (m : Str) (p : Participant) :
    Undisturbed n h (h.pingSilent env m p) := by
  unfold pingSilent
  split
  · have hmod : Undisturbed n h (h.modify m fun p =>
        { p with awaitingPong := true, pongDeadline := h.now + env.config.pongTimeout }) :=
      undisturbed_modify h m fun q => ⟨⟨rfl, rfl, rfl, rfl, rfl⟩, rfl, rfl, rfl, rfl⟩
    exact hmod.trans (undisturbed_same (E := True) (quiet_send env _ p (by simp)).keeps rfl)
  · exact .refl h

theorem undisturbed_notifyBlocked (h : Hub) (m : Str) : Undisturbed n h (h.notifyBlocked env m) := by
  refine undisturbed_same (E := True) (keeps_notifyBlocked env h m) ?_
  by_cases hdue : AlarmDue env h m
  · obtain ⟨detail, title, message, heq⟩ := notifyBlocked_due hdue
    rw [heq]
    exact (quiet_notify env _ _ _).participants
  · rw [notifyBlocked_not_due hdue]

/-- The round of another participant. -/
theorem undisturbed_tickOne (hn : h.Named) {m : Str} (hne : n ≠ m) :
    Undisturbed n h (h.tickOne env m) := by
  rcases tickOne_cases env h m with ⟨-, heq⟩ | ⟨p, -, heq | heq | ⟨-, heq⟩⟩
  · rw [heq]
    exact .refl h
  · rw [heq]
    exact undisturbed_disconnect h _
  · rw [heq]
    exact undisturbed_pingSilent h m p
  · rw [heq]
    have hping : Undisturbed n h (h.pingSilent env m p) := undisturbed_pingSilent h m p
    have hnamed : (h.pingSilent env m p).Named :=
      (keeps_pingSilent (S := ∅) (T := ∅) (E := True) env h m p).named hn
    refine (hping.trans ?_).trans (undisturbed_notifyBlocked _ m)
    unfold assumeIdle
    split
    · have hidle : Undisturbed n (h.pingSilent env m p) ((h.pingSilent env m p).modify m (·.setIdle)) :=
        ⟨rfl, fun q' hq' => ⟨q', by rw [← get?_modify_of_ne _ hne]; exact hq', .refl q'⟩, rfl⟩
      have hevent : ∀ k : Hub, k.Named → Undisturbed n k ((k.emitEvent env
          (.stall (str "no sign of life from " ++ p.name ++ str ", assumed idle")) none).flushQueue
            env m) := fun k hk => by
        have hemit : Keeps ∅ ∅ True k (k.emitEvent env
          (.stall (str "no sign of life from " ++ p.name ++ str ", assumed idle")) none) :=
          keeps_emitEvent env k _ _ (Or.inl trivial)
        exact (undisturbed_same hemit rfl).trans (undisturbed_flushQueue (hemit.named hk) hne)
      have hr := roster_modify (h.pingSilent env m p) m (f := (·.setIdle)) fun _ =>
        ⟨rfl, rfl, rfl, rfl, rfl⟩
      exact hidle.trans (hevent _ (hr.named hnamed))
    · exact .refl _

theorem undisturbed_ticks (hw : h.Wf) {ms : List Str} (hnot : n ∉ ms) :
    Undisturbed n h (ms.foldl (tickOne env) h) := by
  induction ms generalizing h with
  | nil => exact .refl h
  | cons m ms ih =>
    rw [List.mem_cons, not_or] at hnot
    exact (undisturbed_tickOne hw.named hnot.1).trans (ih (hw.tickOne env m) hnot.2)

variable (env) in
/-- The time after which `q` is assumed idle has passed. -/
def Overdue (h : Hub) (q : Participant) : Prop :=
  q.hasIdleEvents = false ∧ q.state ≠ .idle ∧ env.config.assumeIdleAfter < h.now - q.busySince

theorem Undisturbed.overdue_iff {q : Participant} (hu : Undisturbed n h h') (hs : q'.Steady q) :
    Overdue env h' q' ↔ Overdue env h q := by
  have hcaps : q'.hasIdleEvents = q.hasIdleEvents := by rw [Participant.hasIdleEvents, hs.caps]; rfl
  unfold Overdue
  rw [hcaps, hs.state, hs.since, hu.now]

/-- A participant that the watchdog assumes idle: it is, or it has been woken. -/
theorem assumed (hn : h.Named) {q : Participant} (hq : h.get? n = some q)
    (hdue : Overdue env h p) (hq' : (h.assumeIdle env n p).get? n = some q') :
    q'.Same q ∧ (q'.state = .idle ∧ deliveries n (h.assumeIdle env n p).wire.log =
      deliveries n h.wire.log ∨ Served n h (h.assumeIdle env n p)) := by
  have hdue : p.hasIdleEvents = false ∧ p.state ≠ .idle ∧
      env.config.assumeIdleAfter < h.now - p.busySince := hdue
  unfold assumeIdle at hq' ⊢
  rw [if_pos hdue] at hq' ⊢
  have hnamed : (h.modify n (·.setIdle)).Named :=
    (roster_modify h n (f := (·.setIdle)) fun _ => ⟨rfl, rfl, rfl, rfl, rfl⟩).named hn
  have hemit : Keeps ∅ ∅ True (h.modify n (·.setIdle)) ((h.modify n (·.setIdle)).emitEvent env
      (.stall (str "no sign of life from " ++ p.name ++ str ", assumed idle")) none) :=
    keeps_emitEvent env _ _ _ (Or.inl trivial)
  have hidle : ((h.modify n (·.setIdle)).emitEvent env
      (.stall (str "no sign of life from " ++ p.name ++ str ", assumed idle")) none).get? n =
        some q.setIdle := by
    refine (get?_modify_self h n _).trans ?_
    rw [hq]
    rfl
  have hdel : deliveries n ((h.modify n (·.setIdle)).emitEvent env
      (.stall (str "no sign of life from " ++ p.name ++ str ", assumed idle")) none).wire.log =
        deliveries n h.wire.log := hemit.delivered n (Set.notMem_empty n)
  obtain ⟨as, q₁, hq₁, hs, -, hsent, hcases⟩ := flush_acts env (hemit.named hnamed) hidle
  rw [hq', Option.some.injEq] at hq₁
  subst hq₁
  refine ⟨⟨hs.name, hs.kind, hs.role, hs.caps, hs.client⟩, ?_⟩
  rcases hcases with ⟨rfl, heq, -⟩ | ⟨rfl, -⟩
  · left
    rw [heq] at hq' ⊢
    rw [hidle, Option.some.injEq] at hq'
    exact ⟨by rw [← hq']; rfl, hdel⟩
  · right
    rw [Served, hsent, hdel]
    simp [Mail.frames]

/-- The round of the participant itself. -/
theorem tickOne_self (hw : h.Wf) {q : Participant} (hq : h.get? n = some q)
    (hq' : (h.tickOne env n).get? n = some q') :
    q'.Steady q ∧ deliveries n (h.tickOne env n).wire.log = deliveries n h.wire.log ∧
        (q.isObserver = false → ¬Overdue env h q) ∨
      q.isObserver = false ∧ Overdue env h q ∧ q'.Same q ∧
        (q'.state = .idle ∧ deliveries n (h.tickOne env n).wire.log = deliveries n h.wire.log ∨
          Served n h (h.tickOne env n)) := by
  have hsteady : ∀ {k : Hub}, Undisturbed n h k → k.get? n = some q' → q'.Steady q := by
    intro k hu hk
    obtain ⟨r, hr, hs⟩ := hu.back q' hk
    rw [hq, Option.some.injEq] at hr
    rw [hr]
    exact hs
  rw [tickOne, hq] at hq' ⊢
  simp only at hq' ⊢
  have hgone : (h.disconnect env q.client).get? n = none := by
    have hname := hw.owns n q hq
    rcases disconnect_cases env h q.client with ⟨p, hp, -, heq⟩ | ⟨hnot, -⟩
    · rw [heq, hname]
      refine (get?_checkSessionDone env _ n).trans ?_
      rw [get?_leave_self]
      rfl
    · exact absurd rfl (hnot q (by rw [hname]; exact hq))
  split at hq'
  · rw [hgone] at hq'
    cases hq'
  next hup =>
  split at hq'
  · rw [hgone] at hq'
    cases hq'
  next hpong =>
  rw [if_neg hup, if_neg hpong]
  have hping : Undisturbed n h (h.pingSilent env n q) := undisturbed_pingSilent h n q
  have hnamed : (h.pingSilent env n q).Named :=
    (keeps_pingSilent (S := ∅) (T := ∅) (E := True) env h n q).named hw.named
  split at hq'
  · next hobs =>
    rw [if_pos hobs]
    exact Or.inl ⟨hsteady hping hq', hping.delivered, fun hagent => by rw [hobs] at hagent; cases hagent⟩
  next hobs =>
  rw [if_neg hobs]
  have hagent : q.isObserver = false := by simpa using hobs
  have hblocked : Undisturbed n ((h.pingSilent env n q).assumeIdle env n q)
      (((h.pingSilent env n q).assumeIdle env n q).notifyBlocked env n) :=
    undisturbed_notifyBlocked _ n
  by_cases hdue : Overdue env h q
  · have hdue' : Overdue env (h.pingSilent env n q) q := (hping.overdue_iff (.refl q)).mpr hdue
    obtain ⟨q₂, hq₂, hs₂⟩ := hblocked.back q' hq'
    obtain ⟨q₁, hq₁, hsame⟩ : ∃ q₁, (h.pingSilent env n q).get? n = some q₁ ∧ q₁.Same q :=
      (keeps_pingSilent (S := ∅) (T := ∅) (E := True) env h n q).same n q hq
    obtain ⟨hs₁, hwhat⟩ := assumed hnamed hq₁ hdue' hq₂
    refine Or.inr ⟨hagent, hdue, (hsame.trans hs₁).trans hs₂.toSame, hwhat.imp ?_ ?_⟩
    · rintro ⟨hidle, hdel⟩
      exact ⟨hs₂.state.trans hidle, (hblocked.delivered.trans hdel).trans hping.delivered⟩
    · intro hh
      rw [Served, hblocked.delivered, ← hping.delivered]
      exact hh
  · have hskip : (h.pingSilent env n q).assumeIdle env n q = h.pingSilent env n q := by
      unfold assumeIdle
      split
      · next hcond => exact absurd ((hping.overdue_iff (.refl q)).mp hcond) hdue
      · rfl
    rw [hskip] at hblocked hq' ⊢
    have hboth := hping.trans hblocked
    exact Or.inl ⟨hsteady hboth hq', hboth.delivered, fun _ => hdue⟩

/-- **What a tick does to a participant.** -/
theorem ticked (hw : h.Wf) (hq' : (h.watchdogTick env).get? n = some q') :
    ∃ q, h.get? n = some q ∧ q'.Same q ∧
      (q'.Steady q ∧ newFrames n h (h.watchdogTick env) = [] ∧
          (q.isObserver = false → ¬Overdue env h q) ∨
        q.isObserver = false ∧ Overdue env h q ∧
          (q'.state = .idle ∨ newFrames n h (h.watchdogTick env) ≠ [])) := by
  have hwp := hw.pruneDead env
  have hchecks : ∀ k : Hub, Undisturbed n k ((k.checkQuorum env).checkStall env) := fun k =>
    undisturbed_same (E := True) (keeps_checks env k)
      ((participants_checkStall env _).trans (participants_checkQuorum env k))
  have hkeys : n ∈ (h.pruneDead env).participants.keys := by
    by_contra hnot
    have hall : Undisturbed n (h.pruneDead env) (h.watchdogTick env) :=
      (undisturbed_ticks hwp hnot).trans (hchecks _)
    obtain ⟨q, hq, -⟩ := hall.back q' hq'
    exact hnot (Dict.mem_keys_iff.mpr ⟨q, hq⟩)
  obtain ⟨pre, post, hsplit⟩ := List.append_of_mem hkeys
  have hnodup : (pre ++ n :: post).Nodup := by
    rw [← hsplit]
    exact (h.pruneDead env).participants.nodup_keys
  have hpre : n ∉ pre := fun hmem => (List.nodup_append.mp hnodup).2.2 n hmem n (by simp) rfl
  have hpost : n ∉ post := (List.nodup_cons.mp (List.nodup_append.mp hnodup).2.1).1
  have htick : h.watchdogTick env =
      (((post.foldl (tickOne env) ((pre.foldl (tickOne env) (h.pruneDead env)).tickOne env n)).checkQuorum
        env).checkStall env) := by
    rw [watchdogTick, hsplit, List.foldl_append]
    rfl
  generalize hh₁ : pre.foldl (tickOne env) (h.pruneDead env) = h₁ at htick
  have hbefore : Undisturbed n h h₁ := by
    have hu : Undisturbed n (h.pruneDead env) h₁ := by
      rw [← hh₁]
      exact undisturbed_ticks hwp hpre
    exact ⟨hu.now, hu.back, hu.delivered⟩
  have hw₁ : h₁.Wf := by
    rw [← hh₁]
    exact tick_invariant env (I := Wf) (fun _ m hk => hk.tickOne env m) hwp pre
  have hafter : Undisturbed n (h₁.tickOne env n) (h.watchdogTick env) := by
    rw [htick]
    exact (undisturbed_ticks (hw₁.tickOne env n) hpost).trans (hchecks _)
  obtain ⟨q₂, hq₂, hs₂⟩ := hafter.back q' hq'
  have hthere : ∃ q₁, h₁.get? n = some q₁ := by
    cases hq₁ : h₁.get? n with
    | none =>
      rw [tickOne, hq₁, hq₁] at hq₂
      cases hq₂
    | some q₁ => exact ⟨q₁, rfl⟩
  obtain ⟨q₁, hq₁⟩ := hthere
  obtain ⟨q, hq, hs₁⟩ := hbefore.back q₁ hq₁
  have hobs : q₁.isObserver = q.isObserver := hs₁.isObserver
  refine ⟨q, hq, ?_⟩
  rcases tickOne_self hw₁ hq₁ hq₂ with ⟨hs, hdel, hnot⟩ | ⟨hagent, hdue, hsame, hwhat⟩
  · have hsteady := (hs₁.trans hs).trans hs₂
    refine ⟨hsteady.toSame, Or.inl ⟨hsteady, ?_, fun hagent hdue => ?_⟩⟩
    · rw [newFrames, hafter.delivered, hdel, hbefore.delivered, List.drop_length]
    · exact hnot (by rw [hobs]; exact hagent) ((hbefore.overdue_iff hs₁).mpr hdue)
  · refine ⟨(hs₁.toSame.trans hsame).trans hs₂.toSame, Or.inr ⟨by rw [← hobs]; exact hagent,
      (hbefore.overdue_iff hs₁).mp hdue, hwhat.imp (fun h => hs₂.state.trans h.1) fun hh => ?_⟩⟩
    refine newFrames_ne_nil ?_
    rw [Served, hafter.delivered, ← hbefore.delivered]
    exact hh

/-! ## Runs -/

/-- Who reports when it is idle itself is not made idle by what others do, nor by its own say. -/
theorem awake_deeds (hw : h.Wf) (hstate : ∀ n kind f, ¬A n kind (.state f))
    (hhello : ∀ n kind f, ¬A n kind (.hello f)) (hds : Deeds env A h h') {q : Participant}
    (hq : h.get? n = some q) (hcaps : q.hasIdleEvents = true) (hbusy : q.state ≠ .idle)
    (hq' : h'.get? n = some q') : q'.Steady q := by
  have hall : h'.Wf ∧ ∀ q', h'.get? n = some q' → q'.Steady q := by
    clear hq'
    induction hds with
    | refl =>
      refine ⟨hw, fun q' hq' => ?_⟩
      rw [hq, Option.some.injEq] at hq'
      rw [hq']
      exact .refl q'
    | tail _ hd ih =>
      obtain ⟨hwf, hi⟩ := ih
      refine ⟨hd.wf hwf, fun q' hq' => ?_⟩
      cases hd.turned hwf hq' with
      | steady r found same => exact (hi r found).trans same
      | woken r found _ idle =>
        rw [(hi r found).state] at idle
        exact absurd idle hbusy
      | reported r f _ meets => exact absurd meets (hstate _ _ f)
      | inferred r found caps =>
        have hcaps' : r.hasIdleEvents = q.hasIdleEvents := by
          rw [Participant.hasIdleEvents, (hi r found).caps]
          rfl
        rw [hcaps', hcaps] at caps
        cases caps
      | came f _ meets => exact absurd meets (hhello _ _ f)
  exact hall.2 q' hq'

/-- A report of a state that is not idle starts the timer. -/
theorem since_reportOf {op : Op F} {f : Report} (hreport : reportOf env h op = some (n, f))
    (hne : f.state ≠ .idle) (hq' : (h.step env op).get? n = some q') : q'.busySince = h.now := by
  cases op with
  | handle c frame =>
    cases hv : validate env.isPrintable frame with
    | error e => simp [reportOf, hv] at hreport
    | ok i =>
      cases i with
      | state g =>
        simp only [reportOf, hv] at hreport
        split at hreport
        · next hsome =>
          obtain ⟨p, hp⟩ := Option.isSome_iff_exists.mp hsome
          rw [Option.some.injEq, Prod.mk.injEq] at hreport
          obtain ⟨hname, rfl⟩ := hreport
          have hstep : h.step env (.handle c frame) = (h.lifeSign n).handleState env n g := by
            show h.handle env c frame = _
            rw [handle, hv]
            show h.dispatch env c (.state g) = _
            rw [dispatch, hname]
            rw [hname] at hp
            rw [hp]
          have hlife : (h.lifeSign n).get? n = some { p with lastRx := h.now, awaitingPong := false } := by
            rw [← hname, lifeSign, get?_modify_self, hp]
            rfl
          rw [hstep, handleState_eq, if_neg hne, report, hlife] at hq'
          have hself : ((h.lifeSign n).modify n (Hub.reported h.now g)).get? n = some q' := hq'
          rw [get?_modify_self, hlife, Option.map_some, Option.some.injEq] at hself
          rw [← hself, Hub.reported]
          split
          · split <;> exact if_neg hne
          · exact if_neg hne
        · cases hreport
      | _ => simp [reportOf, hv] at hreport
  | _ => cases hreport

variable (env) in
/-- The operation is a report of `n` that it is not idle. -/
def reportsBusy (h : Hub) (op : Op F) (n : Str) : Bool :=
  (reportOf env h op).any fun x => x.1 = n ∧ x.2.state ≠ .idle

theorem reportsBusy_iff {op : Op F} : reportsBusy env h op n = true ↔
    ∃ f, reportOf env h op = some (n, f) ∧ f.state ≠ .idle := by
  unfold reportsBusy
  cases hr : reportOf env h op with
  | none => simp
  | some x =>
    obtain ⟨m, f⟩ := x
    simp only [Option.any_some, decide_eq_true_eq, Option.some.injEq, Prod.mk.injEq]
    constructor
    · rintro ⟨rfl, hne⟩
      exact ⟨f, ⟨rfl, rfl⟩, hne⟩
    · rintro ⟨_, ⟨rfl, rfl⟩, hne⟩
      exact ⟨rfl, hne⟩

variable (env) in
/-- When each participant was last handed a frame or last reported a state that is not idle. -/
def lastStir (g : Str → Rat) (h : Hub) (op : Op F) : Str → Rat := fun n =>
  if newFrames n h (h.attempt env op) ≠ [] ∨ reportsBusy env h op n = true then h.now else g n

/-- The timers of the agents that are not idle say when they were last stirred. -/
def Stirred (s : (Str → Rat) × Hub) : Prop :=
  s.2.Wf ∧ ∀ n q, s.2.get? n = some q → q.isObserver = false → q.state ≠ .idle → q.busySince = s.1 n

theorem Stirred.step {s : (Str → Rat) × Hub} (hs : Stirred s) {op : Op F}
    (hends : s.2.Ends env op) : Stirred (lastStir env s.1 s.2 op, s.2.attempt env op) := by
  rw [hends.same]
  refine ⟨hs.1.step env op, fun n q' hq' hagent hbusy => ?_⟩
  have hq' : (s.2.step env op).get? n = some q' := hq'
  show q'.busySince = lastStir env s.1 s.2 op n
  have hstir : lastStir env s.1 s.2 op n = if newFrames n s.2 (s.2.step env op) ≠ [] ∨
      reportsBusy env s.2 op n = true then s.2.now else s.1 n := by rw [lastStir, hends.same]
  rw [hstir]
  rcases aged_step hs.1 op hq' hagent hbusy with
    ⟨q, hq, hsame, hqbusy, hsince, hnone⟩ | ⟨hsince, hnew | ⟨f, hreport, hne, -⟩⟩
  · have hold : q'.busySince = s.1 n :=
      hsince.trans (hs.2 n q hq (by rw [← hsame.isObserver]; exact hagent) hqbusy)
    split
    · next hwhy =>
      rcases hwhy with hnew | hreport
      · exact absurd hnone hnew
      · obtain ⟨f, hf, hne⟩ := reportsBusy_iff.mp hreport
        exact since_reportOf hf hne hq'
    · exact hold
  · rw [hsince, if_pos (Or.inl hnew)]
  · rw [hsince, if_pos (Or.inr (reportsBusy_iff.mpr ⟨f, hreport, hne⟩))]

variable (env) in
/-- A say, from whomever. -/
def IsSay (op : Op F) : Prop :=
  ∃ c frame f, op = .handle c frame ∧ validate env.isPrintable frame = .ok (.say f)

theorem allowed_isSay (h : Hub) {op : Op F} (hsay : IsSay env op) :
    Allowed env (fun _ _ i => ∃ f, i = .say f) h op := by
  obtain ⟨c, frame, f, rfl, hv⟩ := hsay
  rintro c' frame' i heq hv'
  cases heq
  rw [hv, Except.ok.injEq] at hv'
  rw [← hv']
  exact fun _ _ => ⟨f, rfl⟩

/-- A tick makes no agent idle before its time. -/
theorem Stirred.inferred {s : (Str → Rat) × Hub} (hs : Stirred s) {q : Participant}
    (hq : s.2.get? n = some q) (hagent : q.isObserver = false) (hbusy : q.state ≠ .idle)
    (hq' : (s.2.watchdogTick env).get? n = some q')
    (hwhat : q'.state = .idle ∨ newFrames n s.2 (s.2.watchdogTick env) ≠ []) :
    env.config.assumeIdleAfter < s.2.now - s.1 n := by
  obtain ⟨r, hr, -, hcases⟩ := ticked hs.1 hq'
  rw [hq, Option.some.injEq] at hr
  subst hr
  rcases hcases with ⟨hsteady, hnone, -⟩ | ⟨-, hdue, -⟩
  · rcases hwhat with hidle | hnew
    · exact absurd (hsteady.state.symm.trans hidle) hbusy
    · exact absurd hnone hnew
  · rw [← hs.2 n q hq hagent hbusy]
    exact hdue.2.2

/-- A tick leaves no agent whose time is up, unless it has handed it a frame. -/
theorem Stirred.noticed {s : (Str → Rat) × Hub} (hs : Stirred s)
    (hq' : (s.2.watchdogTick env).get? n = some q') (hagent : q'.isObserver = false)
    (hcaps : q'.hasIdleEvents = false) (hbusy : q'.state ≠ .idle)
    (hnone : newFrames n s.2 (s.2.watchdogTick env) = []) :
    s.2.now - s.1 n ≤ env.config.assumeIdleAfter := by
  obtain ⟨q, hq, hsame, ⟨hsteady, -, hnot⟩ | ⟨-, -, hwhat⟩⟩ := ticked hs.1 hq'
  · have hobs : q.isObserver = false := by rw [← hsame.isObserver]; exact hagent
    have hqbusy : q.state ≠ .idle := by rw [← hsteady.state]; exact hbusy
    rw [← hs.2 n q hq hobs hqbusy]
    apply le_of_not_gt
    intro hlt
    exact hnot hobs ⟨by rw [← hcaps, Participant.hasIdleEvents, ← hsame.caps]; rfl, hqbusy, hlt⟩
  · rcases hwhat with hidle | hnew
    · exact absurd hidle hbusy
    · exact absurd hnone hnew

/-- Who has `idle-events` is made idle neither by a tick nor by a say. -/
theorem capable_steady (hw : h.Wf) {op : Op F} (hop : op = .watchdogTick ∨ IsSay env op)
    {q : Participant} (hq : h.get? n = some q) (hcaps : q.hasIdleEvents = true)
    (hbusy : q.state ≠ .idle) (hq' : (h.step env op).get? n = some q') : q'.state = q.state := by
  rcases hop with rfl | hsay
  · obtain ⟨r, hr, -, hcases⟩ := ticked hw hq'
    rw [hq, Option.some.injEq] at hr
    subst hr
    rcases hcases with ⟨hsteady, -, -⟩ | ⟨-, hdue, -⟩
    · exact hsteady.state
    · rw [hdue.1] at hcaps
      cases hcaps
  · have hds : Deeds env (fun _ _ i => ∃ f, i = .say f) h (h.step env op) := by
      refine deeds_step hw (allowed_isSay h hsay) ?_ ?_
      · rintro rfl
        obtain ⟨_, _, _, heq, -⟩ := hsay
        cases heq
      · rintro now wall rfl
        obtain ⟨_, _, _, heq, -⟩ := hsay
        cases heq
    exact (awake_deeds hw (fun _ _ _ hf => by obtain ⟨_, hf⟩ := hf; cases hf)
      (fun _ _ _ hf => by obtain ⟨_, hf⟩ := hf; cases hf) hds hq hcaps hbusy hq').state

variable (env) in
/-- **The assume-idle timer.**  In every run on clean strings a tick makes an agent without
`idle-events` idle only if the time has passed since the last delivery to it and its last report
that it is not idle; after the tick none is left of which this is true, but for those that the tick
has handed a frame; and who has `idle-events` is made idle neither by a tick nor by a say. -/
theorem watchdog_infers (records : List MsgRec) (now wall : Rat) (ops : List (Op F))
    (hc : CleanRun env records ops) :
    let s := Run.after (Run.withGhost (Hub.attempt env) (lastStir env))
      (fun _ => now, init env records now wall) ops
    let tick := s.2.attempt env (.watchdogTick : Op F)
    (∀ n q q', s.2.get? n = some q → q.isObserver = false → q.hasIdleEvents = false →
      q.state ≠ .idle → tick.get? n = some q' → (q'.state = .idle ∨ newFrames n s.2 tick ≠ []) →
        env.config.assumeIdleAfter < s.2.now - s.1 n) ∧
    (∀ n q', tick.get? n = some q' → q'.isObserver = false → q'.hasIdleEvents = false →
      q'.state ≠ .idle → newFrames n s.2 tick = [] →
        s.2.now - s.1 n ≤ env.config.assumeIdleAfter) ∧
    ∀ (op : Op F) n q q', (op = .watchdogTick ∨ IsSay env op) → op.Clean env →
      s.2.get? n = some q → q.hasIdleEvents = true → q.state ≠ .idle →
        (s.2.attempt env op).get? n = some q' → q'.state = q.state := by
  intro s tick
  have hrun : s.2 = Run.after (Hub.attempt env) (init env records now wall) ops :=
    Run.after_withGhost _ _ ops
  have hs : Stirred s := by
    have hstirred := hc.preserved (I := fun g k => Stirred (g, k)) (g := fun _ => now) now wall
      (lastStir env) ⟨wf_init env records now wall, by rintro _ _ ⟨⟩⟩
      fun g k op _ hs hends => Stirred.step (s := (g, k)) hs hends
    rw [← hrun] at hstirred
    exact hstirred
  have hhub : s.2.Clean := by
    rw [hrun]
    exact (hc.sound now wall).2
  have htick : tick = s.2.watchdogTick env :=
    (ends_of_clean hc.time hhub (.watchdogTick : Op F) allClean_nil).same
  rw [htick]
  refine ⟨fun n q q' hq hagent _ hbusy hq' hwhat => hs.inferred hq hagent hbusy hq' hwhat,
    fun n q' hq' hagent hcaps hbusy hnone => hs.noticed hq' hagent hcaps hbusy hnone,
    fun op n q q' hop hclean hq hcaps hbusy hq' => ?_⟩
  rw [(ends_of_clean hc.time hhub op hclean).same] at hq'
  exact capable_steady hs.1 hop hq hcaps hbusy hq'

/-- Bob is busy, and is not heard of again. -/
def silentBob : List (Op PyJson.Token) :=
  [.handle 0 (helloFrame "alice" "agent" ["idle-events"]), .handle 1 (helloFrame "bob" "agent" []),
    .handle 1 (stateFrame "busy"), .clock 1000 1000]

theorem watchdog_infers_silentBob :
    let s := Run.after (Run.withGhost (Hub.attempt .still) (lastStir .still))
      (fun _ => 0, init .still [] 0 0) silentBob
    let tick := s.2.attempt .still (.watchdogTick : Op PyJson.Token)
    (tick.get? (str "bob")).map Participant.state = some .idle ∧ 90 < s.2.now - s.1 (str "bob") := by
  intro s tick
  have hc : CleanRun .still [] silentBob := ⟨fun _ => clean_nil, by simp, by decide +kernel⟩
  have hbusy : (s.2.get? (str "bob")).any (fun q => !q.isObserver && !q.hasIdleEvents &&
      q.state ≠ .idle) = true := by decide +kernel
  have hidle : (tick.get? (str "bob")).map Participant.state = some .idle := by decide +kernel
  obtain ⟨q, hq, hbob⟩ := (Option.any_eq_true _ _).mp hbusy
  obtain ⟨q', hq', hstate⟩ := Option.map_eq_some_iff.mp hidle
  simp only [Bool.and_eq_true, Bool.not_eq_true', decide_eq_true_eq] at hbob
  exact ⟨hidle, (watchdog_infers .still [] 0 0 silentBob hc).1 (str "bob") q q' hq hbob.1.1 hbob.1.2
    hbob.2 hq' (Or.inl hstate)⟩

/-- The same, with Alice blocked by what cannot be encoded. -/
def silentBehindSurrogate : List (Op PyJson.Token) :=
  [.handle 0 (helloFrame "alice" "agent" ["idle-events"]), .handle 1 (helloFrame "bob" "agent" []),
    .handle 1 (stateFrame "busy"),
    .handle 0 (stateFrame "blocked" ++ [(str "detail", .str loneSurrogate)]), .clock 1000 1000]

/-- The tick gets no further than Alice. -/
theorem unnoticed_behind_surrogate :
    let s := Run.after (Run.withGhost (Hub.attempt .still) (lastStir .still))
      (fun _ => 0, init .still [] 0 0) silentBehindSurrogate
    let tick := s.2.attempt .still (.watchdogTick : Op PyJson.Token)
    (tick.get? (str "bob")).map (fun q => (q.state, q.isObserver, q.hasIdleEvents)) =
        some (.busy, false, false) ∧
      newFrames (str "bob") s.2 tick = [] ∧ 90 < s.2.now - s.1 (str "bob") := by
  decide +kernel

/-! ## The age of a turn -/

variable (env) in
/-- When each participant last went from idle to a state that is not idle: by a delivery, which finds
an agent idle, or by a report. -/
def turnStart (g : Str → Rat) (h : Hub) (op : Op F) : Str → Rat := fun n =>
  if newFrames n h (h.step env op) ≠ [] ∨
      reportsBusy env h op n = true ∧ (h.get? n).any (·.state = .idle) = true then h.now
  else g n

variable (env) in
/-- An agent that is not idle reports once more that it is not. -/
def Repeats (h : Hub) (op : Op F) : Prop :=
  ∃ n q, h.get? n = some q ∧ q.isObserver = false ∧ q.state ≠ .idle ∧ reportsBusy env h op n = true

/-- The timers of the agents that are not idle say when their turns began. -/
def Turning (s : (Str → Rat) × Hub) : Prop :=
  s.2.Wf ∧ ∀ n q, s.2.get? n = some q → q.isObserver = false → q.state ≠ .idle →
    q.busySince = s.1 n ∧ s.1 n ≤ s.2.now

theorem Turning.step {s : (Str → Rat) × Hub} (hs : Turning s) {op : Op F} (hclock : Forward s.2 op)
    (hop : ¬Repeats env s.2 op) :
    Turning (Run.withGhost (Hub.step env) (turnStart env) s op) := by
  refine ⟨hs.1.step env op, fun n q' hq' hagent hbusy => ?_⟩
  have hq' : (s.2.step env op).get? n = some q' := hq'
  have hforward : s.2.now ≤ (s.2.step env op).now := hclock.now_le env hs.1
  show q'.busySince = turnStart env s.1 s.2 op n ∧ turnStart env s.1 s.2 op n ≤ (s.2.step env op).now
  rcases aged_step hs.1 op hq' hagent hbusy with
    ⟨q, hq, hsame, hqbusy, hsince, hnone⟩ | ⟨hsince, hnew | ⟨f, hreport, hne, q, hq, hkind⟩⟩
  · have hobs : q.isObserver = false := by rw [← hsame.isObserver]; exact hagent
    obtain ⟨hold, hle⟩ := hs.2 n q hq hobs hqbusy
    have hsame : turnStart env s.1 s.2 op n = s.1 n := by
      rw [turnStart, if_neg]
      rintro (hnew | ⟨-, hidle⟩)
      · exact hnew hnone
      · rw [hq, Option.any_some, decide_eq_true_eq] at hidle
        exact hqbusy hidle
    rw [hsame]
    exact ⟨hsince.trans hold, hle.trans hforward⟩
  · rw [turnStart, if_pos (Or.inl hnew)]
    exact ⟨hsince, hforward⟩
  · have hreports := reportsBusy_iff.mpr ⟨f, hreport, hne⟩
    have hidle : q.state = .idle := by
      by_contra hqbusy
      exact hop ⟨n, q, hq, by rw [← isObserver_of_kind hkind]; exact hagent, hqbusy, hreports⟩
    rw [turnStart, if_pos (Or.inr ⟨hreports, by rw [hq]; simpa using hidle⟩)]
    exact ⟨hsince, hforward⟩

/-- The age of the turn of a participant, as the roster rounds it. -/
def turnAge (g : Str → Rat) (h : Hub) (q : Participant) : Rat :=
  if q.state = .idle then 0 else roundTo 1 (h.now - g q.name)

variable (env) in
/-- **The roster shows the age of the turn.**  In every run with a clock that does not go back, in
which no agent that is not idle reports once more that it is not, every roster reply has for each
agent 0 if it is idle, and otherwise the time since it went from idle to a state that is not. -/
theorem busyFor_age (records : List MsgRec) (now wall : Rat) (ops : List (Op F))
    (hops : Run.Always (Hub.step env) (fun h op => Forward h op ∧ ¬Repeats env h op)
      (init env records now wall) ops) (c : ClientId) (frame : Obj F) (seq : Option Int)
    (hv : validate env.isPrintable frame = .ok (.roster seq)) :
    let s := Run.after (Run.withGhost (Hub.step env) (turnStart env))
      (fun _ => now, init env records now wall) ops
    ∀ p, s.2.get? (s.2.wire.clients c).name = some p → ∃ up round limit frozen muted goal peers,
      (s.2.step env (.handle c frame)).wire.log = s.2.wire.log ++
        [.send p.name p.client up (.roster round limit frozen muted seq goal peers)] ∧
      ∀ peer ∈ peers, ∀ q, s.2.get? peer.name = some q → q.isObserver = false →
        peer.busyFor = turnAge s.1 s.2 q := by
  intro s p hp
  obtain ⟨hw, hs⟩ : Turning s := Run.invariant (I := Turning)
    (P := fun x op => Forward x.2 op ∧ ¬Repeats env x.2 op)
    (fun _ op hs hop => hs.step hop.1 hop.2) ⟨wf_init env records now wall, fun _ _ hq => nomatch hq⟩
    (hops.withGhost _)
  have hlife : (s.2.lifeSign (s.2.wire.clients c).name).get? (s.2.wire.clients c).name =
      some { p with lastRx := s.2.now, awaitingPong := false } := by
    rw [lifeSign, get?_modify_self, hp]
    rfl
  have hstep : s.2.step env (.handle c frame) = (s.2.lifeSign (s.2.wire.clients c).name).handleRoster
      env (s.2.wire.clients c).name seq := by
    show s.2.handle env c frame = _
    rw [handle, hv]
    show s.2.dispatch env c (.roster seq) = _
    rw [dispatch, hp]
  refine ⟨_, _, _, _, _, _, _, by rw [hstep, handleRoster, hlife]; rfl, ?_⟩
  intro peer hpeer q hq hagent
  obtain ⟨r, hr, rfl⟩ := List.mem_map.mp hpeer
  obtain ⟨m, hm⟩ := Dict.mem_values_iff.mp hr
  -- the life sign leaves the timers alone
  obtain ⟨r₀, hr₀, hsteady⟩ := (undisturbed_modify (n := m) s.2 (s.2.wire.clients c).name
    (g := fun p => { p with lastRx := s.2.now, awaitingPong := false })
    fun q => ⟨⟨rfl, rfl, rfl, rfl, rfl⟩, rfl, rfl, rfl, rfl⟩).back r hm
  have hname : r.name = m := hsteady.name.trans (hw.named m r₀ hr₀)
  have hq : s.2.get? r.name = some q := hq
  rw [hname, hr₀, Option.some.injEq] at hq
  subst hq
  show busyFor _ r = _
  rw [busyFor, turnAge, hsteady.state, hsteady.since]
  split
  · rfl
  · next hbusy =>
    obtain ⟨hsince, hle⟩ := hs m r₀ hr₀ hagent hbusy
    rw [hsince, hw.named m r₀ hr₀]
    show roundTo 1 (max 0 (s.2.now - s.1 m)) = _
    rw [max_eq_right (sub_nonneg.mpr hle)]

/-- A roster query as it comes off the wire. -/
def rosterFrame : Obj PyJson.Token := [(str "t", .str (str "roster")), (str "seq", .int 4)]

theorem not_repeats_of_idle (hidle : h.participants.values.all (·.state = .idle) = true) (op : Op F) :
    ¬Repeats env h op := by
  rintro ⟨n, q, hq, -, hbusy, -⟩
  have hmem : q ∈ h.participants.values := Dict.mem_values_iff.mpr ⟨n, hq⟩
  exact hbusy (by simpa using List.all_eq_true.mp hidle q hmem)

/-- Bob is busy from the start. -/
def oneTurn : List (Op PyJson.Token) :=
  [.handle 0 (helloFrame "bob" "agent" []), .handle 0 (stateFrame "busy"), .clock 60 60]

theorem busyFor_age_oneTurn :
    let s := Run.after (Run.withGhost (Hub.step .still) (turnStart .still))
      (fun _ => 0, init .still [] 0 0) oneTurn
    ∃ up round limit frozen muted goal peers,
      (s.2.step .still (.handle 0 rosterFrame)).wire.log = s.2.wire.log ++
        [.send (str "bob") 0 up (.roster round limit frozen muted (some 4) goal peers)] ∧
      ∀ peer ∈ peers, ∀ q, s.2.get? peer.name = some q → q.isObserver = false →
        peer.busyFor = turnAge s.1 s.2 q := by
  have hage := busyFor_age .still [] 0 0 oneTurn
    ⟨⟨nofun, not_repeats_of_idle rfl _⟩, ⟨nofun, not_repeats_of_idle (by decide +kernel) _⟩,
      ⟨by rintro _ _ ⟨⟩; decide, fun ⟨_, _, _, _, _, hr⟩ => nomatch hr⟩, trivial⟩ 0 rosterFrame
    (some 4) rfl
  exact hage _ rfl

/-- Bob is busy from the start, and says so again. -/
def twoReports : List (Op PyJson.Token) :=
  [.handle 0 (helloFrame "bob" "agent" []), .handle 0 (stateFrame "busy"), .clock 50 50,
    .handle 0 (stateFrame "busy"), .clock 60 60]

/-- What the roster that was sent last shows of each participant. -/
def lastRoster (h : Hub) : Option (List (Str × State × Rat)) :=
  match h.wire.log.getLast? with
  | some (.send _ _ _ (.roster _ _ _ _ _ _ peers)) =>
    some (peers.map fun q => (q.name, q.state, q.busyFor))
  | _ => none

/-- After a minute the roster shows ten seconds. -/
theorem busyFor_restarts :
    let s := Run.after (Run.withGhost (Hub.step .still) (turnStart .still))
      (fun _ => 0, init .still [] 0 0) twoReports
    s.1 (str "bob") = 0 ∧ s.2.now = 60 ∧
      lastRoster (s.2.step .still (.handle 0 rosterFrame)) = some [(str "bob", .busy, 10)] := by
  decide +kernel

end

end Hub

end Moot
