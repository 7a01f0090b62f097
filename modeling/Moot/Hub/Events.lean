import Moot.Hub.Deed
import Moot.Hub.Numbering

/-!
# Events on record

Every event of the floor is put on record, whether or not an observer is there to be
told.  Three of them are alarms of the watchdog: a participant that stays blocked, a
quorum, a floor that has come to rest.

Proved here: `Deed.emits`, a deed never puts a quorum or a stalled floor on record;
`checkQuorum_logs` and `checkStall_logs`, the two checks that do.
-/

namespace Moot
open Py Proto

/-- The event that the effect puts on record. -/
def Effect.event? : Effect → Option HubEvent
  | .append _ (.event e _) => some e
  | _ => none

/-- The events on record in a log. -/
def eventsOf (log : List Effect) : List HubEvent := log.filterMap Effect.event?

theorem eventsOf_append (l l' : List Effect) : eventsOf (l ++ l') = eventsOf l ++ eventsOf l' :=
  List.filterMap_append

/-- No check at the end of a tick has made the event. -/
def HubEvent.Routine : HubEvent → Prop
  | .quorum _ => False
  | .stall detail => ∃ m, detail = presumedIdle m
  | _ => True

theorem HubEvent.Passing.routine {e : HubEvent} (he : e.Passing) : e.Routine := by
  cases e with
  | rejected => trivial
  | stall detail => exact he
  | _ => exact he.elim

namespace Hub

/-- Every event that goes on record on the way meets `P`. -/
abbrev Emits (P : HubEvent → Prop) (h h' : Hub) : Prop :=
  Wrote (fun x => ∀ e, x.event? = some e → P e) h h'

section
variable {env : Env} {A : Filter} {h h' h'' : Hub} {P : HubEvent → Prop} {n : Str}

theorem emits_nothing (hlog : h'.wire.log = h.wire.log) : Emits P h h' := wrote_nothing hlog

/-- An effect that is no event. -/
theorem emits_one {x : Effect} (hlog : h'.wire.log = h.wire.log ++ [x]) (hx : x.event? = none) :
    Emits P h h' :=
  wrote_one hlog fun e he => by rw [hx] at he; cases he

theorem Murmurs.emits (hm : h.Murmurs h') : Emits P h h' := by
  refine hm.wrote fun x hx e he => ?_
  cases x with
  | append => cases hx
  | _ => cases he

theorem Emits.new (he : Emits P h h') : ∀ e ∈ eventsOf (newEffects h h'), P e := by
  obtain ⟨es, hes, hall⟩ := he
  intro e hmem
  rw [newEffects, hes, List.drop_left] at hmem
  obtain ⟨x, hx, hxe⟩ := List.mem_filterMap.mp hmem
  exact hall x hx e hxe

variable (env) in
theorem emits_emitEvent (h : Hub) {e : HubEvent} (skip : Option Str) (he : P e) :
    Emits P h (h.emitEvent env e skip) := by
  refine wrote_emitEvent env h e skip (fun _ _ _ _ hx => nomatch hx) fun e' hx => ?_
  obtain rfl := Option.some.inj hx
  exact he

variable (env) in
theorem emits_notify (h : Hub) (title message : Str) : Emits P h (h.notify env title message) :=
  wrote_notify env h title message fun _ _ _ hx => nomatch hx

variable (env) in
theorem emits_deliver (h : Hub) (n : Str) (msgs : List Msg) : Emits P h (h.deliver env n msgs) :=
  wrote_deliver env h n msgs (fun _ _ _ _ _ _ hx => nomatch hx) fun _ _ _ _ _ _ _ _ hx => nomatch hx

variable (env) in
theorem emits_giveBacklog (h : Hub) (n : Str) : Emits P h (h.giveBacklog env n) := by
  unfold giveBacklog
  split
  · exact emits_nothing rfl
  · simp only
    split
    · split
      · exact emits_nothing rfl
      · exact emits_deliver env h n _
    · exact emits_nothing rfl

/-- **A deed** puts no quorum and no stalled floor on record. -/
theorem Deed.emits (hd : Deed env A h h') : Emits HubEvent.Routine h h' := by
  cases hd with
  | murmured hm => exact hm.emits
  | told e he => exact emits_emitEvent env h none he.routine
  | recorded r hr =>
    apply emits_one rfl
    cases r with
    | event => cases hr
    | _ => rfl
  | timed => exact emits_nothing rfl
  | mailed => exact emits_nothing rfl
  | mailedAll => exact emits_nothing rfl
  | counted hc =>
    rw [hc.rest]
    exact emits_nothing rfl
  | reported hp =>
    rw [report, hp]
    exact emits_nothing rfl
  | inferred => exact emits_nothing rfl
  | delivered msgs => exact emits_deliver env h _ msgs
  | limited =>
    have hevent : Emits HubEvent.Routine { h with frozen := true } _ :=
      emits_emitEvent env { h with frozen := true } (e := .roundLimit h.round h.maxRounds) none trivial
    have hfrozen : Emits HubEvent.Routine h { h with frozen := true } := emits_nothing rfl
    exact (hfrozen.trans hevent).trans (emits_notify env _ _ _)
  | ended hall =>
    rw [checkSessionDone, if_pos hall]
    have hevent := emits_emitEvent (P := HubEvent.Routine) env h (e := .sessionDone h.round) none trivial
    have hstamp : Emits HubEvent.Routine h
        { h.emitEvent env (.sessionDone h.round) none with sessionDoneAt := some h.wall } := hevent
    have hnote : Emits HubEvent.Routine h (h.announceDone env) := hstamp.trans (emits_notify env _ _ _)
    exact hnote.trans (wrote_nothing rfl)
  | marked => exact emits_nothing rfl
  | @remembered m p q f =>
    have hwire : (h.countSay p f).wire = h.wire := by
      unfold countSay noteSay
      simp only
      split_ifs <;> rfl
    have hcount : Emits HubEvent.Routine h (h.countSay p f) := emits_nothing (congrArg Wire.log hwire)
    exact hcount.trans (emits_one rfl rfl)
  | @answered m p q f id k =>
    have hsent : Emits HubEvent.Routine h (h.send env p (.said id k f.seq)) := emits_one rfl rfl
    unfold answer
    simp only
    split
    · exact (hsent.trans (emits_notify env _ _ _)).trans (emits_nothing rfl)
    · exact hsent.trans (emits_nothing rfl)
  | @flagged m p c seq =>
    have hflags : Emits HubEvent.Routine h (h.flags env c) := by
      cases c <;> exact emits_nothing rfl
    refine hflags.trans (emits_emitEvent env _ none ?_)
    cases c <;> trivial
  | okayed => exact emits_one rfl rfl
  | polled m seq =>
    unfold handleRoster
    split
    · exact emits_nothing rfl
    · exact emits_one rfl rfl
  | alarmed m =>
    by_cases hdue : AlarmDue env h m
    · obtain ⟨detail, title, message, heq⟩ := notifyBlocked_due hdue
      rw [heq]
      have hlatch : Emits HubEvent.Routine h { h with blockedNotified := h.blockedNotified ++ [m] } :=
        emits_nothing rfl
      exact (hlatch.trans (emits_emitEvent env _ (e := .blocked m detail) none trivial)).trans
        (emits_notify env _ _ _)
    · rw [notifyBlocked_not_due hdue]
      exact emits_nothing rfl
  | @left m p hp =>
    have hout : Emits HubEvent.Routine h { h with
        dead := h.dead.insert m p
        participants := h.participants.erase m
        blockedNotified := h.blockedNotified.filter (· ≠ m) }.touchActivity := emits_nothing rfl
    exact hout.trans (emits_emitEvent env _ (e := .peerLeft m) none trivial)
  | @joined c f hc hfree =>
    have henroll : Emits HubEvent.Routine h (h.enroll c f.name (admitted env h c f)) := emits_nothing rfl
    refine henroll.trans ?_
    unfold registered greet
    generalize h.enroll c f.name (admitted env h c f) = k
    generalize admitted env h c f = p
    have hsent : Emits HubEvent.Routine k (k.send env p (welcome env k p)) := emits_one rfl rfl
    have hend : ∀ l : Hub, Emits HubEvent.Routine k l → Emits HubEvent.Routine k
        (l.touchActivity.emitEvent env (.peerJoined f.name p.kind p.role) (some f.name)) :=
      fun l hl => (hl.trans (emits_nothing (show l.touchActivity.wire.log = l.wire.log from rfl))).trans
        (emits_emitEvent env _ (some f.name) trivial)
    apply hend
    split
    · exact hsent.trans (emits_giveBacklog env _ _)
    · exact hsent

theorem Deeds.emits (hd : Deeds env A h h') : Emits HubEvent.Routine h h' := by
  induction hd with
  | refl => exact emits_nothing rfl
  | tail _ hdeed ih => exact ih.trans hdeed.emits

/-! ## The two checks -/

/-- Exactly the events `es` go on record on the way. -/
def Logs (es : List HubEvent) (h h' : Hub) : Prop :=
  ∃ xs, h'.wire.log = h.wire.log ++ xs ∧ eventsOf xs = es

theorem Logs.trans {es fs : List HubEvent} (hab : Logs es h h') (hbc : Logs fs h' h'') :
    Logs (es ++ fs) h h'' := by
  obtain ⟨xs, hxs, rfl⟩ := hab
  obtain ⟨ys, hys, rfl⟩ := hbc
  exact ⟨xs ++ ys, by rw [hys, hxs, List.append_assoc], eventsOf_append xs ys⟩

theorem logs_nothing (hlog : h'.wire.log = h.wire.log) : Logs [] h h' :=
  ⟨[], by rw [hlog, List.append_nil], rfl⟩

theorem Logs.new {es : List HubEvent} (hl : Logs es h h') : eventsOf (newEffects h h') = es := by
  obtain ⟨xs, hxs, rfl⟩ := hl
  rw [newEffects, hxs, List.drop_left]

/-- What goes on record goes on record somehow. -/
theorem Emits.logs (he : Emits P h h') : ∃ es, Logs es h h' ∧ ∀ e ∈ es, P e := by
  obtain ⟨xs, hxs, hall⟩ := he
  refine ⟨eventsOf xs, ⟨xs, hxs, rfl⟩, fun e hmem => ?_⟩
  obtain ⟨x, hx, hxe⟩ := List.mem_filterMap.mp hmem
  exact hall x hx e hxe

theorem Emits.silent (he : Emits (fun _ => False) h h') : Logs [] h h' := by
  obtain ⟨es, hes, hnone⟩ := he.logs
  rwa [List.eq_nil_iff_forall_not_mem.mpr hnone] at hes

variable (env) in
theorem logs_notify (h : Hub) (title message : Str) : Logs [] h (h.notify env title message) :=
  (emits_notify env h title message).silent

variable (env) in
theorem logs_emitEvent (h : Hub) (e : HubEvent) (skip : Option Str) :
    Logs [e] h (h.emitEvent env e skip) := by
  obtain ⟨xs, hxs, hnone⟩ := wrote_tellAll (P := fun x => x.event? = none) env e skip
    (fun _ _ _ => rfl) h.participants.values h.wire
  refine ⟨xs ++ [.append h.wall (.event e h.wall)], ?_, ?_⟩
  · rw [← List.append_assoc, ← hxs]
    rfl
  · rw [eventsOf_append, show eventsOf xs = [] from List.filterMap_eq_nil_iff.mpr hnone]
    rfl

variable (env) in
theorem checkQuorum_logs (h : Hub) :
    (h.QuorumDue ∧ ∃ detail, Logs [.quorum detail] h (h.checkQuorum env)) ∨
      (¬h.QuorumDue ∧ Logs [] h (h.checkQuorum env)) := by
  by_cases hdue : h.QuorumDue
  · obtain ⟨detail, k, rfl, hend⟩ := checkQuorum_due env hdue
    have hevent : Logs [.quorum detail] h
        ({ h with quorumLatched := true }.emitEvent env (.quorum detail) none) :=
      (logs_nothing (show ({ h with quorumLatched := true } : Hub).wire.log = h.wire.log from rfl)).trans
        (logs_emitEvent env _ _ none)
    refine Or.inl ⟨hdue, detail, ?_⟩
    rcases hend with heq | ⟨title, message, heq⟩
    · rw [heq]
      exact hevent
    · rw [heq]
      exact hevent.trans (logs_notify env _ title message)
  · rw [checkQuorum_not_due hdue]
    exact Or.inr ⟨hdue, logs_nothing rfl⟩

variable (env) in
theorem checkStall_logs (h : Hub) :
    (StallDue env h ∧ Logs [.stall (h.stallDetail env)] h (h.checkStall env)) ∨
      (¬StallDue env h ∧ Logs [] h (h.checkStall env)) := by
  by_cases hdue : StallDue env h
  · obtain ⟨title, message, heq⟩ := checkStall_due hdue
    rw [heq]
    have hevent : Logs [.stall (h.stallDetail env)] h
        ({ h with stallLatched := true }.emitEvent env (.stall (h.stallDetail env)) none) :=
      (logs_nothing (show ({ h with stallLatched := true } : Hub).wire.log = h.wire.log from rfl)).trans
        (logs_emitEvent env _ _ none)
    exact Or.inl ⟨hdue, hevent.trans (logs_notify env _ title message)⟩
  · rw [checkStall_not_due hdue]
    exact Or.inr ⟨hdue, logs_nothing rfl⟩

end

end Hub

end Moot
