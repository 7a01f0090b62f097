import Moot.Hub.Keeps
import Moot.Lib.Run

/-!
# The registry

`Hub.Wf`: participants and dead registrations stand under their names, no name
is both, and the client of a participant carries its name.  Only three functions
change who is registered: `leave`, `enroll` and `pruneDead`.

Proved here: `wf_run`, every state of every run is well-formed.
-/

namespace Moot
open Py Proto

namespace Hub

/-- The registry is well-formed. -/
structure Wf (h : Hub) : Prop where
  named : h.Named
  deadNamed : ∀ n p, h.dead.get? n = some p → p.name = n
  apart : ∀ n p, h.get? n = some p → h.dead.get? n = none
  owns : ∀ n p, h.get? n = some p → (h.wire.clients p.client).name = n
  proper : ∀ n p, h.get? n = some p → n ≠ []

section
variable {h h' : Hub}

theorem Wf.roster (hw : h.Wf) (hr : h.Roster h') : h'.Wf := by
  refine ⟨hr.named hw.named, ?_, fun n p' hp' => ?_, fun n p' hp' => ?_, fun n p' hp' => ?_⟩
  · rw [hr.dead]
    exact hw.deadNamed
  · obtain ⟨p, hp, -⟩ := hr.back hp'
    rw [hr.dead]
    exact hw.apart n p hp
  · obtain ⟨p, hp, hs⟩ := hr.back hp'
    rw [hr.wire.name, hs.client]
    exact hw.owns n p hp
  · obtain ⟨p, hp, -⟩ := hr.back hp'
    exact hw.proper n p hp

theorem Wf.keeps {S T : Set Str} {E : Prop} (hw : h.Wf) (hk : Keeps S T E h h') : h'.Wf :=
  hw.roster hk.toRoster

/-- The client of a participant is registered under its name alone. -/
theorem Wf.client_inj (hw : h.Wf) {n m : Str} {p q : Participant} (hp : h.get? n = some p)
    (hq : h.get? m = some q) (hc : p.client = q.client) : n = m := by
  rw [← hw.owns n p hp, ← hw.owns m q hq, hc]

/-! ## Leaving -/

variable (env : Env)

theorem leave_dead (h : Hub) (n : Str) (p : Participant) :
    (h.leave env n p).dead = h.dead.insert n p := rfl

theorem get?_leave (h : Hub) (n m : Str) (p : Participant) :
    (h.leave env n p).get? m = if m = n then none else h.get? m :=
  Dict.get?_erase _ _ _

theorem get?_leave_self (h : Hub) (n : Str) (p : Participant) :
    (h.leave env n p).get? n = none := by rw [get?_leave, if_pos rfl]

theorem get?_leave_of_ne (h : Hub) {n m : Str} (hne : m ≠ n) (p : Participant) :
    (h.leave env n p).get? m = h.get? m := by rw [get?_leave, if_neg hne]

theorem le_emitEvent (h : Hub) (e : HubEvent) (skip : Option Str) :
    h.wire.Le (h.emitEvent env e skip).wire :=
  (keeps_emitEvent (S := ∅) (T := ∅) (E := True) env h e skip (Or.inl trivial)).wire

theorem le_leave (h : Hub) (n : Str) (p : Participant) : h.wire.Le (h.leave env n p).wire := by
  unfold Hub.leave
  exact le_emitEvent env
    { h with
      dead := h.dead.insert n p
      participants := h.participants.erase n
      blockedNotified := h.blockedNotified.filter (· ≠ n) }.touchActivity (.peerLeft n) none

theorem Wf.leave (hw : h.Wf) {n : Str} {p : Participant} (hp : h.get? n = some p) :
    (h.leave env n p).Wf := by
  have hstay : ∀ m q, (h.leave env n p).get? m = some q → m ≠ n ∧ h.get? m = some q := by
    intro m q hq
    rw [get?_leave] at hq
    split at hq
    · cases hq
    · next hne => exact ⟨hne, hq⟩
  refine ⟨fun m q hq => hw.named m q (hstay m q hq).2, fun m q hq => ?_, fun m q hq => ?_,
    fun m q hq => ?_, fun m q hq => hw.proper m q (hstay m q hq).2⟩
  · rw [leave_dead, Dict.get?_insert] at hq
    split at hq
    · next hm =>
      cases hq
      rw [hm, hw.named n p hp]
    · exact hw.deadNamed m q hq
  · obtain ⟨hne, hq⟩ := hstay m q hq
    rw [leave_dead, Dict.get?_insert, if_neg hne]
    exact hw.apart m q hq
  · rw [(le_leave env h n p).name]
    exact hw.owns m q (hstay m q hq).2

theorem keeps_close {S T : Set Str} {E : Prop} (h : Hub) (c : ClientId) :
    Keeps S T E h (h.close c) := (quiet_setWire (Wire.quiet_close _ _)).keeps

/-- A disconnect takes a participant off the roster, or only closes the connection. -/
theorem disconnect_cases (h : Hub) (c : ClientId) :
    (∃ p, h.get? (h.wire.clients c).name = some p ∧ p.client = c ∧
      h.disconnect env c =
        ((h.leave env (h.wire.clients c).name p).checkSessionDone env).close c) ∨
    ((∀ p, h.get? (h.wire.clients c).name = some p → p.client ≠ c) ∧
      h.disconnect env c = h.close c) := by
  unfold disconnect
  simp only
  cases hp : h.get? (h.wire.clients c).name with
  | none => exact Or.inr ⟨by simp, rfl⟩
  | some p =>
    by_cases hc : p.client = c
    · exact Or.inl ⟨p, rfl, hc, by simp only [hc, if_true]⟩
    · exact Or.inr ⟨by simpa using hc, by simp only [hc, if_false]⟩

theorem Wf.disconnect (hw : h.Wf) (c : ClientId) : (h.disconnect env c).Wf := by
  rcases disconnect_cases env h c with ⟨p, hp, -, heq⟩ | ⟨-, heq⟩
  · rw [heq]
    have hleft := (hw.leave env hp).keeps
      (keeps_checkSessionDone (S := ∅) (T := ∅) env (h.leave env _ p))
    exact hleft.keeps (keeps_close (S := ∅) (T := ∅) (E := True) _ c)
  · rw [heq]
    exact hw.keeps (keeps_close (S := ∅) (T := ∅) (E := True) _ c)

/-! ## Joining -/

theorem get?_enroll (h : Hub) (c : ClientId) (n m : Str) (p : Participant) :
    (h.enroll c n p).get? m = if m = n then some p else h.get? m :=
  Dict.get?_insert _ _ _ _

@[simp] theorem get?_enroll_self (h : Hub) (c : ClientId) (n : Str) (p : Participant) :
    (h.enroll c n p).get? n = some p := by rw [get?_enroll, if_pos rfl]

theorem get?_enroll_of_ne (h : Hub) (c : ClientId) {n m : Str} (hne : m ≠ n) (p : Participant) :
    (h.enroll c n p).get? m = h.get? m := by rw [get?_enroll, if_neg hne]

theorem enroll_dead (h : Hub) (c : ClientId) (n : Str) (p : Participant) :
    (h.enroll c n p).dead = h.dead.erase n := rfl

/-- A hello gives its participant the name and the client it came with. -/
theorem admitted_name (hw : h.Wf) (c : ClientId) (f : Hello) : (admitted env h c f).name = f.name := by
  unfold admitted
  split
  · next p hp => exact hw.deadNamed _ p hp
  · rfl

theorem admitted_client (h : Hub) (c : ClientId) (f : Hello) : (admitted env h c f).client = c := by
  unfold admitted
  split <;> rfl

theorem admitted_kind (h : Hub) (c : ClientId) (f : Hello) : (admitted env h c f).kind = f.kind := by
  unfold admitted
  split <;> rfl

theorem nameRe_ne_nil {s : Str} (h : nameRe s = true) : s ≠ [] := by
  rintro rfl
  revert h
  decide

theorem Wf.enroll (hw : h.Wf) {c : ClientId} {n : Str} {p : Participant}
    (hc : (h.wire.clients c).name = []) (hname : p.name = n) (hn : n ≠ [])
    (hclient : p.client = c) : (h.enroll c n p).Wf := by
  have hcases : ∀ m q, (h.enroll c n p).get? m = some q →
      m = n ∧ q = p ∨ m ≠ n ∧ h.get? m = some q := by
    intro m q hq
    rw [get?_enroll] at hq
    split at hq
    · next hm => exact Or.inl ⟨hm, (Option.some.inj hq).symm⟩
    · next hm => exact Or.inr ⟨hm, hq⟩
  refine ⟨fun m q hq => ?_, fun m q hq => ?_, fun m q hq => ?_, fun m q hq => ?_, fun m q hq => ?_⟩
  · rcases hcases m q hq with ⟨rfl, rfl⟩ | ⟨-, hq⟩
    · exact hname
    · exact hw.named m q hq
  · rw [enroll_dead, Dict.get?_erase] at hq
    split at hq
    · cases hq
    · exact hw.deadNamed m q hq
  · rw [enroll_dead, Dict.get?_erase]
    rcases hcases m q hq with ⟨rfl, -⟩ | ⟨hne, hq⟩
    · rw [if_pos rfl]
    · rw [if_neg hne]
      exact hw.apart m q hq
  · rcases hcases m q hq with ⟨rfl, rfl⟩ | ⟨-, hq⟩
    · simp [Hub.enroll, hclient]
    · have hne : q.client ≠ c := by
        intro heq
        have hown := hw.owns m q hq
        rw [heq, hc] at hown
        exact hw.proper m q hq hown.symm
      simp only [Hub.enroll, Function.update_of_ne hne]
      exact hw.owns m q hq
  · rcases hcases m q hq with ⟨rfl, -⟩ | ⟨-, hq⟩
    · exact hn
    · exact hw.proper m q hq

theorem keeps_giveBacklog {E : Prop} (hn : h.Named) (n : Str) :
    Keeps {n} {n} E h (h.giveBacklog env n) := by
  unfold giveBacklog
  split
  · exact .refl h
  · next p hp =>
    simp only
    split
    · split
      · exact .refl h
      · exact (keeps_deliver env hn n _).mono (Set.empty_subset _) (Set.Subset.refl _)
    · exact keeps_report h n (f := fun p' => { p' with context := _ })
        (fun _ => ⟨rfl, rfl, rfl, rfl, rfl⟩) fun _ => rfl

theorem keeps_greet (hn : h.Named) (n : Str) (p : Participant) (rejoined : Bool) :
    Keeps {n} {n} True h (h.greet env n p rejoined) := by
  unfold greet
  have hwelcome : Keeps {n} {n} True h (h.send env p (welcome env h p)) :=
    (quiet_send env h p (by simp [welcome])).keeps
  have hlog : Keeps {n} {n} True h
      (if !rejoined || p.isObserver then (h.send env p (welcome env h p)).giveBacklog env n
        else h.send env p (welcome env h p)) := by
    split
    · exact hwelcome.trans (keeps_giveBacklog env (hwelcome.named hn) n)
    · exact hwelcome
  exact (hlog.trans (keeps_touchActivity _)).trans
    (keeps_emitEvent env _ _ _ (Or.inl trivial))

/-- A registration after the roster has changed. -/
theorem keeps_register (hw : h.Wf) {c : ClientId} (hc : (h.wire.clients c).name = []) (f : Hello) :
    Keeps {f.name} {f.name} True (h.enroll c f.name (admitted env h c f))
      (h.register env c f) := by
  have hwf := hw.enroll hc (admitted_name env hw c f) (nameRe_ne_nil f.name_ok.2)
    (admitted_client env h c f)
  have hgreet := keeps_greet env hwf.named f.name (admitted env h c f) (h.dead.contains f.name)
  unfold register
  simp only
  split
  · exact hgreet.trans (keeps_flushQueue env (hgreet.named hwf.named) f.name)
  · exact hgreet

theorem Wf.register (hw : h.Wf) {c : ClientId} (hc : (h.wire.clients c).name = []) (f : Hello) :
    (h.register env c f).Wf :=
  (hw.enroll hc (admitted_name env hw c f) (nameRe_ne_nil f.name_ok.2)
    (admitted_client env h c f)).keeps (keeps_register env hw hc f)

theorem Wf.reap (hw : h.Wf) (n : Str) : (h.reap env n).Wf := by
  unfold Hub.reap
  split
  · split
    · exact hw
    · exact hw.disconnect env _
  · exact hw

theorem keeps_declareRoom {S T : Set Str} {E : Prop} (h : Hub) (f : Hello) :
    Keeps S T E h (h.declareRoom f) := by
  unfold declareRoom
  split
  · exact keeps_append h _ rfl (Or.inr rfl)
  · exact .refl h

theorem keeps_turnAway {S T : Set Str} {E : Prop} (h : Hub) (c : ClientId) (n : Str) :
    Keeps S T E h (h.turnAway env c n) :=
  (quiet_errRaw env h c _ _ _).keeps.trans (keeps_close _ c)

theorem name_disconnect (h : Hub) (c d : ClientId) :
    ((h.disconnect env c).wire.clients d).name = (h.wire.clients d).name := by
  rcases disconnect_cases env h c with ⟨p, -, -, heq⟩ | ⟨-, heq⟩
  · rw [heq, (keeps_close (S := ∅) (T := ∅) (E := True) _ c).wire.name,
      (keeps_checkSessionDone (S := ∅) (T := ∅) env _).wire.name, (le_leave env h _ p).name]
  · rw [heq, (keeps_close (S := ∅) (T := ∅) (E := True) _ c).wire.name]

theorem name_reap (h : Hub) (n : Str) (d : ClientId) :
    ((h.reap env n).wire.clients d).name = (h.wire.clients d).name := by
  unfold Hub.reap
  split
  · split
    · rfl
    · exact name_disconnect env h _ d
  · rfl

/-- What a hello does once it has reaped the name. -/
theorem handleHello_cases (h : Hub) (c : ClientId) (f : Hello) :
    ((h.wire.clients c).name ≠ [] ∧ ∃ detail,
      h.handleHello env c f = h.errRaw env c errMalformed detail none) ∨
    ((h.wire.clients c).name = [] ∧
      ((∃ p, ((h.reap env f.name).declareRoom f).get? f.name = some p ∧
          h.handleHello env c f = ((h.reap env f.name).declareRoom f).turnAway env c f.name) ∨
        (((h.reap env f.name).declareRoom f).get? f.name = none ∧
          h.handleHello env c f = ((h.reap env f.name).declareRoom f).register env c f))) := by
  unfold handleHello
  by_cases hname : (h.wire.clients c).name = []
  · refine Or.inr ⟨hname, ?_⟩
    simp only [hname, ne_eq, not_true_eq_false, if_false]
    by_cases htaken : ((h.reap env f.name).declareRoom f).participants.contains f.name = true
    · obtain ⟨p, hp⟩ := Dict.contains_iff.mp htaken
      exact Or.inl ⟨p, hp, by rw [if_pos htaken]⟩
    · refine Or.inr ⟨?_, by rw [if_neg htaken]⟩
      cases hp : ((h.reap env f.name).declareRoom f).get? f.name with
      | none => rfl
      | some p => exact absurd (Dict.contains_iff.mpr ⟨p, hp⟩) htaken
  · exact Or.inl ⟨hname, _, by simp only [ne_eq, hname, not_false_eq_true, if_true]; rfl⟩

theorem name_declareRoom (h : Hub) (f : Hello) (d : ClientId) :
    ((h.declareRoom f).wire.clients d).name = (h.wire.clients d).name :=
  (keeps_declareRoom (S := ∅) (T := ∅) (E := True) h f).wire.name d

theorem Wf.handleHello (hw : h.Wf) (c : ClientId) (f : Hello) : (h.handleHello env c f).Wf := by
  have hready : ((h.reap env f.name).declareRoom f).Wf :=
    (hw.reap env f.name).keeps (keeps_declareRoom (S := ∅) (T := ∅) (E := True) _ f)
  rcases handleHello_cases env h c f with
    ⟨-, detail, heq⟩ | ⟨hname, ⟨p, -, heq⟩ | ⟨-, heq⟩⟩
  · rw [heq]
    exact hw.keeps (quiet_errRaw env h c _ _ _).keeps (S := ∅) (T := ∅) (E := True)
  · rw [heq]
    exact hready.keeps (keeps_turnAway (S := ∅) (T := ∅) (E := True) env _ c f.name)
  · rw [heq]
    refine hready.register env ?_ f
    rw [name_declareRoom, name_reap]
    exact hname

/-! ## The watchdog -/

/-- What a round of the watchdog does to a participant. -/
theorem tickOne_cases (h : Hub) (n : Str) :
    (h.get? n = none ∧ h.tickOne env n = h) ∨
    ∃ p, h.get? n = some p ∧
      (h.tickOne env n = h.disconnect env p.client ∨
        h.tickOne env n = h.pingSilent env n p ∨
        p.isObserver = false ∧
          h.tickOne env n = ((h.pingSilent env n p).assumeIdle env n p).notifyBlocked env n) := by
  cases hp : h.get? n with
  | none => exact Or.inl ⟨rfl, by rw [tickOne, hp]⟩
  | some p =>
    refine Or.inr ⟨p, rfl, ?_⟩
    rw [tickOne, hp]
    simp only
    split_ifs with hup hpong hobs
    · exact Or.inl rfl
    · exact Or.inl rfl
    · exact Or.inr (Or.inl rfl)
    · exact Or.inr (Or.inr ⟨by simpa using hobs, rfl⟩)

theorem keeps_tickAgent (hn : h.Named) (n : Str) (p : Participant) :
    Keeps {n} {n} True h (((h.pingSilent env n p).assumeIdle env n p).notifyBlocked env n) := by
  have hping : Keeps {n} {n} True h (h.pingSilent env n p) := keeps_pingSilent env h n p
  exact (hping.trans (keeps_assumeIdle env (hping.named hn) n p)).trans (keeps_notifyBlocked env _ n)

theorem Wf.tickOne (hw : h.Wf) (n : Str) : (h.tickOne env n).Wf := by
  rcases tickOne_cases env h n with ⟨-, heq⟩ | ⟨p, -, heq | heq | ⟨-, heq⟩⟩
  · rw [heq]
    exact hw
  · rw [heq]
    exact hw.disconnect env _
  · rw [heq]
    exact hw.keeps (keeps_pingSilent (S := ∅) (T := ∅) (E := True) env h n p)
  · rw [heq]
    exact hw.keeps (keeps_tickAgent env hw.named n p)

/-- What every round of the watchdog preserves, a tick preserves. -/
theorem tick_invariant {I : Hub → Prop} (hI : ∀ h n, I h → I (h.tickOne env n)) {h : Hub}
    (hh : I h) (ns : List Str) : I (ns.foldl (Hub.tickOne env) h) := by
  induction ns generalizing h with
  | nil => exact hh
  | cons n ns ih => exact ih (hI h n hh)

theorem Wf.pruneDead (hw : h.Wf) : (h.pruneDead env).Wf := by
  refine ⟨hw.named, fun n p hp => ?_, fun n p hp => ?_, hw.owns, hw.proper⟩
  · exact hw.deadNamed n p (Dict.get?_filter_eq_some_iff.mp hp).1
  · have hnone := hw.apart n p hp
    cases hq : (h.pruneDead env).dead.get? n with
    | none => rfl
    | some q =>
      have := (Dict.get?_filter_eq_some_iff.mp hq).1
      rw [hnone] at this
      cases this

theorem keeps_checks {S T : Set Str} {E : Prop} (h : Hub) :
    Keeps S T E h ((h.checkQuorum env).checkStall env) :=
  (keeps_checkQuorum env h).trans (keeps_checkStall env _)

theorem Wf.watchdogTick (hw : h.Wf) : (h.watchdogTick env).Wf :=
  (tick_invariant env (I := Wf) (fun _ n hh => hh.tickOne env n) (hw.pruneDead env) _).keeps
    (keeps_checks (S := ∅) (T := ∅) (E := True) env _)

/-! ## Runs -/

/-- A frame that is neither `hello` nor `bye` leaves the registry as it is. -/
theorem roster_dispatch (hn : h.Named) (c : ClientId) {f : Inbound} (hf : f ≠ .bye) :
    h.Roster (h.dispatch env c f) := by
  unfold dispatch
  simp only
  split
  · exact (quiet_errRaw env h c _ _ _).keeps (S := ∅) (T := ∅) (E := True) |>.toRoster
  · have hlife : Keeps ∅ ∅ True h (h.lifeSign (h.wire.clients c).name) := keeps_lifeSign h _
    have hn' := hlife.named hn
    cases f with
    | hello f => exact hlife.toRoster
    | say f => exact hlife.toRoster.trans (roster_handleSay env hn' _ f)
    | state f => exact hlife.toRoster.trans (keeps_handleState env hn' _ f).toRoster
    | cmd cmd seq =>
      exact hlife.toRoster.trans (keeps_handleCmd env (E := True) hn' _ cmd seq).toRoster
    | roster seq =>
      exact (hlife.trans (quiet_handleRoster env _ _ seq).keeps).toRoster
    | bye => exact absurd rfl hf
    | pong => exact hlife.toRoster

/-- A `bye` is a life sign before the disconnect. -/
theorem dispatch_bye (h : Hub) (c : ClientId) :
    (∃ detail, h.dispatch env c .bye = h.errRaw env c errMalformed detail none) ∨
      h.dispatch env c .bye = (h.lifeSign (h.wire.clients c).name).disconnect env c := by
  unfold dispatch
  simp only
  split
  · exact Or.inl ⟨_, rfl⟩
  · exact Or.inr rfl

theorem Wf.dispatch (hw : h.Wf) (c : ClientId) (f : Inbound) : (h.dispatch env c f).Wf := by
  by_cases hf : f = .bye
  · subst hf
    rcases dispatch_bye env h c with ⟨detail, heq⟩ | heq
    · rw [heq]
      exact hw.keeps (quiet_errRaw env h c _ _ _).keeps (S := ∅) (T := ∅) (E := True)
    · rw [heq]
      exact (hw.keeps (keeps_lifeSign (S := ∅) (T := ∅) (E := True) h _)).disconnect env c
  · exact hw.roster (roster_dispatch env hw.named c hf)

theorem handleInbound_cases (h : Hub) (c : ClientId) (f : Inbound) :
    (∃ g, f = .hello g ∧ h.handleInbound env c f = h.handleHello env c g) ∨
      ((∀ g, f ≠ .hello g) ∧ h.handleInbound env c f = h.dispatch env c f) := by
  cases f with
  | hello g => exact Or.inl ⟨g, rfl, rfl⟩
  | _ => exact Or.inr ⟨by simp, rfl⟩

theorem Wf.handleInbound (hw : h.Wf) (c : ClientId) (f : Inbound) :
    (h.handleInbound env c f).Wf := by
  rcases handleInbound_cases env h c f with ⟨g, -, heq⟩ | ⟨-, heq⟩
  · rw [heq]
    exact hw.handleHello env c g
  · rw [heq]
    exact hw.dispatch env c f

variable {F : Type} [PyJson.PyFloat F]

/-- The handler sees a frame that passed validation, or the sender an error. -/
theorem handle_cases (h : Hub) (c : ClientId) (frame : Obj F) :
    (∃ e, validate env.isPrintable frame = .error e ∧
      h.handle env c frame = h.errRaw env c e.code e.detail e.seq) ∨
    ∃ f, validate env.isPrintable frame = .ok f ∧
      h.handle env c frame = h.handleInbound env c f := by
  unfold handle
  cases hv : validate env.isPrintable frame with
  | error e => exact Or.inl ⟨e, rfl, rfl⟩
  | ok f => exact Or.inr ⟨f, rfl, rfl⟩

/-- A client's transport fails. -/
theorem keeps_fail {S T : Set Str} {E : Prop} (h : Hub) (c : ClientId) :
    Keeps S T E h (h.setWire { h.wire with
      clients := Function.update h.wire.clients c { h.wire.clients c with connected := false } }) := by
  refine .ofLog ⟨fun d => ?_, fun d hd => ?_, List.prefix_refl _⟩ rfl rfl rfl rfl le_rfl rfl
    (fun _ _ => rfl) rfl (Or.inr ⟨[], (List.append_nil _).symm, by simp⟩)
  · by_cases hdc : d = c
    · subst hdc; simp
    · simp [hdc]
  · by_cases hdc : d = c
    · subst hdc; simp at hd
    · simpa [hdc] using hd

theorem Wf.step (hw : h.Wf) (op : Op F) : (h.step env op).Wf := by
  cases op with
  | handle c frame =>
    show (h.handle env c frame).Wf
    rcases handle_cases env h c frame with ⟨e, -, heq⟩ | ⟨f, -, heq⟩
    · rw [heq]
      exact hw.keeps (quiet_errRaw env h c e.code e.detail e.seq).keeps (S := ∅) (T := ∅)
        (E := True)
    · rw [heq]
      exact hw.handleInbound env c f
  | disconnect c => exact hw.disconnect env c
  | watchdogTick => exact hw.watchdogTick env
  | clock now wall => exact ⟨hw.named, hw.deadNamed, hw.apart, hw.owns, hw.proper⟩
  | fail c => exact hw.keeps (keeps_fail (S := ∅) (T := ∅) (E := True) h c)

theorem wf_init (records : List MsgRec) (now wall : Rat) : (init env records now wall).Wf := by
  refine ⟨?_, ?_, ?_, ?_, ?_⟩ <;> exact fun n p hp => nomatch hp

/-- **Every state of every run is well-formed.** -/
theorem wf_run (records : List MsgRec) (now wall : Rat) (ops : List (Op F)) :
    (Run.after (Hub.step env) (init env records now wall) ops).Wf :=
  Run.preserved (fun _ op hw => hw.step env op) (wf_init env records now wall) ops

end

end Hub

end Moot
