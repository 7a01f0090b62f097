import Moot.Hub.Settings
import Moot.Hub.Mailed
import Moot.Hub.Rounds
import Moot.Hub.Dedup
import Moot.Hub.Ownership

/-!
# Mute

While the hub is muted a say of an agent passes the checks only if it is addressed
to an observer, and routing it tags every copy for an agent as overheard.  From then
on each copy is in a context buffer or in a frame that shows it as overheard, in
whatever way the registrations come, go and change their kind.

Proved here: `mute_wakes_nobody`.
-/

namespace Moot
open Py Proto

/-! ## Mail in which a message wakes nobody -/

/-- Copies of the message `i` are overheard, and none is queued. -/
structure Mail.Harmless (i : Nat) (b : Mail) : Prop where
  queue : ∀ m ∈ b.queue, m.id ≠ i
  context : ∀ m ∈ b.context.items, m.id = i → m.addressing = some .overheard

/-- The act puts in copies of `i` as overheard only. -/
def Act.Harmless (i : Nat) : Act → Prop
  | .wake m | .enqueue m => m.id ≠ i
  | .overhear m => m.id = i → m.addressing = some .overheard
  | .flush => True

section
variable {cfg : Config} {i k : Nat} {b : Mail}

/-- **One act.** -/
theorem Mail.Harmless.act (hb : b.Harmless i) (hi : i ≠ 0) {a : Act} (ha : a.Harmless i) :
    (b.act cfg a).Harmless i ∧
      ∀ f ∈ b.frames cfg a, ∀ m ∈ f, m.id = i → m.addressing = some .overheard := by
  have hall : b.All fun m => m.id = i → m.addressing = some .overheard := by
    intro m hm
    rcases List.mem_append.mp hm with hm | hm
    · exact fun hid => absurd hid (hb.queue m hm)
    · exact hb.context m hm
  have hmsgs : ∀ m ∈ a.msgs, m.id = i → m.addressing = some .overheard := by
    cases a with
    | wake m =>
      intro x hx hid
      rw [List.mem_singleton.mp hx] at hid
      exact absurd hid ha
    | enqueue m =>
      intro x hx hid
      rw [List.mem_singleton.mp hx] at hid
      exact absurd hid ha
    | overhear m =>
      intro x hx
      rw [List.mem_singleton.mp hx]
      exact ha
    | flush => exact fun x hx => nomatch hx
  obtain ⟨hkept, hframes⟩ := All.act hall (fun _ h => absurd h.symm hi)
    (fun _ h => absurd h.symm hi) hmsgs
  refine ⟨⟨fun m hm => ?_, fun m hm => hkept m (List.mem_append_right _ hm)⟩, hframes⟩
  cases a with
  | wake x => exact hb.queue m hm
  | overhear x => exact hb.queue m hm
  | enqueue x =>
    simp only [Mail.act] at hm
    split at hm
    · rcases List.mem_append.mp hm with hm | hm
      · exact hb.queue m (List.mem_of_mem_tail hm)
      · rw [List.mem_singleton.mp hm]
        exact ha
    · rcases List.mem_append.mp hm with hm | hm
      · exact hb.queue m hm
      · rw [List.mem_singleton.mp hm]
        exact ha
  | flush =>
    have hnoted := (List.drop_sublist _ _).subset hm
    unfold Mail.noted at hnoted
    split at hnoted
    · exact hb.queue m hnoted
    · rcases List.mem_cons.mp hnoted with rfl | hnoted
      · exact fun hid => hi hid.symm
      · exact hb.queue m hnoted

/-- **Some acts.** -/
theorem Mail.Harmless.play (hb : b.Harmless i) (hi : i ≠ 0) {as : List Act}
    (has : ∀ a ∈ as, a.Harmless i) : (b.play cfg as).Harmless i ∧
      ∀ f ∈ b.playFrames cfg as, ∀ m ∈ f, m.id = i → m.addressing = some .overheard := by
  induction as generalizing b with
  | nil => exact ⟨hb, fun f hf => nomatch hf⟩
  | cons a as ih =>
    obtain ⟨hact, hframes⟩ := hb.act hi (has a (List.mem_cons_self ..))
    obtain ⟨hplay, hplayed⟩ := ih hact fun a ha => has a (List.mem_cons_of_mem _ ha)
    refine ⟨hplay, fun f hf => ?_⟩
    rcases List.mem_append.mp hf with hf | hf
    · exact hframes f hf
    · exact hplayed f hf

/-- Acts that put in no copy that could wake. -/
theorem harmless_of_msgs {as : List Act} (h : ∀ m ∈ as.flatMap Act.msgs, m.id ≠ i) :
    ∀ a ∈ as, a.Harmless i := by
  intro a ha
  have hone : ∀ m ∈ a.msgs, m.id ≠ i := fun m hm => h m (List.mem_flatMap.mpr ⟨a, ha, hm⟩)
  cases a with
  | wake m => exact hone m (List.mem_singleton.mpr rfl)
  | enqueue m => exact hone m (List.mem_singleton.mpr rfl)
  | overhear m => exact fun hid => absurd hid (hone m (List.mem_singleton.mpr rfl))
  | flush => trivial

/-- Acts that follow put in what is overheard as overheard. -/
theorem harmless_of_overheard {as : List Act} (hf : FollowsAll cfg k b as)
    (h : ∀ m ∈ as.flatMap Act.msgs, m.addressing = some .overheard) : ∀ a ∈ as, a.Harmless i := by
  induction as generalizing k b with
  | nil => exact fun a ha => nomatch ha
  | cons a as ih =>
    intro x hx
    rcases List.mem_cons.mp hx with rfl | hx
    · have hone : ∀ m ∈ x.msgs, m.addressing = some .overheard := fun m hm =>
        h m (List.mem_flatMap.mpr ⟨x, List.mem_cons_self .., hm⟩)
      cases x with
      | wake m => exact absurd (hone m (List.mem_singleton.mpr rfl)) hf.1.2.1
      | enqueue m => exact absurd (hone m (List.mem_singleton.mpr rfl)) hf.1.2
      | overhear m => exact fun _ => hone m (List.mem_singleton.mpr rfl)
      | flush => trivial
    · refine ih hf.2 (fun m hm => h m ?_) x hx
      rw [List.flatMap_cons]
      exact List.mem_append_right _ hm

/-- The ids of acts that follow are new. -/
theorem harmless_of_new {as : List Act} (hf : FollowsAll cfg k b as) (hik : i ≤ k) :
    ∀ a ∈ as, a.Harmless i := by
  induction as generalizing k b with
  | nil => exact fun a ha => nomatch ha
  | cons a as ih =>
    have hraise : k ≤ a.raise k := by
      cases a with
      | flush => exact le_rfl
      | _ => exact le_max_left _ _
    intro x hx
    rcases List.mem_cons.mp hx with rfl | hx
    · have hfirst := hf.1
      cases x with
      | wake m =>
        have := hfirst.1
        show m.id ≠ i
        omega
      | enqueue m =>
        have := hfirst.1
        show m.id ≠ i
        omega
      | overhear m => exact fun _ => hfirst.2
      | flush => trivial
    · exact ih hf.2 (hik.trans hraise) x hx

end

namespace Hub

section
variable {env : Env} {h : Hub} {n : Str} {i : Nat} {F : Type} [PyJson.PyFloat F]

/-! ## A message that wakes nobody -/

theorem Mailed.harmless {op : Op F} {q' : Participant} {b : Mail} {as : List Act}
    (hm : Mailed env n h op q' b as)
    (hop : i ≤ h.msgCounter ∨ ∀ m ∈ prescribed env h op n, m.addressing = some .overheard) :
    ∀ a ∈ as, a.Harmless i := by
  rcases hm.put with hnone | ⟨hcopies, hfollows⟩ | rfl
  · exact harmless_of_msgs (by simp [hnone])
  · rcases hop with hi | hheard
    · exact harmless_of_new hfollows hi
    · rw [← hcopies] at hheard
      exact harmless_of_overheard hfollows hheard
  · intro a ha
    obtain ⟨m, hmem, rfl⟩ := List.mem_map.mp ha
    exact fun _ => heard_overheardBacklog hmem

/-- No registration keeps a copy of `i` that could wake its agent. -/
def WakesNobody (i : Nat) (h : Hub) : Prop := ∀ n q, h.box? n = some q → q.mail.Harmless i

/-- The copies of `i` that agents are sent from `h` to `h'` are overheard. -/
def OnlyOverheard (i : Nat) (h h' : Hub) : Prop :=
  ∀ n, ∀ f ∈ newFrames n h h', ∀ m ∈ f, m.id = i → m.addressing = some .overheard ∨
    ∃ q', h'.box? n = some q' ∧ q'.isObserver = true

/-- **One operation** on a message that has been sent, or that is only overheard. -/
theorem WakesNobody.step (hi : i ≠ 0) (hr : h.Ready) (hh : h.WakesNobody i) (op : Op F)
    (hop : i ≤ h.msgCounter ∨ ∀ n, ∀ m ∈ prescribed env h op n, m.addressing = some .overheard) :
    (h.step env op).WakesNobody i ∧ OnlyOverheard i h (h.step env op) := by
  have hbefore : ∀ n b, ((∃ q, h.box? n = some q ∧ q.mail = b) ∨ b = emptyMail env n) →
      b.Harmless i := by
    rintro n b (⟨q, hq, rfl⟩ | rfl)
    · exact hh n q hq
    · exact ⟨fun m hm => (nomatch hm), fun m hm => nomatch hm⟩
  have hplay : ∀ n q', (h.step env op).box? n = some q' → q'.mail.Harmless i ∧
      (q'.isObserver = false → ∀ f ∈ newFrames n h (h.step env op), ∀ m ∈ f, m.id = i →
        m.addressing = some .overheard) := by
    intro n q' hq'
    obtain ⟨b, as, hm⟩ := mailed hr op hq'
    obtain ⟨hkept, hframes⟩ := (hbefore n b hm.before).play hi
      (hm.harmless (hop.imp_right fun h => h n))
    rw [hm.mail]
    refine ⟨hkept, fun hobs => ?_⟩
    rw [hm.frames hobs]
    exact hframes
  refine ⟨fun n q' hq' => (hplay n q' hq').1, fun n f hf m hm hid => ?_⟩
  cases hq' : (h.step env op).box? n with
  | none =>
    rw [newFrames_absent hr op hq'] at hf
    cases hf
  | some q' =>
    cases hobs : q'.isObserver with
    | true => exact Or.inr ⟨q', rfl, hobs⟩
    | false => exact Or.inl ((hplay n q' hq').2 hobs f hf m hm hid)

/-- A message still to come is nowhere. -/
theorem Ready.harmless (hr : h.Ready) (hi : h.msgCounter < i) : h.WakesNobody i := by
  intro n q hq
  have hnot : ∀ m ∈ q.mail.queue ++ q.mail.context.items, m.id ≠ i := by
    intro m hm
    have : m.id ≤ h.msgCounter := hr.kept n q hq m hm
    omega
  exact ⟨fun m hm => hnot m (List.mem_append_left _ hm),
    fun m hm hid => absurd hid (hnot m (List.mem_append_right _ hm))⟩

/-! ## Says under mute -/

/-- Agents only overhear what goes to an observer. -/
theorem addressing_overheard (hn : h.Named) {a : Str} (htarget : h.targetsObserver a = true)
    (hall : a ≠ everyone) {q : Participant} (hq : h.get? n = some q) (hobs : q.isObserver = false) :
    q.addressing a = .overheard := by
  have hne : a ≠ q.name := by
    intro heq
    rw [heq, hn n q hq, targetsObserver, hq, Option.any_some, hobs] at htarget
    cases htarget
  rw [Participant.addressing, if_neg hne, if_neg hall]

/-- What passes the checks under mute goes to an observer. -/
theorem targets_of_muted (hm : h.muted = true) {p : Participant} (hagent : p.isObserver = false)
    {f : Say} (hr : refusal env h p f = none) :
    h.targetsObserver f.addressee = true ∧ f.addressee ≠ everyone := by
  unfold refusal at hr
  split_ifs at hr with hfrozen hmuted hunknown
  all_goals
    have hto : ¬ (f.addressee = everyone ∨ h.targetsAgent f.addressee = true) := fun h =>
      hmuted ⟨hagent, hm, h⟩
    rw [not_or] at hto
    refine ⟨?_, hto.1⟩
    have hthere : h.participants.contains f.addressee = true := by
      rw [← Bool.not_eq_false]
      exact fun h => hunknown ⟨hto.1, h⟩
    obtain ⟨q, hq⟩ := Dict.contains_iff.mp hthere
    have hget : h.get? f.addressee = some q := hq
    have hagentless := hto.2
    rw [targetsAgent, hget, Option.any_some, Bool.not_eq_true, Bool.not_eq_false'] at hagentless
    rw [targetsObserver, hget, Option.any_some, hagentless]

/-- Who overhears a message is not woken by it. -/
theorem woken_routeOne {up : ClientId → Bool} {msg : Msg} {q : Participant}
    (hover : q.isObserver = false → q.addressing msg.addressee = .overheard) :
    (routeOne env up msg q).woken = none := by
  unfold routeOne
  simp only
  split
  · rfl
  split
  · rfl
  · next hobs =>
    rw [if_pos (hover (by simpa using hobs))]

theorem wakes_nobody {msg : Msg} (hover : ∀ n q, h.get? n = some q → q.isObserver = false →
    q.addressing msg.addressee = .overheard) : h.wakes env msg = false := by
  rw [wakes, List.any_eq_false]
  intro q hq hwoken
  obtain ⟨n, hget⟩ := Dict.mem_values_iff.mp hq
  rw [woken_routeOne (hover n q hget)] at hwoken
  cases hwoken

theorem round_answer (h : Hub) (p : Participant) (f : Say) (id queuedFor : Nat) :
    (h.answer env p f id queuedFor).round = h.round := by
  unfold answer notify
  simp only
  split
  · split <;> rfl
  · rfl

/-- An accepted say that agents only overhear raises no round. -/
theorem round_routeSay (hn : h.Named) {p : Participant} (hp : h.get? n = some p) {f : Say}
    (haccept : (h.routeSay env n f).1 = true) (htarget : h.targetsObserver f.addressee = true)
    (hall : f.addressee ≠ everyone) : (h.routeSay env n f).2.round = h.round := by
  obtain ⟨k, hc, heq | ⟨code, detail, retry, heq⟩⟩ := routeSay_cases env hp f
  · have hround : k.round = h.round := by cases hc <;> rfl
    have hcharged : h.Roster k := (hc.keeps (S := ∅) (T := ∅) (E := False)).toRoster
    have hroster := hcharged.trans (roster_remember env k p f)
    have hsilent : (k.remember env p f).wakes env (k.sayMsg p f) = false := by
      refine wakes_nobody fun m q hq hobs => ?_
      obtain ⟨q₀, hq₀, hs⟩ := hroster.back hq
      rw [hs.addressing]
      exact addressing_overheard hn htarget hall hq₀ (hs.isObserver.symm.trans hobs)
    have hrouted : ((k.remember env p f).route env (k.sayMsg p f)).1.round =
        (k.remember env p f).round := by
      have hm := meter_route env (k.remember env p f) (k.sayMsg p f)
      rw [hsilent] at hm
      exact congrArg Meter.count hm
    have hremembered : (k.remember env p f).round = k.round :=
      congrArg Meter.count (meter_remember env k p f)
    rw [heq]
    show (k.accept env p f).round = h.round
    unfold accept
    rw [round_answer, hrouted, hremembered, hround]
  · rw [heq] at haccept
    cases haccept

/-- The copies it prescribes are overheard. -/
theorem heard_saidCopies (hn : h.Named) {m : Str} {f : Say}
    (htarget : h.targetsObserver f.addressee = true) (hall : f.addressee ≠ everyone) :
    ∀ x ∈ saidCopies env h m f n, x.addressing = some .overheard := by
  intro x hx
  unfold saidCopies at hx
  split at hx
  · cases hx
  · next p hp =>
    split at hx
    · cases hq : h.get? n with
      | none =>
        rw [copies, hq] at hx
        cases hx
      | some q =>
        rw [copies_eq hq] at hx
        unfold copiesFor at hx
        simp only at hx
        split at hx
        · cases hx
        · next hother =>
          rw [not_or, Bool.not_eq_true] at hother
          have hover := addressing_overheard hn htarget hall hq hother.2
          rw [if_pos (show q.addressing (h.sayMsg p f).addressee = .overheard from hover)] at hx
          split at hx
          · cases hx
          · rw [List.mem_singleton] at hx
            rw [hx]
            rfl
    · cases hx

/-- The observers a say can go to are those that were there before its life sign. -/
theorem targetsObserver_lifeSign (h : Hub) (m a : Str) :
    (h.lifeSign m).targetsObserver a = h.targetsObserver a := by
  unfold targetsObserver lifeSign
  by_cases ha : a = m
  · subst ha
    rw [get?_modify_self]
    cases h.get? a <;> rfl
  · rw [get?_modify_of_ne h ha]

/-- What an accepted say of an agent is. -/
structure Accepts (env : Env) (n : Str) (h : Hub) (op : Op F) (f : Say) (p : Participant) : Prop where
  named : (h.lifeSign n).Named
  sender : h.get? n = some p
  heard : (h.lifeSign n).get? n = some { p with lastRx := h.now, awaitingPong := false }
  agent : p.isObserver = false
  passes : refusal env h p f = none
  accepted : ((h.lifeSign n).routeSay env n f).1 = true
  said : acceptedSays env h op = acceptedOf env (h.lifeSign n) n f
  prescribed : ∀ m, prescribed env h op m = saidCopies env (h.lifeSign n) n f m

theorem accepts (hw : h.Wf) {op : Op F} {f : Say} (hsay : acceptedSay env n h op = some f) :
    ∃ p, Accepts env n h op f p := by
  cases op with
  | handle c frame =>
    simp only [acceptedSay] at hsay
    split at hsay
    · next g p hv hp =>
      split at hsay
      · next hpass =>
        obtain ⟨hname, hagent, hnone⟩ := hpass
        rw [Option.some.injEq] at hsay
        subst hsay
        have hr : refusal env h p g = none := Option.isNone_iff_eq_none.mp hnone
        have hn' : (h.lifeSign n).Named :=
          (keeps_lifeSign (S := ∅) (T := ∅) (E := True) h n).named hw.named
        have hp' := get?_lifeSign hp
        refine ⟨p, hn', hp, hp', hagent, hr,
          (routeSay_refusal env hn' hp' g).1.mpr ((refusal_lifeSign env h n p g).trans hr), ?_,
          fun m => ?_⟩
        · simp only [acceptedSays, hv, hname]
        · simp only [Hub.prescribed, hv, hname]
          rfl
      · cases hsay
    · cases hsay
  | _ => cases hsay

/-- It takes the next id. -/
theorem Accepts.id {op : Op F} {f : Say} {p : Participant} (ha : Accepts env n h op f p) :
    (acceptedSays env h op).map MsgRec.id = [h.msgCounter + 1] := by
  rw [ha.said, acceptedOf, ha.heard]
  simp only
  rw [if_pos ha.accepted]
  rfl

/-- **A say that an agent gets accepted under mute** goes to an observer, raises no round in its
routing, and agents only overhear it. -/
theorem Accepts.muted {op : Op F} {f : Say} {p : Participant} (ha : Accepts env n h op f p)
    (hm : h.muted = true) : h.targetsObserver f.addressee = true ∧
      ((h.lifeSign n).routeSay env n f).2.round = h.round ∧
      ∀ m, ∀ x ∈ Hub.prescribed env h op m, x.addressing = some .overheard := by
  obtain ⟨htarget, hall⟩ := targets_of_muted hm ha.agent ha.passes
  have htarget' : (h.lifeSign n).targetsObserver f.addressee = true :=
    (targetsObserver_lifeSign h n _).trans htarget
  refine ⟨htarget, round_routeSay ha.named ha.heard ha.accepted htarget' hall, fun m => ?_⟩
  rw [ha.prescribed]
  exact heard_saidCopies ha.named htarget' hall

/-! ## The gate -/

/-- An observer's unmute command gets through. -/
def Unmutes (env : Env) (h : Hub) (op : Op F) : Prop :=
  ∃ c frame seq p, op = .handle c frame ∧ validate env.isPrintable frame = .ok (.cmd .unmute seq) ∧
    h.get? (h.wire.clients c).name = some p ∧ p.isObserver = true

theorem muted_checkQuorum (h : Hub) : (h.checkQuorum env).muted = h.muted := by
  unfold checkQuorum
  split
  · rfl
  · split
    · simp only
      split
      · rfl
      · exact congrArg Settings.muted (settings_notify env _ _ _)
    · rfl

theorem muted_step (hm : h.muted = true) {op : Op F} (hop : ¬ Unmutes env h op) :
    (h.step env op).muted = true := by
  have harmed : ∀ p a, (h.armed p a).muted = true := by
    intro p a
    unfold armed
    split
    · exact hm
    · exact hm
  show (h.step env op).settings.muted = true
  cases settings_step env (h := h) op with
  | nothing same =>
    rw [same]
    exact hm
  | said c frame f p _ _ _ set =>
    rw [set]
    split
    · exact harmed p f.addressee
    · exact hm
  | commanded c frame cmd seq p handled valid sender observer set =>
    rw [set]
    cases cmd with
    | unmute => exact absurd ⟨c, frame, seq, p, handled, valid, sender, observer⟩ hop
    | mute => rfl
    | _ => exact hm
  | ticked tick =>
    rw [tick]
    show (h.watchdogTick env).settings.muted = true
    rw [settings_watchdogTick]
    exact (muted_checkQuorum _).trans
      ((congrArg Settings.muted (settings_ticks env (h.pruneDead env) _)).trans hm)

/-- The gate is open to observers, and to agents that write to one. -/
theorem refusal_unmuted {p : Participant} {f : Say}
    (hfree : p.isObserver = true ∨ h.targetsObserver f.addressee = true ∧ f.addressee ≠ everyone) :
    refusal env { h with muted := false } p f = refusal env h p f := by
  have hopen : ∀ b : Bool, ¬ (p.isObserver = false ∧ b = true ∧
      (f.addressee = everyone ∨ h.targetsAgent f.addressee = true)) := by
    rintro b ⟨hagent, -, hto⟩
    rcases hfree with hobs | ⟨htarget, hall⟩
    · rw [hobs] at hagent
      cases hagent
    · have hto := hto.resolve_left hall
      unfold targetsAgent targetsObserver at *
      cases hq : h.get? f.addressee with
      | none =>
        rw [hq] at hto
        cases hto
      | some q =>
        rw [hq, Option.any_some] at hto htarget
        rw [htarget] at hto
        cases hto
  unfold refusal
  show (if _ then _ else if p.isObserver = false ∧ false = true ∧
    (f.addressee = everyone ∨ h.targetsAgent f.addressee = true) then _ else _) = _
  rw [if_neg (hopen false), if_neg (hopen h.muted)]
  rfl

theorem targetsObserver_ne_everyone
    (hnames : ∀ m q, h.box? m = some q → nameRe m = true) {a : Str}
    (htarget : h.targetsObserver a = true) : a ≠ everyone := by
  rintro rfl
  unfold targetsObserver at htarget
  cases hq : h.get? everyone with
  | none =>
    rw [hq] at htarget
    cases htarget
  | some q => exact absurd (hnames _ q (box?_of_get? hq)) (by decide)

theorem acceptedSays_unmuted (hw : h.Wf) (hnames : ∀ m q, h.box? m = some q → nameRe m = true)
    {c : ClientId} {frame : Obj F} {f : Say} {p : Participant}
    (hv : validate env.isPrintable frame = .ok (.say f))
    (hp : h.get? (h.wire.clients c).name = some p)
    (hfree : p.isObserver = true ∨ h.targetsObserver f.addressee = true) :
    acceptedSays env { h with muted := false } (.handle c frame) =
      acceptedSays env h (.handle c frame) := by
  have hfree' := hfree.imp_right fun ht => And.intro ht (targetsObserver_ne_everyone hnames ht)
  generalize hname : (h.wire.clients c).name = n at hp
  have hn' : (h.lifeSign n).Named :=
    (keeps_lifeSign (S := ∅) (T := ∅) (E := True) h n).named hw.named
  have hn₀ : Named ({ h with muted := false }.lifeSign n) := hn'
  have hp' := get?_lifeSign hp
  have hp₀ : ({ h with muted := false }.lifeSign n).get? n =
      some { p with lastRx := h.now, awaitingPong := false } := hp'
  have hsame : (({ h with muted := false }.lifeSign n).routeSay env n f).1 =
      ((h.lifeSign n).routeSay env n f).1 := by
    rw [Bool.eq_iff_iff, (routeSay_refusal env hn₀ hp₀ f).1, (routeSay_refusal env hn' hp' f).1]
    have hl := refusal_lifeSign env h n p f
    have hl₀ := refusal_lifeSign env { h with muted := false } n p f
    rw [refusal_unmuted hfree'] at hl₀
    rw [hl, ← hl₀]
  simp only [acceptedSays, hv, hname]
  rw [acceptedOf, acceptedOf, hp', hp₀]
  simp only
  rw [hsame]
  rfl

/-! ## Runs -/

/-- A message that has been sent wakes nobody later. -/
theorem harmless_run (hi : i ≠ 0) (hr : h.Ready) (hh : h.WakesNobody i) (hsent : i ≤ h.msgCounter)
    (ops : List (Op F)) :
    (Run.after (Hub.step env) h ops).WakesNobody i ∧
      Run.Always (Hub.step env) (fun k op => OnlyOverheard i k (k.step env op)) h ops := by
  have hstep : ∀ (k : Hub) (op : Op F), (k.Ready ∧ k.WakesNobody i ∧ i ≤ k.msgCounter) →
      (k.step env op).Ready ∧ (k.step env op).WakesNobody i ∧ i ≤ (k.step env op).msgCounter :=
    fun k op hk => ⟨hk.1.step op, (hk.2.1.step hi hk.1 op (Or.inl hk.2.2)).1,
      hk.2.2.trans (remembers_step env hk.1.wf op).counter⟩
  exact ⟨(Run.preserved hstep ⟨hr, hh, hsent⟩ ops).2.1,
    Run.always_of_invariant hstep (fun k op hk => (hk.2.1.step hi hk.1 op (Or.inl hk.2.2)).2)
      ⟨hr, hh, hsent⟩ ops⟩

variable (env) in
/-- **Mute lets no agent wake an agent.**  A muted hub stays muted until an observer's unmute
command.  Until then, a say that an agent gets accepted goes to an observer and raises no round in
its routing; its copies, which have the id it is given, are never in a wake queue, whatever comes
later, and agents are sent them as overheard only.  Says to an observer and says of observers are
accepted as if the hub were not muted. -/
theorem mute_wakes_nobody (records : List MsgRec) (now wall : Rat) (before during : List (Op F))
    (hmuted : (Run.after (Hub.step env) (init env records now wall) before).muted = true)
    (hduring : Run.Always (Hub.step env) (fun h op => ¬ Unmutes env h op)
      (Run.after (Hub.step env) (init env records now wall) before) during) :
    let h := Run.after (Hub.step env) (init env records now wall) (before ++ during)
    h.muted = true ∧
      (∀ (op : Op F) n f, acceptedSay env n h op = some f →
        h.targetsObserver f.addressee = true ∧
        ((h.lifeSign n).routeSay env n f).2.round = h.round ∧
        (acceptedSays env h op).map MsgRec.id = [h.msgCounter + 1] ∧
        ∀ later : List (Op F), (Run.after (Hub.step env) h (op :: later)).WakesNobody (h.msgCounter + 1) ∧
          Run.Always (Hub.step env) (fun k o => OnlyOverheard (h.msgCounter + 1) k (k.step env o))
            h (op :: later)) ∧
      ∀ c (frame : Obj F) f p, validate env.isPrintable frame = .ok (.say f) →
        h.get? (h.wire.clients c).name = some p →
        p.isObserver = true ∨ h.targetsObserver f.addressee = true →
        acceptedSays env { h with muted := false } (.handle c frame) =
          acceptedSays env h (.handle c frame) := by
  intro h
  have hready : h.Ready := Run.preserved (fun k (op : Op F) hk => hk.step op)
    (ready_init records now wall) (before ++ during)
  have hnames : Carries (fun m => nameRe m = true) (fun _ => True) h :=
    (Run.preserved (I := fun k : Hub => k.Wf ∧ Carries (fun m => nameRe m = true) (fun _ => True) k)
      (fun k op hk => ⟨hk.1.step env op, checked_step hk.1 hk.2 op⟩)
      ⟨wf_init env records now wall, carries_init (fun _ _ => trivial) now wall⟩
      (before ++ during)).2
  have hm : h.muted = true := by
    show (Run.after (Hub.step env) (init env records now wall) (before ++ during)).muted = true
    rw [Run.after_append]
    exact Run.invariant (I := fun k : Hub => k.muted = true) (fun k op hk hop => muted_step hk hop)
      hmuted hduring
  refine ⟨hm, fun op n f hsay => ?_, fun c frame f p hv hp hfree =>
    acceptedSays_unmuted hready.wf hnames.names hv hp hfree⟩
  obtain ⟨p, haccepts⟩ := accepts hready.wf hsay
  obtain ⟨htarget, hround, hheard⟩ := haccepts.muted hm
  have hids := haccepts.id
  refine ⟨htarget, hround, hids, fun later => ?_⟩
  have hfirst := (hready.harmless (Nat.lt_succ_self _)).step (Nat.succ_ne_zero _) hready op
    (Or.inr hheard)
  have hsent : h.msgCounter + 1 ≤ (h.step env op).msgCounter := by
    obtain ⟨r, hr, hid⟩ := List.mem_map.mp (hids ▸ List.mem_singleton.mpr rfl :
      h.msgCounter + 1 ∈ (acceptedSays env h op).map MsgRec.id)
    rw [← hid]
    exact ((remembers_step env hready.wf op).fresh r hr).2
  obtain ⟨hlast, halways⟩ := harmless_run (Nat.succ_ne_zero _) (hready.step op)
    hfirst.1 hsent later
  exact ⟨hlast, hfirst.2, halways⟩

end

/-- A `cmd` of an observer. -/
def muteFrame : Obj PyJson.Token :=
  [(str "t", .str (str "cmd")), (str "cmd", .str (str "mute"))]

/-- An observer mutes the floor of two agents. -/
def muteOn : List (Op PyJson.Token) :=
  [.handle 0 (helloFrame "carol" "observer" []), .handle 1 (helloFrame "alice" "agent" []),
    .handle 2 (helloFrame "bob" "agent" []), .handle 0 muteFrame]

/-- Alice writes to the observer. -/
def aside : Op PyJson.Token := .handle 1 (sayFrame "carol" "claim" "hi" false)

theorem mute_wakes_nobody_aside :
    let h := Run.after (Hub.step .still) (init .still [] 0 0) muteOn
    ∃ f, acceptedSay .still (str "alice") h aside = some f ∧
      h.targetsObserver f.addressee = true ∧
      ∀ later : List (Op PyJson.Token),
        (Run.after (Hub.step .still) h (aside :: later)).WakesNobody (h.msgCounter + 1) := by
  intro h
  have haccepted : (acceptedSay .still (str "alice") h aside).isSome = true := by decide +kernel
  obtain ⟨f, hsay⟩ := Option.isSome_iff_exists.mp haccepted
  obtain ⟨-, hmuted, -⟩ := mute_wakes_nobody .still [] 0 0 muteOn ([] : List (Op PyJson.Token))
    (by decide +kernel) trivial
  obtain ⟨htarget, -, -, hlater⟩ := hmuted aside _ f hsay
  exact ⟨f, hsay, htarget, fun later => (hlater later).1⟩

end Hub

end Moot
