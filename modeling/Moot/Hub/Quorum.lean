import Moot.Hub.Clean
import Moot.Hub.Timer
import Moot.Hub.Settings
import Moot.Hub.Events

/-!
# Quorum

An accepted say of an observer asks the agents it addresses; once each of them that is
still there has answered, and the floor is at rest, the watchdog says so.  A question that
cannot be encoded is asked of nobody, and asks again for the quorum.

Proved here: `heard_step`, what an operation does to the time of the last say of a
registration; `quorum_exact`, in every run on clean strings a tick announces the quorum
exactly if the last question has not been announced yet, the floor is at rest and
everybody asked who is there has had a say accepted since.
-/

namespace Moot
open Py Proto

namespace Hub

/-! ## The last say of a registration -/

/-- When the registration `n` last had a say accepted; zero if never. -/
def lastSaid (h : Hub) (n : Str) : Option Rat := (h.box? n).map Participant.lastSay

/-- The registration `n` has said nothing, or it is new. -/
def Mum (n : Str) (h h' : Hub) : Prop :=
  h'.lastSaid n = h.lastSaid n ∨ (h.lastSaid n = none ∧ h'.lastSaid n = some 0)

section
variable {env : Env} {A : Filter} {h h' h'' : Hub} {n : Str} {p : Participant}

theorem Mum.refl (n : Str) (h : Hub) : Mum n h h := Or.inl rfl

theorem Mum.trans (hab : Mum n h h') (hbc : Mum n h' h'') : Mum n h h'' := by
  rcases hab with hab | ⟨hnone, hnew⟩
  · rw [Mum, ← hab]
    exact hbc
  · rcases hbc with hbc | ⟨hnone', -⟩
    · exact Or.inr ⟨hnone, hbc.trans hnew⟩
    · rw [hnew] at hnone'
      cases hnone'

theorem lastSaid_same (hget : (h'.get? n).map Participant.lastSay = (h.get? n).map Participant.lastSay)
    (hdead : h'.dead = h.dead) : h'.lastSaid n = h.lastSaid n := by
  unfold lastSaid box?
  rw [hdead]
  cases hp : h.get? n with
  | none =>
    rw [hp, Option.map_none, Option.map_eq_none_iff] at hget
    rw [hget]
  | some p =>
    rw [hp, Option.map_some, Option.map_eq_some_iff] at hget
    obtain ⟨p', hp', hsay⟩ := hget
    rw [hp', Option.some_or, Option.some_or, Option.map_some, Option.map_some, hsay]

theorem lastSaid_floor (hpart : h'.participants = h.participants) (hdead : h'.dead = h.dead) :
    h'.lastSaid n = h.lastSaid n :=
  lastSaid_same (by rw [get?, hpart]; rfl) hdead

theorem lastSaid_modify (h : Hub) (m : Str) {g : Participant → Participant}
    (hg : ∀ q, (g q).lastSay = q.lastSay) : (h.modify m g).lastSaid n = h.lastSaid n := by
  refine lastSaid_same ?_ rfl
  by_cases hn : n = m
  · subst hn
    rw [get?_modify_self, Option.map_map]
    exact congrArg (Option.map · (h.get? n)) (funext hg)
  · rw [get?_modify_of_ne h hn]

theorem lastSaid_mapParticipants (h : Hub) {g : Participant → Participant}
    (hg : ∀ q, (g q).lastSay = q.lastSay) : (h.mapParticipants g).lastSaid n = h.lastSaid n := by
  refine lastSaid_same ?_ rfl
  rw [get?_mapParticipants, Option.map_map]
  exact congrArg (Option.map · (h.get? n)) (funext hg)

theorem lastSaid_remember (h : Hub) (p : Participant) (f : Say) :
    (h.remember env p f).lastSaid n = (h.modify p.name fun p => { p with lastSay := h.now }).lastSaid n := by
  have hfloor : (h.remember env p f).participants =
        (h.modify p.name fun p => { p with lastSay := h.now }).participants ∧
      (h.remember env p f).dead = h.dead := by
    show (h.countSay p f).participants = _ ∧ (h.countSay p f).dead = _
    unfold countSay noteSay
    simp only
    split_ifs <;> exact ⟨rfl, rfl⟩
  exact lastSaid_floor hfloor.1 hfloor.2

theorem lastSaid_answer (h : Hub) (p : Participant) (f : Say) (id k : Nat) :
    (h.answer env p f id k).lastSaid n = h.lastSaid n := by
  unfold answer
  simp only
  split
  · exact (lastSaid_floor (quiet_notify env _ _ _).participants (quiet_notify env _ _ _).dead).trans rfl
  · rfl

theorem lastSay_primed (env : Env) (p : Participant) (recent : List MsgRec) :
    (primed env p recent).lastSay = p.lastSay := by
  unfold primed
  split <;> rfl

/-- Somebody who joins has said nothing, unless the name comes back. -/
theorem mum_registered (hw : h.Wf) {c : ClientId} {f : Hello} (hc : (h.wire.clients c).name = [])
    (hfree : h.get? f.name = none) : Mum n h (registered env c f h) := by
  have hwf := hw.enroll hc (admitted_name env hw c f) (nameRe_ne_nil f.name_ok.2)
    (admitted_client env h c f)
  have hdead : (registered env c f h).dead = h.dead.erase f.name :=
    (keeps_greet env hwf.named f.name (admitted env h c f) (h.dead.contains f.name)).dead
  by_cases hn : n = f.name
  · subst hn
    obtain ⟨hget, -⟩ := greet_spec env hwf.named
      (get?_enroll_self h c f.name (admitted env h c f)) (h.dead.contains f.name)
    have hlast : (registered env c f h).lastSaid f.name = some (admitted env h c f).lastSay := by
      rw [lastSaid, registered, box?_of_get? hget, Option.map_some]
      split
      · rfl
      · rw [lastSay_primed]
    rw [Mum, hlast, lastSaid, box?_of_none hfree]
    unfold admitted
    cases h.dead.get? f.name with
    | none => exact Or.inr ⟨rfl, rfl⟩
    | some d => exact Or.inl rfl
  · apply Or.inl
    have hget : (registered env c f h).get? n = h.get? n := by
      rw [registered, get?_greet_of_ne hn]
      exact get?_enroll_of_ne h c hn _
    rw [lastSaid, lastSaid, box?, box?, hget, hdead, Dict.get?_erase_of_ne _ hn]

/-- **No deed but a say of its own** touches the last say of a registration. -/
theorem Deed.mum (hw : h.Wf) (hd : Deed env (notSayOf n) h h') : Mum n h h' := by
  have hdead : ∀ {E : Prop} {S T : Set Str} {k : Hub}, Keeps S T E h k → k.dead = h.dead :=
    fun hk => hk.dead
  cases hd with
  | murmured hm => exact Or.inl (lastSaid_floor hm.toQuiet.participants hm.toQuiet.dead)
  | told e => exact Or.inl rfl
  | recorded r => exact Or.inl rfl
  | timed hg => exact Or.inl (lastSaid_modify h _ fun q => by rw [hg q])
  | mailed hg => exact Or.inl (lastSaid_modify h _ fun q => by rw [hg q])
  | mailedAll hg => exact Or.inl (lastSaid_mapParticipants h fun q => by rw [hg q])
  | counted hc =>
    rw [hc.rest]
    exact Or.inl rfl
  | @reported m p f hp hA =>
    rw [report, hp]
    have hreport : ∀ q, (Hub.reported h.now f q).lastSay = q.lastSay := by
      intro q
      unfold Hub.reported
      simp only
      split
      · split <;> rfl
      · rfl
    exact Or.inl (lastSaid_modify h m hreport)
  | inferred => exact Or.inl (lastSaid_modify h _ fun _ => rfl)
  | @delivered m p msgs hp hidle =>
    apply Or.inl
    rw [deliver_eq env hp]
    split
    · rfl
    · exact lastSaid_modify (h.handOut env p (sortById msgs)) m fun _ => rfl
  | limited => exact Or.inl (lastSaid_floor (quiet_notify env _ _ _).participants
      (hdead (S := ∅) (T := ∅) (E := True) (keeps_announceLimit env h)))
  | ended =>
    refine Or.inl (lastSaid_same ?_ (hdead (S := ∅) (T := ∅) (E := True) (keeps_checkSessionDone env h)))
    rw [get?_checkSessionDone env h n, Option.map_map]
    refine congrArg (Option.map · (h.get? n)) (funext fun q => ?_)
    rw [Function.comp_apply]
    split <;> rfl
  | marked b => exact Or.inl (lastSaid_modify h _ fun _ => rfl)
  | @remembered m p q f hq hs hA =>
    apply Or.inl
    have hname : p.name = m := hs.name.symm.trans (hw.named m q hq)
    have hne : n ≠ m := Ne.symm (hA f rfl)
    rw [lastSaid_remember, hname]
    exact lastSaid_same (by rw [get?_modify_of_ne h hne]) rfl
  | answered id k => exact Or.inl (lastSaid_answer h _ _ id k)
  | @flagged m p c seq =>
    apply Or.inl
    cases c <;> rfl
  | okayed => exact Or.inl rfl
  | polled m seq =>
    have hq := quiet_handleRoster env h m seq
    exact Or.inl (lastSaid_floor hq.participants hq.dead)
  | alarmed m =>
    exact Or.inl (lastSaid_floor (participants_notifyBlocked env h m)
      (hdead (S := ∅) (T := ∅) (E := True) (keeps_notifyBlocked env h m)))
  | left hp =>
    apply Or.inl
    rw [lastSaid, lastSaid, box?_leave hp]
  | joined hc hfree => exact mum_registered hw hc hfree

theorem Deeds.mum (hw : h.Wf) (hd : Deeds env (notSayOf n) h h') : Mum n h h' := by
  induction hd with
  | refl => exact .refl n h
  | tail hds hdeed ih => exact ih.trans (hdeed.mum (Deeds.wf hw hds))

/-! ## Accepted says -/

variable {F : Type} [PyJson.PyFloat F]

variable (env) in
/-- The say that the operation brings, if it is accepted, with its sender: no check refuses it,
and the hub gets to the end of it. -/
def acceptedFrom (h : Hub) : Op F → Option (Participant × Say)
  | .handle c frame =>
    match validate env.isPrintable frame, h.get? (h.wire.clients c).name with
    | .ok (.say f), some p =>
      if refusal env h p f = none ∧ h.fails env (.handle c frame) = false then some (p, f) else none
    | _, _ => none
  | _ => none

variable (env) in
/-- The operation is an accepted say of `n`. -/
def speaks (n : Str) (h : Hub) (op : Op F) : Bool := (acceptedFrom env h op).any fun x => x.1.name = n

theorem speaks_iff {op : Op F} :
    speaks env n h op = true ↔ ∃ p f, acceptedFrom env h op = some (p, f) ∧ p.name = n := by
  rw [speaks, Option.any_eq_true]
  constructor
  · rintro ⟨⟨p, f⟩, ha, hn⟩
    exact ⟨p, f, ha, of_decide_eq_true hn⟩
  · rintro ⟨p, f, ha, hn⟩
    exact ⟨(p, f), ha, decide_eq_true hn⟩

theorem acceptedFrom_of_say {c : ClientId} {frame : Obj F} {f : Say} {p : Participant}
    (hends : h.fails env (.handle c frame) = false)
    (hv : validate env.isPrintable frame = .ok (.say f)) (hp : h.get? (h.wire.clients c).name = some p) :
    acceptedFrom env h (.handle c frame) = if refusal env h p f = none then some (p, f) else none := by
  simp only [acceptedFrom, hv, hp, hends, and_true]

theorem of_acceptedFrom {op : Op F} {f : Say} (ha : acceptedFrom env h op = some (p, f)) :
    ∃ c frame, op = .handle c frame ∧ validate env.isPrintable frame = .ok (.say f) ∧
      h.get? (h.wire.clients c).name = some p ∧ refusal env h p f = none := by
  cases op with
  | handle c frame =>
    cases hv : validate env.isPrintable frame with
    | error e => simp [acceptedFrom, hv] at ha
    | ok i =>
      cases i with
      | say g =>
        cases hq : h.get? (h.wire.clients c).name with
        | none => simp [acceptedFrom, hv, hq] at ha
        | some q =>
          simp only [acceptedFrom, hv, hq, Option.ite_none_right_eq_some, Option.some.injEq,
            Prod.mk.injEq] at ha
          obtain ⟨⟨hr, -⟩, rfl, rfl⟩ := ha
          exact ⟨c, frame, rfl, hv, hq, hr⟩
      | _ => simp [acceptedFrom, hv] at ha
  | _ => cases ha

/-- Where no say of `n` comes in, none is accepted. -/
theorem not_speaks (hn : h.Named) {op : Op F} (hop : Allowed env (notSayOf n) h op) :
    ¬speaks env n h op = true := by
  rw [speaks_iff]
  rintro ⟨p, f, ha, rfl⟩
  obtain ⟨c, frame, rfl, hv, hp, -⟩ := of_acceptedFrom ha
  exact hop c frame _ rfl hv p hp f rfl (hn _ p hp).symm

variable (env n) in
theorem mum_settle (hw : h.Wf) (f : Say) (accepted : Bool) : Mum n h (h.settle env n f accepted) := by
  have hdeeds : Deeds env (notSayOf n) h (h.inferIdle env n) := deeds_inferIdle h n
  have hinfer : Mum n h (h.inferIdle env n) := hdeeds.mum hw
  have hwf : (h.inferIdle env n).Wf := hdeeds.wf hw
  unfold settle
  simp only
  split
  · exact hinfer
  · next q hq =>
    split
    · next hagent =>
      split
      · exact hinfer.trans (Deeds.mum hwf (deeds_markDone hq hagent.2))
      · exact hinfer.trans (Or.inl (lastSaid_modify _ n fun _ => rfl))
    · exact hinfer

/-- Somebody who has been heard keeps that time. -/
theorem Mum.kept {t : Rat} (hm : Mum n h h') (ht : h.lastSaid n = some t) : h'.lastSaid n = some t := by
  rcases hm with hsame | ⟨hnone, -⟩
  · exact hsame.trans ht
  · rw [hnone] at ht
    cases ht

variable (env) in
/-- An accepted say is what its sender said last. -/
theorem lastSaid_accept (hw : h.Wf) (hp : h.get? n = some p) (q : Participant) (hq : q.name = n)
    (f : Say) : (h.accept env q f).lastSaid n = some h.now := by
  have hwrem : (h.remember env q f).Wf := hw.roster (roster_remember env h q f)
  have hrem : (h.remember env q f).lastSaid n = some h.now := by
    rw [lastSaid_remember, hq, lastSaid, box?_of_get? (p := { p with lastSay := h.now }) ?_]
    · rfl
    · rw [get?_modify_self, hp]
      rfl
  have hroute : Mum n (h.remember env q f) ((h.remember env q f).route env (h.sayMsg q f)).1 :=
    Deeds.mum hwrem (deeds_route hwrem.named (h.sayMsg q f))
  exact (lastSaid_answer _ q f _ _).trans (hroute.kept hrem)

/-! ## One operation -/

/-- What an operation does to the last say of the registration `n`. -/
inductive Heard (env : Env) (n : Str) (h : Hub) (op : Op F) (h' : Hub) : Prop
  | gone (away : h'.lastSaid n = none)
  | spoke (accepted : speaks env n h op = true) (now : h'.lastSaid n = some h.now)
  | mum (silent : ¬speaks env n h op = true) (kept : Mum n h h')

theorem heard_say (hw : h.Wf) {c : ClientId} {frame : Obj F} {f : Say}
    (hends : h.fails env (.handle c frame) = false)
    (hv : validate env.isPrintable frame = .ok (.say f)) (hname : (h.wire.clients c).name = n)
    (hp : h.get? n = some p) : Heard env n h (.handle c frame) (h.step env (.handle c frame)) := by
  have hp' : h.get? (h.wire.clients c).name = some p := by rw [hname]; exact hp
  have hstep : h.step env (.handle c frame) = h.dispatch env c (.say f) := by
    show h.handle env c frame = _
    rw [handle, hv]
    rfl
  have hlife : Keeps ∅ ∅ True h (h.lifeSign n) := keeps_lifeSign h n
  have hwl : (h.lifeSign n).Wf := hw.roster hlife.toRoster
  have hp₁ : (h.lifeSign n).get? n = some { p with lastRx := h.now, awaitingPong := false } := by
    rw [lifeSign, get?_modify_self, hp]
    rfl
  have hlast : (h.lifeSign n).lastSaid n = h.lastSaid n := lastSaid_modify h n fun _ => rfl
  have hsay : h.dispatch env c (.say f) = (h.lifeSign n).handleSay env n f := by
    unfold dispatch
    rw [hname]
    simp only [hp]
  have hroute := (routeSay_refusal env hwl.named hp₁ f).1.trans
    (iff_of_eq (congrArg (· = none) (refusal_lifeSign env h n p f)))
  have hwr : ((h.lifeSign n).routeSay env n f).2.Wf := hwl.roster (roster_routeSay env hwl.named n f)
  have hsettle := mum_settle env n hwr f ((h.lifeSign n).routeSay env n f).1
  rw [hstep, hsay, handleSay]
  obtain ⟨k, hc, hcases⟩ := routeSay_cases env hp₁ f
  have hdeeds : Deeds env (notSayOf n) (h.lifeSign n) k := hc.deeds
  have hwk : k.Wf := hdeeds.wf hwl
  rcases hcases with heq | ⟨code, detail, retry, heq⟩
  · obtain ⟨q, hq, -⟩ := (hc.keeps (S := ∅) (T := ∅) (E := False)).same n _ hp₁
    have hnow : k.now = (h.lifeSign n).now := Deeds.now hwl hdeeds
    have hacc := lastSaid_accept env hwk hq { p with lastRx := h.now, awaitingPong := false }
      (hw.named n p hp) f
    have hr : refusal env h p f = none := hroute.mp (by rw [heq])
    refine .spoke (speaks_iff.mpr ⟨p, f, ?_, hw.named n p hp⟩) (hsettle.kept ?_)
    · rw [acceptedFrom_of_say hends hv hp', if_pos hr]
    · rw [heq, show h.now = k.now from hnow.symm]
      exact hacc
  · have hrefused : refusal env h p f ≠ none := fun hr => by
      have := hroute.mpr hr
      rw [heq] at this
      cases this
    refine .mum ?_ ?_
    · rw [speaks_iff]
      rintro ⟨q, g, ha, -⟩
      rw [acceptedFrom_of_say hends hv hp', if_neg hrefused] at ha
      cases ha
    · have hmum : Mum n (h.lifeSign n) ((h.lifeSign n).routeSay env n f).2 := by
        rw [heq]
        exact Deeds.mum hwl (hdeeds.trans (deeds_refuse _ f code detail retry))
      have hall := hmum.trans hsettle
      rw [Mum, hlast] at hall
      exact hall

theorem heard_tick (hw : h.Wf) : Heard env n h (.watchdogTick : Op F) (h.watchdogTick env) := by
  have hsilent : ¬speaks env n h (.watchdogTick : Op F) = true := Bool.false_ne_true
  have hwp := hw.pruneDead env
  have hticks : Mum n (h.pruneDead env)
      ((h.pruneDead env).participants.keys.foldl (tickOne env) (h.pruneDead env)) :=
    Deeds.mum hwp (deeds_ticks hwp _)
  have hchecks : ∀ k : Hub, ((k.checkQuorum env).checkStall env).lastSaid n = k.lastSaid n := fun k =>
    lastSaid_floor ((participants_checkStall env _).trans (participants_checkQuorum env k))
      (keeps_checks (S := ∅) (T := ∅) (E := True) env k).dead
  have htick : Mum n (h.pruneDead env) (h.watchdogTick env) := hticks.trans (Or.inl (hchecks _))
  have hnobody : (h.pruneDead env).lastSaid n = none → (h.watchdogTick env).lastSaid n = none := by
    intro hnone
    rw [lastSaid, Option.map_eq_none_iff] at hnone
    obtain ⟨hgone, -⟩ := (passage_ticks env hwp (h.pruneDead env).participants.keys n).absent hnone
    refine (hchecks _).trans ?_
    rw [lastSaid, hgone]
    rfl
  rcases box?_pruneDead env h n with hsame | ⟨hnone, -⟩
  · refine .mum hsilent ?_
    have hprune : (h.pruneDead env).lastSaid n = h.lastSaid n := by rw [lastSaid, hsame]; rfl
    rw [Mum, hprune] at htick
    exact htick
  · refine .gone (hnobody ?_)
    rw [lastSaid, hnone]
    rfl

/-- **What an operation does to the last say** of a registration. -/
theorem heard_step (hw : h.Wf) (n : Str) {op : Op F} (hends : h.fails env op = false) :
    Heard env n h op (h.step env op) := by
  rcases say_or_not env n h op with hsilent | ⟨c, frame, f, p, rfl, hv, hname, hp⟩
  · cases op with
    | watchdogTick => exact heard_tick hw
    | clock now wall => exact .mum (not_speaks hw.named hsilent) (Or.inl rfl)
    | handle c frame =>
      exact .mum (not_speaks hw.named hsilent) ((deeds_step hw hsilent (by simp) (by simp)).mum hw)
    | disconnect c =>
      exact .mum (not_speaks hw.named hsilent) ((deeds_step hw hsilent (by simp) (by simp)).mum hw)
    | fail c =>
      exact .mum (not_speaks hw.named hsilent) ((deeds_step hw hsilent (by simp) (by simp)).mum hw)
  · exact heard_say hw hends hv hname hp

/-! ## What a registration has said -/

variable (env) in
/-- The times of the says accepted from the registration `n`, with one operation more. -/
def writeSaid (n : Str) (past : List Rat) (h : Hub) (op : Op F) : List Rat :=
  if ((h.attempt env op).box? n).isNone then []
  else if speaks env n h op then past ++ [h.now] else past

/-- The last say is the last one accepted. -/
structure Told (n : Str) (past : List Rat) (h : Hub) : Prop where
  absent : h.lastSaid n = none → past = []
  last : ∀ t, h.lastSaid n = some t → (past = [] ∧ t = 0) ∨ (t ∈ past ∧ ∀ s ∈ past, s ≤ t)
  times : ∀ s ∈ past, s ≤ h.now

theorem lastSaid_eq_none_iff : h.lastSaid n = none ↔ h.box? n = none := Option.map_eq_none_iff

theorem writeSaid_gone {past : List Rat} {op : Op F} (hgone : (h.attempt env op).lastSaid n = none) :
    writeSaid env n past h op = [] := by
  rw [writeSaid, if_pos (by rw [lastSaid_eq_none_iff.mp hgone]; rfl)]

theorem writeSaid_there {past : List Rat} {op : Op F} {t : Rat}
    (hthere : (h.attempt env op).lastSaid n = some t) :
    writeSaid env n past h op = if speaks env n h op then past ++ [h.now] else past := by
  rw [writeSaid, if_neg]
  intro hnone
  rw [Option.isNone_iff_eq_none, ← lastSaid_eq_none_iff, hthere] at hnone
  cases hnone

/-- **One operation** keeps the history. -/
theorem Told.step (hw : h.Wf) {past : List Rat} (ht : Told n past h) {op : Op F}
    (hends : h.Ends env op) (hop : Forward h op) :
    Told n (writeSaid env n past h op) (h.attempt env op) := by
  have hforward := hop.now_le env hw
  have hheard := heard_step hw n hends.fine
  rw [← hends.same] at hforward hheard
  have hgone : (h.attempt env op).lastSaid n = none →
      Told n (writeSaid env n past h op) (h.attempt env op) := by
    intro hnone
    rw [writeSaid_gone hnone]
    exact ⟨fun _ => rfl, fun t h => (by rw [hnone] at h; cases h), fun s hs => (by cases hs)⟩
  cases hheard with
  | gone away => exact hgone away
  | spoke accepted now =>
    rw [writeSaid_there now, if_pos accepted]
    refine ⟨fun hnone => (by rw [now] at hnone; cases hnone), fun t h => Or.inr ?_, fun s hs => ?_⟩
    · rw [now, Option.some.injEq] at h
      subst h
      refine ⟨List.mem_append_right _ (List.mem_singleton_self _), fun s hs => ?_⟩
      rcases List.mem_append.mp hs with hs | hs
      · exact ht.times s hs
      · exact (List.mem_singleton.mp hs).le
    · rcases List.mem_append.mp hs with hs | hs
      · exact (ht.times s hs).trans hforward
      · exact (List.mem_singleton.mp hs).le.trans hforward
  | mum silent kept =>
    cases hlast : (h.attempt env op).lastSaid n with
    | none => exact hgone hlast
    | some t =>
      rw [writeSaid_there hlast, if_neg silent]
      refine ⟨fun hnone => (by rw [hlast] at hnone; cases hnone), fun t' h => ?_,
        fun s hs => (ht.times s hs).trans hforward⟩
      rcases kept with hsame | ⟨hnone, hnew⟩
      · exact ht.last t' (hsame.symm.trans h)
      · rw [hnew, Option.some.injEq] at h
        exact Or.inl ⟨ht.absent hnone, h.symm⟩

/-- Somebody has answered a question exactly if the last say came after it. -/
theorem Told.since_iff {past : List Rat} (ht : Told n past h) {t askedAt : Rat}
    (hlast : h.lastSaid n = some t) (hasked : 0 ≤ askedAt) :
    askedAt < t ↔ ∃ s ∈ past, askedAt < s := by
  rcases ht.last t hlast with ⟨rfl, rfl⟩ | ⟨hmem, hle⟩
  · constructor
    · intro hlt
      exact absurd hlt hasked.not_gt
    · rintro ⟨s, hs, -⟩
      cases hs
  · constructor
    · exact fun hlt => ⟨t, hmem, hlt⟩
    · rintro ⟨s, hs, hlt⟩
      exact hlt.trans_le (hle s hs)

/-! ## The question -/

/-- A question to agents: when it was asked, whom, and whether the quorum has been announced. -/
structure Poll where
  askedAt : Rat
  asked : List Str
  announced : Bool

variable (env) in
/-- Whom the operation asks, if it is an accepted say of an observer to agents. -/
def question (h : Hub) (op : Op F) : Option (List Str) :=
  match acceptedFrom env h op with
  | some (p, f) =>
    if p.isObserver = true ∧ h.asked f.addressee ≠ [] then some (h.asked f.addressee) else none
  | none => none

end

end Hub

/-- The event is a quorum. -/
def HubEvent.isQuorum : HubEvent → Bool
  | .quorum _ => true
  | _ => false

namespace Hub

/-- The quorum events that go on record from `h` to `h'`. -/
def quorums (h h' : Hub) : List HubEvent := (eventsOf (newEffects h h')).filter (·.isQuorum)

section
variable {env : Env} {A : Filter} {h h' h'' : Hub} {n : Str} {p : Participant} {F : Type}
  [PyJson.PyFloat F]

variable (env) in
/-- The last question, with one operation more. -/
def writePoll (poll : Option Poll) (h : Hub) (op : Op F) : Option Poll :=
  match question env h op with
  | some names => some ⟨h.now, names, false⟩
  | none => poll.map fun q => { q with announced := q.announced || !(quorums h (h.attempt env op)).isEmpty }

/-- What the quorum check remembers of the last question. -/
def pollOf (s : Settings) : Option Rat × List Str × Bool :=
  (s.lastObserverSay, s.quorumExpected, s.quorumLatched)

/-- The hub knows the last question. -/
def Polled (h : Hub) : Option Poll → Prop
  | none => h.lastObserverSay = none
  | some q => pollOf h.settings = (some q.askedAt, q.asked, q.announced) ∧ 0 ≤ q.askedAt

theorem quorums_routine (he : Emits HubEvent.Routine h h') : quorums h h' = [] := by
  rw [quorums, List.filter_eq_nil_iff]
  intro e hmem hq
  have hroutine := he.new e hmem
  cases e with
  | quorum => exact hroutine
  | _ => cases hq

variable (env) in
/-- Only a tick announces a quorum. -/
theorem quorums_step (hw : h.Wf) {op : Op F} (htick : op ≠ .watchdogTick) :
    quorums h (h.step env op) = [] := by
  by_cases hclock : ∃ now wall, op = .clock now wall
  · obtain ⟨now, wall, rfl⟩ := hclock
    exact quorums_routine (emits_nothing rfl)
  · exact quorums_routine (Deeds.emits (deeds_step hw (allowed_any h op) htick
      fun now wall heq => hclock ⟨now, wall, heq⟩))

theorem settings_of_say (hw : h.Wf) {c : ClientId} {frame : Obj F} {f : Say}
    (hv : validate env.isPrintable frame = .ok (.say f)) (hp : h.get? (h.wire.clients c).name = some p) :
    (h.step env (.handle c frame)).settings =
      if refusal env h p f = none then h.armed p f.addressee else h.settings := by
  have hlife : Keeps ∅ ∅ True h (h.lifeSign (h.wire.clients c).name) := keeps_lifeSign h _
  have hp₁ : (h.lifeSign (h.wire.clients c).name).get? (h.wire.clients c).name =
      some { p with lastRx := h.now, awaitingPong := false } := by
    rw [lifeSign, get?_modify_self, hp]
    rfl
  have hstep : h.step env (.handle c frame) =
      (h.lifeSign (h.wire.clients c).name).handleSay env (h.wire.clients c).name f := by
    show h.handle env c frame = _
    rw [handle, hv]
    show h.dispatch env c (.say f) = _
    unfold dispatch
    simp only [hp]
  have hroute := (routeSay_refusal env (hw.roster hlife.toRoster).named hp₁ f).1
  rw [refusal_lifeSign] at hroute
  rw [hstep, settings_handleSay env hp₁ f, armed_lifeSign]
  by_cases hr : refusal env h p f = none
  · rw [if_pos hr, if_pos (hroute.mpr hr)]
  · rw [if_neg hr, if_neg fun h => hr (hroute.mp h)]
    rfl

variable (env) in
/-- **An accepted question is remembered, and nothing else**, but by the tick. -/
theorem quorum_settings_step (hw : h.Wf) {op : Op F} (hends : h.fails env op = false)
    (htick : op ≠ .watchdogTick) :
    pollOf (h.step env op).settings =
      match question env h op with
      | some names => (some h.now, names, false)
      | none => pollOf h.settings := by
  by_cases hsay : ∃ c frame f p, op = .handle c frame ∧
      validate env.isPrintable frame = .ok (.say f) ∧ h.get? (h.wire.clients c).name = some p
  · obtain ⟨c, frame, f, p, rfl, hv, hp⟩ := hsay
    rw [settings_of_say hw hv hp, question, acceptedFrom_of_say hends hv hp]
    by_cases hr : refusal env h p f = none
    · rw [if_pos hr, if_pos hr, armed]
      simp only
      by_cases hasks : p.isObserver = true ∧ h.asked f.addressee ≠ []
      · rw [if_pos hasks, if_pos hasks]
        rfl
      · rw [if_neg hasks, if_neg hasks]
    · rw [if_neg hr, if_neg hr]
  · have hnone : acceptedFrom env h op = none := by
      cases ha : acceptedFrom env h op with
      | none => rfl
      | some x =>
        obtain ⟨c, frame, rfl, hv, hp, -⟩ := of_acceptedFrom (p := x.1) (f := x.2) ha
        exact absurd ⟨c, frame, x.2, x.1, rfl, hv, hp⟩ hsay
    rw [question, hnone]
    simp only
    cases settings_step env op with
    | nothing same => rw [same]
    | said c frame f p handled valid sender => exact absurd ⟨c, frame, f, p, handled, valid, sender⟩ hsay
    | commanded c frame cmd seq p handled valid sender observer set =>
      rw [set]
      cases cmd <;> rfl
    | ticked tick => exact absurd tick htick

/-! ## The tick -/

variable (env) in
/-- The floor after the disconnects and the idle inferences of a tick. -/
def tickFloor (h : Hub) : Hub :=
  (h.pruneDead env).participants.keys.foldl (tickOne env) (h.pruneDead env)

variable (env) in
theorem settings_tickFloor (h : Hub) : (h.tickFloor env).settings = h.settings :=
  settings_ticks env (h.pruneDead env) _

variable (env) in
theorem emits_tickFloor (hw : h.Wf) : Emits HubEvent.Routine h (h.tickFloor env) := by
  have hprune : Emits HubEvent.Routine h (h.pruneDead env) := emits_nothing rfl
  have hdeeds : Deeds env anyFrame (h.pruneDead env) (h.tickFloor env) :=
    deeds_ticks (hw.pruneDead env) _
  exact hprune.trans (Deeds.emits hdeeds)

/-- **A tick announces a quorum that is due**, once. -/
theorem quorums_tick (hw : h.Wf) :
    ((h.tickFloor env).QuorumDue ∧ ∃ detail, quorums h (h.watchdogTick env) = [.quorum detail]) ∨
      (¬(h.tickFloor env).QuorumDue ∧ quorums h (h.watchdogTick env) = []) := by
  obtain ⟨es, hes, hroutine⟩ := (emits_tickFloor env hw).logs
  have hfirst : es.filter (·.isQuorum) = [] := by
    rw [List.filter_eq_nil_iff]
    intro e hmem hq
    have := hroutine e hmem
    cases e with
    | quorum => exact this
    | _ => cases hq
  have hstall : ∃ fs, Logs fs ((h.tickFloor env).checkQuorum env) (h.watchdogTick env) ∧
      fs.filter (·.isQuorum) = [] := by
    rcases checkStall_logs env ((h.tickFloor env).checkQuorum env) with ⟨-, hl⟩ | ⟨-, hl⟩
    · exact ⟨_, hl, rfl⟩
    · exact ⟨_, hl, rfl⟩
  obtain ⟨fs, hfs, hlast⟩ := hstall
  rcases checkQuorum_logs env (h.tickFloor env) with ⟨hdue, detail, hl⟩ | ⟨hnot, hl⟩
  · refine Or.inl ⟨hdue, detail, ?_⟩
    rw [quorums, ((hes.trans hl).trans hfs).new, List.filter_append, List.filter_append, hfirst, hlast]
    rfl
  · refine Or.inr ⟨hnot, ?_⟩
    rw [quorums, ((hes.trans hl).trans hfs).new, List.filter_append, List.filter_append, hfirst, hlast]
    rfl

theorem Polled.same {poll : Option Poll} (hp : Polled h poll)
    (hset : pollOf h'.settings = pollOf h.settings) : Polled h' poll := by
  cases poll with
  | none => exact (congrArg Prod.fst hset).trans hp
  | some q => exact ⟨hset.trans hp.1, hp.2⟩

/-- A quorum is due if the last question has not been announced. -/
theorem Polled.due_iff {poll : Option Poll} (hp : Polled h poll) : h.QuorumDue ↔
    ∃ q, poll = some q ∧ q.announced = false ∧ h.atRest = true ∧
      (∃ p ∈ h.agents, p.name ∈ q.asked) ∧
        ∀ p ∈ h.agents, p.name ∈ q.asked → q.askedAt < p.lastSay := by
  have hsome : ∀ q : Poll, pollOf h.settings = (some q.askedAt, q.asked, q.announced) →
      ((h.expectedAgents ≠ [] ↔ ∃ p ∈ h.agents, p.name ∈ q.asked) ∧
        ((h.expectedAgents.all fun p => q.askedAt < p.lastSay) = true ↔
          ∀ p ∈ h.agents, p.name ∈ q.asked → q.askedAt < p.lastSay)) := by
    intro q hq
    have hasked : h.quorumExpected = q.asked := congrArg (fun x => x.2.1) hq
    have hmem : ∀ p, p ∈ h.expectedAgents ↔ p ∈ h.agents ∧ p.name ∈ q.asked := by
      intro p
      rw [expectedAgents, hasked, List.mem_filter, List.contains_iff_mem]
    constructor
    · rw [ne_eq, List.eq_nil_iff_forall_not_mem, not_forall_not]
      exact exists_congr hmem
    · rw [List.all_eq_true]
      exact forall_congr' fun p => by rw [hmem, and_imp, decide_eq_true_iff]
  cases poll with
  | none =>
    constructor
    · rintro ⟨askedAt, hasked, -⟩
      rw [show h.lastObserverSay = none from hp] at hasked
      cases hasked
    · rintro ⟨q, hq, -⟩
      cases hq
  | some q =>
    obtain ⟨hpoll, -⟩ := hp
    have hat : h.lastObserverSay = some q.askedAt := congrArg Prod.fst hpoll
    have hlatched : h.quorumLatched = q.announced := congrArg (fun x => x.2.2) hpoll
    obtain ⟨hthere, hall⟩ := hsome q hpoll
    constructor
    · rintro ⟨askedAt, hasked, hrest, hnew, hexpected, hanswered⟩
      rw [hat, Option.some.injEq] at hasked
      subst hasked
      exact ⟨q, rfl, hlatched.symm.trans hnew, hrest, hthere.mp hexpected, hall.mp hanswered⟩
    · rintro ⟨q', heq, hnew, hrest, hexpected, hanswered⟩
      obtain rfl := Option.some.inj heq
      exact ⟨q.askedAt, hat, hrest, hlatched.trans hnew, hthere.mpr hexpected, hall.mpr hanswered⟩

theorem map_unannounced (poll : Option Poll) :
    (poll.map fun q => { q with announced := q.announced || !([] : List HubEvent).isEmpty }) = poll := by
  cases poll with
  | none => rfl
  | some q => simp

/-- **One operation** keeps the question. -/
theorem Polled.step (hw : h.Wf) {poll : Option Poll} (hp : Polled h poll) (hnow : 0 ≤ h.now)
    {op : Op F} (hends : h.Ends env op) : Polled (h.attempt env op) (writePoll env poll h op) := by
  rw [writePoll, hends.same]
  by_cases htick : op = .watchdogTick
  · subst htick
    have hset : (h.watchdogTick env).settings = ((h.tickFloor env).checkQuorum env).settings :=
      settings_checkStall env _
    have hfloor := settings_tickFloor env h
    have hfloorPolled : Polled (h.tickFloor env) poll := hp.same (by rw [hfloor])
    show Polled (h.watchdogTick env)
      (poll.map fun q => { q with announced := q.announced || !(quorums h (h.watchdogTick env)).isEmpty })
    rcases quorums_tick hw with ⟨hdue, detail, hq⟩ | ⟨hnot, hq⟩
    · obtain ⟨q, rfl, -⟩ := hfloorPolled.due_iff.mp hdue
      obtain ⟨d, k, rfl, hend⟩ := checkQuorum_due env hdue
      have hlatched : pollOf ((h.tickFloor env).checkQuorum env).settings =
          ((h.tickFloor env).lastObserverSay, (h.tickFloor env).quorumExpected, true) := by
        rcases hend with heq | ⟨title, message, heq⟩
        · rw [heq]
          rfl
        · rw [heq, settings_notify]
          rfl
      have hat : (h.tickFloor env).lastObserverSay = some q.askedAt :=
        congrArg Prod.fst hfloorPolled.1
      have hasked : (h.tickFloor env).quorumExpected = q.asked :=
        congrArg (fun x => x.2.1) hfloorPolled.1
      refine ⟨?_, hp.2⟩
      rw [hset, hlatched, hq, hat, hasked]
      show _ = (some q.askedAt, q.asked, q.announced || true)
      rw [Bool.or_true]
    · rw [hq, map_unannounced]
      rw [checkQuorum_not_due hnot] at hset
      exact hfloorPolled.same (congrArg pollOf hset)
  · have hquorums := quorums_step env hw htick
    have hset := quorum_settings_step env hw hends.fine htick
    rw [hquorums]
    cases hquestion : question env h op with
    | some names =>
      rw [hquestion] at hset
      exact ⟨hset, hnow⟩
    | none =>
      rw [hquestion] at hset
      exact (map_unannounced poll).symm ▸ hp.same hset

/-! ## Runs -/

variable (env) in
/-- The times of the says accepted from the registration `n`, as long as it has lasted. -/
def saidSince (n : Str) (h : Hub) (ops : List (Op F)) : List Rat :=
  (Run.after (Run.withGhost (Hub.attempt env) (writeSaid env n)) ([], h) ops).1

variable (env) in
/-- The last question of a run. -/
def lastPoll (h : Hub) (ops : List (Op F)) : Option Poll :=
  (Run.after (Run.withGhost (Hub.attempt env) (writePoll env)) (none, h) ops).1

variable (env) in
/-- Every agent that was asked and is there has answered, with the floor `k` at rest. -/
def Agreed (k h : Hub) (ops : List (Op F)) : Prop :=
  ∃ q, lastPoll env h ops = some q ∧ q.announced = false ∧
    (∀ p ∈ k.agents, p.state = .idle ∧ p.queue = []) ∧
    (∃ p ∈ k.agents, p.name ∈ q.asked) ∧
    ∀ p ∈ k.agents, p.name ∈ q.asked → ∃ t ∈ saidSince env p.name h ops, q.askedAt < t

theorem atRest_iff (hsome : h.agents ≠ []) :
    h.atRest = true ↔ ∀ p ∈ h.agents, p.state = .idle ∧ p.queue = [] := by
  have hne : h.agents.isEmpty = false := by simpa using hsome
  simp only [atRest, hne, Bool.not_false, Bool.true_and, Bool.and_eq_true, List.all_eq_true,
    decide_eq_true_eq, List.isEmpty_iff]
  constructor
  · exact fun h p hp => ⟨h.1 p hp, h.2 p hp⟩
  · exact fun h => ⟨fun p hp => (h p hp).1, fun p hp => (h p hp).2⟩

theorem get?_of_mem_agents (hn : h.Named) (hp : p ∈ h.agents) : h.get? p.name = some p := by
  obtain ⟨m, hm⟩ := Dict.mem_values_iff.mp (List.mem_filter.mp hp).1
  rw [hn m p hm]
  exact hm

/-- The loop of a tick leaves the last say of whoever is still there. -/
theorem lastSaid_tickFloor (hw : h.Wf) (hp : (h.tickFloor env).get? n = some p) :
    h.lastSaid n = some p.lastSay := by
  have hwp := hw.pruneDead env
  have hlast : (h.tickFloor env).lastSaid n = some p.lastSay := by
    rw [lastSaid, box?_of_get? hp]
    rfl
  have hthere : (h.pruneDead env).box? n ≠ none := by
    intro hnone
    have hgone : (h.tickFloor env).box? n = none :=
      ((passage_ticks env hwp (h.pruneDead env).participants.keys n).absent hnone).1
    rw [box?_of_get? hp] at hgone
    cases hgone
  have hprune : (h.pruneDead env).lastSaid n = h.lastSaid n := by
    rcases box?_pruneDead env h n with hsame | ⟨hnone, -⟩
    · rw [lastSaid, hsame]
      rfl
    · exact absurd hnone hthere
  have hticks : Mum n (h.pruneDead env) (h.tickFloor env) :=
    Deeds.mum hwp (deeds_ticks hwp _)
  rcases hticks with hsame | ⟨hnone, -⟩
  · rw [← hprune, ← hsame, hlast]
  · exact absurd (lastSaid_eq_none_iff.mp hnone) hthere

theorem told_run (n : Str) (records : List MsgRec) (now wall : Rat) (ops : List (Op F))
    (hclean : CleanRun env records ops)
    (hops : Run.Always (Hub.attempt env) Forward (init env records now wall) ops) :
    Told n (saidSince env n (init env records now wall) ops)
      (Run.after (Hub.attempt env) (init env records now wall) ops) :=
  hclean.invariant (I := Told n) now wall (writeSaid env n) hops
    ⟨fun _ => rfl, fun t h => (by cases h), fun s hs => (by cases hs)⟩
    fun _ _ _ hw ht hop hends => ht.step hw hends hop

theorem polled_run (records : List MsgRec) (now wall : Rat) (hnow : 0 ≤ now) (ops : List (Op F))
    (hclean : CleanRun env records ops)
    (hops : Run.Always (Hub.attempt env) Forward (init env records now wall) ops) :
    Polled (Run.after (Hub.attempt env) (init env records now wall) ops)
      (lastPoll env (init env records now wall) ops) :=
  (hclean.invariant (I := fun poll k => 0 ≤ k.now ∧ Polled k poll) (g := none) now wall
    (writePoll env) hops ⟨hnow, rfl⟩
    fun _ _ _ hw hk hop hends =>
      ⟨hk.1.trans (by rw [hends.same]; exact hop.now_le env hw), hk.2.step hw hk.1 hends⟩).2

variable (env) in
/-- **The quorum is exact.**  In every run on clean strings with a clock that starts at zero or later
and does not go back, a tick announces a quorum exactly if every agent that was asked has answered,
and nothing else announces one. -/
theorem quorum_exact (records : List MsgRec) (now wall : Rat) (hnow : 0 ≤ now) (ops : List (Op F))
    (hclean : CleanRun env records ops)
    (hops : Run.Always (Hub.attempt env) Forward (init env records now wall) ops) :
    let h := Run.after (Hub.attempt env) (init env records now wall) ops
    (∀ op : Op F, op ≠ .watchdogTick → op.Clean env → quorums h (h.attempt env op) = []) ∧
      ((Agreed env (h.tickFloor env) (init env records now wall) ops ∧ ∃ detail,
          quorums h (h.attempt env (.watchdogTick : Op F)) = [.quorum detail]) ∨
        (¬Agreed env (h.tickFloor env) (init env records now wall) ops ∧
          quorums h (h.attempt env (.watchdogTick : Op F)) = [])) := by
  intro h
  obtain ⟨hw, hc⟩ : h.Wf ∧ h.Clean := hclean.sound now wall
  refine ⟨fun op htick hop => ?_, ?_⟩
  · rw [(ends_of_clean hclean.time hc op hop).same]
    exact quorums_step env hw htick
  rw [(ends_of_clean hclean.time hc (.watchdogTick : Op F) allClean_nil).same]
  have hpolled := polled_run records now wall hnow ops hclean hops
  have hfloor : Polled (h.tickFloor env) (lastPoll env (init env records now wall) ops) :=
    hpolled.same (by rw [settings_tickFloor])
  have hdeeds : Deeds env anyFrame (h.pruneDead env) (h.tickFloor env) :=
    deeds_ticks (hw.pruneDead env) _
  have hwf : (h.tickFloor env).Wf := Deeds.wf (hw.pruneDead env) hdeeds
  have hiff : (h.tickFloor env).QuorumDue ↔
      Agreed env (h.tickFloor env) (init env records now wall) ops := by
    rw [hfloor.due_iff]
    refine exists_congr fun q => and_congr_right fun hq => and_congr_right fun _ => ?_
    rw [hq] at hfloor
    have hsince : ∀ p ∈ (h.tickFloor env).agents, q.askedAt < p.lastSay ↔
        ∃ t ∈ saidSince env p.name (init env records now wall) ops, q.askedAt < t := by
      intro p hp
      exact (told_run p.name records now wall ops hclean hops).since_iff
        (lastSaid_tickFloor hw (get?_of_mem_agents hwf.named hp)) hfloor.2
    constructor
    · rintro ⟨hrest, ⟨p, hp, hasked⟩, hall⟩
      exact ⟨(atRest_iff (List.ne_nil_of_mem hp)).mp hrest, ⟨p, hp, hasked⟩,
        fun p hp hasked => (hsince p hp).mp (hall p hp hasked)⟩
    · rintro ⟨hidle, ⟨p, hp, hasked⟩, hall⟩
      exact ⟨(atRest_iff (List.ne_nil_of_mem hp)).mpr hidle, ⟨p, hp, hasked⟩,
        fun p hp hasked => (hsince p hp).mpr (hall p hp hasked)⟩
  rw [← hiff]
  exact quorums_tick hw

/-- The operator asks Alice, who answers and is idle again. -/
def askedAndAnswered : List (Op PyJson.Token) :=
  [.handle 0 (helloFrame "op" "observer" []), .handle 1 (helloFrame "alice" "agent" ["idle-events"]),
    .clock 1 1, .handle 0 (sayFrame "alice" "question" "ready?" false), .clock 2 2,
    .handle 1 (sayFrame "op" "answer" "yes" false), .handle 1 (stateFrame "idle")]

theorem quorum_exact_asked :
    let h := Run.after (Hub.attempt .still) (init .still [] 0 0) askedAndAnswered
    Agreed .still (h.tickFloor .still) (init .still [] 0 0) askedAndAnswered ∧
      ∃ detail, quorums h (h.attempt .still (.watchdogTick : Op PyJson.Token)) =
        [.quorum detail] := by
  intro h
  have hrung : quorums h (h.attempt .still (.watchdogTick : Op PyJson.Token)) ≠ [] := by
    decide +kernel
  have hforward : Run.Always (Hub.attempt .still) Forward (init .still [] 0 0) askedAndAnswered := by
    refine ⟨?_, ?_, ?_, ?_, ?_, ?_, ?_, trivial⟩
    · rintro _ _ ⟨⟩
    · rintro _ _ ⟨⟩
    · rintro _ _ ⟨⟩
      decide +kernel
    · rintro _ _ ⟨⟩
    · rintro _ _ ⟨⟩
      decide +kernel
    · rintro _ _ ⟨⟩
    · rintro _ _ ⟨⟩
  rcases (quorum_exact .still [] 0 0 le_rfl askedAndAnswered
    ⟨fun _ => clean_nil, by simp, by decide +kernel⟩ hforward).2 with hdue | ⟨-, hnone⟩
  · exact hdue
  · exact absurd hnone hrung

/-- The same, and the quorum is announced; then the operator asks what cannot be encoded, and Alice
says something else. -/
def askedTwice : List (Op PyJson.Token) :=
  askedAndAnswered ++ [.watchdogTick,
    .handle 0 [(str "t", .str (str "say")), (str "to", .str (str "alice")),
      (str "kind", .str (str "question")), (str "text", .str loneSurrogate), (str "seq", .int 2)],
    .clock 3 3, .handle 1 (sayFrame "op" "answer" "still here" false)]

/-- A question that nobody hears has the quorum announced again. -/
theorem quorum_rearmed_by_surrogate :
    let h := Run.after (Hub.attempt .still) (init .still [] 0 0) askedTwice
    (lastPoll .still (init .still [] 0 0) askedTwice).map Poll.announced = some true ∧
      ¬Agreed .still (h.tickFloor .still) (init .still [] 0 0) askedTwice ∧
      quorums h (h.attempt .still (.watchdogTick : Op PyJson.Token)) ≠ [] := by
  intro h
  have hann : (lastPoll .still (init .still [] 0 0) askedTwice).map Poll.announced = some true := by
    decide +kernel
  refine ⟨hann, ?_, by decide +kernel⟩
  rintro ⟨q, hq, hnew, -⟩
  rw [hq, Option.map_some, hnew] at hann
  cases hann

end

end Hub

end Moot
