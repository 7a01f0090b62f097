import Moot.Hub.Freeze
import Moot.Hub.Memory
import Moot.Hub.Rounds
import Moot.Hub.Speech

/-!
# Observers

An observer is handed what is said while it is said, and nothing is kept for it: the
routing loop queues and buffers for agents alone.  A reclaim changes the kind of a
registration and leaves its mail.

Proved here: `observers_are_kept_clear`, for runs in which no observer reclaims a
registration that holds mail, and `inherited_mail_is_kept`, a run that does not.
-/

namespace Moot
open Py Proto

/-- Nothing is queued or buffered. -/
def Mail.Bare (b : Mail) : Prop := b.queue = [] ∧ b.context.items = []

/-- The deliver frame an effect sends to the client `c`. -/
def Effect.shown? (c : ClientId) : Effect → Option (List Msg)
  | .send _ d _ (.deliver _ ms) => if d = c then some ms else none
  | _ => none

/-- The deliver frames sent to the client `c` in a log. -/
def shownTo (c : ClientId) (log : List Effect) : List (List Msg) := log.filterMap (·.shown? c)

/-- The ids sent to the client `c` in a log. -/
def shownIds (c : ClientId) (log : List Effect) : List Nat := (shownTo c log).flatten.map Msg.id

theorem shownTo_append (c : ClientId) (l l' : List Effect) :
    shownTo c (l ++ l') = shownTo c l ++ shownTo c l' := List.filterMap_append

namespace Hub

/-- No hello. -/
def noHello : Filter := fun _ _ f => ∀ g, f ≠ .hello g

/-- No observer holds mail. -/
def Unburdened (h : Hub) : Prop := ∀ n q, h.get? n = some q → q.isObserver = true → q.mail.Bare

section
variable {env : Env} {h h' : Hub} {n : Str} {q : Participant}

/-! ## The strokes, seen from an observer -/

/-- A stroke that no hello makes keeps the registry, or somebody leaves. -/
theorem Stroke.roster_or_left (hw : h.Wf) (hs : Stroke env noHello Set.univ h h') :
    (h.Roster h' ∧ h.msgCounter ≤ h'.msgCounter) ∨
      ∃ m p, h.get? m = some p ∧ h' = (h.leave env m p).checkSessionDone env := by
  have hk : ∀ {S T : Set Str} {k : Hub}, Keeps S T True h k →
      (h.Roster k ∧ h.msgCounter ≤ k.msgCounter) ∨
        ∃ m p, h.get? m = some p ∧ k = (h.leave env m p).checkSessionDone env :=
    fun hk => Or.inl ⟨hk.toRoster, hk.counter⟩
  cases hs with
  | talk ht => exact hk (S := ∅) (T := ∅) ht.toQuiet.keeps
  | aside ha => exact hk (S := ∅) (T := ∅) ha.keeps
  | event e skip => exact hk (S := ∅) (T := ∅) (keeps_emitEvent env h e skip (Or.inl trivial))
  | declared _ hA => exact absurd rfl (hA _)
  | touched hg => exact hk (S := ∅) (T := ∅) (keeps_alike h _ hg)
  | reported => exact hk (keeps_modify h _ (fun _ => ⟨rfl, rfl, rfl, rfl, rfl⟩) (Or.inl trivial))
  | inferred => exact hk (keeps_setIdle h _)
  | flushed => exact hk (keeps_flushQueue env hw.named _)
  | @accepted _ p _ f =>
    have hrem := roster_remember env h p f
    have hroute := keeps_route env (E := True) (hrem.named hw.named) (h.sayMsg p f)
    refine Or.inl ⟨hrem.trans hroute.toRoster, le_trans ?_ hroute.counter⟩
    rw [counter_remember]
    exact Nat.le_succ _
  | wentOn => exact hk (S := ∅) (T := ∅) (keeps_setFinished h _ false)
  | finished => exact hk (S := ∅) (T := ∅) (keeps_markDone env h _)
  | @commanded _ _ c =>
    refine Or.inl ⟨roster_flags h c, le_of_eq ?_⟩
    cases c <;> rfl
  | noted m => exact hk (keeps_systemNote env hw.named _ m)
  | goalTold => exact hk (keeps_bufferGoal h _)
  | left hp => exact Or.inr ⟨_, _, hp, rfl⟩
  | enrolled _ _ hA => exact absurd rfl (hA _)
  | caughtUp _ _ hA => exact absurd rfl (hA _)

theorem Stroke.back (hw : h.Wf) (hs : Stroke env noHello Set.univ h h') {q' : Participant}
    (hq' : h'.get? n = some q') : ∃ q, h.get? n = some q ∧ q'.Same q := by
  rcases hs.roster_or_left hw with ⟨hr, -⟩ | ⟨m, p, hp, rfl⟩
  · exact hr.back hq'
  · have hdone : Keeps ∅ ∅ True (h.leave env m p) ((h.leave env m p).checkSessionDone env) :=
      keeps_checkSessionDone env _
    obtain ⟨q, hq, hs⟩ := hdone.toRoster.back hq'
    refine ⟨q, ?_, hs⟩
    rw [get?_leave] at hq
    split at hq
    · cases hq
    · exact hq

theorem Stroke.le (hw : h.Wf) (hs : Stroke env noHello Set.univ h h') : h.wire.Le h'.wire := by
  rcases hs.roster_or_left hw with ⟨hr, -⟩ | ⟨m, p, -, rfl⟩
  · exact hr.wire
  · have hdone : Keeps ∅ ∅ True (h.leave env m p) ((h.leave env m p).checkSessionDone env) :=
      keeps_checkSessionDone env _
    exact (le_leave env h m p).trans hdone.wire

theorem Stroke.counter (hw : h.Wf) (hs : Stroke env noHello Set.univ h h') :
    h.msgCounter ≤ h'.msgCounter := by
  rcases hs.roster_or_left hw with ⟨-, hcount⟩ | ⟨m, p, -, rfl⟩
  · exact hcount
  · have hdone : Keeps ∅ ∅ True (h.leave env m p) ((h.leave env m p).checkSessionDone env) :=
      keeps_checkSessionDone env _
    exact hdone.counter

/-- What becomes of the mail of `n`, and the frames it is handed. -/
structure Handed (n : Str) (q : Participant) (fs : List (List Msg)) (h h' : Hub) : Prop where
  mail : ∀ q', h'.get? n = some q' → q'.mail = q.mail
  delivered : deliveries n h'.wire.log = deliveries n h.wire.log ++ fs

theorem Keeps.handed {S T : Set Str} {E : Prop} (hk : Keeps S T E h h') (hS : n ∉ S) (hT : n ∉ T)
    (hq : h.get? n = some q) : Handed n q [] h h' := by
  refine ⟨fun q' hq' => (hk.calm n hS q q' hq hq').mail, ?_⟩
  rw [hk.delivered n hT, List.append_nil]

theorem handed_modify (hq : h.get? n = some q) (m : Str) {g : Participant → Participant}
    (hmail : ∀ p, (g p).mail = p.mail) : Handed n q [] h (h.modify m g) := by
  refine ⟨fun q' hq' => ?_, (List.append_nil _).symm⟩
  by_cases hm : n = m
  · subst hm
    rw [get?_modify_self, hq, Option.map_some, Option.some.injEq] at hq'
    rw [← hq', hmail]
  · rw [get?_modify_of_ne _ hm, hq, Option.some.injEq] at hq'
    rw [hq']

/-- The routing of an accepted say, seen from an observer. -/
theorem handed_accepted (hn : h.Named) (hq : h.get? n = some q) (hobs : q.isObserver = true)
    (p : Participant) (f : Say) :
    Handed n q (if n ≠ p.name ∧ h.up q.client = true then
      [[(h.sayMsg p f).tag (q.addressing f.addressee)]] else []) h
      ((h.remember env p f).route env (h.sayMsg p f)).1 := by
  obtain ⟨q₁, hq₁, hcalm, -, -⟩ := get?_remember env p f hq
  have hr := route_spec env ((roster_remember env h p f).named hn) (h.sayMsg p f) hq₁
  have hobs₁ : q₁.isObserver = true := hcalm.isObserver.trans hobs
  refine ⟨fun q' hq' => ?_, ?_⟩
  · obtain ⟨q₂, hq₂, -, hmail, -⟩ := hr.get?
    rw [hq', Option.some.injEq] at hq₂
    have hidle : routeActs (h.remember env p f).up (h.sayMsg p f) q₁ = [] := by
      unfold routeActs
      exact if_pos (Or.inr hobs₁)
    rw [hq₂, hmail, mail_routeOne, hidle, Mail.play_nil, hcalm.mail]
  · rw [hr.delivered, deliveries_remember, observed_routeOne _ _ hobs₁, up_remember, hcalm.client,
      hcalm.toSame.addressing, hcalm.name, hn n q hq]
    show _ ++ List.map sortById (if n ≠ p.name ∧ h.up q.client = true then
      [[(h.sayMsg p f).tag (q.addressing f.addressee)]] else []) = _
    split_ifs <;> rfl

/-- **A stroke, seen from an observer that holds no mail.** -/
theorem Stroke.handed (hw : h.Wf) (hs : Stroke env noHello Set.univ h h') (hq : h.get? n = some q)
    (hobs : q.isObserver = true) (hbare : q.mail.Bare) :
    Handed n q [] h h' ∨
      ∃ m, h.msgCounter < m.id ∧ m.id ≤ h'.msgCounter ∧ Handed n q [[m]] h h' := by
  have hquiet : ∀ {k : Hub}, Keeps ∅ ∅ True h k → Handed n q [] h k := fun hk =>
    hk.handed (Set.notMem_empty n) (Set.notMem_empty n) hq
  have hown : ∀ {S T : Set Str} {k : Hub} {m : Str}, S = {m} → T = {m} → m ≠ n →
      Keeps S T True h k → Handed n q [] h k := by
    rintro S T k m rfl rfl hm hk
    exact hk.handed (fun hc => hm hc.symm) (fun hc => hm hc.symm) hq
  cases hs with
  | talk ht => exact Or.inl (hquiet ht.toQuiet.keeps)
  | aside ha => exact Or.inl (hquiet ha.keeps)
  | event e skip => exact Or.inl (hquiet (keeps_emitEvent env h e skip (Or.inl trivial)))
  | declared _ hA => exact absurd rfl (hA _)
  | touched hg => exact Or.inl (handed_modify hq _ fun p => (hg p).mail)
  | reported => exact Or.inl (handed_modify hq _ fun _ => rfl)
  | inferred => exact Or.inl (handed_modify hq _ fun _ => rfl)
  | @flushed m p hp =>
    by_cases hm : m = n
    · -- an observer's queue is empty
      subst hm
      have hskip : q.queue = [] := hbare.1
      rw [flushQueue_skip env hq (Or.inl hskip)]
      exact Or.inl (hquiet (.refl h))
    · exact Or.inl (hown rfl rfl hm (keeps_flushQueue env hw.named m))
  | @accepted m p r f hr hsame hopen hA =>
    have hcount : h.msgCounter + 1 ≤ ((h.remember env p f).route env (h.sayMsg p f)).1.msgCounter := by
      rw [← counter_remember env h p f]
      exact (keeps_route env (E := True) ((roster_remember env h p f).named hw.named) _).counter
    have hh := @handed_accepted env h n q hw.named hq hobs p f
    split at hh
    · exact Or.inr ⟨_, Nat.lt_succ_self h.msgCounter, hcount, hh⟩
    · exact Or.inl hh
  | wentOn => exact Or.inl (handed_modify hq _ fun _ => rfl)
  | finished => exact Or.inl (hquiet (keeps_markDone env h _))
  | @commanded _ _ c =>
    refine Or.inl ⟨fun q' hq' => ?_, ?_⟩
    · have hsame : (h.flags env c).get? n = h.get? n := by cases c <;> rfl
      rw [hsame, hq, Option.some.injEq] at hq'
      rw [hq']
    · rw [List.append_nil]
      cases c <;> rfl
  | @noted _ _ _ _ text m =>
    by_cases hm : m = n
    · subst hm
      rw [systemNote_skip env text (by simp [hasAgent, hq, hobs])]
      exact Or.inl (hquiet (.refl h))
    · exact Or.inl (hown rfl rfl hm (keeps_systemNote env hw.named text m))
  | goalTold =>
    refine Or.inl ⟨fun q' hq' => ?_, (List.append_nil _).symm⟩
    rw [bufferGoal, get?_mapParticipants, hq, Option.map_some, Option.some.injEq, if_pos hobs] at hq'
    rw [hq']
  | @left m p hp =>
    have hdone : Keeps ∅ ∅ True (h.leave env m p) ((h.leave env m p).checkSessionDone env) :=
      keeps_checkSessionDone env _
    refine Or.inl ⟨fun q' hq' => ?_, ?_⟩
    · obtain ⟨q₁, hq₁, -⟩ := hdone.toRoster.back hq'
      have hmail := (hdone.calm n (Set.notMem_empty n) q₁ q' hq₁ hq').mail
      rw [get?_leave] at hq₁
      split at hq₁
      · cases hq₁
      · rw [hq, Option.some.injEq] at hq₁
        rw [hmail, hq₁]
    · rw [hdone.delivered n (Set.notMem_empty n), deliveries_leave, List.append_nil]
  | enrolled _ _ hA => exact absurd rfl (hA _)
  | caughtUp _ _ hA => exact absurd rfl (hA _)

/-! ## No observer holds mail -/

theorem Unburdened.stroke (hu : h.Unburdened) (hw : h.Wf) (hs : Stroke env noHello Set.univ h h') :
    h'.Unburdened := by
  intro n q' hq' hobs
  obtain ⟨q, hq, hsame⟩ := hs.back hw hq'
  rw [hsame.isObserver] at hobs
  have hbare := hu n q hq hobs
  rcases hs.handed hw hq hobs hbare with hh | ⟨m, -, -, hh⟩
  · rw [hh.mail q' hq']
    exact hbare
  · rw [hh.mail q' hq']
    exact hbare

theorem Unburdened.keeps {E : Prop} (hu : h.Unburdened) (hk : Keeps ∅ ∅ E h h') :
    h'.Unburdened := by
  intro n q' hq' hobs
  obtain ⟨q, hq, hsame⟩ := hk.back hq'
  rw [(hk.calm n (Set.notMem_empty n) q q' hq hq').mail]
  exact hu n q hq (by rw [← hsame.isObserver]; exact hobs)

theorem Unburdened.declareRoom (hu : h.Unburdened) (g : Hello) : (h.declareRoom g).Unburdened := by
  have hroom : Keeps ∅ ∅ True h (h.declareRoom g) := keeps_declareRoom h g
  exact hu.keeps hroom

/-- An observer takes over no mail. -/
def Unladen (h : Hub) (g : Hello) : Prop :=
  g.kind = observerKind → ∀ q, h.box? g.name = some q → q.mail.Bare

/-- The registration a hello finds is the one it had at first, with its mail. -/
theorem Vacant.still {c : ClientId} {g : Hello} {k : Hub} (hk : Vacant env h c g k) (n : Str) :
    Still n h k := by
  have hroom : Keeps ∅ ∅ True (h.reap env g.name) ((h.reap env g.name).declareRoom g) :=
    keeps_declareRoom _ g
  rw [hk.ready]
  exact (still_reap env h g.name n).trans hroom.quietStill

theorem Vacant.unladen {c : ClientId} {g : Hello} {k : Hub} (hk : Vacant env h c g k)
    (hl : h.Unladen g) : k.Unladen g := by
  intro hkind q hq
  cases hq₀ : h.box? g.name with
  | none =>
    rw [(hk.still g.name).absent hq₀] at hq
    cases hq
  | some q₀ =>
    obtain ⟨q₁, hq₁, -, -, hmail⟩ := (hk.still g.name).same q₀ hq₀
    rw [hq, Option.some.injEq] at hq₁
    rw [hq₁, hmail]
    exact hl hkind q₀ hq₀

section
variable {k : Hub} {c : ClientId} {g : Hello}

/-- The registration of a hello does not touch the mail of the others. -/
theorem register_other (hk : Vacant env h c g k) (hn : n ≠ g.name) {q' : Participant}
    (hq' : (k.register env c g).get? n = some q') :
    ∃ q, k.get? n = some q ∧ q'.Same q ∧ q'.mail = q.mail := by
  have hkeep : Keeps {g.name} {g.name} True (k.enroll c g.name (admitted env k c g))
      (k.register env c g) := keeps_register env hk.wf hk.name g
  obtain ⟨q, hq, hs⟩ := hkeep.back hq'
  exact ⟨q, (get?_enroll_of_ne k c hn _).symm.trans hq, hs, (hkeep.calm n hn q q' hq hq').mail⟩

/-- An observer joins without mail, and is handed the backlog. -/
theorem register_observer (hk : Vacant env h c g k) (hkind : g.kind = observerKind)
    (hl : k.Unladen g) : ∃ q', (k.register env c g).get? g.name = some q' ∧ q'.isObserver = true ∧
      q'.mail.Bare ∧ deliveries g.name (k.register env c g).wire.log =
        deliveries g.name k.wire.log ++ backlogFrames env q' k.recent := by
  cases hd : k.dead.get? g.name with
  | none =>
    obtain ⟨q', hq', -, hkind', hmail, hdel⟩ := (joined_register env hk.wf hk.name hd).acts
    have hobs : q'.isObserver = true := by simp [Participant.isObserver, hkind', hkind]
    rw [hobs, if_pos rfl, Mail.play_nil] at hmail
    exact ⟨q', hq', hobs, by rw [hmail]; exact ⟨rfl, rfl⟩, hdel⟩
  | some q =>
    obtain ⟨as, q', hq', -, hkind', has, hmail, hdel⟩ :=
      (reclaimed_register env hk.wf hk.name hd).acts
    have hbare : q.mail.Bare := hl hkind q (by rw [box?_of_none hk.free, hd])
    have hnil : as = [] := has.resolve_right fun h => h.2 hbare.1
    rw [hnil, Mail.play_nil] at hmail
    rw [hnil, Mail.playFrames_nil, List.append_nil] at hdel
    exact ⟨q', hq', by simp [Participant.isObserver, hkind', hkind], by rw [hmail]; exact hbare, hdel⟩

theorem Unburdened.register (hu : k.Unburdened) (hk : Vacant env h c g k) (hl : k.Unladen g) :
    (k.register env c g).Unburdened := by
  intro n q' hq' hobs
  by_cases hn : n = g.name
  · subst hn
    have hkind : g.kind = observerKind := by
      have hkeep : Keeps {g.name} {g.name} True (k.enroll c g.name (admitted env k c g))
          (k.register env c g) := keeps_register env hk.wf hk.name g
      obtain ⟨q, hq, hs⟩ := hkeep.back hq'
      rw [get?_enroll_self, Option.some.injEq] at hq
      rw [hs.isObserver, ← hq] at hobs
      simpa [Participant.isObserver, admitted_kind env k c g] using hobs
    obtain ⟨q, hq, -, hbare, -⟩ := register_observer hk hkind hl
    rw [hq', Option.some.injEq] at hq
    rw [hq]
    exact hbare
  · obtain ⟨q, hq, hs, hmail⟩ := register_other hk hn hq'
    rw [hmail]
    exact hu n q hq (by rw [← hs.isObserver]; exact hobs)

end

variable {F : Type} [PyJson.PyFloat F]

variable (env) in
/-- An observer that registers takes over no mail. -/
def JoinsBare (h : Hub) (op : Op F) : Prop :=
  ∀ c g, SaysHello env op c g → h.Admits c g → h.Unladen g

theorem meets_noHello {c : ClientId} {f : Inbound} (hf : ∀ g, f ≠ .hello g) : h.Meets noHello c f := by
  cases f with
  | hello g => exact absurd rfl (hf g)
  | _ => exact fun _ _ => hf

theorem Unburdened.step (hu : h.Unburdened) (hw : h.Wf) {op : Op F} (hop : JoinsBare env h op) :
    (h.step env op).Unburdened := by
  have hI : Handled env noHello Unburdened := Strokes.rule fun _ _ hw hs hu => hu.stroke hw hs
  refine hI.except (fun k f hk => hk.declareRoom f) hw hu (fun c frame f _ _ hf => meets_noHello hf)
    ?_ (fun _ => hu) (fun _ _ _ => hu)
  intro c g hg hadmits k hk hIk
  exact hIk.register hk (hk.unladen (hop c g hg hadmits))

/-! ## Whom the frames are sent to -/

section
variable {P : Str → Prop} {k : Hub}

/-- What `n` is handed goes to the client that holds the name. -/
theorem shownTo_holder (hw : k.Wf) {w : Wire} (hm : Mentions P k.Holds w h'.wire)
    (hq : k.get? n = some q) {fs : List (List Msg)}
    (hdel : deliveries n h'.wire.log = deliveries n w.log ++ fs) :
    shownTo q.client h'.wire.log = shownTo q.client w.log ++ fs := by
  obtain ⟨es, hes, hfits⟩ := hm
  rw [hes, deliveries_append, List.append_cancel_left_eq] at hdel
  rw [hes, shownTo_append, List.append_cancel_left_eq, ← hdel]
  refine List.filterMap_congr fun e he => ?_
  have hfit := hfits e he
  cases e with
  | send m d up f =>
    cases f with
    | deliver round ms =>
      obtain ⟨p, hp, rfl⟩ := (show k.Holds m d from hfit)
      by_cases hmn : m = n
      · subst hmn
        rw [hq, Option.some.injEq] at hp
        simp [Effect.shown?, Effect.delivery?, hp]
      · have hne : p.client ≠ q.client := fun heq => hmn (hw.client_inj hp hq heq)
        simp [Effect.shown?, Effect.delivery?, hmn, hne]
    | _ => rfl
  | _ => rfl

/-- A client that holds no name is handed nothing. -/
theorem shownTo_stranger {w : Wire} (hm : Mentions P k.Holds w h'.wire) {c : ClientId}
    (hfree : ∀ m p, k.get? m = some p → p.client ≠ c) :
    shownTo c h'.wire.log = shownTo c w.log := by
  obtain ⟨es, hes, hfits⟩ := hm
  rw [hes, shownTo_append, List.append_right_eq_self]
  refine List.filterMap_eq_nil_iff.mpr fun e he => ?_
  have hfit := hfits e he
  cases e with
  | send m d up f =>
    cases f with
    | deliver round ms =>
      obtain ⟨p, hp, rfl⟩ := (show k.Holds m d from hfit)
      exact if_neg (hfree m p hp)
    | _ => rfl
  | _ => rfl

end

theorem Stroke.shown (hw : h.Wf) (hs : Stroke env noHello Set.univ h h') :
    Mentions (fun _ => True) h.Holds h.wire h'.wire :=
  hs.mentions hw (fun _ _ _ => trivial) fun _ _ => trivial

/-- The client `c` is an observer's, or was, and what it was sent came in order. -/
structure Watcher (c : ClientId) (h : Hub) : Prop where
  named : (h.wire.clients c).name ≠ []
  observer : ∀ n q, h.get? n = some q → q.client = c → q.isObserver = true
  ids : (shownIds c h.wire.log).Pairwise (· < ·)
  taken : ∀ i ∈ shownIds c h.wire.log, i ≤ h.msgCounter

/-- A client without a name was sent nothing, and the observers were sent all in order. -/
structure Attended (h : Hub) : Prop where
  unnamed : ∀ c, (h.wire.clients c).name = [] → shownTo c h.wire.log = []
  watching : ∀ n q, h.get? n = some q → q.isObserver = true → Watcher q.client h

section
variable {c : ClientId}

theorem Watcher.stroke (hc : Watcher c h) (hu : h.Unburdened) (hw : h.Wf)
    (hs : Stroke env noHello Set.univ h h') : Watcher c h' := by
  have hcount := hs.counter hw
  have hids : (shownIds c h'.wire.log).Pairwise (· < ·) ∧
      ∀ i ∈ shownIds c h'.wire.log, i ≤ h'.msgCounter := by
    by_cases hheld : ∃ n q, h.get? n = some q ∧ q.client = c
    · obtain ⟨n, q, hq, rfl⟩ := hheld
      have hobs := hc.observer n q hq rfl
      rcases hs.handed hw hq hobs (hu n q hq hobs) with hh | ⟨m, hnew, hold, hh⟩
      · have hshown := shownTo_holder hw (hs.shown hw) hq hh.delivered
        rw [shownIds, hshown, List.append_nil]
        exact ⟨hc.ids, fun i hi => (hc.taken i hi).trans hcount⟩
      · have hshown := shownTo_holder hw (hs.shown hw) hq hh.delivered
        have heq : shownIds q.client h'.wire.log = shownIds q.client h.wire.log ++ [m.id] := by
          rw [shownIds, hshown, List.flatten_append, List.map_append]
          rfl
        rw [heq]
        refine ⟨List.pairwise_append.mpr ⟨hc.ids, List.pairwise_singleton _ _, ?_⟩, ?_⟩
        · intro i hi j hj
          rw [List.mem_singleton.mp hj]
          exact Nat.lt_of_le_of_lt (hc.taken i hi) hnew
        · intro i hi
          rcases List.mem_append.mp hi with hi | hi
          · exact (hc.taken i hi).trans hcount
          · rw [List.mem_singleton.mp hi]
            exact hold
    · have hshown := shownTo_stranger (hs.shown hw) (c := c)
        fun m p hp heq => hheld ⟨m, p, hp, heq⟩
      rw [shownIds, hshown]
      exact ⟨hc.ids, fun i hi => (hc.taken i hi).trans hcount⟩
  refine ⟨?_, fun n q' hq' hcl => ?_, hids.1, hids.2⟩
  · rw [(hs.le hw).name c]
    exact hc.named
  · obtain ⟨q, hq, hsame⟩ := hs.back hw hq'
    rw [hsame.isObserver]
    exact hc.observer n q hq (hsame.client.symm.trans hcl)

end

theorem Attended.stroke (ha : h.Attended) (hu : h.Unburdened) (hw : h.Wf)
    (hs : Stroke env noHello Set.univ h h') : h'.Attended := by
  refine ⟨fun c hc => ?_, fun n q' hq' hobs => ?_⟩
  · rw [(hs.le hw).name c] at hc
    rw [shownTo_stranger (hs.shown hw) fun m p hp heq => ?_, ha.unnamed c hc]
    have hname := hw.owns m p hp
    rw [heq, hc] at hname
    exact hw.proper m p hp hname.symm
  · obtain ⟨q, hq, hsame⟩ := hs.back hw hq'
    rw [hsame.isObserver] at hobs
    rw [hsame.client]
    exact (ha.watching n q hq hobs).stroke hu hw hs

/-! ## Joining -/

/-- The backlog frame of an observer is in order, and its ids are taken. -/
theorem ids_backlogFrames (hr : h.Recalls) (q : Participant) :
    ((backlogFrames env q h.recent).flatten.map Msg.id).Pairwise (· < ·) ∧
      ∀ i ∈ (backlogFrames env q h.recent).flatten.map Msg.id, i ≤ h.msgCounter := by
  unfold backlogFrames
  split
  · exact ⟨.nil, nofun⟩
  · generalize hms : (backlog env q.name true h.recent).map
      (fun m => m.tag (q.addressing m.addressee)) = ms
    have hids : ms.map Msg.id = (backlog env q.name true h.recent).map Msg.id := by
      rw [← hms, List.map_map]
      rfl
    have hsub := ids_backlog env q.name true h.recent
    have hperm := (sortById_perm ms).map Msg.id
    rw [List.flatten_singleton]
    refine ⟨?_, fun i hi => ?_⟩
    · have hnodup : ((sortById ms).map Msg.id).Nodup := by
        rw [hperm.nodup_iff, hids]
        exact ((hr.ascending.sublist hsub).imp fun hlt => Nat.ne_of_lt hlt)
      have hle : ((sortById ms).map Msg.id).Pairwise (· ≤ ·) :=
        List.pairwise_map.mpr (sortById_sorted ms)
      exact (hle.and hnodup).imp fun hboth => Nat.lt_of_le_of_ne hboth.1 hboth.2
    · rw [hperm.mem_iff, hids] at hi
      obtain ⟨r, hmem, rfl⟩ := List.mem_map.mp (hsub.subset hi)
      exact hr.taken r hmem

section
variable {k : Hub} {c d : ClientId} {g : Hello}

theorem name_enroll (k : Hub) (c d : ClientId) (n : Str) (p : Participant) :
    ((k.enroll c n p).wire.clients d).name = if d = c then n else (k.wire.clients d).name := by
  by_cases hd : d = c
  · subst hd
    simp [Hub.enroll]
  · simp [Hub.enroll, hd]

theorem name_register (hk : Vacant env h c g k) (d : ClientId) :
    ((k.register env c g).wire.clients d).name =
      if d = c then g.name else (k.wire.clients d).name := by
  have hkeep : Keeps {g.name} {g.name} True (k.enroll c g.name (admitted env k c g))
      (k.register env c g) := keeps_register env hk.wf hk.name g
  rw [hkeep.wire.name d, name_enroll]

/-- Only the name of the hello is handed something. -/
theorem delivered_register (hk : Vacant env h c g k) (hn : n ≠ g.name) :
    deliveries n (k.register env c g).wire.log = deliveries n k.wire.log := by
  have hkeep : Keeps {g.name} {g.name} True (k.enroll c g.name (admitted env k c g))
      (k.register env c g) := keeps_register env hk.wf hk.name g
  exact hkeep.delivered n hn

theorem shown_register (hk : Vacant env h c g k) :
    Mentions (fun _ => True) (k.enroll c g.name (admitted env k c g)).Holds k.wire
      (k.register env c g).wire := mentions_register env hk.wf hk.name trivial

theorem Vacant.enrolled (hk : Vacant env h c g k) :
    (k.enroll c g.name (admitted env k c g)).Wf :=
  hk.wf.enroll hk.name (admitted_name env hk.wf c g) (nameRe_ne_nil g.name_ok.2)
    (admitted_client env k c g)

/-- The registration of another client, seen from a client that has a name. -/
theorem shownTo_register (hk : Vacant env h c g k) (hd : d ≠ c) :
    shownTo d (k.register env c g).wire.log = shownTo d k.wire.log := by
  by_cases hheld : ∃ n q, (k.enroll c g.name (admitted env k c g)).get? n = some q ∧ q.client = d
  · obtain ⟨n, q, hq, rfl⟩ := hheld
    have hn : n ≠ g.name := by
      rintro rfl
      rw [get?_enroll_self, Option.some.injEq] at hq
      rw [← hq, admitted_client] at hd
      exact hd rfl
    have hdel := delivered_register hk hn
    rw [← List.append_nil (deliveries n k.wire.log)] at hdel
    rw [shownTo_holder hk.enrolled (shown_register hk) hq hdel, List.append_nil]
  · exact shownTo_stranger (shown_register hk) fun m p hp heq => hheld ⟨m, p, hp, heq⟩

theorem Watcher.register (hd : Watcher d k) (hk : Vacant env h c g k) :
    Watcher d (k.register env c g) := by
  have hkeep : Keeps {g.name} {g.name} True (k.enroll c g.name (admitted env k c g))
      (k.register env c g) := keeps_register env hk.wf hk.name g
  have hne : d ≠ c := fun heq => hd.named (by rw [heq]; exact hk.name)
  have hshown := shownTo_register hk hne
  refine ⟨?_, fun n q' hq' hcl => ?_, ?_, fun i hi => ?_⟩
  · rw [name_register hk d, if_neg hne]
    exact hd.named
  · by_cases hn : n = g.name
    · subst hn
      obtain ⟨q, hq, hs⟩ := hkeep.back hq'
      rw [get?_enroll_self, Option.some.injEq] at hq
      rw [hs.client, ← hq, admitted_client] at hcl
      exact absurd hcl.symm hne
    · obtain ⟨q, hq, hs, -⟩ := register_other hk hn hq'
      rw [hs.isObserver]
      exact hd.observer n q hq (hs.client.symm.trans hcl)
  · rw [shownIds, hshown]
    exact hd.ids
  · rw [shownIds, hshown] at hi
    exact (hd.taken i hi).trans hkeep.counter

/-- An observer that joins is a watcher. -/
theorem watcher_register (hk : Vacant env h c g k) (ha : k.Attended) (hr : k.Recalls)
    (hkind : g.kind = observerKind) (hl : k.Unladen g) : Watcher c (k.register env c g) := by
  have hkeep : Keeps {g.name} {g.name} True (k.enroll c g.name (admitted env k c g))
      (k.register env c g) := keeps_register env hk.wf hk.name g
  have hself : (k.enroll c g.name (admitted env k c g)).get? g.name = some (admitted env k c g) :=
    get?_enroll_self ..
  obtain ⟨q', hq', hobs, -, hdel⟩ := register_observer hk hkind hl
  obtain ⟨q, hq, hs⟩ := hkeep.back hq'
  rw [hself, Option.some.injEq] at hq
  have hclient : q'.client = c := by rw [hs.client, ← hq, admitted_client]
  have hids := @ids_backlogFrames env k hr q'
  have hshown := shownTo_holder hk.enrolled (shown_register hk) hself hdel
  rw [admitted_client, ha.unnamed c hk.name, List.nil_append] at hshown
  refine ⟨?_, fun n p hp hcl => ?_, ?_, fun i hi => ?_⟩
  · rw [name_register hk c, if_pos rfl]
    exact nameRe_ne_nil g.name_ok.2
  · have hn := (hk.enrolled.keeps hkeep).client_inj hp hq' (hcl.trans hclient.symm)
    subst hn
    rw [hq', Option.some.injEq] at hp
    rw [← hp]
    exact hobs
  · rw [shownIds, hshown]
    exact hids.1
  · rw [shownIds, hshown] at hi
    exact (hids.2 i hi).trans hkeep.counter

theorem Attended.register (ha : k.Attended) (hk : Vacant env h c g k) (hr : k.Recalls)
    (hl : k.Unladen g) : (k.register env c g).Attended := by
  have hkeep : Keeps {g.name} {g.name} True (k.enroll c g.name (admitted env k c g))
      (k.register env c g) := keeps_register env hk.wf hk.name g
  refine ⟨fun d hd => ?_, fun n q' hq' hobs => ?_⟩
  · rw [name_register hk d] at hd
    split at hd
    · exact absurd hd (nameRe_ne_nil g.name_ok.2)
    · next hne =>
      rw [shownTo_register hk hne]
      exact ha.unnamed d hd
  · by_cases hn : n = g.name
    · subst hn
      obtain ⟨q, hq, hs⟩ := hkeep.back hq'
      rw [get?_enroll_self, Option.some.injEq] at hq
      have hkind : g.kind = observerKind := by
        rw [hs.isObserver, ← hq] at hobs
        simpa [Participant.isObserver, admitted_kind env k c g] using hobs
      rw [hs.client, ← hq, admitted_client]
      exact watcher_register hk ha hr hkind hl
    · obtain ⟨q, hq, hs, -⟩ := register_other hk hn hq'
      rw [hs.client]
      exact (ha.watching n q hq (by rw [← hs.isObserver]; exact hobs)).register hk

end

/-! ## Steps -/

theorem Vacant.recalls {k : Hub} {c : ClientId} {g : Hello} (hk : Vacant env h c g k)
    (hr : h.Recalls) : k.Recalls := by
  have hstill := hk.still g.name
  refine ⟨by rw [hstill.recent]; exact hr.ascending, fun r hmem => ?_⟩
  rw [hstill.recent] at hmem
  exact (hr.taken r hmem).trans hstill.counter

theorem shownTo_declareRoom (h : Hub) (g : Hello) (c : ClientId) :
    shownTo c (h.declareRoom g).wire.log = shownTo c h.wire.log := by
  unfold declareRoom
  split
  · exact (shownTo_append c _ _).trans (List.append_nil _)
  · rfl

theorem Watcher.declareRoom {c : ClientId} (hc : Watcher c h) (g : Hello) :
    Watcher c (h.declareRoom g) := by
  have hroom : Keeps ∅ ∅ True h (h.declareRoom g) := keeps_declareRoom h g
  have hshown := shownTo_declareRoom h g c
  refine ⟨?_, fun n q' hq' hcl => ?_, ?_, fun i hi => ?_⟩
  · rw [hroom.wire.name c]
    exact hc.named
  · obtain ⟨q, hq, hs⟩ := hroom.back hq'
    rw [hs.isObserver]
    exact hc.observer n q hq (hs.client.symm.trans hcl)
  · rw [shownIds, hshown]
    exact hc.ids
  · rw [shownIds, hshown] at hi
    exact (hc.taken i hi).trans hroom.counter

theorem Attended.declareRoom (ha : h.Attended) (g : Hello) : (h.declareRoom g).Attended := by
  have hroom : Keeps ∅ ∅ True h (h.declareRoom g) := keeps_declareRoom h g
  refine ⟨fun c hc => ?_, fun n q' hq' hobs => ?_⟩
  · rw [hroom.wire.name c] at hc
    rw [shownTo_declareRoom]
    exact ha.unnamed c hc
  · obtain ⟨q, hq, hs⟩ := hroom.back hq'
    rw [hs.client]
    exact (ha.watching n q hq (by rw [← hs.isObserver]; exact hobs)).declareRoom g

theorem Attended.step (ha : h.Attended) (hu : h.Unburdened) (hr : h.Recalls) (hw : h.Wf)
    {op : Op F} (hop : JoinsBare env h op) : (h.step env op).Attended := by
  have hI : Handled env noHello fun k => k.Unburdened ∧ k.Attended :=
    Strokes.rule fun _ _ hw hs hk => ⟨hk.1.stroke hw hs, hk.2.stroke hk.1 hw hs⟩
  refine (hI.except (fun k f hk => ⟨hk.1.declareRoom f, hk.2.declareRoom f⟩) hw ⟨hu, ha⟩
    (fun c frame f _ _ hf => meets_noHello hf) (fun c g hg hadmits k hk hIk => ?_)
    (fun _ => ⟨hu, ⟨ha.unnamed, fun n q hq hobs => ?_⟩⟩)
    fun _ _ _ => ⟨hu, ⟨ha.unnamed, fun n q hq hobs => ?_⟩⟩).2
  · have hl := hk.unladen (hop c g hg hadmits)
    exact ⟨hIk.1.register hk hl, hIk.2.register hk (hk.recalls hr) hl⟩
  · have hc := ha.watching n q hq hobs
    exact ⟨hc.named, hc.observer, hc.ids, hc.taken⟩
  · have hc := ha.watching n q hq hobs
    exact ⟨hc.named, hc.observer, hc.ids, hc.taken⟩

theorem Watcher.step {c : ClientId} (hc : Watcher c h) (hu : h.Unburdened) (hw : h.Wf)
    {op : Op F} (hop : JoinsBare env h op) : Watcher c (h.step env op) := by
  have hI : Handled env noHello fun k => k.Unburdened ∧ Watcher c k :=
    Strokes.rule fun _ _ hw hs hk => ⟨hk.1.stroke hw hs, hk.2.stroke hk.1 hw hs⟩
  refine (hI.except (fun k f hk => ⟨hk.1.declareRoom f, hk.2.declareRoom f⟩) hw ⟨hu, hc⟩
    (fun c frame f _ _ hf => meets_noHello hf) (fun d g hg hadmits k hk hIk => ?_)
    (fun _ => ⟨hu, ⟨hc.named, hc.observer, hc.ids, hc.taken⟩⟩)
    fun _ _ _ => ⟨hu, ⟨hc.named, hc.observer, hc.ids, hc.taken⟩⟩).2
  exact ⟨hIk.1.register hk (hk.unladen (hop d g hg hadmits)), hIk.2.register hk⟩

/-! ## Every say is shown -/

/-- An accepted say is sent to every observer that is connected. -/
theorem shown_accept (hw : h.Wf) (hq : h.get? n = some q) (hobs : q.isObserver = true)
    (hup : h.up q.client = true) {p : Participant} (hne : n ≠ p.name) (f : Say) :
    ∃ es, (h.accept env p f).wire.log = h.wire.log ++ es ∧
      [(h.sayMsg p f).tag (q.addressing f.addressee)] ∈ shownTo q.client es := by
  have hrem := roster_remember env h p f
  have hh := @handed_accepted env h n q hw.named hq hobs p f
  rw [if_pos ⟨hne, hup⟩] at hh
  have hm : Mentions (fun _ => True) h.Holds h.wire
      ((h.remember env p f).route env (h.sayMsg p f)).1.wire :=
    (mentions_remember env h trivial f).trans (mentions_route env (hrem.named hw.named)
      (Linked.roster (fun _ _ hc => hc) hrem) _)
  have hshown := shownTo_holder hw hm hq hh.delivered
  have hanswer : Keeps ∅ ∅ False ((h.remember env p f).route env (h.sayMsg p f)).1
      (h.accept env p f) := keeps_answer env _ p f _ _
  obtain ⟨es, hes, -⟩ := hm
  obtain ⟨fs, hfs⟩ := hanswer.wire.log
  rw [hes, shownTo_append, List.append_cancel_left_eq] at hshown
  refine ⟨es ++ fs, by rw [← hfs, hes, List.append_assoc], ?_⟩
  rw [shownTo_append, hshown]
  exact List.mem_append_left _ (List.mem_singleton_self _)

theorem shown_handleSay (hw : h.Wf) (hq : h.get? n = some q) (hobs : q.isObserver = true)
    (hup : h.up q.client = true) {m : Str} {f : Say} {r : MsgRec} (hr : r ∈ acceptedOf env h m f)
    (hne : n ≠ r.sender) : ∃ es, (h.handleSay env m f).wire.log = h.wire.log ++ es ∧
      ∃ ms ∈ shownTo q.client es, ∃ x ∈ ms, recordOf x = r := by
  cases hp : h.get? m with
  | none =>
    rw [acceptedOf, hp] at hr
    cases hr
  | some p =>
    have hsettle := (keeps_settle env ((roster_routeSay env hw.named m f).named hw.named) m f
      (h.routeSay env m f).1).wire.log
    rw [acceptedOf, hp] at hr
    simp only at hr
    obtain ⟨h₀, hc, heq | ⟨code, detail, retry, heq⟩⟩ := routeSay_cases env hp f
    · rw [heq, if_pos rfl, List.mem_singleton] at hr
      subst hr
      have hcharged : Keeps ∅ ∅ False h h₀ := hc.keeps
      obtain ⟨q₀, hq₀, hs₀⟩ := hcharged.same n q hq
      obtain ⟨es, hes, hmem⟩ := shown_accept (hw.keeps hcharged) hq₀
        (hs₀.isObserver.trans hobs) (by rw [up_charged hc, hs₀.client]; exact hup)
        (p := p) hne f
      rw [heq] at hsettle
      obtain ⟨as, has⟩ := hcharged.wire.log
      obtain ⟨bs, hbs⟩ := hsettle
      refine ⟨as ++ (es ++ bs), ?_, ?_⟩
      · rw [handleSay, heq, ← hbs, hes, ← has]
        simp only [List.append_assoc]
      · rw [hs₀.client] at hmem
        refine ⟨[(h₀.sayMsg p f).tag (q₀.addressing f.addressee)], ?_,
          (h₀.sayMsg p f).tag (q₀.addressing f.addressee), List.mem_singleton_self _, ?_⟩
        · rw [shownTo_append, shownTo_append]
          exact List.mem_append_right _ (List.mem_append_left _ hmem)
        · rw [sayMsg_charged hc]
          rfl
    · rw [heq, if_neg (by simp)] at hr
      cases hr

/-- **In the step that accepts a say**, every other observer that is connected is sent it. -/
theorem shown_step (hw : h.Wf) (hq : h.get? n = some q) (hobs : q.isObserver = true)
    (hup : h.up q.client = true) (op : Op F) :
    ∃ es, (h.step env op).wire.log = h.wire.log ++ es ∧
      ∀ r ∈ said es, r.sender ≠ n → ∃ ms ∈ shownTo q.client es, ∃ x ∈ ms, recordOf x = r := by
  have hrem := remembers_step env hw op
  have hlog : h.wire.log <+: (h.step env op).wire.log := log_run hw [op]
  obtain ⟨es, hes⟩ := hlog
  refine ⟨es, hes.symm, fun r hr hne => ?_⟩
  have hsaid := hrem.said
  rw [← hes, saidAt_append, List.append_cancel_left_eq] at hsaid
  rw [said_eq_map, hsaid, List.map_map] at hr
  have hacc : r ∈ acceptedSays env h op := by simpa using hr
  cases op with
  | handle c frame =>
    unfold acceptedSays at hacc
    simp only at hacc
    split at hacc
    · next f hv =>
      have hlife : Keeps ∅ ∅ True h (h.lifeSign (h.wire.clients c).name) := keeps_lifeSign h _
      obtain ⟨q₁, hq₁, hs₁⟩ := hlife.same n q hq
      obtain ⟨fs, hfs, hshown⟩ := shown_handleSay (hw.keeps hlife) hq₁
        (hs₁.isObserver.trans hobs) (by rw [hs₁.client]; exact hup) hacc hne.symm
      have hstep : h.step env (.handle c frame) =
          (h.lifeSign (h.wire.clients c).name).handleSay env (h.wire.clients c).name f := by
        show h.handle env c frame = _
        rw [handle, hv]
        show h.dispatch env c (.say f) = _
        unfold dispatch
        cases hp : h.get? (h.wire.clients c).name with
        | none =>
          rw [acceptedOf, hlife.toRoster.none hp] at hacc
          cases hacc
        | some p => simp only [hp]
      rw [hstep, hfs] at hes
      have heq : es = fs := List.append_cancel_left_eq .. ▸ hes
      rw [heq, ← hs₁.client]
      exact hshown
    · cases hacc
  | _ => cases hacc

/-! ## Rounds -/

/-- The registration under the name, live or dead, is an agent's. -/
def agentBox (h : Hub) (n : Str) : Bool := (h.box? n).any (!·.isObserver)

/-- The deliver frames of a log that went to agents. -/
def agentFrames (h : Hub) (log : List Effect) : Nat := (handedTo log).countP h.agentBox

/-- From `h₀` on, no more rounds than deliver frames to agents. -/
def Paced (h₀ h : Hub) : Prop :=
  ∃ es, h.wire.log = h₀.wire.log ++ es ∧ h.round ≤ h₀.round + h.agentFrames es

theorem Stroke.kind (hw : h.Wf) (hs : Stroke env noHello Set.univ h h') (hq : h.box? n = some q) :
    ∃ q', h'.box? n = some q' ∧ q'.kind = q.kind := by
  rcases hs.roster_or_left hw with ⟨hr, -⟩ | ⟨m, p, hp, rfl⟩
  · cases hlive : h.get? n with
    | some p =>
      rw [box?_of_get? hlive, Option.some.injEq] at hq
      obtain ⟨p', hp', hs'⟩ := hr.same n p hlive
      exact ⟨p', box?_of_get? hp', by rw [hs'.kind, hq]⟩
    | none =>
      rw [box?_of_none hlive] at hq
      exact ⟨q, by rw [box?_of_none (hr.none hlive), hr.dead, hq], rfl⟩
  · have hdone : Keeps ∅ ∅ True (h.leave env m p) ((h.leave env m p).checkSessionDone env) :=
      keeps_checkSessionDone env _
    obtain ⟨q', hq', -, hkind, -⟩ := ((still_leave env hp n).trans hdone.quietStill).same q hq
    exact ⟨q', hq', hkind⟩

theorem agentFrames_append (h : Hub) (l l' : List Effect) :
    h.agentFrames (l ++ l') = h.agentFrames l + h.agentFrames l' := by
  rw [agentFrames, agentFrames, agentFrames, handedTo, List.filterMap_append, List.countP_append]
  rfl

theorem agentBox_iff : h.agentBox n = true ↔ ∃ q, h.box? n = some q ∧ q.isObserver = false := by
  unfold agentBox
  cases h.box? n with
  | none => simp
  | some q => simp

/-- An agent's frame stays an agent's. -/
theorem agentFrames_mono (hkind : ∀ n q, h.box? n = some q → ∃ q', h'.box? n = some q' ∧
    q'.kind = q.kind) (log : List Effect) : h.agentFrames log ≤ h'.agentFrames log := by
  refine List.countP_mono_left fun n _ hagent => ?_
  obtain ⟨q, hq, hobs⟩ := agentBox_iff.mp hagent
  obtain ⟨q', hq', hk⟩ := hkind n q hq
  exact agentBox_iff.mpr ⟨q', hq', by rw [isObserver_of_kind hk]; exact hobs⟩

/-- An agent that is handed a frame is counted. -/
theorem agentFrames_pos (hq : h.box? n = some q) (hobs : q.isObserver = false) {log : List Effect}
    (hdel : deliveries n log ≠ []) : 1 ≤ h.agentFrames log := by
  have hcount : 0 < (handedTo log).countP (fun m => decide (m = n)) := by
    rw [countP_handedTo]
    exact List.length_pos_iff.mpr hdel
  obtain ⟨m, hm, hmn⟩ := List.countP_pos_iff.mp hcount
  rw [decide_eq_true_eq] at hmn
  subst hmn
  exact List.countP_pos_iff.mpr ⟨m, hm, agentBox_iff.mpr ⟨q, hq, hobs⟩⟩

/-- The routing of an accepted say: if it raises the round, an agent is handed a frame. -/
theorem round_accepted (hn : h.Named) (p : Participant) (f : Say) :
    ((h.remember env p f).route env (h.sayMsg p f)).1.round ≤ h.round ∨
      ((h.remember env p f).route env (h.sayMsg p f)).1.round ≤ h.round + 1 ∧
        ∃ n q fs, h.get? n = some q ∧ q.isObserver = false ∧ fs ≠ [] ∧
          deliveries n ((h.remember env p f).route env (h.sayMsg p f)).1.wire.log =
            deliveries n h.wire.log ++ fs := by
  have hrem := roster_remember env h p f
  have hround : (h.remember env p f).round = h.round :=
    congrArg Meter.count (meter_remember env h p f)
  have hm : ((h.remember env p f).route env (h.sayMsg p f)).1.round =
      ((h.remember env p f).meter.run (tickIf ((h.remember env p f).wakes env (h.sayMsg p f)))).count :=
    congrArg Meter.count (meter_route env _ _)
  have hle := Meter.count_run_le (m := (h.remember env p f).meter)
    (atWork_tickIf ((h.remember env p f).wakes env (h.sayMsg p f)))
  rw [hm, ← hround]
  by_cases hwake : (h.remember env p f).wakes env (h.sayMsg p f) = true
  · refine Or.inr ⟨?_, ?_⟩
    · rw [hwake] at hle ⊢
      exact hle
    · obtain ⟨q, hq, hwoken⟩ := List.any_eq_true.mp hwake
      obtain ⟨n, hn'⟩ := Dict.mem_values_iff.mp hq
      have hget : (h.remember env p f).get? n = some q := hn'
      obtain ⟨q₀, hq₀, hs₀⟩ := hrem.back hget
      have hr := route_spec env (hrem.named hn) (h.sayMsg p f) hget
      have hobs : q.isObserver = false := by
        rcases routeOne_cases env (h.remember env p f).up (h.sayMsg p f) q with
          ⟨-, -, -, hobs, -⟩ | ⟨hnone, -⟩
        · exact hobs
        · rw [hnone] at hwoken
          cases hwoken
      refine ⟨n, q₀, _, hq₀, by rw [← hs₀.isObserver]; exact hobs, ?_,
        by rw [hr.delivered, deliveries_remember]⟩
      obtain ⟨b, hb⟩ := Option.isSome_iff_exists.mp hwoken
      simp [hb]
  · rw [Bool.not_eq_true] at hwake
    rw [hwake]
    exact Or.inl le_rfl

/-- **A stroke paces the round by the frames to agents.** -/
theorem Stroke.paced (hw : h.Wf) (hu : h.Unburdened) (hs : Stroke env noHello Set.univ h h') :
    Paced h h' := by
  obtain ⟨es, hes⟩ := (hs.le hw).log
  have hkind := fun n q => hs.kind (n := n) (q := q) hw
  have hlow : h'.round ≤ h.round → Paced h h' := fun hle =>
    ⟨es, hes.symm, hle.trans (Nat.le_add_right _ _)⟩
  -- a round, and a frame to the agent `n`
  have hone : ∀ n q fs, h.get? n = some q → q.isObserver = false → fs ≠ [] →
      deliveries n h'.wire.log = deliveries n h.wire.log ++ fs → h'.round ≤ h.round + 1 →
        Paced h h' := by
    intro n q fs hq hobs hne hdel hle
    obtain ⟨q', hq', hk⟩ := hkind n q (box?_of_get? hq)
    rw [← hes, deliveries_append, List.append_cancel_left_eq] at hdel
    have hpos := agentFrames_pos hq' (by rw [isObserver_of_kind hk]; exact hobs)
      (by rw [hdel]; exact hne)
    exact ⟨es, hes.symm, hle.trans (Nat.add_le_add_left hpos _)⟩
  cases hs with
  | talk ht => exact hlow (le_of_eq (ht.toQuiet.same Hub.round fun _ _ => rfl))
  | aside ha => exact hlow (le_of_eq ha.round)
  | event e skip => exact hlow le_rfl
  | declared _ hA => exact absurd rfl (hA _)
  | touched => exact hlow le_rfl
  | reported => exact hlow le_rfl
  | inferred => exact hlow le_rfl
  | @flushed m p hp =>
    obtain ⟨as, p', hp', hsame, -, hdel, ⟨-, heq, -⟩ | ⟨rfl, hne, -, -⟩⟩ :=
      flush_acts env hw.named hp
    · exact hlow (le_of_eq (by rw [heq]))
    · refine hone m p _ hp ?_ (by simp [Mail.playFrames, Mail.frames]) hdel (round_flushQueue env h m)
      by_contra hobs
      exact hne (hu m p hp (by simpa using hobs)).1
  | @accepted m p r f =>
    rcases round_accepted hw.named p f with hle | ⟨hle, n, q, fs, hq, hobs, hne, hdel⟩
    · exact hlow hle
    · exact hone n q fs hq hobs hne hdel hle
  | wentOn => exact hlow le_rfl
  | finished => exact hlow (round_checkSessionDone env _)
  | @commanded _ _ c => exact hlow (by cases c <;> first | exact le_rfl | exact Nat.zero_le _)
  | @noted _ _ _ _ text m => exact hlow (le_of_eq (congrArg Meter.count (meter_systemNote env h text m)))
  | goalTold => exact hlow le_rfl
  | left hp => exact hlow (round_checkSessionDone env _)
  | enrolled _ _ hA => exact absurd rfl (hA _)
  | caughtUp _ _ hA => exact absurd rfl (hA _)

theorem Paced.refl (h : Hub) : Paced h h := ⟨[], (List.append_nil _).symm, Nat.le_add_right _ _⟩

theorem Paced.trans {h₀ : Hub} (hp : Paced h₀ h) (hq : Paced h h')
    (hkind : ∀ n q, h.box? n = some q → ∃ q', h'.box? n = some q' ∧ q'.kind = q.kind) :
    Paced h₀ h' := by
  obtain ⟨es, hes, hle⟩ := hp
  obtain ⟨fs, hfs, hle'⟩ := hq
  have hmono := agentFrames_mono hkind es
  refine ⟨es ++ fs, by rw [hfs, hes, List.append_assoc], ?_⟩
  rw [agentFrames_append]
  omega

theorem Paced.declareRoom {h₀ : Hub} (hp : Paced h₀ h) (g : Hello) :
    Paced h₀ (h.declareRoom g) := by
  have hroom : Keeps ∅ ∅ True h (h.declareRoom g) := keeps_declareRoom h g
  have hround : (h.declareRoom g).round = h.round := by
    unfold Hub.declareRoom
    split <;> rfl
  obtain ⟨es, hes⟩ := hroom.wire.log
  refine hp.trans ⟨es, hes.symm, by rw [hround]; exact Nat.le_add_right _ _⟩ fun n q hq => ?_
  obtain ⟨q', hq', -, hkind, -⟩ := hroom.quietStill.same q hq
  exact ⟨q', hq', hkind⟩

section
variable {k : Hub} {c : ClientId} {g : Hello}

theorem Vacant.round (hk : Vacant env h c g k) : k.round ≤ h.round := by
  have hroom : ∀ k : Hub, (k.declareRoom g).round = k.round := fun k => by
    unfold Hub.declareRoom
    split <;> rfl
  rw [hk.ready, hroom]
  unfold reap
  split
  · split
    · exact le_rfl
    · rcases disconnect_cases env h _ with ⟨p, -, -, heq⟩ | ⟨-, heq⟩
      · rw [heq]
        exact round_checkSessionDone env (h.leave env _ p)
      · rw [heq]
        exact le_rfl
  · exact le_rfl

theorem Vacant.log (hk : Vacant env h c g k) : h.wire.log <+: k.wire.log := by
  have hroom : Keeps ∅ ∅ True (h.reap env g.name) ((h.reap env g.name).declareRoom g) :=
    keeps_declareRoom _ g
  rw [hk.ready]
  refine List.IsPrefix.trans ?_ hroom.wire.log
  unfold reap
  split
  · split
    · exact List.prefix_refl _
    · next old _ _ =>
      rcases disconnect_cases env h old.client with ⟨p, -, -, heq⟩ | ⟨-, heq⟩
      · have hdone : Keeps ∅ ∅ True (h.leave env (h.wire.clients old.client).name p)
            ((h.leave env (h.wire.clients old.client).name p).checkSessionDone env) :=
          keeps_checkSessionDone env _
        rw [heq]
        exact ((le_leave env h _ p).log.trans hdone.wire.log).trans (List.prefix_append _ _)
      · rw [heq]
        exact List.prefix_append _ _
  · exact List.prefix_refl _

/-- The flush of a reclaim hands its round to an agent. -/
theorem paced_register (hk : Vacant env h c g k) (hl : k.Unladen g) :
    Paced k (k.register env c g) := by
  have hkeep : Keeps {g.name} {g.name} True (k.enroll c g.name (admitted env k c g))
      (registered env c g k) := keeps_greet env hk.enrolled.named g.name _ _
  have hround : (registered env c g k).round = k.round := round_greet env _ _ _ _
  obtain ⟨es, hes⟩ : k.wire.log <+: (registered env c g k).wire.log := hkeep.wire.log
  have hlow : Paced k (registered env c g k) :=
    ⟨es, hes.symm, by rw [hround]; exact Nat.le_add_right _ _⟩
  rw [register_eq]
  split
  · next hqueue =>
    obtain ⟨p, hp, hs, -⟩ := hkeep.spec (get?_enroll_self k c g.name (admitted env k c g))
    obtain ⟨as, p', hp'', hs', -, hdel, ⟨-, heq, -⟩ | ⟨rfl, -, -, -⟩⟩ :=
      flush_acts env (hkeep.named hk.enrolled.named) hp
    · rw [heq]
      exact hlow
    · have hobs : p'.isObserver = false := by
        rw [hs'.isObserver, hs.isObserver]
        by_contra hob
        have hkind : g.kind = observerKind := by
          simpa [Participant.isObserver, admitted_kind env k c g] using hob
        rw [Bool.and_eq_true, Bool.not_eq_true', List.isEmpty_eq_false_iff] at hqueue
        obtain ⟨d, hd⟩ := Dict.contains_iff.mp hqueue.1
        have hadm : (admitted env k c g).queue = d.queue := by
          rw [admitted, hd]
          rfl
        exact hqueue.2 (hadm.trans (hl hkind d (by rw [box?_of_none hk.free, hd])).1)
      have hflush := keeps_flushQueue env (hkeep.named hk.enrolled.named) g.name
      obtain ⟨fs, hfs⟩ := hflush.wire.log
      rw [← hfs, deliveries_append, List.append_cancel_left_eq] at hdel
      have hpos := agentFrames_pos (box?_of_get? hp'') hobs
        (by rw [hdel]; simp [Mail.playFrames, Mail.frames])
      refine ⟨es ++ fs, by rw [← hfs, ← hes, List.append_assoc], ?_⟩
      have hone := @round_flushQueue env (registered env c g k) g.name
      rw [agentFrames_append]
      omega
  · exact hlow

end

/-- **An operation paces the round by the frames to agents.** -/
theorem paced_step (hw : h.Wf) (hu : h.Unburdened) {op : Op F} (hop : JoinsBare env h op) :
    Paced h (h.step env op) := by
  have hI : Handled env noHello fun k => k.Unburdened ∧ Paced h k :=
    Strokes.rule fun _ _ hw hs hk => ⟨hk.1.stroke hw hs,
      hk.2.trans (hs.paced hw hk.1) fun _ _ hq => hs.kind hw hq⟩
  refine (hI.except (fun k f hk => ⟨hk.1.declareRoom f, hk.2.declareRoom f⟩) hw ⟨hu, .refl h⟩
    (fun c frame f _ _ hf => meets_noHello hf) (fun c g hg hadmits k hk hIk => ?_)
    (fun _ => ⟨hu, ⟨[], (List.append_nil _).symm, Nat.le_add_right _ _⟩⟩)
    fun _ _ _ => ⟨hu, ⟨[], (List.append_nil _).symm, Nat.le_add_right _ _⟩⟩).2
  have hl := hk.unladen (hop c g hg hadmits)
  refine ⟨hIk.1.register hk hl, ?_⟩
  obtain ⟨es, hes⟩ := hk.log
  obtain ⟨fs, hfs, hle⟩ := paced_register hk hl
  refine ⟨es ++ fs, by rw [hfs, ← hes, List.append_assoc], ?_⟩
  have hround := hk.round
  rw [agentFrames_append]
  omega

/-! ## Runs -/

variable (env) in
/-- **Observers are kept clear.**  In a run in which no observer takes over mail when it registers:
no observer has anything queued or buffered; every operation sends what it accepts to all other
observers that are connected, and raises the round by no more than the deliver frames to agents; and
if the recent window the hub starts with is in the order of its ids, the ids sent to a client that
was an observer's strictly increase. -/
theorem observers_are_kept_clear (records : List MsgRec) (now wall : Rat) {ops : List (Op F)}
    (hjoins : Run.Always (Hub.step env) (JoinsBare env) (init env records now wall) ops) :
    let h := Run.after (Hub.step env) (init env records now wall) ops
    (∀ n q, h.get? n = some q → q.isObserver = true → q.queue = [] ∧ q.context.items = []) ∧
      (∀ (op : Op F) n q, h.get? n = some q → q.isObserver = true → h.up q.client = true →
        ∃ es, (h.step env op).wire.log = h.wire.log ++ es ∧ ∀ r ∈ said es, r.sender ≠ n →
          ∃ ms ∈ shownTo q.client es, ∃ x ∈ ms, recordOf x = r) ∧
      (∀ op : Op F, JoinsBare env h op → ∃ es, (h.step env op).wire.log = h.wire.log ++ es ∧
        (h.step env op).round ≤ h.round + (h.step env op).agentFrames es) ∧
      (((lastN env.config.recentWindow records).map MsgRec.id).Pairwise (· < ·) →
        ∀ pre post, ops = pre ++ post → ∀ n q,
          (Run.after (Hub.step env) (init env records now wall) pre).get? n = some q →
            q.isObserver = true → (shownIds q.client h.wire.log).Pairwise (· < ·)) := by
  intro h
  have hstart : (init env records now wall).Unburdened := fun _ _ hq => nomatch hq
  have hall : ∀ ops' : List (Op F), Run.Always (Hub.step env) (JoinsBare env)
      (init env records now wall) ops' →
        Sound Unburdened (Run.after (Hub.step env) (init env records now wall) ops') := fun _ ha =>
    Run.invariant (I := Sound Unburdened)
      (fun _ op hs hop => ⟨hs.1.step env op, hs.2.step hs.1 hop⟩) ⟨wf_init env records now wall, hstart⟩ ha
  have hs : Sound Unburdened h := hall ops hjoins
  refine ⟨hs.2, fun op n q hq hobs hup => shown_step hs.1 hq hobs hup op,
    fun op hop => paced_step hs.1 hs.2 hop, fun hasc pre post heq n q hq hobs => ?_⟩
  obtain ⟨hpre, hpost⟩ := Run.always_append.mp (heq ▸ hjoins)
  have hattended := (Run.invariant (I := Sound fun k => k.Unburdened ∧ k.Recalls ∧ k.Attended)
    (fun k op hk hop => ⟨hk.1.step env op, hk.2.1.step hk.1 hop,
      (remembers_step env hk.1 op).recalls hk.2.2.1, hk.2.2.2.step hk.2.1 hk.2.2.1 hk.1 hop⟩)
    ⟨wf_init env records now wall, hstart, recalls_init env hasc,
      ⟨fun _ _ => rfl, fun _ _ hq => nomatch hq⟩⟩ hpre).2.2.2
  have hwatch := hattended.watching n q hq hobs
  have hend := (Run.invariant (I := Sound fun k => k.Unburdened ∧ Watcher q.client k)
    (fun k op hk hop => ⟨hk.1.step env op, hk.2.1.step hk.1 hop, hk.2.2.step hk.2.1 hk.1 hop⟩)
    ⟨(hall pre hpre).1, (hall pre hpre).2, hwatch⟩ hpost).2.2.ids
  rw [← Run.after_append, ← heq] at hend
  exact hend

/-- A frame that is no hello takes over no mail. -/
theorem joinsBare_of_other {h : Hub} {c : ClientId} {frame : Obj F} {t : Str}
    (ht : field frame "t" = some (.str t)) (hne : t ≠ str "hello") :
    JoinsBare env h (.handle c frame) := by
  rintro c' g ⟨frame', heq, hv⟩ -
  cases heq
  obtain ⟨ht', -⟩ := validate_hello_iff.mp hv
  rw [ht, Option.some.injEq, PyJson.Json.str.injEq] at ht'
  exact absurd ht' hne

/-- Neither does an agent. -/
theorem joinsBare_of_agent {h : Hub} {c : ClientId} {frame : Obj F} {kind : Str}
    (hkind : field frame "kind" = some (.str kind)) (hne : kind ≠ observerKind) :
    JoinsBare env h (.handle c frame) := by
  rintro c' g ⟨frame', heq, hv⟩ -
  cases heq
  obtain ⟨-, hg⟩ := validate_hello_iff.mp hv
  rw [(validateHello_fields hg).2, Option.some.injEq, PyJson.Json.str.injEq] at hkind
  exact fun hobs => absurd (hkind.symm.trans hobs) hne

/-- Neither does a newcomer. -/
theorem joinsBare_of_new {h : Hub} {c : ClientId} {frame : Obj F} {name : Str}
    (hname : field frame "name" = some (.str name)) (hnew : (h.box? name).isNone = true) :
    JoinsBare env h (.handle c frame) := by
  rintro c' g ⟨frame', heq, hv⟩ -
  cases heq
  obtain ⟨-, hg⟩ := validate_hello_iff.mp hv
  rw [(validateHello_fields hg).1, Option.some.injEq, PyJson.Json.str.injEq] at hname
  intro _ q hq
  rw [hname, Option.isNone_iff_eq_none.mp hnew] at hq
  cases hq

/-- An observer is shown what an agent says to it. -/
def oneShown : List (Op PyJson.Token) :=
  [.handle 0 (helloFrame "frank" "observer" []), .handle 1 (helloFrame "bob" "agent" []),
    .handle 1 (sayFrame "frank" "claim" "hi" false)]

theorem observers_are_kept_clear_oneShown :
    let h := Run.after (Hub.step .still) (init .still [] 0 0) oneShown
    shownIds 0 h.wire.log = [1] ∧
      (∀ n q, h.get? n = some q → q.isObserver = true → q.queue = [] ∧ q.context.items = []) := by
  have hjoins : Run.Always (Hub.step .still) (JoinsBare .still) (init .still [] 0 0) oneShown :=
    ⟨joinsBare_of_new rfl (by decide +kernel), joinsBare_of_agent rfl (by decide),
      joinsBare_of_other (t := str "say") rfl (by decide), trivial⟩
  have hclear := observers_are_kept_clear .still [] 0 0 hjoins
  exact ⟨by decide +kernel, hclear.1⟩

/-- An agent overhears a line, leaves, and its name is reclaimed by an observer. -/
def lineInherited : List (Op PyJson.Token) :=
  [.handle 0 (helloFrame "frank" "observer" []), .handle 1 (helloFrame "bob" "agent" []),
    .handle 2 (helloFrame "alice" "agent" []), .handle 0 (sayFrame "alice" "claim" "hi" false),
    .disconnect 1, .handle 3 (helloFrame "bob" "observer" [])]

theorem inherited_mail_is_kept :
    ¬ ∀ (ops : List (Op PyJson.Token)) (n : Str) (q : Participant),
      (Run.after (Hub.step .still) (init .still [] 0 0) ops).get? n = some q →
        q.isObserver = true → q.queue = [] ∧ q.context.items = [] := by
  intro hall
  have hthere : ((Run.after (Hub.step .still) (init .still [] 0 0) lineInherited).get?
      (str "bob")).any (fun q => q.isObserver && !q.context.items.isEmpty) = true := by
    decide +kernel
  cases hq : (Run.after (Hub.step .still) (init .still [] 0 0) lineInherited).get? (str "bob") with
  | none =>
    rw [hq] at hthere
    cases hthere
  | some q =>
    rw [hq, Option.any_some, Bool.and_eq_true] at hthere
    rw [(hall lineInherited (str "bob") q hq hthere.1).2] at hthere
    exact absurd hthere.2 (by decide)

end

end Hub

end Moot
