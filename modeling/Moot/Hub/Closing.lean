import Moot.Hub.Stroke

/-!
# No end of a session is missed

A session is at its end when there are agents, all have finished and nothing is
queued for them (`allFinished`).  The marks that the says and the joins of an
operation prescribe (`Hub.dueMark`) take no notice of it; an operation minds the
end of a session (`Hub.Minded`) if it puts one on the record whenever they amount to
one, and clears the marks and the round when it does.

Proved here: `session_done_not_missed`, in every run no state between two
operations is at the end of a session, and every operation minds it.
-/

namespace Moot
open Py Proto

/-- What the check for the end of a session reads of a participant. -/
def Participant.standing (p : Participant) : Bool × Bool × List Msg :=
  (p.isObserver, p.finished, p.queue)

/-- The record of the end of a session. -/
def Record.isDone : Record → Bool
  | .event (.sessionDone _) _ => true
  | _ => false

namespace Hub

def standing (h : Hub) (n : Str) : Option (Bool × Bool × List Msg) :=
  (h.get? n).map Participant.standing

/-- Nothing that bears on the end of a session changes. -/
def SameStanding (h h' : Hub) : Prop := ∀ n, h'.standing n = h.standing n

/-- How many records meet `P`. -/
def onRecord (P : Record → Bool) (h : Hub) : Nat := (records h.wire.log).countP P

/-- How often the end of a session is on the record. -/
def closings (h : Hub) : Nat := h.onRecord Record.isDone

/-- The says that are accepted from `h` to `h'`. -/
def newSaid (h h' : Hub) : List MsgRec := (said h'.wire.log).drop (said h.wire.log).length

/-- The mark that the says and the joins from `h` to `h'` prescribe for the participant `p` named
`n`. -/
def dueMark (h h' : Hub) (n : Str) (p : Participant) : Bool :=
  match (newSaid h h').find? (·.sender = n) with
  | some r => r.kind = str "done"
  | none => (h.get? n).any fun q => q.client = p.client && q.finished

/-- What an operation from `h` to `h'` does about the end of the session.  If the marks that are
prescribed and the queues amount to an end, it is put on the record; without an end the marks are
the prescribed ones.  With one they are cleared, except for a say that closed the session first and
then counts for the next; and the round starts again, where at most the mail of a reclaim counts. -/
structure Minded (h h' : Hub) : Prop where
  opened : h'.allFinished = false
  announced : (∃ n p, h'.get? n = some p ∧ p.isObserver = false) →
    (∀ n p, h'.get? n = some p → p.isObserver = false →
      h.dueMark h' n p = true ∧ p.queue = []) → h.closings < h'.closings
  kept : h'.closings = h.closings → ∀ n p, h'.get? n = some p → p.isObserver = false →
    p.finished = h.dueMark h' n p
  cleared : h.closings < h'.closings → ∀ n p, h'.get? n = some p → p.isObserver = false →
    p.finished = true → ∃ r ∈ newSaid h h', r.sender = n ∧ r.kind = str "done"
  restarted : h.closings < h'.closings → h'.round = 0 ∨ h'.round = 1 ∧
    ∃ n p, h'.get? n = some p ∧ ∀ q, h.get? n = some q → q.client ≠ p.client

section
variable {env : Env} {h h' h'' : Hub}

/-! ## The end of a session -/

theorem allFinished_iff (h : Hub) : h.allFinished = true ↔
    (∃ n b ms, h.standing n = some (false, b, ms)) ∧
      ∀ n b ms, h.standing n = some (false, b, ms) → b = true ∧ ms = [] := by
  have hmem : ∀ p, p ∈ h.agents ↔ ∃ n, h.get? n = some p ∧ p.isObserver = false := by
    intro p
    simp only [agents, List.mem_filter, Dict.mem_values_iff, Bool.not_eq_true']
    constructor
    · rintro ⟨⟨n, hn⟩, hobs⟩
      exact ⟨n, hn, hobs⟩
    · rintro ⟨n, hn, hobs⟩
      exact ⟨⟨n, hn⟩, hobs⟩
  have hstand : ∀ n b ms, h.standing n = some (false, b, ms) ↔
      ∃ p, h.get? n = some p ∧ p.isObserver = false ∧ p.finished = b ∧ p.queue = ms := by
    intro n b ms
    simp only [standing, Option.map_eq_some_iff, Participant.standing, Prod.mk.injEq]
  simp only [allFinished, Bool.and_eq_true, Bool.not_eq_true', List.isEmpty_eq_false_iff,
    List.all_eq_true, List.isEmpty_iff]
  constructor
  · rintro ⟨⟨hsome, hfin⟩, hqueue⟩
    obtain ⟨p, hp⟩ := List.exists_mem_of_ne_nil _ hsome
    obtain ⟨n, hn, hobs⟩ := (hmem p).mp hp
    refine ⟨⟨n, _, _, (hstand n _ _).mpr ⟨p, hn, hobs, rfl, rfl⟩⟩, fun m b ms hm => ?_⟩
    obtain ⟨q, hq, hobs', rfl, rfl⟩ := (hstand m b ms).mp hm
    have hq' := (hmem q).mpr ⟨m, hq, hobs'⟩
    exact ⟨hfin q hq', hqueue q hq'⟩
  · rintro ⟨⟨n, b, ms, hn⟩, hall⟩
    obtain ⟨p, hp, hobs, -, -⟩ := (hstand n b ms).mp hn
    have hdone : ∀ q ∈ h.agents, q.finished = true ∧ q.queue = [] := fun q hq => by
      obtain ⟨m, hm, hobs'⟩ := (hmem q).mp hq
      exact hall m _ _ ((hstand m _ _).mpr ⟨q, hm, hobs', rfl, rfl⟩)
    exact ⟨⟨List.ne_nil_of_mem ((hmem p).mpr ⟨n, hp, hobs⟩), fun q hq => (hdone q hq).1⟩,
      fun q hq => (hdone q hq).2⟩

theorem SameStanding.trans (hab : SameStanding h h') (hbc : SameStanding h' h'') :
    SameStanding h h'' := fun n => (hbc n).trans (hab n)

theorem SameStanding.allFinished (hs : SameStanding h h') : h'.allFinished = h.allFinished := by
  rw [Bool.eq_iff_iff, allFinished_iff, allFinished_iff]
  simp only [hs _]

/-- An end of the session was one before, if no agent is new, marked or drained. -/
theorem allFinished_of_le (hle : ∀ n b ms, h'.standing n = some (false, b, ms) →
      ∃ b₀ ms₀, h.standing n = some (false, b₀, ms₀) ∧ (b = true → b₀ = true) ∧
        (ms = [] → ms₀ = []))
    (hback : ∀ n b ms, h.standing n = some (false, b, ms) →
      ∃ b' ms', h'.standing n = some (false, b', ms'))
    (hopen : h.allFinished = false) : h'.allFinished = false := by
  by_contra hdone
  rw [Bool.not_eq_false, allFinished_iff] at hdone
  obtain ⟨⟨n, b, ms, hn⟩, hall⟩ := hdone
  have hbefore : h.allFinished = true := by
    rw [allFinished_iff]
    obtain ⟨b₀, ms₀, hn₀, -⟩ := hle n b ms hn
    refine ⟨⟨n, b₀, ms₀, hn₀⟩, fun m b₁ ms₁ hm => ?_⟩
    obtain ⟨b', ms', hm'⟩ := hback m b₁ ms₁ hm
    obtain ⟨b₂, ms₂, hm₂, hb, hms⟩ := hle m b' ms' hm'
    rw [hm, Option.some.injEq, Prod.mk.injEq, Prod.mk.injEq] at hm₂
    obtain ⟨hb', hms'⟩ := hall m b' ms' hm'
    exact ⟨hm₂.2.1.trans (hb hb'), hm₂.2.2.trans (hms hms')⟩
  rw [hbefore] at hopen
  cases hopen

/-- An agent that has not finished keeps the session open. -/
theorem open_of_unfinished {n : Str} {p : Participant} (hp : h.get? n = some p)
    (hobs : p.isObserver = false) (hfin : p.finished = false) : h.allFinished = false := by
  by_contra hdone
  rw [Bool.not_eq_false, allFinished_iff] at hdone
  have := (hdone.2 n p.finished p.queue (by rw [standing, hp]; simp [Participant.standing, hobs])).1
  rw [hfin] at this
  cases this

/-! ## Steps that do not bear on it -/

theorem same_participants (hp : h'.participants = h.participants) : SameStanding h h' := fun n => by
  rw [standing, standing, get?, hp]
  rfl

theorem same_modify (h : Hub) (n : Str) {g : Participant → Participant}
    (hg : ∀ q, (g q).standing = q.standing) : SameStanding h (h.modify n g) := fun m => by
  by_cases hm : m = n
  · subst hm
    rw [standing, standing, get?_modify_self, Option.map_map]
    exact Option.map_congr fun q _ => hg q
  · rw [standing, standing, get?_modify_of_ne _ hm]

theorem same_mapParticipants (h : Hub) {g : Participant → Participant}
    (hg : ∀ q, (g q).standing = q.standing) : SameStanding h (h.mapParticipants g) := fun m => by
  rw [standing, standing, get?_mapParticipants, Option.map_map]
  exact Option.map_congr fun q _ => hg q

theorem same_of_roster (hr : h.Roster h')
    (hs : ∀ n p p', h.get? n = some p → h'.get? n = some p' → p'.standing = p.standing) :
    SameStanding h h' := fun n => by
  cases hp : h.get? n with
  | none => rw [standing, standing, hp, hr.none hp]
  | some p =>
    obtain ⟨p', hp', -⟩ := hr.same n p hp
    rw [standing, standing, hp, hp', Option.map_some, Option.map_some, hs n p p' hp hp']

theorem Keeps.sameStanding {T : Set Str} (hk : Keeps ∅ T False h h') : SameStanding h h' := by
  refine same_of_roster hk.toRoster fun n p p' hp hp' => ?_
  have hcalm := hk.calm n (Set.notMem_empty n) p p' hp hp'
  rw [Participant.standing, Participant.standing, hcalm.isObserver,
    (hk.marks.resolve_left id).finished n p p' hp hp',
    show p'.queue = p.queue from congrArg Mail.queue hcalm.mail]

variable (env)

theorem same_deliver (h : Hub) (n : Str) (msgs : List Msg) :
    SameStanding h (h.deliver env n msgs) := by
  cases hp : h.get? n with
  | none =>
    rw [deliver, hp]
    exact same_participants rfl
  | some p =>
    rw [deliver_eq env hp]
    split
    · exact same_participants rfl
    · exact same_modify h n fun _ => rfl

theorem same_remember (p : Participant) (f : Say) : SameStanding h (h.remember env p f) :=
  same_of_roster (roster_remember env h p f) fun n q q' hq hq' => by
    obtain ⟨r, hr, hcalm, -, hfin⟩ := get?_remember env p f hq
    rw [hq', Option.some.injEq] at hr
    subst hr
    rw [Participant.standing, Participant.standing, hcalm.isObserver, hfin,
      show q'.queue = q.queue from congrArg Mail.queue hcalm.mail]

/-- Once the loop of the routing is done, the rest of it does not bear on the session. -/
theorem same_route (hn : h.Named) (msg : Msg) :
    SameStanding (h.mapParticipants fun q => (routeOne env h.up msg q).participant)
      (h.route env msg).1 := fun n => by
  cases hq : h.get? n with
  | none =>
    rw [standing, standing, get?_mapParticipants, hq,
      (keeps_route env (E := False) hn msg).toRoster.none hq]
    rfl
  | some q =>
    obtain ⟨q', hq', hs, hmail, hfin, -⟩ := (route_spec env hn msg hq).get?
    rw [standing, standing, get?_mapParticipants, hq, hq', Option.map_some, Option.map_some,
      Option.map_some, Participant.standing, Participant.standing, hs.isObserver, hfin,
      (same_routeOne env h.up msg q).isObserver, finished_routeOne,
      show q'.queue = _ from congrArg Mail.queue hmail]
    rfl

/-! ## The announcement -/

/-- An announcement opens the next session. -/
theorem open_of_announced (hdone : h.allFinished = true) :
    (h.checkSessionDone env).allFinished = false := by
  obtain ⟨⟨n, b, ms, hn⟩, -⟩ := (allFinished_iff h).mp hdone
  obtain ⟨p, hp, hstand⟩ := Option.map_eq_some_iff.mp hn
  have hobs : p.isObserver = false := congrArg Prod.fst hstand
  refine open_of_unfinished (n := n) (p := { p with finished := false }) ?_ hobs rfl
  rw [get?_checkSessionDone, hp, Option.map_some, hdone, hobs]
  rfl

end

/-! ## Open states -/

section
variable {env : Env} {A : Filter} {C : Set Change} {h h' h₁ : Hub}

theorem open_of_same (hs : SameStanding h h₁) (hopen : h.allFinished = false) :
    h₁.allFinished = false := hs.allFinished.trans hopen

variable (env) in
/-- After the check the session is open. -/
theorem open_checkSessionDone (h : Hub) : (h.checkSessionDone env).allFinished = false := by
  by_cases hdone : h.allFinished = true
  · exact open_of_announced env hdone
  · rw [checkSessionDone, if_neg hdone]
    simpa using hdone

variable (env) in
theorem open_flushQueue (hopen : h.allFinished = false) (n : Str) :
    (h.flushQueue env n).allFinished = false := by
  cases hp : h.get? n with
  | none =>
    rw [flushQueue, hp]
    exact hopen
  | some p =>
    by_cases hskip : p.queue = [] ∨ h.up p.client = false
    · rw [flushQueue_skip env hp hskip]
      exact hopen
    · simp only [not_or, Bool.not_eq_false] at hskip
      obtain ⟨k₁, -, k₂, -, heq⟩ := flushQueue_eq env hp hskip.1 hskip.2
      rw [heq]
      exact open_checkSessionDone env k₂

theorem length_enqueue (cfg : Config) (p : Participant) (m : Msg) :
    (p.enqueue cfg m).queue ≠ [] := by
  unfold Participant.enqueue
  split <;> simp

/-- A participant that is only told, queued for or left alone. -/
structure Laden (p' p : Participant) : Prop extends p'.Same p where
  finished : p'.finished = p.finished
  queue : p'.queue = [] → p.queue = []

/-- A queue that grows does not end a session. -/
theorem open_of_laden (hopen : h.allFinished = false) (hr : h.Roster h₁)
    (hl : ∀ n p p', h.get? n = some p → h₁.get? n = some p' → Laden p' p) :
    h₁.allFinished = false := by
  refine allFinished_of_le (fun n b ms hn => ?_) (fun n b ms hn => ?_) hopen
  · obtain ⟨p', hp', hstand⟩ := Option.map_eq_some_iff.mp hn
    obtain ⟨p, hp, -⟩ := hr.back hp'
    have hladen := hl n p p' hp hp'
    simp only [Participant.standing, Prod.mk.injEq] at hstand
    obtain ⟨hobs, rfl, rfl⟩ := hstand
    rw [hladen.isObserver] at hobs
    exact ⟨p.finished, p.queue, by rw [standing, hp, Option.map_some, Participant.standing, hobs],
      by rw [hladen.finished]; exact id, hladen.queue⟩
  · obtain ⟨p, hp, hstand⟩ := Option.map_eq_some_iff.mp hn
    obtain ⟨p', hp', hs⟩ := hr.same n p hp
    have hobs : p'.isObserver = false := hs.isObserver.trans (congrArg Prod.fst hstand)
    exact ⟨p'.finished, p'.queue, by rw [standing, hp', Option.map_some, Participant.standing, hobs]⟩

theorem laden_routeOne (up : ClientId → Bool) (msg : Msg) (q : Participant) :
    Laden (routeOne env up msg q).participant q := by
  refine ⟨same_routeOne env up msg q, finished_routeOne env up msg q, ?_⟩
  unfold routeOne
  simp only
  split
  · exact id
  split
  · exact id
  split
  · dsimp only
    split <;> exact id
  split
  · exact id
  · exact fun hnil => absurd hnil (length_enqueue _ _ _)

theorem open_enqueue (hopen : h.allFinished = false) (n : Str) (m : Msg) :
    (h.modify n (·.enqueue env.config m)).allFinished = false := by
  refine open_of_laden hopen (roster_modify h n fun p => same_enqueue _ p m)
    fun k p p' hp hp' => ?_
  by_cases hk : k = n
  · subst hk
    rw [get?_modify_self, hp, Option.map_some, Option.some.injEq] at hp'
    rw [← hp']
    exact ⟨same_enqueue _ p m, finished_enqueue _ p m,
      fun hnil => absurd hnil (length_enqueue _ _ _)⟩
  · rw [get?_modify_of_ne _ hk, hp, Option.some.injEq] at hp'
    rw [hp']
    exact ⟨.refl p', rfl, id⟩

theorem open_route (hopen : h.allFinished = false) (hn : h.Named) (msg : Msg) :
    (h.route env msg).1.allFinished = false := by
  have hmap : Keeps Set.univ ∅ True h
      (h.mapParticipants fun q => (routeOne env h.up msg q).participant) :=
    keeps_mapParticipants h Set.univ
      (fun _ p _ => ⟨same_routeOne env _ _ p, fun hm => absurd (Set.mem_univ _) hm⟩)
      (Or.inl trivial)
  refine open_of_same (same_route env hn msg) (open_of_laden hopen hmap.toRoster
    fun n p p' hp hp' => ?_)
  rw [get?_mapParticipants, hp, Option.map_some, Option.some.injEq] at hp'
  rw [← hp']
  exact laden_routeOne h.up msg p

theorem open_systemNote (hopen : h.allFinished = false) (text n : Str) :
    (h.systemNote env text n).allFinished = false := by
  unfold systemNote
  split
  · exact hopen
  · next p hp =>
    split
    · exact hopen
    · have hcount : ({ h with msgCounter := h.msgCounter + 1 } : Hub).allFinished = false :=
        open_of_same (same_participants rfl) hopen
      simp only
      split
      · have hdrain := same_modify { h with msgCounter := h.msgCounter + 1 } n
          (g := fun p' => { p' with context := (p.context.drain (some (h.msgCounter + 1))).2 })
          fun _ => rfl
        exact open_of_same (hdrain.trans (same_deliver env _ n _)) hcount
      · exact open_enqueue hcount n _

theorem finished_admitted (h : Hub) (c : ClientId) (f : Hello) :
    (admitted env h c f).finished = false := by
  unfold admitted
  split <;> rfl

theorem open_enroll (hopen : h.allFinished = false) {c : ClientId} {f : Hello}
    (hfree : h.get? f.name = none) :
    (h.enroll c f.name (admitted env h c f)).allFinished = false := by
  have hself : (h.enroll c f.name (admitted env h c f)).get? f.name = some (admitted env h c f) :=
    get?_enroll_self ..
  by_cases hobs : (admitted env h c f).isObserver = true
  · have hother : ∀ n, n ≠ f.name →
        (h.enroll c f.name (admitted env h c f)).standing n = h.standing n := fun n hn => by
      rw [standing, standing, get?_enroll_of_ne _ _ hn]
    refine allFinished_of_le (fun n b ms hn => ?_) (fun n b ms hn => ?_) hopen
    · by_cases hname : n = f.name
      · subst hname
        rw [standing, hself, Option.map_some, Option.some.injEq, Participant.standing, hobs] at hn
        cases hn
      · exact ⟨b, ms, by rw [← hother n hname]; exact hn, id, id⟩
    · by_cases hname : n = f.name
      · rw [hname, standing, hfree] at hn
        cases hn
      · exact ⟨b, ms, by rw [hother n hname]; exact hn⟩
  · rw [Bool.not_eq_true] at hobs
    exact open_of_unfinished hself hobs (finished_admitted h c f)

/-- **A stroke leaves the session open.** -/
theorem open_stroke (hopen : h.allFinished = false) (hw : h.Wf) (hs : Stroke env A C h h₁) :
    h₁.allFinished = false := by
  cases hs with
  | talk ht => exact open_of_same (same_participants ht.participants) hopen
  | aside ha => exact open_of_same (same_participants ha.participants) hopen
  | event e skip => exact open_of_same (same_participants rfl) hopen
  | declared room => exact open_of_same (same_participants rfl) hopen
  | touched hg =>
    exact open_of_same (keeps_alike (S := ∅) (T := ∅) (E := False) h _ hg).sameStanding hopen
  | reported => exact open_of_same (same_modify h _ fun _ => rfl) hopen
  | inferred => exact open_of_same (same_modify h _ fun _ => rfl) hopen
  | flushed => exact open_flushQueue env hopen _
  | @accepted _ p _ f =>
    exact open_route (open_of_same (same_remember env p f) hopen)
      ((roster_remember env h p f).named hw.named) _
  | @wentOn n p hp hobs =>
    refine open_of_unfinished (n := n) (p := { p with finished := false }) ?_ hobs rfl
    rw [get?_modify_self, hp]
    rfl
  | finished => exact open_checkSessionDone env _
  | @commanded _ _ c => exact open_of_same (same_participants (by cases c <;> rfl)) hopen
  | noted m => exact open_systemNote hopen _ m
  | goalTold =>
    refine open_of_same (same_mapParticipants h fun q => ?_) hopen
    split <;> rfl
  | left => exact open_checkSessionDone env _
  | enrolled _ hfree => exact open_enroll hopen hfree
  | caughtUp =>
    unfold giveBacklog
    split
    · exact hopen
    · simp only
      split
      · split
        · exact hopen
        · exact open_of_same (same_deliver env _ _ _) hopen
      · exact open_of_same (same_modify h _ fun _ => rfl) hopen

end

/-! ## The record -/

section
variable {h h' : Hub} {P : Record → Bool}

theorem onRecord_append (h : Hub) (r : Record) :
    (h.append r).onRecord P = h.onRecord P + if P r then 1 else 0 := by
  have hrec : records (h.append r).wire.log = records h.wire.log ++ [r] := records_append _ _
  rw [onRecord, hrec, List.countP_append, List.countP_singleton]
  rfl

theorem onRecord_of_records (hr : records h'.wire.log = records h.wire.log) :
    h'.onRecord P = h.onRecord P := by rw [onRecord, onRecord, hr]

variable (env : Env)

theorem records_tellAll (e : HubEvent) (skip : Option Str) (ps : List Participant) (w : Wire) :
    records (ps.foldl (tellEvent env e skip) w).log = records w.log := by
  induction ps generalizing w with
  | nil => rfl
  | cons p ps ih =>
    have hone : records (tellEvent env e skip w p).log = records w.log := by
      unfold tellEvent
      split
      · exact (records_append _ _).trans (List.append_nil _)
      · rfl
    rw [List.foldl_cons, ih, hone]

theorem onRecord_emitEvent (h : Hub) (e : HubEvent) (skip : Option Str) :
    (h.emitEvent env e skip).onRecord P =
      h.onRecord P + if P (.event e h.wall) then 1 else 0 := by
  have htell : (h.setWire (h.participants.values.foldl (tellEvent env e skip) h.wire)).onRecord P =
      h.onRecord P := onRecord_of_records (records_tellAll env e skip _ _)
  rw [← htell]
  exact onRecord_append _ _

/-- What bears on nobody's mark closes no session. -/
theorem closings_of_unmarked (hu : h.Unmarked h') : h'.closings = h.closings := by
  obtain ⟨es, hes, hmark⟩ := hu.log
  have hnone : (records es).countP Record.isDone = 0 := by
    rw [List.countP_eq_zero]
    intro r hr
    obtain ⟨e, he, hre⟩ := List.mem_filterMap.mp hr
    cases e with
    | append wall r' =>
      obtain rfl := Option.some.inj hre
      intro hdone
      have := hmark _ he
      unfold Record.isDone at hdone
      split at hdone
      · cases this
      · cases hdone
    | _ => cases hre
  rw [closings, closings, onRecord, onRecord, hes, records_append, List.countP_append, hnone,
    Nat.add_zero]

end

/-! ## Going on and closing -/

/-- The session goes on while the says `rs` are accepted: none is closed, and an agent was there
before, with its mark. -/
structure GoesOn (rs : List MsgRec) (h h' : Hub) : Prop where
  said : said h'.wire.log = said h.wire.log ++ rs
  closings : h'.closings = h.closings
  marks : ∀ n p', h'.get? n = some p' → p'.isObserver = false →
    ∃ p, h.get? n = some p ∧ p.isObserver = false ∧ p'.client = p.client ∧
      p'.finished = p.finished

/-- A new session: the round at 0, no mark, nothing queued. -/
structure Cleared (h : Hub) : Prop where
  round : h.round = 0
  agents : ∀ n p, h.get? n = some p → p.isObserver = false → p.finished = false ∧ p.queue = []

/-- A session is closed while the says `rs` are accepted. -/
structure Closes (rs : List MsgRec) (h h' : Hub) : Prop where
  said : said h'.wire.log = said h.wire.log ++ rs
  closings : h.closings < h'.closings
  cleared : h'.Cleared

/-- A session is closed, or goes on; then a new one stays new. -/
def Passes (h h' : Hub) : Prop :=
  GoesOn [] h h' ∧ (h.Cleared → h'.Cleared) ∨ Closes [] h h'

section
variable {env : Env} {h h' h'' : Hub} {rs rs' : List MsgRec}

theorem GoesOn.refl (h : Hub) : GoesOn [] h h :=
  ⟨(List.append_nil _).symm, rfl, fun _ p' hp' hobs => ⟨p', hp', hobs, rfl, rfl⟩⟩

theorem GoesOn.trans (hab : GoesOn rs h h') (hbc : GoesOn rs' h' h'') :
    GoesOn (rs ++ rs') h h'' := by
  refine ⟨by rw [hbc.said, hab.said, List.append_assoc], hbc.closings.trans hab.closings,
    fun n p'' hp'' hobs'' => ?_⟩
  obtain ⟨p', hp', hobs', hclient', hfin'⟩ := hbc.marks n p'' hp'' hobs''
  obtain ⟨p, hp, hobs, hclient, hfin⟩ := hab.marks n p' hp' hobs'
  exact ⟨p, hp, hobs, hclient'.trans hclient, hfin'.trans hfin⟩

theorem GoesOn.closes (hab : GoesOn rs h h') (hbc : Closes rs' h' h'') :
    Closes (rs ++ rs') h h'' :=
  ⟨by rw [hbc.said, hab.said, List.append_assoc], by rw [← hab.closings]; exact hbc.closings,
    hbc.cleared⟩

theorem Passes.refl (h : Hub) : Passes h h := Or.inl ⟨.refl h, id⟩

theorem Passes.trans (hab : Passes h h') (hbc : Passes h' h'') : Passes h h'' := by
  rcases hab with ⟨hon, hnew⟩ | hclose
  · rcases hbc with ⟨hon', hnew'⟩ | hclose'
    · exact Or.inl ⟨hon.trans hon', hnew' ∘ hnew⟩
    · exact Or.inr (hon.closes hclose')
  · rcases hbc with ⟨hon', hnew'⟩ | hclose'
    · exact Or.inr ⟨by rw [hon'.said, hclose.said, List.append_assoc]; rfl,
        by rw [hon'.closings]; exact hclose.closings, hnew' hclose.cleared⟩
    · exact Or.inr ⟨by rw [hclose'.said, hclose.said, List.append_assoc]; rfl,
        hclose.closings.trans hclose'.closings, hclose'.cleared⟩

theorem Keeps.goesOn {S T : Set Str} (hk : Keeps S T False h h') : GoesOn [] h h' := by
  have hmarks := hk.marks.resolve_left id
  refine ⟨by rw [hk.said, List.append_nil], closings_of_unmarked hmarks, fun n p' hp' hobs => ?_⟩
  obtain ⟨p, hp, hs⟩ := hk.toRoster.back hp'
  exact ⟨p, hp, by rw [← hs.isObserver]; exact hobs, hs.client, hmarks.finished n p p' hp hp'⟩

/-- What neither a mark nor a queue nor the round depends on. -/
theorem passes_of_same {S T : Set Str} (hk : Keeps S T False h h') (hs : SameStanding h h')
    (hround : h'.round = h.round) : Passes h h' := by
  refine Or.inl ⟨hk.goesOn, fun hnew => ⟨hround.trans hnew.round, fun n p' hp' hobs => ?_⟩⟩
  obtain ⟨p, hp, hsame⟩ := hk.toRoster.back hp'
  have hstand := hs n
  rw [standing, standing, hp, hp', Option.map_some, Option.map_some, Option.some.injEq,
    Participant.standing, Participant.standing, Prod.mk.injEq, Prod.mk.injEq] at hstand
  obtain ⟨hfin, hqueue⟩ := hnew.agents n p hp (by rw [← hsame.isObserver]; exact hobs)
  exact ⟨hstand.2.1.trans hfin, hstand.2.2.trans hqueue⟩

theorem passes_of_calm {T : Set Str} (hk : Keeps ∅ T False h h') (hround : h'.round = h.round) :
    Passes h h' := passes_of_same hk hk.sameStanding hround

theorem Quiet.passes (hq : h.Quiet h') : Passes h h' :=
  passes_of_calm (T := ∅) hq.keeps (hq.same Hub.round fun _ _ => rfl)

/-- An event that is no end of a session. -/
theorem goesOn_emitEvent (h : Hub) {e : HubEvent} (he : (Record.event e h.wall).isDone = false)
    (skip : Option Str) : GoesOn [] h (h.emitEvent env e skip) := by
  have hlog : (h.emitEvent env e skip).closings = h.closings := by
    have hone := onRecord_emitEvent (P := Record.isDone) env h e skip
    rw [he] at hone
    exact hone
  have hk : Keeps ∅ ∅ True h (h.emitEvent env e skip) :=
    keeps_emitEvent env h e skip (Or.inl trivial)
  exact ⟨by rw [hk.said, List.append_nil], hlog, fun n p' hp' hobs => ⟨p', hp', hobs, rfl, rfl⟩⟩

theorem passes_emitEvent (h : Hub) {e : HubEvent} (he : (Record.event e h.wall).isDone = false)
    (skip : Option Str) : Passes h (h.emitEvent env e skip) :=
  Or.inl ⟨goesOn_emitEvent h he skip, fun hnew => ⟨hnew.round, hnew.agents⟩⟩

variable (env)

/-- The check does nothing, or closes the session. -/
theorem checkSessionDone_closes (h : Hub) :
    h.allFinished = false ∧ h.checkSessionDone env = h ∨ Closes [] h (h.checkSessionDone env) := by
  by_cases hdone : h.allFinished = true
  · have hk : Keeps ∅ ∅ True h (h.checkSessionDone env) := keeps_checkSessionDone env h
    have hann : (h.announceDone env).closings = h.closings + 1 := by
      have hemit := onRecord_emitEvent (P := Record.isDone) env h (.sessionDone h.round) none
      have hnote := (talks_notify env
        { h.emitEvent env (.sessionDone h.round) none with sessionDoneAt := some h.wall }
        (str "moot") (str "session_done — all agents finished")).records
      exact (onRecord_of_records hnote).trans hemit
    refine Or.inr ⟨by rw [hk.said, List.append_nil], ?_, ?_, fun n p hp hobs => ?_⟩
    · rw [checkSessionDone, if_pos hdone]
      show h.closings < (h.announceDone env).closings
      omega
    · rw [checkSessionDone, if_pos hdone]
      rfl
    · rw [get?_checkSessionDone, Option.map_eq_some_iff] at hp
      obtain ⟨q, hq, rfl⟩ := hp
      have hagent : q.isObserver = false := by
        rw [← hobs]
        split <;> rfl
      rw [hdone, hagent]
      exact ⟨rfl, (((allFinished_iff h).mp hdone).2 n q.finished q.queue
        (by rw [standing, hq, Option.map_some, Participant.standing, hagent])).2⟩
  · rw [Bool.not_eq_true] at hdone
    exact Or.inl ⟨hdone, by rw [checkSessionDone, hdone]; rfl⟩

theorem passes_checkSessionDone (h : Hub) : Passes h (h.checkSessionDone env) := by
  rcases checkSessionDone_closes env h with ⟨-, heq⟩ | hclose
  · rw [heq]
    exact .refl h
  · exact Or.inr hclose

/-- A flush closes the session, or it goes on. -/
theorem flushQueue_closes (hn : h.Named) (n : Str) :
    GoesOn [] h (h.flushQueue env n) ∨ Closes [] h (h.flushQueue env n) := by
  cases hp : h.get? n with
  | none =>
    rw [flushQueue, hp]
    exact Or.inl (.refl h)
  | some p =>
    by_cases hskip : p.queue = [] ∨ h.up p.client = false
    · rw [flushQueue_skip env hp hskip]
      exact Or.inl (.refl h)
    · simp only [not_or, Bool.not_eq_false] at hskip
      obtain ⟨h₂, hk, heq, -⟩ := flushQueue_spec env (E := False) hn hp hskip.1 hskip.2
      rw [heq]
      rcases checkSessionDone_closes env h₂ with ⟨-, hsame⟩ | hclose
      · rw [hsame]
        exact Or.inl hk.goesOn
      · exact Or.inr (hk.goesOn.closes hclose)

/-- The flush of an agent's queue. -/
theorem passes_flushQueue (hn : h.Named) {n : Str} {p : Participant} (hp : h.get? n = some p)
    (hobs : p.isObserver = false) : Passes h (h.flushQueue env n) := by
  rcases flushQueue_closes env hn n with hon | hclose
  · refine Or.inl ⟨hon, fun hnew => ?_⟩
    rw [flushQueue_skip env hp (Or.inl (hnew.agents n p hp hobs).2)]
    exact hnew
  · exact Or.inr hclose

/-! ## The watchdog -/

theorem passes_disconnect (h : Hub) (c : ClientId) : Passes h (h.disconnect env c) := by
  have hclose : ∀ k : Hub, Passes k (k.close c) := fun k => (talks_close k c).toQuiet.passes
  rcases disconnect_cases env h c with ⟨p, hp, -, heq⟩ | ⟨-, heq⟩
  · rw [heq]
    have hleft : Passes h (h.leave env (h.wire.clients c).name p) := by
      have hsaid : said (h.leave env (h.wire.clients c).name p).wire.log = said h.wire.log :=
        (keeps_emitEvent (S := ∅) (T := ∅) (E := True) env _ (.peerLeft _) none
          (Or.inl trivial)).said
      have hlog : (h.leave env (h.wire.clients c).name p).closings = h.closings :=
        onRecord_emitEvent (P := Record.isDone) env _ (.peerLeft _) none
      have hget : ∀ n q, (h.leave env (h.wire.clients c).name p).get? n = some q →
          h.get? n = some q := by
        intro n q hq
        by_cases hn : n = (h.wire.clients c).name
        · rw [hn, get?_leave_self] at hq
          cases hq
        · rw [get?_leave_of_ne env h hn] at hq
          exact hq
      exact Or.inl ⟨⟨by rw [hsaid, List.append_nil], hlog,
        fun n q hq hobs => ⟨q, hget n q hq, hobs, rfl, rfl⟩⟩,
        fun hnew => ⟨hnew.round, fun n q hq => hnew.agents n q (hget n q hq)⟩⟩
    exact (hleft.trans (passes_checkSessionDone env _)).trans (hclose _)
  · rw [heq]
    exact hclose h

theorem passes_tickOne (hw : h.Wf) (n : Str) : Passes h (h.tickOne env n) := by
  rcases tickOne_cases env h n with ⟨-, heq⟩ | ⟨p, hp, heq | heq | ⟨hobs, heq⟩⟩
  · rw [heq]
    exact .refl h
  · rw [heq]
    exact passes_disconnect env h _
  · rw [heq]
    exact passes_of_calm (T := ∅) (keeps_pingSilent env h n p) (by unfold pingSilent; split <;> rfl)
  · obtain ⟨q, hq, hs, -⟩ := get?_pingSilent env h hp
    have hping : Passes h (h.pingSilent env n p) :=
      passes_of_calm (T := ∅) (keeps_pingSilent env h n p) (by unfold pingSilent; split <;> rfl)
    have hw₁ : (h.pingSilent env n p).Wf :=
      hw.keeps (keeps_pingSilent (S := ∅) (T := ∅) (E := True) env h n p)
    have hassume : Passes (h.pingSilent env n p) ((h.pingSilent env n p).assumeIdle env n p) := by
      generalize h.pingSilent env n p = k at hq hw₁ ⊢
      unfold assumeIdle
      split
      · have hidle : Passes k (k.modify n (·.setIdle)) :=
          passes_of_same (T := ∅) (keeps_setIdle k n) (same_modify k n fun _ => rfl) rfl
        have hstall : Passes (k.modify n (·.setIdle)) ((k.modify n (·.setIdle)).emitEvent env
            (.stall (str "no sign of life from " ++ p.name ++ str ", assumed idle")) none) :=
          passes_emitEvent _ rfl none
        have hget : (k.modify n (·.setIdle)).get? n = some q.setIdle := by
          rw [get?_modify_self, hq]
          rfl
        have hnamed := (hw₁.keeps (keeps_setIdle (E := True) k n)).named
        refine (hidle.trans hstall).trans (passes_flushQueue env ?_ (p := q.setIdle) ?_ ?_)
        · exact hnamed
        · exact hget
        · rw [← hobs]
          exact hs.isObserver
      · exact .refl k
    have hblocked : ∀ k : Hub, Passes k (k.notifyBlocked env n) := fun k =>
      passes_of_calm (T := ∅) (keeps_notifyBlocked env k n) (by
        unfold notifyBlocked notify
        split
        · rfl
        · split
          · dsimp only
            split <;> rfl
          · rfl)
    rw [heq]
    exact (hping.trans hassume).trans (hblocked _)

theorem passes_watchdogTick (hw : h.Wf) : Passes h (h.watchdogTick env) := by
  have hprune : Passes h (h.pruneDead env) :=
    Or.inl ⟨⟨(List.append_nil _).symm, rfl, fun _ p' hp' hobs => ⟨p', hp', hobs, rfl, rfl⟩⟩,
      fun hnew => ⟨hnew.round, hnew.agents⟩⟩
  have hloop : (h.participants.keys.foldl (tickOne env) (h.pruneDead env)).Wf ∧
      Passes h (h.participants.keys.foldl (tickOne env) (h.pruneDead env)) :=
    tick_invariant env (I := fun k => k.Wf ∧ Passes h k)
      (fun k n hk => ⟨hk.1.tickOne env n, hk.2.trans (passes_tickOne env hk.1 n)⟩)
      ⟨hw.pruneDead env, hprune⟩ _
  have hquorum : ∀ k : Hub, Passes k (k.checkQuorum env) := fun k =>
    passes_of_calm (T := ∅) (keeps_checkQuorum env k) (by
      unfold checkQuorum notify
      split
      · rfl
      · split
        · dsimp only
          split
          · rfl
          · split <;> rfl
        · rfl)
  have hstall : ∀ k : Hub, Passes k (k.checkStall env) := fun k =>
    passes_of_calm (T := ∅) (keeps_checkStall env k) (by
      unfold checkStall notify
      split
      · dsimp only
        split <;> rfl
      · rfl)
  exact (hloop.2.trans (hquorum _)).trans (hstall _)

/-! ## Operations -/

variable {env}

theorem newSaid_eq (hsaid : said h'.wire.log = said h.wire.log ++ rs) : newSaid h h' = rs := by
  rw [newSaid, hsaid, List.drop_left]

/-- What is open and has the marks that are due minds the end. -/
theorem minded_of_marks (hopen : h'.allFinished = false) (hlog : h'.closings = h.closings)
    (hmarks : ∀ n p, h'.get? n = some p → p.isObserver = false → p.finished = h.dueMark h' n p) :
    Minded h h' := by
  refine ⟨hopen, fun hsome hall => ?_, fun _ => hmarks, fun hlt => absurd hlt (by omega),
    fun hlt => absurd hlt (by omega)⟩
  obtain ⟨n, p, hp, hobs⟩ := hsome
  have hdone : h'.allFinished = true := by
    rw [allFinished_iff]
    refine ⟨⟨n, _, _, by rw [standing, hp, Option.map_some, Participant.standing, hobs]⟩,
      fun m b ms hm => ?_⟩
    obtain ⟨q, hq, hstand⟩ := Option.map_eq_some_iff.mp hm
    simp only [Participant.standing, Prod.mk.injEq] at hstand
    obtain ⟨hagent, rfl, rfl⟩ := hstand
    obtain ⟨hdue, hqueue⟩ := hall m q hq hagent
    exact ⟨(hmarks m q hq hagent).trans hdue, hqueue⟩
  rw [hdone] at hopen
  cases hopen

/-- What has closed a session minds the end. -/
theorem minded_of_cleared (hopen : h'.allFinished = false) (hlt : h.closings < h'.closings)
    (hnew : h'.Cleared) : Minded h h' := by
  refine ⟨hopen, fun _ _ => hlt, fun heq => absurd heq (by omega), fun _ n p hp hobs hfin => ?_,
    fun _ => Or.inl hnew.round⟩
  rw [(hnew.agents n p hp hobs).1] at hfin
  cases hfin

/-- Nobody is there twice. -/
theorem mark_of_old {n : Str} {p p' : Participant} (hp : h.get? n = some p)
    (hclient : p'.client = p.client) (hfin : p'.finished = p.finished)
    (hnone : (newSaid h h').find? (·.sender = n) = none) : p'.finished = h.dueMark h' n p' := by
  rw [dueMark, hnone, hp]
  simp [hclient, hfin]

theorem Passes.minded (hopen : h'.allFinished = false) (hpass : Passes h h') : Minded h h' := by
  rcases hpass with ⟨hon, -⟩ | hclose
  · refine minded_of_marks hopen hon.closings fun n p' hp' hobs => ?_
    obtain ⟨p, hp, -, hclient, hfin⟩ := hon.marks n p' hp' hobs
    exact mark_of_old hp hclient hfin (by rw [newSaid_eq hon.said]; rfl)
  · exact minded_of_cleared hopen hclose.closings hclose.cleared

theorem GoesOn.minded (hopen : h'.allFinished = false) (hon : GoesOn [] h h') : Minded h h' := by
  refine minded_of_marks hopen hon.closings fun n p' hp' hobs => ?_
  obtain ⟨p, hp, -, hclient, hfin⟩ := hon.marks n p' hp' hobs
  exact mark_of_old hp hclient hfin (by rw [newSaid_eq hon.said]; rfl)

/-- A state frame. -/
theorem minded_handleState (hw : h'.Wf) (hon : GoesOn [] h h') (n : Str) (f : Report)
    (hopen : (h'.handleState env n f).allFinished = false) :
    Minded h (h'.handleState env n f) := by
  have hends : GoesOn [] h' (h'.handleState env n f) ∨ Closes [] h' (h'.handleState env n f) := by
    unfold handleState
    split
    · exact Or.inl (.refl h')
    · next p hp =>
      have hset : Keeps {n} ∅ False h' (h'.modify n (·.setState h'.now f.state)) :=
        keeps_modify h' n (fun _ => ⟨rfl, rfl, rfl, rfl, rfl⟩) (Or.inr fun _ => rfl)
      simp only
      split
      · split
        · have hdetail := hset.trans (keeps_modify_calm (S := {n}) (T := ∅)
            (h'.modify n (·.setState h'.now f.state)) n
            (f := fun p => { p with blockedSince := some h'.now, blockedDetail := f.detail })
            (fun _ => ⟨⟨rfl, rfl, rfl, rfl, rfl⟩, rfl, id⟩) (Or.inr fun _ => rfl))
          refine Or.inl (hdetail.goesOn.trans (Keeps.goesOn (S := ∅) (T := ∅) ?_))
          exact keeps_floor rfl rfl rfl rfl rfl le_rfl rfl
        · exact Or.inl hset.goesOn
      · have hclear := hset.trans (keeps_modify_calm (S := {n}) (T := ∅)
          (h'.modify n (·.setState h'.now f.state)) n
          (f := fun p => { p with blockedSince := none, blockedDetail := none })
          (fun _ => ⟨⟨rfl, rfl, rfl, rfl, rfl⟩, rfl, id⟩) (Or.inr fun _ => rfl))
        split
        · rcases flushQueue_closes env (hclear.named hw.named) n with hflush | hclose
          · exact Or.inl (hclear.goesOn.trans hflush)
          · exact Or.inr (hclear.goesOn.closes hclose)
        · exact Or.inl hclear.goesOn
  rcases hends with hgo | hclose
  · exact (hon.trans hgo).minded hopen
  · have hall := hon.closes hclose
    exact minded_of_cleared hopen hall.closings hall.cleared

variable (env) in
/-- The routing of a say. -/
theorem goesOn_routeSay (hn : h.Named) {n : Str} {p : Participant} (hp : h.get? n = some p)
    (f : Say) : (h.routeSay env n f).1 = false ∧ GoesOn [] h (h.routeSay env n f).2 ∨
      (h.routeSay env n f).1 = true ∧ ∃ r, r.sender = n ∧ r.kind = f.kind ∧
        GoesOn [r] h (h.routeSay env n f).2 := by
  obtain ⟨h₀, hc, heq | ⟨code, detail, retry, heq⟩⟩ := routeSay_cases env hp f
  · have hcharged : Keeps ∅ ∅ False h h₀ := hc.keeps
    have hcount : Keeps ∅ ∅ False h₀ (h₀.countSay p f) := keeps_countSay h₀ p f
    have hrecord : GoesOn [recordOf (h₀.sayMsg p f)] (h₀.countSay p f) (h₀.remember env p f) := by
      refine ⟨said_append _ _, ?_, fun n p' hp' hobs => ⟨p', hp', hobs, rfl, rfl⟩⟩
      exact onRecord_append (P := Record.isDone) (h₀.countSay p f) _
    have hroute : Keeps Set.univ (h₀.remember env p f).names False (h₀.remember env p f)
        ((h₀.remember env p f).route env (h₀.sayMsg p f)).1 :=
      keeps_route env ((roster_remember env h₀ p f).named (hcharged.named hn)) _
    have hanswer : Keeps ∅ ∅ False ((h₀.remember env p f).route env (h₀.sayMsg p f)).1
        (h₀.accept env p f) := keeps_answer env _ p f _ _
    rw [heq]
    exact Or.inr ⟨rfl, _, hn n p hp, rfl, (((hcharged.goesOn.trans hcount.goesOn).trans
      hrecord).trans hroute.goesOn).trans hanswer.goesOn⟩
  · have hcharged : Keeps ∅ ∅ False h h₀ := hc.keeps
    have hrefuse : Keeps ∅ ∅ False h₀ (h₀.refuse env p f code detail retry) :=
      keeps_refuse env h₀ p f code detail retry
    rw [heq]
    exact Or.inl ⟨rfl, (hcharged.trans hrefuse).goesOn⟩

variable (env) in
theorem inferIdle_closes (hn : h.Named) (n : Str) :
    GoesOn [] h (h.inferIdle env n) ∨ Closes [] h (h.inferIdle env n) := by
  unfold inferIdle
  split
  · exact Or.inl (.refl h)
  · split
    · have hidle : Keeps {n} ∅ False h (h.modify n (·.setIdle)) := keeps_setIdle h n
      rcases flushQueue_closes env (hidle.named hn) n with hflush | hclose
      · exact Or.inl (hidle.goesOn.trans hflush)
      · exact Or.inr (hidle.goesOn.closes hclose)
    · exact Or.inl (.refl h)

/-- The mark of an accepted say. -/
theorem minded_modify {n : Str} {r : MsgRec} {b : Bool} (hr : r.sender = n)
    (hb : b = decide (r.kind = str "done")) (hends : GoesOn [r] h h' ∨ Closes [r] h h')
    (hopen : (h'.modify n fun p => { p with finished := b }).allFinished = false) :
    Minded h (h'.modify n fun p => { p with finished := b }) := by
  have hget : ∀ m p, (h'.modify n fun p => { p with finished := b }).get? m = some p →
      ∃ q, h'.get? m = some q ∧ p.isObserver = q.isObserver ∧ p.client = q.client ∧
        (m = n ∧ p.finished = b ∨ m ≠ n ∧ p.finished = q.finished) := by
    intro m p hp
    by_cases hm : m = n
    · subst hm
      rw [get?_modify_self, Option.map_eq_some_iff] at hp
      obtain ⟨q, hq, rfl⟩ := hp
      exact ⟨q, hq, rfl, rfl, Or.inl ⟨rfl, rfl⟩⟩
    · rw [get?_modify_of_ne h' hm] at hp
      exact ⟨p, hp, rfl, rfl, Or.inr ⟨hm, rfl⟩⟩
  rcases hends with hon | hclose
  · have hsaid : newSaid h (h'.modify n fun p => { p with finished := b }) = [r] :=
      newSaid_eq hon.said
    refine minded_of_marks hopen hon.closings fun m p hp hobs => ?_
    obtain ⟨q, hq, hkind, hclient, ⟨rfl, hfin⟩ | ⟨hm, hfin⟩⟩ := hget m p hp
    · rw [hfin, dueMark, hsaid, List.find?_cons_of_pos (by simp [hr])]
      exact hb
    · obtain ⟨q₀, hq₀, -, hclient₀, hfin₀⟩ := hon.marks m q hq (by rw [← hkind]; exact hobs)
      refine mark_of_old hq₀ (hclient.trans hclient₀) (hfin.trans hfin₀) ?_
      rw [hsaid, List.find?_cons_of_neg (by simp [hr, Ne.symm hm])]
      rfl
  · have hsaid : newSaid h (h'.modify n fun p => { p with finished := b }) = [r] :=
      newSaid_eq hclose.said
    have hlt : h.closings < (h'.modify n fun p => { p with finished := b }).closings :=
      hclose.closings
    refine ⟨hopen, fun _ _ => hlt, fun heq => absurd heq (by omega), fun _ m p hp hobs hfin => ?_,
      fun _ => Or.inl hclose.cleared.round⟩
    obtain ⟨q, hq, hkind, -, ⟨rfl, hmark⟩ | ⟨-, hmark⟩⟩ := hget m p hp
    · refine ⟨r, by rw [hsaid]; exact List.mem_singleton_self r, hr, ?_⟩
      rw [← hmark, hfin] at hb
      simpa using hb.symm
    · rw [hmark, (hclose.cleared.agents m q hq (by rw [← hkind]; exact hobs)).1] at hfin
      cases hfin

/-- A say that gives its sender no mark: it is refused, or its sender observes. -/
theorem minded_of_unmarked {rs : List MsgRec} {n : Str}
    (hends : GoesOn rs h h' ∨ Closes rs h h')
    (hunmarked : ∀ q, h'.get? n = some q → q.isObserver = true ∨ rs = [])
    (hsender : ∀ r ∈ rs, r.sender = n) (hopen : h'.allFinished = false) : Minded h h' := by
  rcases hends with hgo | hclose
  · refine minded_of_marks hopen hgo.closings fun m q hq hobs => ?_
    obtain ⟨q₀, hq₀, -, hclient, hfin⟩ := hgo.marks m q hq hobs
    refine mark_of_old hq₀ hclient hfin ?_
    rw [newSaid_eq hgo.said, List.find?_eq_none]
    intro r hr hm
    have hmn : m = n := (by simpa using hm : r.sender = m).symm.trans (hsender r hr)
    subst hmn
    rcases hunmarked q hq with hwatch | rfl
    · rw [hwatch] at hobs
      cases hobs
    · cases hr
  · exact minded_of_cleared hopen hclose.closings hclose.cleared

theorem minded_handleSay (hw : h'.Wf) (hon : GoesOn [] h h') {n : Str} {p : Participant}
    (hp : h'.get? n = some p) (f : Say) (hopen : (h'.handleSay env n f).allFinished = false) :
    Minded h (h'.handleSay env n f) := by
  have hroute := goesOn_routeSay env hw.named hp f
  have hends := inferIdle_closes env ((roster_routeSay env hw.named n f).named hw.named) n
  unfold handleSay settle at hopen ⊢
  simp only at hopen ⊢
  generalize (h'.routeSay env n f).2.inferIdle env n = k at hends hopen ⊢
  have hall : ∀ rs, GoesOn rs h' (h'.routeSay env n f).2 → GoesOn rs h k ∨ Closes rs h k := by
    intro rs hrs
    rcases hends with hgo | hclose
    · exact Or.inl (by simpa using (hon.trans hrs).trans hgo)
    · exact Or.inr (by simpa using (hon.trans hrs).closes hclose)
  rcases hroute with ⟨hno, hgo⟩ | ⟨hok, r, hsender, hkind, hgo⟩
  · rw [hno] at hopen ⊢
    have hsame : ∀ q : Participant, ¬ (false = true ∧ q.isObserver = false) := fun q hq =>
      Bool.false_ne_true hq.1
    have hquiet : k.allFinished = false → Minded h k :=
      minded_of_unmarked (n := n) (hall [] hgo) (fun _ _ => Or.inr rfl) (by simp)
    split at hopen
    · exact hquiet hopen
    · next q _ =>
      simp only [if_neg (hsame q)] at hopen ⊢
      exact hquiet hopen
  · rw [hok] at hopen ⊢
    have hone : ∀ r' ∈ [r], r'.sender = n := fun r' hr' => by
      rw [List.mem_singleton.mp hr']
      exact hsender
    split at hopen
    · next hnone =>
      exact minded_of_unmarked (hall _ hgo) (fun q hq => by rw [hnone] at hq; cases hq) hone hopen
    · next q hq =>
      by_cases hobs : q.isObserver = false
      · simp only [hobs, and_self, if_true] at hopen ⊢
        by_cases hdone : f.kind = str "done"
        · simp only [hdone, if_true] at hopen ⊢
          unfold markDone at hopen ⊢
          have hmark := minded_modify (b := true) hsender
            (by rw [hkind, hdone]; rfl) (hall _ hgo)
          rcases checkSessionDone_closes env (k.modify n fun p => { p with finished := true }) with
            ⟨hstill, hsame⟩ | hclose
          · rw [hsame]
            exact hmark hstill
          · refine minded_of_cleared hopen ?_ hclose.cleared
            have hlt := hclose.closings
            have hle : h.closings ≤ k.closings := by
              rcases hall _ hgo with hgo | hclosed
              · exact hgo.closings.ge
              · exact hclosed.closings.le
            exact Nat.lt_of_le_of_lt hle hlt
        · simp only [if_neg hdone] at hopen ⊢
          exact minded_modify (b := false) hsender
            (by rw [hkind]; simpa using hdone) (hall _ hgo) hopen
      · rw [Bool.not_eq_false] at hobs
        simp only [hobs, Bool.true_eq_false, and_false, if_false] at hopen ⊢
        refine minded_of_unmarked (hall _ hgo) (fun q' hq' => Or.inl ?_) hone hopen
        rw [hq, Option.some.injEq] at hq'
        rw [← hq']
        exact hobs

/-! ## Joins -/

variable (env)

theorem round_checkSessionDone (h : Hub) : (h.checkSessionDone env).round ≤ h.round := by
  unfold checkSessionDone
  split
  · exact Nat.zero_le _
  · exact le_rfl

theorem round_checkRoundLimit (h : Hub) : (h.checkRoundLimit env).round = h.round := by
  have hann : (h.announceLimit env).round = h.round := by
    unfold announceLimit notify
    split <;> rfl
  unfold checkRoundLimit
  split
  · split
    · exact hann
    · exact hann
  · rfl

theorem round_deliver (h : Hub) (n : Str) (msgs : List Msg) :
    (h.deliver env n msgs).round = h.round := by
  cases hp : h.get? n with
  | none => rw [deliver, hp]
  | some p =>
    rw [deliver_eq env hp]
    split <;> rfl

theorem round_giveBacklog (h : Hub) (n : Str) : (h.giveBacklog env n).round = h.round := by
  unfold giveBacklog
  split
  · rfl
  · dsimp only
    split
    · split
      · rfl
      · exact round_deliver env _ _ _
    · rfl

theorem round_greet (h : Hub) (n : Str) (p : Participant) (rejoined : Bool) :
    (h.greet env n p rejoined).round = h.round := by
  unfold greet
  simp only
  split
  · exact round_giveBacklog env _ n
  · rfl

theorem round_flushQueue (h : Hub) (n : Str) : (h.flushQueue env n).round ≤ h.round + 1 := by
  cases hp : h.get? n with
  | none =>
    rw [flushQueue, hp]
    exact Nat.le_succ _
  | some p =>
    by_cases hskip : p.queue = [] ∨ h.up p.client = false
    · rw [flushQueue_skip env hp hskip]
      exact Nat.le_succ _
    · simp only [not_or, Bool.not_eq_false] at hskip
      obtain ⟨h₁, h₂, heq, hcases⟩ := flushQueue_counts env hp hskip.1 hskip.2
      have hround : h₂.round ≤ h.round + 1 := by
        rcases hcases with ⟨-, rfl, rfl⟩ | ⟨-, rfl, rfl⟩
        · rw [round_checkRoundLimit, round_deliver]
        · rw [round_deliver]
          exact Nat.le_succ _
      rw [heq]
      exact (round_checkSessionDone env h₂).trans hround

/-- A participant joins: the others keep their marks, and it has none. -/
structure Joins (c : ClientId) (n : Str) (h h' : Hub) : Prop where
  said : said h'.wire.log = said h.wire.log
  closings : h'.closings = h.closings
  others : ∀ m p', m ≠ n → h'.get? m = some p' → p'.isObserver = false →
    ∃ p, h.get? m = some p ∧ p.isObserver = false ∧ p'.client = p.client ∧
      p'.finished = p.finished
  joined : ∀ p', h'.get? n = some p' → p'.isObserver = false → p'.client = c ∧ p'.finished = false
  round : h'.round ≤ h.round + 1

variable {env}

theorem Joins.then {c : ClientId} {n : Str} (hj : Joins c n h h') (hon : GoesOn [] h' h'')
    (hround : h''.round ≤ h.round + 1) : Joins c n h h'' := by
  refine ⟨by rw [hon.said, hj.said, List.append_nil], hon.closings.trans hj.closings,
    fun m p'' hm hp'' hobs => ?_, fun p'' hp'' hobs => ?_, hround⟩
  · obtain ⟨p', hp', hobs', hclient', hfin'⟩ := hon.marks m p'' hp'' hobs
    obtain ⟨p, hp, hobs₀, hclient, hfin⟩ := hj.others m p' hm hp' hobs'
    exact ⟨p, hp, hobs₀, hclient'.trans hclient, hfin'.trans hfin⟩
  · obtain ⟨p', hp', hobs', hclient', hfin'⟩ := hon.marks n p'' hp'' hobs
    obtain ⟨hclient, hfin⟩ := hj.joined p' hp' hobs'
    exact ⟨hclient'.trans hclient, hfin'.trans hfin⟩

variable (env) in
theorem joins_enroll (h : Hub) (c : ClientId) (f : Hello) :
    Joins c f.name h (h.enroll c f.name (admitted env h c f)) := by
  refine ⟨rfl, rfl, fun m p hm hp hobs => ?_, fun p hp _ => ?_, Nat.le_succ _⟩
  · rw [get?_enroll_of_ne _ _ hm] at hp
    exact ⟨p, hp, hobs, rfl, rfl⟩
  · rw [get?_enroll_self, Option.some.injEq] at hp
    rw [← hp]
    exact ⟨admitted_client env h c f, finished_admitted h c f⟩

variable (env) in
/-- The welcome, the backlog and the event of a join. -/
theorem goesOn_greet (hn : h.Named) (n : Str) (p : Participant) (rejoined : Bool) :
    GoesOn [] h (h.greet env n p rejoined) := by
  have hwelcome : Keeps ∅ ∅ False h (h.send env p (welcome env h p)) :=
    (quiet_send env h p (by simp [welcome])).keeps
  have hback : Keeps {n} {n} False (h.send env p (welcome env h p))
      ((h.send env p (welcome env h p)).giveBacklog env n) :=
    keeps_giveBacklog env (hwelcome.named hn) n
  have hend : ∀ k : Hub, GoesOn [] k
      (k.touchActivity.emitEvent env (.peerJoined n p.kind p.role) (some n)) := by
    intro k
    have htouch : Keeps ∅ ∅ False k k.touchActivity := keeps_touchActivity k
    exact htouch.goesOn.trans (goesOn_emitEvent k.touchActivity rfl (some n))
  unfold greet
  simp only
  split
  · exact (hwelcome.goesOn.trans hback.goesOn).trans (hend _)
  · exact hwelcome.goesOn.trans (hend _)

variable (env) in
/-- A registration joins, or its mail closes the session. -/
theorem joins_register (hw : h.Wf) {c : ClientId} (f : Hello)
    (hc : (h.wire.clients c).name = []) :
    Joins c f.name h (h.register env c f) ∨
      h.closings < (h.register env c f).closings ∧ (h.register env c f).Cleared := by
  have hjoin := joins_enroll env h c f
  have hwf : (h.enroll c f.name (admitted env h c f)).Wf :=
    hw.enroll hc (admitted_name env hw c f) (nameRe_ne_nil f.name_ok.2) (admitted_client env h c f)
  have hgreet := goesOn_greet env hwf.named f.name (admitted env h c f)
    (h.dead.contains f.name)
  have hround : ((h.enroll c f.name (admitted env h c f)).greet env f.name (admitted env h c f)
      (h.dead.contains f.name)).round = h.round := round_greet env _ _ _ _
  have hnamed : ((h.enroll c f.name (admitted env h c f)).greet env f.name (admitted env h c f)
      (h.dead.contains f.name)).Named :=
    (keeps_greet env hwf.named f.name (admitted env h c f) (h.dead.contains f.name)).named hwf.named
  have hgreeted : Joins c f.name h ((h.enroll c f.name (admitted env h c f)).greet env f.name
      (admitted env h c f) (h.dead.contains f.name)) :=
    hjoin.then hgreet (by rw [hround]; exact Nat.le_succ _)
  unfold register
  simp only
  split
  · rcases flushQueue_closes env hnamed f.name with hon | hclose
    · refine Or.inl (hgreeted.then hon ((round_flushQueue env _ _).trans ?_))
      rw [hround]
    · exact Or.inr ⟨by rw [← hgreeted.closings]; exact hclose.closings, hclose.cleared⟩
  · exact Or.inl hgreeted

/-- A join, behind the reaping of who held the name. -/
theorem minded_register (hw : h.Wf) (hready : Passes h h') (hwf : h'.Wf) (f : Hello) {c : ClientId}
    (hname : (h.wire.clients c).name = []) (hname' : (h'.wire.clients c).name = [])
    (hopen : (h'.register env c f).allFinished = false) : Minded h (h'.register env c f) := by
  -- the client of a registration has its name, and this one has none
  have hother : ∀ q, h.get? f.name = some q → q.client ≠ c := fun q hq heq => by
    have howns := hw.owns f.name q hq
    rw [heq, hname] at howns
    exact nameRe_ne_nil f.name_ok.2 howns.symm
  rcases joins_register env hwf f hname' with hj | ⟨hlt, hnew⟩
  · rcases hready with ⟨hon, -⟩ | hclose
    · have hsaid : newSaid h (h'.register env c f) = [] := newSaid_eq (by rw [hj.said, hon.said])
      refine minded_of_marks hopen (hj.closings.trans hon.closings) fun m p hp hobs => ?_
      by_cases hm : m = f.name
      · subst hm
        obtain ⟨hclient, hfin⟩ := hj.joined p hp hobs
        rw [hfin, dueMark, hsaid]
        cases hq : h.get? f.name with
        | none => rfl
        | some q => simp [hclient, hother q hq]
      · obtain ⟨q, hq, hobs', hclient, hfin⟩ := hj.others m p hm hp hobs
        obtain ⟨q₀, hq₀, -, hclient₀, hfin₀⟩ := hon.marks m q hq hobs'
        exact mark_of_old hq₀ (hclient.trans hclient₀) (hfin.trans hfin₀) (by rw [hsaid]; rfl)
    · have hlt : h.closings < (h'.register env c f).closings := by
        rw [hj.closings]
        exact hclose.closings
      refine ⟨hopen, fun _ _ => hlt, fun heq => absurd heq (by omega),
        fun _ m p hp hobs hfin => ?_, fun _ => ?_⟩
      · by_cases hm : m = f.name
        · subst hm
          rw [(hj.joined p hp hobs).2] at hfin
          cases hfin
        · obtain ⟨q, hq, hobs', -, hmark⟩ := hj.others m p hm hp hobs
          rw [hmark, (hclose.cleared.agents m q hq hobs').1] at hfin
          cases hfin
      · have hround := hj.round
        rw [hclose.cleared.round] at hround
        obtain ⟨p, hp, hs⟩ := (keeps_register env hwf hname' f).toRoster.same f.name _
          (get?_enroll_self _ c f.name (admitted env h' c f))
        rcases Nat.le_one_iff_eq_zero_or_eq_one.mp hround with hzero | hone
        · exact Or.inl hzero
        · refine Or.inr ⟨hone, f.name, p, hp, fun q hq => ?_⟩
          rw [hs.client, admitted_client]
          exact hother q hq
  · have hle : h.closings ≤ h'.closings := by
      rcases hready with ⟨hon, -⟩ | hclose
      · exact hon.closings.ge
      · exact hclose.closings.le
    exact minded_of_cleared hopen (Nat.lt_of_le_of_lt hle hlt) hnew

theorem minded_handleHello (hw : h.Wf) (c : ClientId) (f : Hello)
    (hopen : (h.handleHello env c f).allFinished = false) :
    Minded h (h.handleHello env c f) := by
  have hreap : Passes h (h.reap env f.name) := by
    unfold reap
    split
    · split
      · exact .refl h
      · exact passes_disconnect env h _
    · exact .refl h
  have hroom : ∀ k : Hub, Passes k (k.declareRoom f) := fun k => by
    refine passes_of_calm (T := ∅) (keeps_declareRoom k f) ?_
    unfold declareRoom
    split <;> rfl
  have hready := hreap.trans (hroom _)
  have hwf : ((h.reap env f.name).declareRoom f).Wf :=
    (hw.reap env f.name).keeps (keeps_declareRoom (S := ∅) (T := ∅) (E := True) _ f)
  rcases handleHello_cases env h c f with
    ⟨-, detail, heq⟩ | ⟨hname, ⟨p, -, heq⟩ | ⟨-, heq⟩⟩
  · rw [heq] at hopen ⊢
    exact ((quiet_errRaw env h c _ _ _).passes).minded hopen
  · rw [heq] at hopen ⊢
    have haway : Passes ((h.reap env f.name).declareRoom f)
        (((h.reap env f.name).declareRoom f).turnAway env c f.name) :=
      ((quiet_errRaw env _ c _ _ _).passes).trans (talks_close _ c).toQuiet.passes
    exact (hready.trans haway).minded hopen
  · rw [heq] at hopen ⊢
    have hname' : (((h.reap env f.name).declareRoom f).wire.clients c).name = [] := by
      rw [name_declareRoom, name_reap]
      exact hname
    exact minded_register hw hready hwf f hname hname' hopen

/-! ## Runs -/

variable {F : Type} [PyJson.PyFloat F]

variable (env) in
theorem open_step (hw : h.Wf) (hopen : h.allFinished = false) (op : Op F) :
    (h.step env op).allFinished = false := by
  have hI : Handled env anyFrame fun k => k.allFinished = false :=
    Strokes.rule fun _ _ hw hs hopen => open_stroke hopen hw hs
  exact hI.step hw hopen (allowed_any h op) (fun _ => hopen) fun _ _ _ => hopen

/-- **Step.**  Every operation minds the end of the session. -/
theorem minded_step (hw : h.Wf) (hopen : h.allFinished = false) (op : Op F) :
    Minded h (h.step env op) := by
  have hnext := open_step env hw hopen op
  cases op with
  | handle c frame =>
    change (h.handle env c frame).allFinished = false at hnext
    show Minded h (h.handle env c frame)
    rcases handle_cases env h c frame with ⟨e, -, heq⟩ | ⟨f, hv, heq⟩
    · rw [heq] at hnext ⊢
      exact ((quiet_errRaw env h c _ _ _).passes).minded hnext
    · rw [heq] at hnext ⊢
      rcases handleInbound_cases env h c f with ⟨g, rfl, heq⟩ | ⟨hf, heq⟩
      · rw [heq] at hnext ⊢
        exact minded_handleHello hw c g hnext
      · rw [heq] at hnext ⊢
        have hlife : Keeps ∅ ∅ False h (h.lifeSign (h.wire.clients c).name) := keeps_lifeSign h _
        have hw₁ := hw.roster hlife.toRoster
        unfold dispatch at hnext ⊢
        simp only at hnext ⊢
        split at hnext
        · exact ((quiet_errRaw env h c _ _ _).passes).minded hnext
        · next p hp =>
          obtain ⟨q, hq, -⟩ := hlife.same (h.wire.clients c).name p hp
          cases f with
          | hello f => exact absurd rfl (hf f)
          | say f => exact minded_handleSay hw₁ hlife.goesOn hq f hnext
          | state f => exact minded_handleState hw₁ hlife.goesOn _ f hnext
          | cmd cmd seq =>
            exact (hlife.goesOn.trans
              (keeps_handleCmd env (E := False) hw₁.named _ cmd seq).goesOn).minded hnext
          | roster seq =>
            exact ((passes_of_calm hlife rfl).trans (quiet_handleRoster env _ _ seq).passes).minded
              hnext
          | bye => exact ((passes_of_calm hlife rfl).trans (passes_disconnect env _ c)).minded hnext
          | pong => exact (passes_of_calm hlife rfl).minded hnext
  | disconnect c => exact (passes_disconnect env h c).minded hnext
  | watchdogTick => exact (passes_watchdogTick env hw).minded hnext
  | clock now wall =>
    have hsame : Passes h { h with now := now, wall := wall } :=
      Or.inl ⟨⟨(List.append_nil _).symm, rfl, fun _ p' hp' hobs => ⟨p', hp', hobs, rfl, rfl⟩⟩,
        fun hnew => ⟨hnew.round, hnew.agents⟩⟩
    exact hsame.minded hnext
  | fail c => exact ((talks_fail h c).toQuiet.passes).minded hnext

theorem allFinished_init (records : List MsgRec) (now wall : Rat) :
    (init env records now wall).allFinished = false := rfl

variable (env) in
/-- **`session_done` is never missed.**  Between any two operations of a run the session is not at
its end, and every operation minds it: when the marks that are due and the queues amount to an end,
`session_done` is on the record, the round starts again and the marks are cleared. -/
theorem session_done_not_missed (records : List MsgRec) (now wall : Rat) (ops : List (Op F)) :
    let h := Run.after (Hub.step env) (init env records now wall) ops
    h.allFinished = false ∧ ∀ op : Op F, Minded h (h.step env op) := by
  intro h
  have hall : h.Wf ∧ h.allFinished = false := Run.preserved
    (I := fun k : Hub => k.Wf ∧ k.allFinished = false)
    (fun k op hk => ⟨hk.1.step env op, open_step env hk.1 hk.2 op⟩)
    ⟨wf_init env records now wall, allFinished_init records now wall⟩ ops
  exact ⟨hall.2, fun op => minded_step hall.1 hall.2 op⟩

/-- One of two agents has finished. -/
def halfDone : List (Op PyJson.Token) :=
  [.handle 0 (helloFrame "alice" "agent" []), .handle 1 (helloFrame "bob" "agent" []),
    .handle 0 (sayFrame "bob" "done" "over to you" false)]

/-- The other's say ends the session. -/
theorem session_done_not_missed_halfDone :
    let h := Run.after (Hub.step .still) (init .still [] 0 0) halfDone
    let op : Op PyJson.Token := .handle 1 (sayFrame "alice" "done" "and out" false)
    h.closings = 0 ∧ (h.step .still op).closings = 1 ∧ (h.step .still op).round = 0 ∧
      h.allFinished = false ∧ ∀ op : Op PyJson.Token, Minded h (h.step .still op) :=
  ⟨by decide +kernel, by decide +kernel, by decide +kernel,
    session_done_not_missed .still [] 0 0 halfDone⟩

end

end Hub

end Moot
