import Moot.Hub.Keeps

/-!
# What one participant gets of a step

`Hub.Keeps` says who is affected by a step; here is what happens to a participant
that is: what a list of deliveries brings it, and what routing a message does to
its mail.

Proved here: `route_spec`, the routing loop seen from one participant, and
`msgs_routeActs`, what the loop's acts bring it.
-/

namespace Moot
open Py Proto

namespace Hub

section
variable (env : Env) {E : Prop} {h : Hub}

/-! ## Many deliveries -/

theorem deliverAll_spec (hn : h.Named) (bs : List (Str × List Msg)) {m : Str} {q : Participant}
    (hq : h.get? m = some q) :
    ∃ q', (h.deliverAll env bs).get? m = some q' ∧ q'.Calm q ∧ q'.finished = q.finished ∧
      (q.isObserver = false → m ∈ bs.map Prod.fst → q'.state ≠ .idle) ∧
      deliveries m (h.deliverAll env bs).wire.log = deliveries m h.wire.log ++
        bs.filterMap fun b => if b.1 = m then some (sortById b.2) else none := by
  induction bs generalizing h q with
  | nil => exact ⟨q, hq, .refl q, rfl, by simp, by simp [deliverAll]⟩
  | cons b bs ih =>
    have hk : Keeps ∅ {b.1} False h (h.deliver env b.1 b.2) := keeps_deliver env hn b.1 b.2
    obtain ⟨q₁, hq₁, hs₁, hcalm₁⟩ := hk.spec hq
    have hfin₁ := (hk.marks.resolve_left id).finished m q q₁ hq hq₁
    obtain ⟨q₂, hq₂, hcalm₂, hfin₂, hbusy₂, hlog₂⟩ := ih (hk.named hn) hq₁
    have hc₁ := hcalm₁ (Set.notMem_empty m)
    refine ⟨q₂, hq₂, hc₁.trans hcalm₂, hfin₂.trans hfin₁, fun hobs hmem => ?_, ?_⟩
    · by_cases hm : b.1 = m
      · have hget := get?_deliver env (hm ▸ hq : h.get? b.1 = some q) b.2
        rw [hm] at hget
        rw [← hm, hm, hget, Option.some.injEq] at hq₁
        intro hidle
        have := hcalm₂.idle hidle
        rw [← hq₁, if_neg (by simp [hobs])] at this
        cases this
      · refine hbusy₂ (by rw [hs₁.isObserver]; exact hobs) ?_
        simpa [Ne.symm hm] using hmem
    · refine hlog₂.trans ?_
      by_cases hm : b.1 = m
      · subst hm
        rw [deliveries_deliver env hn hq]
        simp
      · rw [hk.delivered m (Ne.symm hm)]
        simp [hm]

/-- What the batches of a message hold for one participant. -/
theorem batches_spec (hn : h.Named) {m : Str} {q : Participant} (hq : h.get? m = some q)
    (f : Participant → Option (List Msg)) :
    (batches f h).filterMap (fun b => if b.1 = m then some (sortById b.2) else none) =
      ((f q).map sortById).toList := by
  have hentries : (batches f h).filterMap
      (fun b => if b.1 = m then some (sortById b.2) else none) =
      h.participants.entries.filterMap fun e => if e.1 = m then (f e.2).map sortById else none := by
    simp only [batches, Dict.values, List.filterMap_map, List.filterMap_filterMap]
    refine List.filterMap_congr fun e he => ?_
    have hname : e.2.name = e.1 := hn e.1 e.2 (Dict.get?_eq_some_iff.mpr he)
    simp only [Function.comp_apply, hname]
    cases f e.2 <;> simp
  rw [hentries, Dict.filterMap_entries h.participants m fun q => (f q).map sortById]
  simp only [get?] at hq
  rw [hq, Option.bind_some]

theorem mem_batches (hn : h.Named) {m : Str} {q : Participant} (hq : h.get? m = some q)
    (f : Participant → Option (List Msg)) (hf : (f q).isSome = true) :
    m ∈ (batches f h).map Prod.fst := by
  obtain ⟨b, hb⟩ := Option.isSome_iff_exists.mp hf
  refine List.mem_map.mpr ⟨(q.name, b), ?_, hn m q hq⟩
  exact List.mem_filterMap.mpr ⟨q, Dict.mem_values_iff.mpr ⟨m, hq⟩, by rw [hb]; rfl⟩

/-! ## Routing -/

/-- The routing of a message, seen from the participant under `m`. -/
structure Routes (msg : Msg) (m : Str) (q : Participant) (up : ClientId → Bool) (h h' : Hub) :
    Prop where
  get? : ∃ q', h'.get? m = some q' ∧ q'.Same q ∧
    q'.mail = (routeOne env up msg q).participant.mail ∧ q'.finished = q.finished ∧
    (q'.state = .idle → q.state = .idle ∧
      (q.isObserver = false → (routeOne env up msg q).woken = none))
  delivered : deliveries m h'.wire.log = deliveries m h.wire.log ++
    ((routeOne env up msg q).observed.toList ++ (routeOne env up msg q).woken.toList).map sortById

/-- A message wakes agents that are idle, and is shown to observers only. -/
theorem routeOne_cases (up : ClientId → Bool) (msg : Msg) (q : Participant) :
    (∃ b, (routeOne env up msg q).woken = some b ∧ (routeOne env up msg q).observed = none ∧
        q.isObserver = false ∧ q.state = .idle) ∨
      (routeOne env up msg q).woken = none ∧
        (q.isObserver = false → (routeOne env up msg q).observed = none) := by
  unfold routeOne
  simp only
  split
  · exact Or.inr ⟨rfl, fun _ => rfl⟩
  split
  · next hobs => exact Or.inr ⟨rfl, fun hagent => absurd hobs (by simp [hagent])⟩
  · next hagent =>
    split
    · exact Or.inr ⟨rfl, fun _ => rfl⟩
    split
    · next hidle => exact Or.inl ⟨_, rfl, rfl, by simpa using hagent, hidle.1⟩
    · exact Or.inr ⟨rfl, fun _ => rfl⟩

theorem state_routeOne (up : ClientId → Bool) (msg : Msg) (q : Participant) :
    (routeOne env up msg q).participant.state = q.state := by
  have henqueue : ∀ m, (q.enqueue env.config m).state = q.state := fun m => by
    unfold Participant.enqueue
    split <;> rfl
  unfold routeOne
  simp only
  split
  · rfl
  split
  · rfl
  split
  · dsimp only
    split <;> rfl
  split
  · rfl
  · exact henqueue _

theorem route_spec (hn : h.Named) (msg : Msg) {m : Str} {q : Participant}
    (hq : h.get? m = some q) : Routes env msg m q h.up h (h.route env msg).1 := by
  have hwoken := batches_spec hn hq fun q => (routeOne env h.up msg q).woken
  have hobserved := batches_spec hn hq fun q => (routeOne env h.up msg q).observed
  have hmem : (routeOne env h.up msg q).woken.isSome = true →
      m ∈ (batches (fun q => (routeOne env h.up msg q).woken) h).map Prod.fst :=
    mem_batches hn hq fun q => (routeOne env h.up msg q).woken
  unfold route
  simp only
  generalize hbw : batches (fun q => (routeOne env h.up msg q).woken) h = bw at hwoken hmem
  generalize hbo : batches (fun q => (routeOne env h.up msg q).observed) h = bo at hobserved
  -- the loop's writes to the participants come first
  have hmap : Keeps Set.univ ∅ False h
      (h.mapParticipants fun q => (routeOne env h.up msg q).participant) :=
    keeps_mapParticipants h Set.univ
      (fun n p _ => ⟨same_routeOne env _ _ p, fun hm => absurd (Set.mem_univ _) hm⟩)
      (Or.inr fun p => finished_routeOne env _ _ p)
  obtain ⟨h₁, hh₁, hn₁, hq₁, hlog₁⟩ : ∃ h₁ : Hub,
      h₁ = (if bw.isEmpty then h.mapParticipants fun q => (routeOne env h.up msg q).participant
        else { h.mapParticipants fun q => (routeOne env h.up msg q).participant with
          round := h.round + 1 }) ∧ h₁.Named ∧
      h₁.get? m = some (routeOne env h.up msg q).participant ∧ h₁.wire = h.wire := by
    refine ⟨_, rfl, ?_, ?_, ?_⟩
    · split
      · exact hmap.named hn
      · exact hmap.named hn
    · have hget : (h.mapParticipants fun q => (routeOne env h.up msg q).participant).get? m =
          some (routeOne env h.up msg q).participant := by rw [get?_mapParticipants, hq]; rfl
      split
      · exact hget
      · exact hget
    · split <;> rfl
  have hround : (h.mapParticipants fun q => (routeOne env h.up msg q).participant).round + 1 =
      h.round + 1 := rfl
  rw [hround, ← hh₁]
  -- then the deliveries, to the observers and to the woken
  obtain ⟨q₂, hq₂, hcalm₂, hfin₂, -, hlog₂⟩ := deliverAll_spec env hn₁ bo hq₁
  have hn₂ : (h₁.deliverAll env bo).Named := (keeps_deliverAll env (E := False) hn₁ bo).named hn₁
  obtain ⟨q₃, hq₃, hcalm₃, hfin₃, hbusy₃, hlog₃⟩ := deliverAll_spec env hn₂ bw hq₂
  rw [hlog₁, hobserved] at hlog₂
  rw [hlog₂, hwoken, List.append_assoc] at hlog₃
  have hsame : (routeOne env h.up msg q).participant.Same q := same_routeOne env _ _ q
  have hfacts : Routes env msg m q h.up h ((h₁.deliverAll env bo).deliverAll env bw) := by
    refine ⟨⟨q₃, hq₃, (hsame.trans hcalm₂.toSame).trans hcalm₃.toSame, ?_, ?_, fun hidle => ⟨?_, ?_⟩⟩,
      ?_⟩
    · rw [hcalm₃.mail, hcalm₂.mail]
    · rw [hfin₃, hfin₂, finished_routeOne]
    · rw [← state_routeOne env h.up msg q]
      exact hcalm₂.idle (hcalm₃.idle hidle)
    · intro hobs
      by_contra hsome
      refine hbusy₃ ?_ (hmem (Option.isSome_iff_ne_none.mpr hsome)) hidle
      rw [hcalm₂.isObserver, hsame.isObserver]
      exact hobs
    · rw [hlog₃]
      cases (routeOne env h.up msg q).observed <;> cases (routeOne env h.up msg q).woken <;> rfl
  split
  · exact hfacts
  · obtain ⟨⟨q', hq', hrest⟩, hlog⟩ := hfacts
    refine ⟨⟨q', ?_, hrest⟩, ?_⟩
    · exact (congrArg (Dict.get? · m) (participants_checkRoundLimit env _)).trans hq'
    · exact ((keeps_checkRoundLimit (S := ∅) (T := ∅) (E := False) env _).delivered m
        (Set.notMem_empty m)).trans hlog

/-! ## An accepted say -/

theorem up_charged {n : Str} {f : Say} {h₀ : Hub} (hc : Charged h n f h₀) : h₀.up = h.up := by
  cases hc <;> rfl

theorem up_remember (h : Hub) (p : Participant) (f : Say) : (h.remember env p f).up = h.up := by
  have hwire : ({ h with msgCounter := h.msgCounter + 1 }.noteSay p f.addressee).wire = h.wire := by
    unfold noteSay
    simp only
    split_ifs <;> rfl
  funext c
  show ((({ h with msgCounter := h.msgCounter + 1 }.noteSay p f.addressee).wire.append _ _).clients
    c).connected = _
  rw [hwire]
  rfl

/-- The participant an accepted say finds in the routing loop. -/
theorem get?_remember (p : Participant) (f : Say) {m : Str} {q : Participant}
    (hq : h.get? m = some q) :
    ∃ q', (h.remember env p f).get? m = some q' ∧ q'.Calm q ∧ q'.state = q.state ∧
      q'.finished = q.finished := by
  have hget : (h.remember env p f).get? m = (h.modify p.name fun p => { p with lastSay := h.now }).get? m := by
    show (h.countSay p f).get? m = _
    unfold countSay noteSay
    simp only
    split_ifs <;> rfl
  rw [hget]
  by_cases hm : m = p.name
  · subst hm
    exact ⟨{ q with lastSay := h.now }, by rw [get?_modify_self, hq]; rfl,
      ⟨⟨rfl, rfl, rfl, rfl, rfl⟩, rfl, id⟩, rfl, rfl⟩
  · exact ⟨q, by rw [get?_modify_of_ne _ hm]; exact hq, .refl q, rfl, rfl⟩

end

end Hub

/-! ## Acts -/

/-- What routing a message does to the mail of a participant. -/
def routeActs (up : ClientId → Bool) (msg : Msg) (q : Participant) : List Act :=
  let mode := q.addressing msg.addressee
  if q.name = msg.sender ∨ q.isObserver = true then []
  else if mode = .overheard then if msg.priv then [] else [.overhear (msg.tag .overheard)]
  else if q.state = .idle ∧ up q.client = true then [.wake (msg.tag mode)]
  else [.enqueue (msg.tag mode)]

/-- The copies of a message that the table of the floor prescribes for a participant. -/
def copiesFor (msg : Msg) (q : Participant) : List Msg :=
  let mode := q.addressing msg.addressee
  if q.name = msg.sender ∨ q.isObserver = true then []
  else if mode = .overheard then if msg.priv then [] else [msg.tag .overheard]
  else [msg.tag mode]

theorem msgs_routeActs (up : ClientId → Bool) (msg : Msg) (q : Participant) :
    (routeActs up msg q).flatMap Act.msgs = copiesFor msg q := by
  unfold routeActs copiesFor
  simp only
  split
  · rfl
  split
  · split <;> rfl
  split <;> rfl

theorem Participant.Same.addressing {q' q : Participant} (hs : q'.Same q) (a : Str) :
    q'.addressing a = q.addressing a := by
  simp only [Participant.addressing, hs.name]

theorem copiesFor_congr {q' q : Participant} (hs : q'.Same q) (msg : Msg) :
    copiesFor msg q' = copiesFor msg q := by
  simp only [copiesFor, hs.addressing, hs.name, hs.isObserver]

theorem routeActs_congr {q' q : Participant} (hs : q'.Same q) (hstate : q'.state = q.state)
    (up : ClientId → Bool) (msg : Msg) : routeActs up msg q' = routeActs up msg q := by
  simp only [routeActs, hs.addressing, hs.name, hs.isObserver, hs.client, hstate]

namespace Hub

section
variable (env : Env)

theorem mail_enqueue (q : Participant) (m : Msg) :
    (q.enqueue env.config m).mail = q.mail.act env.config (.enqueue m) := by
  unfold Participant.enqueue Mail.act
  by_cases hfull : env.config.queueCap ≤ q.queue.length
  · have hfull' : env.config.queueCap ≤ q.mail.queue.length := hfull
    simp only [if_pos hfull, if_pos hfull']
    rfl
  · have hfull' : ¬ env.config.queueCap ≤ q.mail.queue.length := hfull
    simp only [if_neg hfull, if_neg hfull']
    rfl

theorem mail_flushed (q : Participant) :
    (q.flushed env.config).mail = q.mail.act env.config .flush := rfl

theorem frames_flush (q : Participant) :
    [sortById (q.flushBatch env.config)] = q.mail.frames env.config .flush := rfl

/-- The routing loop does what the acts say. -/
theorem mail_routeOne (up : ClientId → Bool) (msg : Msg) (q : Participant) :
    (routeOne env up msg q).participant.mail = q.mail.play env.config (routeActs up msg q) := by
  unfold routeOne routeActs
  by_cases hsender : q.name = msg.sender
  · simp [hsender]
  by_cases hobs : q.isObserver = true
  · simp [hsender, hobs]
  by_cases hmode : q.addressing msg.addressee = .overheard
  · by_cases hpriv : msg.priv = true
    · simp [hsender, hobs, hmode, hpriv]
    · simp [hsender, hobs, hmode, hpriv, Mail.act, Participant.mail]
  by_cases hidle : q.state = .idle ∧ up q.client = true
  · simp [hsender, hobs, hmode, hidle, Mail.act, Participant.mail]
  · simp only [hsender, hobs, hmode, hidle, Bool.false_eq_true, or_self, if_false]
    exact mail_enqueue env q _

theorem frames_routeOne (up : ClientId → Bool) (msg : Msg) {q : Participant}
    (hobs : q.isObserver = false) :
    ((routeOne env up msg q).observed.toList ++ (routeOne env up msg q).woken.toList).map sortById =
      q.mail.playFrames env.config (routeActs up msg q) := by
  unfold routeOne routeActs
  by_cases hsender : q.name = msg.sender
  · simp [hsender]
  by_cases hmode : q.addressing msg.addressee = .overheard
  · by_cases hpriv : msg.priv = true
    · simp [hsender, hobs, hmode, hpriv]
    · simp [hsender, hobs, hmode, hpriv, Mail.frames]
  by_cases hidle : q.state = .idle ∧ up q.client = true
  · simp [hsender, hobs, hmode, hidle, Mail.frames, Participant.mail]
  · simp [hsender, hobs, hmode, hidle, Mail.frames]

end

end Hub

end Moot
