import Moot.Hub.Stroke

/-!
# What the messages say

A message comes to be in few places (`Hub.Sources`): in a say, in a note of the
hub, in a goal line, in the transcript the hub starts from.  What holds there of
the messages and of the registered names holds of everything a registration
keeps, of the recent window and of every deliver frame (`Hub.Carries`).

Proved here: `Carries.stroke` and `Carries.handled`.
-/

namespace Moot
open Py Proto

namespace Hub

/-- Names satisfy `K`; what is kept, remembered or handed out satisfies `Q`. -/
structure Carries (K : Str → Prop) (Q : Msg → Prop) (h : Hub) : Prop where
  names : ∀ n p, h.box? n = some p → K n
  mail : ∀ n p, h.box? n = some p → p.mail.All Q
  recent : ∀ r ∈ h.recent, Q (msgFromRecord r)
  frames : ∀ n, ∀ f ∈ deliveries n h.wire.log, ∀ m ∈ f, Q m

/-- The names and messages that come in on frames that meet `A`, and the hub's own. -/
structure Sources (A : Filter) (K : Str → Prop) (Q : Msg → Prop) : Prop where
  hello : ∀ f : Hello, A f.name f.kind (.hello f) → K f.name
  tagged : ∀ m a, Q m → Q (m.tag a)
  recorded : ∀ m, Q m → Q (msgFromRecord (recordOf m))
  said : ∀ (h : Hub) p f, K p.name → A p.name p.kind (.say f) → Q (h.sayMsg p f)
  goal : ∀ (h : Hub) n kind text ok seq, A n kind (.cmd (.goal text ok) seq) → Q (h.goalMsg text)
  note : ∀ text wall id n, text = muteText ∨ text = unmuteText → K n → Q (noteFor text wall id n)
  dropped : ∀ n k, K n → Q (droppedNote n k)
  omitted : ∀ k, Q (omittedNote k)

section
variable {env : Env} {A : Filter} {K : Str → Prop} {Q : Msg → Prop} {h h' : Hub}

/-! ## Steps that touch no mail -/

/-- No mail is touched, and nothing is delivered. -/
structure SameMail (h h' : Hub) : Prop where
  recent : h'.recent = h.recent
  delivered : ∀ n, deliveries n h'.wire.log = deliveries n h.wire.log
  mail : ∀ n q', h'.box? n = some q' → ∃ q, h.box? n = some q ∧ q'.kind = q.kind ∧ q'.mail = q.mail

theorem Carries.same (hc : Carries K Q h) (hs : SameMail h h') : Carries K Q h' := by
  refine ⟨fun n q' hq' => ?_, fun n q' hq' => ?_, ?_, fun n => ?_⟩
  · obtain ⟨q, hq, -⟩ := hs.mail n q' hq'
    exact hc.names n q hq
  · obtain ⟨q, hq, -, hmail⟩ := hs.mail n q' hq'
    rw [hmail]
    exact hc.mail n q hq
  · rw [hs.recent]
    exact hc.recent
  · rw [hs.delivered n]
    exact hc.frames n

theorem Still.sameMail (hs : ∀ n, Still n h h') (hrecent : h'.recent = h.recent) :
    SameMail h h' := by
  refine ⟨hrecent, fun n => (hs n).delivered, fun n q' hq' => ?_⟩
  cases hq : h.box? n with
  | none =>
    rw [(hs n).absent hq] at hq'
    cases hq'
  | some q =>
    obtain ⟨q'', hq'', -, hkind, hmail⟩ := (hs n).same q hq
    rw [hq', Option.some.injEq] at hq''
    rw [hq'']
    exact ⟨q, rfl, hkind, hmail⟩

theorem Keeps.sameMail {E : Prop} (hk : Keeps ∅ ∅ E h h') : SameMail h h' :=
  Still.sameMail (fun _ => hk.quietStill) hk.recent

theorem sameMail_modify (h : Hub) (n : Str) {g : Participant → Participant}
    (hkind : ∀ q, (g q).kind = q.kind) (hmail : ∀ q, (g q).mail = q.mail) :
    SameMail h (h.modify n g) := by
  refine ⟨rfl, fun _ => rfl, fun m q' hq' => ?_⟩
  by_cases hm : m = n
  · subst hm
    cases hp : h.get? m with
    | none =>
      rw [box?_of_none (by rw [get?_modify_self, hp]; rfl)] at hq'
      exact ⟨q', by rw [box?_of_none hp]; exact hq', rfl, rfl⟩
    | some p =>
      rw [box?_of_get? (p := g p) (by rw [get?_modify_self, hp]; rfl), Option.some.injEq] at hq'
      subst hq'
      exact ⟨p, box?_of_get? hp, hkind p, hmail p⟩
  · rw [box?, get?_modify_of_ne _ hm] at hq'
    exact ⟨q', hq', rfl, rfl⟩

/-! ## Steps that touch the mail of participants -/

/-- A step that registers nobody and removes nobody. -/
theorem Carries.roster (hc : Carries K Q h) (hr : h.Roster h')
    (hmail : ∀ n q', h'.get? n = some q' → q'.mail.All Q)
    (hrecent : ∀ r ∈ h'.recent, Q (msgFromRecord r))
    (hframes : ∀ n, ∀ f ∈ deliveries n h'.wire.log, ∀ m ∈ f, Q m) : Carries K Q h' := by
  have hbox : ∀ n q', h'.box? n = some q' → (∃ q, h.box? n = some q) ∧ q'.mail.All Q := by
    intro n q' hq'
    cases hp' : h'.get? n with
    | some p' =>
      rw [box?_of_get? hp', Option.some.injEq] at hq'
      subst hq'
      obtain ⟨p, hp, -⟩ := hr.back hp'
      exact ⟨⟨p, box?_of_get? hp⟩, hmail n p' hp'⟩
    | none =>
      have hp : h.get? n = none := by
        cases hp : h.get? n with
        | none => rfl
        | some p =>
          obtain ⟨p', hp'', -⟩ := hr.same n p hp
          rw [hp'] at hp''
          cases hp''
      rw [box?_of_none hp', hr.dead, ← box?_of_none hp] at hq'
      exact ⟨⟨q', hq'⟩, hc.mail n q' hq'⟩
  refine ⟨fun n q' hq' => ?_, fun n q' hq' => (hbox n q' hq').2, hrecent, hframes⟩
  obtain ⟨q, hq⟩ := (hbox n q' hq').1
  exact hc.names n q hq

/-- A step that touches the mail of `n` alone. -/
theorem Carries.only {E : Prop} {n : Str} (hc : Carries K Q h) (hk : Keeps {n} {n} E h h')
    (hself : ∀ p', h'.get? n = some p' → p'.mail.All Q)
    (hframes : ∀ f ∈ deliveries n h'.wire.log, ∀ m ∈ f, Q m) : Carries K Q h' := by
  refine hc.roster hk.toRoster (fun m q' hq' => ?_) (by rw [hk.recent]; exact hc.recent) fun m => ?_
  · by_cases hm : m = n
    · subst hm
      exact hself q' hq'
    · obtain ⟨q, hq, -⟩ := hk.back hq'
      rw [(hk.calm m hm q q' hq hq').mail]
      exact hc.mail m q (box?_of_get? hq)
  · by_cases hm : m = n
    · rw [hm]
      exact hframes
    · rw [hk.delivered m hm]
      exact hc.frames m

/-- More frames. -/
theorem Carries.more (hc : Carries K Q h) {n : Str} {fs : List (List Msg)}
    (hdel : deliveries n h'.wire.log = deliveries n h.wire.log ++ fs)
    (hfs : ∀ f ∈ fs, ∀ m ∈ f, Q m) : ∀ f ∈ deliveries n h'.wire.log, ∀ m ∈ f, Q m := by
  rw [hdel]
  intro f hf
  rcases List.mem_append.mp hf with hf | hf
  · exact hc.frames n f hf
  · exact hfs f hf

/-! ## The acts -/

theorem Carries.act (hs : Sources A K Q) (hc : Carries K Q h) (hn : h.Named) {n : Str}
    {p : Participant} (hp : h.get? n = some p) (cfg : Config) {a : Act} (ha : ∀ m ∈ a.msgs, Q m) :
    (p.mail.act cfg a).All Q ∧ ∀ f ∈ p.mail.frames cfg a, ∀ m ∈ f, Q m := by
  have hname : K p.mail.owner := by
    show K p.name
    rw [hn n p hp]
    exact hc.names n p (box?_of_get? hp)
  exact All.act (hc.mail n p (box?_of_get? hp)) hs.omitted (fun k => hs.dropped _ k hname) ha

theorem Carries.flush (hs : Sources A K Q) (hc : Carries K Q h) (hn : h.Named) (n : Str) :
    Carries K Q (h.flushQueue env n) := by
  have hk := keeps_flushQueue env hn n
  cases hp : h.get? n with
  | none => rw [flushQueue, hp]; exact hc
  | some p =>
    obtain ⟨as, p', hp', -, hmail, hdel, hcases⟩ := flush_acts env hn hp
    rcases hcases with ⟨rfl, heq, -⟩ | ⟨rfl, -⟩
    · rw [heq]
      exact hc
    · obtain ⟨hkept, hout⟩ := hc.act hs hn hp env.config (a := .flush) (by simp [Act.msgs])
      refine hc.only hk (fun q hq => ?_) (hc.more hdel ?_)
      · rw [hp', Option.some.injEq] at hq
        rw [← hq, hmail]
        exact hkept
      · rw [Mail.playFrames_cons, Mail.playFrames_nil, List.append_nil]
        exact hout

theorem Carries.noted (hs : Sources A K Q) (hc : Carries K Q h) (hn : h.Named) {text : Str}
    (htext : text = muteText ∨ text = unmuteText) (n : Str) :
    Carries K Q (h.systemNote env text n) := by
  by_cases hagent : h.hasAgent n = true
  · obtain ⟨p, hp, hobs⟩ : ∃ p, h.get? n = some p ∧ p.isObserver = false := by
      cases hp : h.get? n with
      | none => simp [hasAgent, hp] at hagent
      | some p => exact ⟨p, rfl, by simpa [hasAgent, hp] using hagent⟩
    have hk : Keeps {n} {n} True h (h.systemNote env text n) := keeps_systemNote env hn text n
    obtain ⟨as, p', hp', -, hmsgs, hmail, hdel, -⟩ :=
      (turn_systemNote env hn text hp hobs).acts p hp
    have hname : K n := hc.names n p (box?_of_get? hp)
    have hplay := All.play env.config (hc.mail n p (box?_of_get? hp)) hs.omitted
      (fun k => hs.dropped _ k (by show K p.name; rw [hn n p hp]; exact hname)) as (by
        rw [hmsgs]
        intro m hm
        rw [List.mem_singleton.mp hm]
        exact hs.note _ _ _ _ htext hname)
    refine hc.only hk (fun q hq => ?_) (hc.more (hdel hobs) hplay.2)
    rw [hp', Option.some.injEq] at hq
    rw [← hq, hmail]
    exact hplay.1
  · rw [systemNote_skip env text (by simpa using hagent)]
    exact hc

/-- What an observer is handed of a message. -/
theorem observed_routeOne (up : ClientId → Bool) (msg : Msg) {q : Participant}
    (hobs : q.isObserver = true) :
    (routeOne env up msg q).observed.toList ++ (routeOne env up msg q).woken.toList =
      if q.name ≠ msg.sender ∧ up q.client = true then [[msg.tag (q.addressing msg.addressee)]]
      else [] := by
  unfold routeOne
  by_cases hsender : q.name = msg.sender
  · simp [hsender]
  · by_cases hup : up q.client = true
    · simp [hsender, hobs, hup]
    · simp [hsender, hobs, hup]

theorem Carries.routed (hs : Sources A K Q) (hc : Carries K Q h) (hn : h.Named) {msg : Msg}
    (hmsg : Q msg) : Carries K Q (h.route env msg).1 := by
  have hk := keeps_route env (E := True) hn msg
  -- one participant, its mail after the routing and what it is handed
  have hone : ∀ n q, h.get? n = some q →
      (∃ q', (h.route env msg).1.get? n = some q' ∧ q'.mail.All Q) ∧
        ∀ f ∈ deliveries n (h.route env msg).1.wire.log, ∀ m ∈ f, Q m := by
    intro n q hq
    have hr := route_spec env hn msg hq
    obtain ⟨q', hq', -, hmail, -⟩ := hr.get?
    have hname : K q.mail.owner := by
      show K q.name
      rw [hn n q hq]
      exact hc.names n q (box?_of_get? hq)
    have hplay := All.play env.config (hc.mail n q (box?_of_get? hq)) hs.omitted
      (fun k => hs.dropped _ k hname) (routeActs h.up msg q) (by
        rw [msgs_routeActs]
        intro m hm
        unfold copiesFor at hm
        simp only at hm
        split at hm
        · cases hm
        · split at hm
          · split at hm
            · cases hm
            · rw [List.mem_singleton.mp hm]
              exact hs.tagged _ _ hmsg
          · rw [List.mem_singleton.mp hm]
            exact hs.tagged _ _ hmsg)
    refine ⟨⟨q', hq', ?_⟩, hc.more hr.delivered fun f hf m hm => ?_⟩
    · rw [hmail, mail_routeOne]
      exact hplay.1
    · by_cases hobs : q.isObserver = true
      · rw [observed_routeOne h.up msg hobs] at hf
        split at hf
        · rw [List.map_singleton, List.mem_singleton] at hf
          rw [hf, mem_sortById, List.mem_singleton] at hm
          rw [hm]
          exact hs.tagged _ _ hmsg
        · cases hf
      · rw [frames_routeOne env h.up msg (by simpa using hobs)] at hf
        exact hplay.2 f hf m hm
  refine hc.roster hk.toRoster (fun n q' hq' => ?_) (by rw [hk.recent]; exact hc.recent) fun n => ?_
  · obtain ⟨q, hq, -⟩ := hk.back hq'
    obtain ⟨⟨q'', hq'', hall⟩, -⟩ := hone n q hq
    rw [hq', Option.some.injEq] at hq''
    rw [hq'']
    exact hall
  · cases hq : h.get? n with
    | none =>
      rw [hk.delivered n fun hmem => hmem hq]
      exact hc.frames n
    | some q => exact (hone n q hq).2

theorem recent_remember (h : Hub) (p : Participant) (f : Say) :
    (h.remember env p f).recent =
      lastN env.config.recentWindow (h.recent ++ [recordOf (h.sayMsg p f)]) := by
  have hcount : (h.countSay p f).recent = h.recent := by
    unfold countSay noteSay
    simp only
    split_ifs <;> rfl
  show lastN _ ((h.countSay p f).recent ++ _) = _
  rw [hcount]

theorem Carries.remembered (hs : Sources A K Q) (hc : Carries K Q h) {p : Participant} {f : Say}
    (hmsg : Q (h.sayMsg p f)) : Carries K Q (h.remember env p f) := by
  have hrem := roster_remember env h p f
  refine hc.roster hrem (fun n q' hq' => ?_) (fun r hr => ?_) fun n => ?_
  · obtain ⟨q, hq, -⟩ := hrem.back hq'
    obtain ⟨q'', hq'', hcalm, -⟩ := get?_remember env p f hq
    rw [hq', Option.some.injEq] at hq''
    rw [hq'', hcalm.mail]
    exact hc.mail n q (box?_of_get? hq)
  · rw [recent_remember] at hr
    rcases List.mem_append.mp ((lastN_suffix _ _).subset hr) with hr | hr
    · exact hc.recent r hr
    · rw [List.mem_singleton.mp hr]
      exact hs.recorded _ hmsg
  · rw [deliveries_remember]
    exact hc.frames n

theorem Carries.goalTold (hs : Sources A K Q) (hc : Carries K Q h) (hn : h.Named) {text : Str}
    (hgoal : Q (h.goalMsg text)) : Carries K Q (h.bufferGoal text) := by
  have hk : Keeps Set.univ ∅ True h (h.bufferGoal text) := keeps_bufferGoal h text
  refine hc.roster hk.toRoster (fun n q' hq' => ?_) hc.recent hc.frames
  obtain ⟨q, hq, -⟩ := hk.back hq'
  rw [bufferGoal, get?_mapParticipants, hq, Option.map_some, Option.some.injEq] at hq'
  rw [← hq']
  split
  · exact hc.mail n q (box?_of_get? hq)
  · refine (hc.act hs hn hq {} (a := .overhear ((h.goalMsg text).tag .overheard)) fun m hm => ?_).1
    rw [List.mem_singleton.mp hm]
    exact hs.tagged _ _ hgoal

theorem mem_backlog {n : Str} {obs : Bool} {recent : List MsgRec} {m : Msg}
    (hm : m ∈ backlog env n obs recent) : ∃ r ∈ recent, m = msgFromRecord r := by
  obtain ⟨r, hr, rfl⟩ := List.mem_map.mp hm
  have hvisible := (lastN_suffix _ _).subset (List.mem_filter.mp hr).1
  exact ⟨r, (List.mem_filter.mp hvisible).1, rfl⟩

theorem Carries.caughtUp (hs : Sources A K Q) (hc : Carries K Q h) (hn : h.Named) {n : Str}
    {p : Participant} (hp : h.get? n = some p) : Carries K Q (h.giveBacklog env n) := by
  have hk : Keeps {n} {n} True h (h.giveBacklog env n) := keeps_giveBacklog env hn n
  obtain ⟨hget, hdel⟩ := giveBacklog_spec env hn hp
  have hline : ∀ obs m a, m ∈ backlog env p.name obs h.recent → Q (m.tag a) := by
    intro obs m a hm
    obtain ⟨r, hr, rfl⟩ := mem_backlog hm
    exact hs.tagged _ _ (hc.recent r hr)
  refine hc.only hk (fun q hq => ?_) (hc.more hdel fun f hf m hm => ?_)
  · rw [hget, Option.some.injEq] at hq
    rw [← hq, primed]
    split
    · exact hc.mail n p (box?_of_get? hp)
    · have hname : K p.mail.owner := by
        show K p.name
        rw [hn n p hp]
        exact hc.names n p (box?_of_get? hp)
      have hplay := All.play env.config (hc.mail n p (box?_of_get? hp)) hs.omitted
        (fun k => hs.dropped _ k hname) ((overheardBacklog env p.name h.recent).map .overhear) (by
          intro m hm
          obtain ⟨_, hact, hm⟩ := List.mem_flatMap.mp hm
          obtain ⟨m', hm', rfl⟩ := List.mem_map.mp hact
          rw [List.mem_singleton.mp hm]
          obtain ⟨m₀, hm₀, rfl⟩ := List.mem_map.mp hm'
          exact hline false m₀ _ hm₀)
      rw [mail_overhears] at hplay
      exact hplay.1
  · unfold backlogFrames at hf
    split at hf
    · cases hf
    · rw [List.mem_singleton.mp hf, mem_sortById] at hm
      obtain ⟨m₀, hm₀, rfl⟩ := List.mem_map.mp hm
      exact hline true m₀ _ hm₀

theorem sameMail_leave {n : Str} {p : Participant} (hp : h.get? n = some p) :
    SameMail h ((h.leave env n p).checkSessionDone env) := by
  have hdone : ∀ m, Still m (h.leave env n p) ((h.leave env n p).checkSessionDone env) := fun m =>
    (keeps_checkSessionDone (S := ∅) (T := ∅) env _).quietStill
  refine Still.sameMail (fun m => (still_leave env hp m).trans (hdone m)) ?_
  exact (hdone n).recent

theorem Carries.enrolled (hs : Sources A K Q) (hc : Carries K Q h) {c : ClientId} {f : Hello}
    (hfree : h.get? f.name = none) (hA : A f.name f.kind (.hello f)) :
    Carries K Q (h.enroll c f.name (admitted env h c f)) := by
  have hbox : ∀ n, n ≠ f.name →
      (h.enroll c f.name (admitted env h c f)).box? n = h.box? n := fun n hn => by
    rw [box?, box?, get?_enroll_of_ne _ _ hn, enroll_dead, Dict.get?_erase_of_ne _ hn]
  have hself : (h.enroll c f.name (admitted env h c f)).box? f.name =
      some (admitted env h c f) := box?_of_get? (get?_enroll_self ..)
  refine ⟨fun n q hq => ?_, fun n q hq => ?_, hc.recent, hc.frames⟩
  · by_cases hn : n = f.name
    · rw [hn]
      exact hs.hello f hA
    · rw [hbox n hn] at hq
      exact hc.names n q hq
  · by_cases hn : n = f.name
    · rw [hn, hself, Option.some.injEq] at hq
      rw [← hq]
      unfold admitted
      split
      · next d hd =>
        exact hc.mail f.name d (by rw [box?_of_none hfree, hd])
      · intro m hm
        cases hm
    · rw [hbox n hn] at hq
      exact hc.mail n q hq

/-- **Every stroke.** -/
theorem Carries.stroke (hs : Sources A K Q) (hw : h.Wf) (hstroke : Stroke env A Set.univ h h')
    (hc : Carries K Q h) : Carries K Q h' := by
  cases hstroke with
  | talk ht => exact hc.same (ht.toQuiet.keeps (S := ∅) (T := ∅) (E := True)).sameMail
  | aside ha => exact hc.same (ha.keeps (S := ∅) (T := ∅) (E := True)).sameMail
  | event e skip => exact hc.same (keeps_emitEvent env h e skip (E := True) (Or.inl trivial)).sameMail
  | declared => exact hc.same (keeps_append h _ (E := True) rfl (Or.inl trivial)).sameMail
  | touched hg => exact hc.same (sameMail_modify h _ (fun q => (hg q).kind) fun q => (hg q).mail)
  | reported => exact hc.same (sameMail_modify h _ (fun _ => rfl) fun _ => rfl)
  | inferred => exact hc.same (sameMail_modify h _ (fun _ => rfl) fun _ => rfl)
  | flushed => exact hc.flush hs hw.named _
  | @accepted n p q f hq hsame hopen hA =>
    have hname : n = p.name := by rw [← hw.named n q hq, hsame.name]
    have hmsg : Q (h.sayMsg p f) := by
      refine hs.said h p f ?_ (by rw [← hname]; exact hA)
      rw [← hname]
      exact hc.names n q (box?_of_get? hq)
    have hrem := roster_remember env h p f
    exact (hc.remembered hs hmsg).routed hs (hrem.named hw.named) hmsg
  | wentOn => exact hc.same (sameMail_modify h _ (fun _ => rfl) fun _ => rfl)
  | finished => exact hc.same (keeps_markDone env h _).sameMail
  | @commanded _ _ c =>
    refine hc.same ?_
    cases c <;> exact ⟨rfl, fun _ => rfl, fun _ q hq => ⟨q, hq, rfl, rfl⟩⟩
  | noted m htext => exact hc.noted hs hw.named htext m
  | goalTold _ hA => exact hc.goalTold hs hw.named (hs.goal h _ _ _ _ _ hA)
  | left hp => exact hc.same (sameMail_leave hp)
  | enrolled _ hfree hA => exact hc.enrolled hs hfree hA
  | caughtUp hp => exact hc.caughtUp hs hw.named hp

variable (env) in
theorem Carries.handled (hs : Sources A K Q) : Handled env A (Carries K Q) :=
  Strokes.rule fun _ _ hw hstroke hc => hc.stroke hs hw hstroke

variable (env) in
theorem sameMail_pruneDead (h : Hub) : SameMail h (h.pruneDead env) := by
  refine ⟨rfl, fun _ => rfl, fun n q hq => ?_⟩
  cases hp : h.get? n with
  | some p =>
    rw [box?_of_get? (show (h.pruneDead env).get? n = some p from hp)] at hq
    exact ⟨q, by rw [box?_of_get? hp]; exact hq, rfl, rfl⟩
  | none =>
    rw [box?_of_none (show (h.pruneDead env).get? n = none from hp)] at hq
    exact ⟨q, by rw [box?_of_none hp]; exact (Dict.get?_filter_eq_some_iff.mp hq).1, rfl, rfl⟩

theorem Carries.pruneDead (hc : Carries K Q h) : Carries K Q (h.pruneDead env) :=
  hc.same (sameMail_pruneDead env h)

theorem carries_init {records : List MsgRec} (hr : ∀ r ∈ records, Q (msgFromRecord r))
    (now wall : Rat) : Carries K Q (init env records now wall) :=
  ⟨fun _ _ hq => (nomatch hq), fun _ _ hq => (nomatch hq),
    fun r hmem => hr r ((lastN_suffix _ _).subset hmem), fun _ _ hf => (nomatch hf)⟩

end

end Hub

end Moot
