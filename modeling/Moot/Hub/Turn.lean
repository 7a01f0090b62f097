import Moot.Hub.Routing
import Moot.Hub.Registry

/-!
# A registration's mail through the hub

`Hub.Turn n created h h'`: from `h` to `h'` the mailbox of the participant `n`
goes through acts that put in exactly the copies `created`, the frames that those
acts hand out are the ones delivered to `n`, and the acts come in the order that
`Ordered` asks for.

Proved here: one lemma for each handler, seen from one participant.
-/

namespace Moot
open Py Proto

/-! ## Acts in order -/

theorem Act.Follows.mono {k k' : Nat} {b : Mail} {a : Act} (h : a.Follows k' b) (hk : k ≤ k') :
    a.Follows k b := by
  cases a with
  | wake m => exact ⟨Nat.lt_of_le_of_lt hk h.1, h.2⟩
  | enqueue m => exact ⟨Nat.lt_of_le_of_lt hk h.1, h.2⟩
  | overhear m => exact ⟨h.1.imp_right fun h => Nat.lt_of_le_of_lt hk h, h.2⟩
  | flush => exact h

theorem Act.raise_mono {k k' : Nat} (a : Act) (hk : k ≤ k') : a.raise k ≤ a.raise k' := by
  cases a with
  | flush => exact hk
  | _ => exact max_le_max hk le_rfl

theorem FollowsAll.mono {cfg : Config} {k k' : Nat} {b : Mail} {as : List Act}
    (h : FollowsAll cfg k' b as) (hk : k ≤ k') : FollowsAll cfg k b as := by
  induction as generalizing k k' b with
  | nil => trivial
  | cons a as ih => exact ⟨h.1.mono hk, ih h.2 (a.raise_mono hk)⟩

theorem FollowsAll.append {cfg : Config} {k : Nat} {b : Mail} {as bs : List Act}
    (has : FollowsAll cfg k b as) (hbs : FollowsAll cfg (as.foldl Act.raise k) (b.play cfg as) bs) :
    FollowsAll cfg k b (as ++ bs) := by
  induction as generalizing k b with
  | nil => exact hbs
  | cons a as ih => exact ⟨has.1, ih has.2 hbs⟩

theorem raise_le {k k' : Nat} {as : List Act} (hk : k ≤ k') :
    as.foldl Act.raise k ≤ as.foldl Act.raise k' := by
  induction as generalizing k k' with
  | nil => exact hk
  | cons a as ih => exact ih (a.raise_mono hk)

namespace Hub

/-- An agent that is connected and idle has nothing queued. -/
def Rested (n : Str) (h : Hub) : Prop :=
  ∀ q, h.get? n = some q → q.isObserver = false → q.state = .idle → h.up q.client = true →
    q.queue = []

/-- What happens to the mail of the participant `n` from `h` to `h'`. -/
structure Turn (env : Env) (n : Str) (created : List Msg) (h h' : Hub) : Prop where
  roster : h.Roster h'
  counter : h.msgCounter ≤ h'.msgCounter
  rested : h.Rested n → h'.Rested n
  absent : h.get? n = none → deliveries n h'.wire.log = deliveries n h.wire.log ∧ created = []
  acts : ∀ q, h.get? n = some q → ∃ as q', h'.get? n = some q' ∧ q'.Same q ∧
    as.flatMap Act.msgs = created ∧ q'.mail = q.mail.play env.config as ∧
    (q.isObserver = false →
      deliveries n h'.wire.log = deliveries n h.wire.log ++ q.mail.playFrames env.config as) ∧
    (q.isObserver = false → h.Rested n →
      FollowsAll env.config h.msgCounter q.mail as ∧
        as.foldl Act.raise h.msgCounter ≤ h'.msgCounter)

section
variable {env : Env} {n : Str} {h h' h'' : Hub}

theorem Turn.refl (h : Hub) : Turn env n [] h h :=
  ⟨.refl h, le_rfl, id, fun _ => ⟨rfl, rfl⟩,
    fun q hq => ⟨[], q, hq, .refl q, rfl, rfl, by simp, fun _ _ => ⟨trivial, le_rfl⟩⟩⟩

theorem Turn.trans {created created' : List Msg} (hab : Turn env n created h h')
    (hbc : Turn env n created' h' h'') : Turn env n (created ++ created') h h'' := by
  refine ⟨hab.roster.trans hbc.roster, hab.counter.trans hbc.counter,
    fun hr => hbc.rested (hab.rested hr), fun hnone => ?_, fun q hq => ?_⟩
  · obtain ⟨hdel, rfl⟩ := hab.absent hnone
    obtain ⟨hdel', rfl⟩ := hbc.absent (hab.roster.none hnone)
    exact ⟨hdel'.trans hdel, rfl⟩
  obtain ⟨as, q₁, hq₁, hs₁, hmsgs₁, hmail₁, hlog₁, hfol₁⟩ := hab.acts q hq
  obtain ⟨bs, q₂, hq₂, hs₂, hmsgs₂, hmail₂, hlog₂, hfol₂⟩ := hbc.acts q₁ hq₁
  refine ⟨as ++ bs, q₂, hq₂, hs₁.trans hs₂, ?_, ?_, fun hobs => ?_, fun hobs hr => ?_⟩
  · rw [List.flatMap_append, hmsgs₁, hmsgs₂]
  · rw [hmail₂, hmail₁, Mail.play_append]
  · rw [hlog₂ (by rw [hs₁.isObserver]; exact hobs), hlog₁ hobs, hmail₁, Mail.playFrames_append,
      List.append_assoc]
  · obtain ⟨hf₁, hr₁⟩ := hfol₁ hobs hr
    obtain ⟨hf₂, hr₂⟩ := hfol₂ (by rw [hs₁.isObserver]; exact hobs) (hab.rested hr)
    rw [hmail₁] at hf₂
    refine ⟨hf₁.append (hf₂.mono hr₁), ?_⟩
    rw [List.foldl_append]
    exact (raise_le hr₁).trans hr₂

theorem Keeps.rested {S T : Set Str} {E : Prop} (hk : Keeps S T E h h') (hS : n ∉ S)
    (hr : h.Rested n) : h'.Rested n := by
  intro q' hq' hobs hidle hup
  obtain ⟨q, hq, hs⟩ := hk.back hq'
  have hcalm := hk.calm n hS q q' hq hq'
  have hqueue := hr q hq (by rw [← hs.isObserver]; exact hobs) (hcalm.idle hidle)
    (by rw [← hs.client]; exact hk.up hup)
  have hmail : q'.queue = q.queue := congrArg Mail.queue hcalm.mail
  rw [hmail, hqueue]

/-- A step that does not affect `n`. -/
theorem Keeps.turn {S T : Set Str} {E : Prop} (hk : Keeps S T E h h') (hS : n ∉ S) (hT : n ∉ T) :
    Turn env n [] h h' := by
  refine ⟨hk.toRoster, hk.counter, hk.rested hS, fun _ => ⟨hk.delivered n hT, rfl⟩, fun q hq => ?_⟩
  obtain ⟨q', hq', hs, hcalm⟩ := hk.spec hq
  refine ⟨[], q', hq', hs, rfl, (hcalm hS).mail, fun _ => ?_, fun _ _ => ⟨trivial, hk.counter⟩⟩
  rw [hk.delivered n hT, Mail.playFrames_nil, List.append_nil]

/-- A step that affects nobody. -/
theorem Keeps.quietTurn {E : Prop} (hk : Keeps ∅ ∅ E h h') : Turn env n [] h h' :=
  hk.turn (Set.notMem_empty n) (Set.notMem_empty n)

/-! ## Flush -/

variable (env)

/-- What a flush does to the mail of `n`: nothing, or one act that leaves an agent busy. -/
theorem flush_acts (hn : h.Named) {p : Participant} (hp : h.get? n = some p) :
    ∃ as p', (h.flushQueue env n).get? n = some p' ∧ p'.Same p ∧
      p'.mail = p.mail.play env.config as ∧
      deliveries n (h.flushQueue env n).wire.log =
        deliveries n h.wire.log ++ p.mail.playFrames env.config as ∧
      (as = [] ∧ h.flushQueue env n = h ∧ (p.queue = [] ∨ h.up p.client = false) ∨
        as = [.flush] ∧ p.queue ≠ [] ∧ h.up p.client = true ∧
          (p.isObserver = false → p'.state = .busy)) := by
  by_cases hskip : p.queue = [] ∨ h.up p.client = false
  · rw [flushQueue_skip env hp hskip]
    exact ⟨[], p, hp, .refl p, rfl, by simp, Or.inl ⟨rfl, rfl, hskip⟩⟩
  · simp only [not_or, Bool.not_eq_false] at hskip
    obtain ⟨h₂, hk₂, heq, ⟨p₂, hp₂, hmail₂, -, hbusy₂⟩, hdel₂⟩ :=
      flushQueue_spec env (E := True) hn hp hskip.1 hskip.2
    have hend : Keeps ∅ ∅ True h₂ (h₂.checkSessionDone env) := keeps_checkSessionDone env h₂
    obtain ⟨p₂', hp₂', hs₂⟩ := hk₂.same n p hp
    rw [hp₂, Option.some.injEq] at hp₂'
    subst hp₂'
    have hget := get?_checkSessionDone env h₂ n
    rw [hp₂, Option.map_some] at hget
    rw [heq]
    refine ⟨[.flush], _, hget, ?_, ?_, ?_, Or.inr ⟨rfl, hskip.1, hskip.2, fun hobs => ?_⟩⟩
    · refine hs₂.trans ?_
      split
      · exact ⟨rfl, rfl, rfl, rfl, rfl⟩
      · exact .refl p₂
    · rw [Mail.play_cons, Mail.play_nil, ← mail_flushed env p, ← hmail₂]
      split <;> rfl
    · rw [hend.delivered n (Set.notMem_empty n), hdel₂, frames_flush]
      simp
    · split
      · exact hbusy₂ hobs
      · exact hbusy₂ hobs

/-- A flush, after a step that makes `n` idle and leaves its mail. -/
theorem turn_flush {E : Prop} (hn : h.Named) (hk : Keeps {n} ∅ E h h')
    (hmail : ∀ q q', h.get? n = some q → h'.get? n = some q' → q'.mail = q.mail) :
    Turn env n [] h (h'.flushQueue env n) := by
  have hn' := hk.named hn
  have hflush := keeps_flushQueue env hn' n
  have hroster := hk.toRoster.trans hflush.toRoster
  have hcount := hk.counter.trans hflush.counter
  have hdel := hk.delivered n (Set.notMem_empty n)
  cases hq : h.get? n with
  | none =>
    have hskip : h'.flushQueue env n = h' := by rw [flushQueue, hk.toRoster.none hq]
    refine ⟨hroster, hcount, fun _ q' hq' => ?_, fun _ => ⟨by rw [hskip]; exact hdel, rfl⟩,
      fun q' hq' => absurd hq' (by simp [hq])⟩
    rw [hroster.none hq] at hq'
    cases hq'
  | some q =>
    obtain ⟨p, hp, hs⟩ := hk.same n q hq
    have hmail' := hmail q p hq hp
    obtain ⟨as, p', hp', hs', hplay, hframes, hcases⟩ := flush_acts env hn' hp
    refine ⟨hroster, hcount, fun _ r hr hobs hidle hup => ?_,
      fun hnone => absurd hnone (by simp [hq]), fun r hr => ?_⟩
    · rw [hp', Option.some.injEq] at hr
      subst hr
      rcases hcases with ⟨rfl, heq, hqueue | hdown⟩ | ⟨rfl, -, -, hbusy⟩
      · rw [heq, hp, Option.some.injEq] at hp'
        rw [← hp', hqueue]
      · rw [heq, hs'.client, hdown] at hup
        cases hup
      · rw [hbusy (by rw [← hs'.isObserver]; exact hobs)] at hidle
        cases hidle
    · rw [hq, Option.some.injEq] at hr
      subst hr
      refine ⟨as, p', hp', hs.trans hs', ?_, by rw [hplay, hmail'], fun _ => ?_, fun _ _ => ?_⟩
      · rcases hcases with ⟨rfl, -⟩ | ⟨rfl, -⟩ <;> rfl
      · rw [hframes, hdel, hmail']
      · rcases hcases with ⟨rfl, -⟩ | ⟨rfl, hqueue, -⟩
        · exact ⟨trivial, hcount⟩
        · have hsame : p.queue = q.queue := congrArg Mail.queue hmail'
          exact ⟨⟨by show q.queue ≠ []; rw [← hsame]; exact hqueue, trivial⟩, hcount⟩

theorem turn_inferIdle (hn : h.Named) (n : Str) : Turn env n [] h (h.inferIdle env n) := by
  unfold inferIdle
  split
  · exact .refl h
  · split
    · refine turn_flush env (E := True) hn (keeps_setIdle h n) fun q q' hq hq' => ?_
      rw [get?_modify_self, hq, Option.map_some, Option.some.injEq] at hq'
      rw [← hq']
      rfl
    · exact .refl h

/-! ## Say -/

/-- The copies of a message for the participant `n`. -/
def copies (h : Hub) (msg : Msg) (n : Str) : List Msg :=
  match h.get? n with
  | none => []
  | some q => copiesFor msg q

theorem copies_eq {q : Participant} (hq : h.get? n = some q) (msg : Msg) :
    h.copies msg n = copiesFor msg q := by rw [copies, hq]

/-- The acts of a routed message follow: its id is new, and it wakes an empty queue only. -/
theorem follows_routeActs {k : Nat} {msg : Msg} {q : Participant} {up : ClientId → Bool}
    (hid : msg.id = k + 1)
    (hrest : q.isObserver = false → q.state = .idle → up q.client = true → q.queue = []) :
    FollowsAll env.config k q.mail (routeActs up msg q) ∧
      (routeActs up msg q).foldl Act.raise k ≤ k + 1 := by
  have hnew : k < msg.id := by omega
  have hmax : max k msg.id ≤ k + 1 := by omega
  unfold routeActs
  simp only
  split
  · exact ⟨trivial, Nat.le_succ k⟩
  next hother =>
  split
  · split
    · exact ⟨trivial, Nat.le_succ k⟩
    · exact ⟨⟨⟨Or.inr hnew, rfl⟩, trivial⟩, hmax⟩
  next hmode =>
  have haddr : (msg.tag (q.addressing msg.addressee)).addressing ≠ some .overheard := by
    simpa using hmode
  split
  · next hidle =>
    rw [not_or, Bool.not_eq_true] at hother
    exact ⟨⟨⟨hnew, haddr, hrest hother.2 hidle.1 hidle.2⟩, trivial⟩, hmax⟩
  · exact ⟨⟨⟨hnew, haddr⟩, trivial⟩, hmax⟩

/-- Routing leaves the queue of a participant that is idle and connected. -/
theorem queue_routeActs {msg : Msg} {q : Participant} {up : ClientId → Bool}
    (hidle : q.state = .idle) (hup : up q.client = true) :
    (q.mail.play env.config (routeActs up msg q)).queue = q.queue := by
  unfold routeActs
  simp only [hidle, hup, and_self, if_true]
  split
  · rfl
  split
  · split <;> rfl
  · rfl

theorem counter_remember (h : Hub) (p : Participant) (f : Say) :
    (h.remember env p f).msgCounter = h.msgCounter + 1 := by
  show (h.countSay p f).msgCounter = _
  unfold countSay noteSay
  simp only
  split_ifs <;> rfl

theorem deliveries_remember (h : Hub) (p : Participant) (f : Say) (n : Str) :
    deliveries n (h.remember env p f).wire.log = deliveries n h.wire.log := by
  have hcount : Keeps ∅ ∅ False h (h.countSay p f) := keeps_countSay h p f
  rw [← hcount.delivered n (Set.notMem_empty n)]
  exact (deliveries_append n _ _).trans (List.append_nil _)

/-- What an accepted say makes of a participant. -/
structure Dealt (env : Env) (n : Str) (p : Participant) (f : Say) (q : Participant) (h : Hub)
    (q' : Participant) : Prop where
  here : (h.accept env p f).get? n = some q'
  same : q'.Same q
  mail : q'.mail = q.mail.play env.config (routeActs h.up (h.sayMsg p f) q)
  idle : q'.state = .idle → q.state = .idle
  frames : q.isObserver = false → deliveries n (h.accept env p f).wire.log =
    deliveries n h.wire.log ++ q.mail.playFrames env.config (routeActs h.up (h.sayMsg p f) q)

theorem accept_spec (hn : h.Named) (p : Participant) (f : Say) {q : Participant}
    (hq : h.get? n = some q) : ∃ q', Dealt env n p f q h q' := by
  have hrem := roster_remember env h p f
  have hanswer : Keeps ∅ ∅ False ((h.remember env p f).route env (h.sayMsg p f)).1
      (h.accept env p f) := keeps_answer env _ p f _ _
  obtain ⟨q₁, hq₁, hcalm₁, hstate₁, -⟩ := get?_remember env p f hq
  obtain ⟨⟨q₂, hq₂, hs₂, hmail₂, -, hidle₂⟩, hdel₂⟩ :=
    route_spec env (hrem.named hn) (h.sayMsg p f) hq₁
  obtain ⟨q₃, hq₃, hs₃, hcalm₃⟩ := hanswer.spec hq₂
  have hcalm := hcalm₃ (Set.notMem_empty n)
  have hacts : routeActs (h.remember env p f).up (h.sayMsg p f) q₁ =
      routeActs h.up (h.sayMsg p f) q := by
    rw [up_remember, routeActs_congr hcalm₁.toSame hstate₁]
  refine ⟨q₃, hq₃, (hcalm₁.toSame.trans hs₂).trans hs₃, ?_, fun hidle => ?_, fun hobs => ?_⟩
  · rw [hcalm.mail, hmail₂, mail_routeOne, hacts, hcalm₁.mail]
  · exact hcalm₁.idle (hidle₂ (hcalm.idle hidle)).1
  · rw [hanswer.delivered n (Set.notMem_empty n), hdel₂, deliveries_remember,
      frames_routeOne env _ _ (by rw [hcalm₁.isObserver]; exact hobs), hacts, hcalm₁.mail]

theorem turn_accept (hn : h.Named) (p : Participant) (f : Say) (n : Str) :
    Turn env n (h.copies (h.sayMsg p f) n) h (h.accept env p f) := by
  have hrem := roster_remember env h p f
  have hanswer : Keeps ∅ ∅ False ((h.remember env p f).route env (h.sayMsg p f)).1
      (h.accept env p f) := keeps_answer env _ p f _ _
  have hcount : h.msgCounter + 1 ≤ (h.accept env p f).msgCounter := by
    rw [← counter_remember env h p f]
    exact (keeps_route env (E := False) (hrem.named hn) _).counter.trans hanswer.counter
  refine ⟨roster_accept env hn p f, Nat.le_of_succ_le hcount, fun hr q' hq' hobs hidle hup => ?_,
    fun hnone => ⟨?_, by rw [copies, hnone]⟩, fun q hq => ?_⟩
  · obtain ⟨q, hq, hs⟩ := (roster_accept env hn p f).back hq'
    obtain ⟨q'', hdealt⟩ := accept_spec env hn p f hq
    obtain rfl : q' = q'' := Option.some.inj (hq'.symm.trans hdealt.here)
    have hidle₀ := hdealt.idle hidle
    have hup₀ : h.up q.client = true := by
      rw [← hs.client]
      exact (roster_accept env hn p f).up hup
    have hqueue : q'.queue = _ := congrArg Mail.queue hdealt.mail
    rw [hqueue, queue_routeActs env hidle₀ hup₀]
    exact hr q hq (by rw [← hs.isObserver]; exact hobs) hidle₀ hup₀
  · have hmem : n ∉ (h.remember env p f).names := fun hc => hc (hrem.none hnone)
    rw [hanswer.delivered n (Set.notMem_empty n),
      (keeps_route env (E := False) (hrem.named hn) _).delivered n hmem, deliveries_remember]
  · obtain ⟨q', hq', hs, hmail, -, hdel⟩ := accept_spec env hn p f hq
    refine ⟨_, q', hq', hs, ?_, hmail, hdel, fun hobs hr => ?_⟩
    · rw [msgs_routeActs, copies_eq hq]
    · obtain ⟨hfol, hraise⟩ := follows_routeActs env (k := h.msgCounter) (q := q)
        (show (h.sayMsg p f).id = h.msgCounter + 1 from rfl) fun hobs hidle hup =>
          hr q hq hobs hidle hup
      exact ⟨hfol, hraise.trans hcount⟩

/-- The message of a say is the same once the sender is charged. -/
theorem sayMsg_charged {p : Participant} {f : Say} {h₀ : Hub} (hc : Charged h n f h₀) :
    h₀.sayMsg p f = h.sayMsg p f := by
  cases hc <;> rfl

theorem copies_keeps {S T : Set Str} {E : Prop} (hk : Keeps S T E h h') (msg : Msg) (n : Str) :
    h'.copies msg n = h.copies msg n := by
  cases hq : h.get? n with
  | none => rw [copies, copies, hq, hk.toRoster.none hq]
  | some q =>
    obtain ⟨q', hq', hs⟩ := hk.same n q hq
    rw [copies_eq hq, copies_eq hq', copiesFor_congr hs]

/-- The copies a say of the participant `m` creates for `n`, if it is accepted. -/
def saidCopies (env : Env) (h : Hub) (m : Str) (f : Say) (n : Str) : List Msg :=
  match h.get? m with
  | none => []
  | some p => if (h.routeSay env m f).1 then h.copies (h.sayMsg p f) n else []

theorem turn_routeSay (hn : h.Named) (m : Str) (f : Say) (n : Str) :
    Turn env n (saidCopies env h m f n) h (h.routeSay env m f).2 := by
  cases hp : h.get? m with
  | none =>
    rw [saidCopies, hp, routeSay, hp]
    exact .refl h
  | some p =>
    obtain ⟨h₀, hc, heq | ⟨code, detail, retry, heq⟩⟩ := routeSay_cases env hp f
    · have hcharged : Keeps ∅ ∅ False h h₀ := hc.keeps
      have hturn := hcharged.quietTurn.trans (turn_accept env (hcharged.named hn) p f n)
      rw [sayMsg_charged hc, copies_keeps hcharged, List.nil_append] at hturn
      rw [saidCopies, hp]
      simp only [heq, if_true]
      exact hturn
    · have hcharged : Keeps ∅ ∅ False h h₀ := hc.keeps
      rw [saidCopies, hp]
      simp only [heq, Bool.false_eq_true, if_false]
      exact (hcharged.trans (keeps_refuse env _ _ _ _ _ _)).quietTurn

theorem turn_settle (hn : h.Named) (m : Str) (f : Say) (accepted : Bool) (n : Str) :
    Turn env n [] h (h.settle env m f accepted) := by
  by_cases hm : n = m
  · subst hm
    have hinfer := turn_inferIdle env hn n
    unfold settle
    simp only
    split
    · exact hinfer
    · split
      · split
        · exact hinfer.trans (keeps_markDone (S := ∅) (T := ∅) env _ n).quietTurn
        · exact hinfer.trans (keeps_setFinished (S := ∅) (T := ∅) _ n false).quietTurn
      · exact hinfer
  · exact (keeps_settle env hn m f accepted).turn hm hm

theorem turn_handleSay (hn : h.Named) (m : Str) (f : Say) (n : Str) :
    Turn env n (saidCopies env h m f n) h (h.handleSay env m f) := by
  have hroute := turn_routeSay env hn m f n
  have hsettle := turn_settle env ((roster_routeSay env hn m f).named hn) m f
    (h.routeSay env m f).1 n
  have := hroute.trans hsettle
  rwa [List.append_nil] at this

/-! ## State -/

theorem turn_handleState (hn : h.Named) (m : Str) (f : Report) (n : Str) :
    Turn env n [] h (h.handleState env m f) := by
  by_cases hm : n = m
  · subst hm
    obtain ⟨s, detail, hdetail⟩ := f
    unfold handleState
    split
    · exact .refl h
    · next p hp =>
      have hbusy : s ≠ .idle → Keeps ∅ ∅ False h (h.modify n (·.setState h.now s)) := fun hs =>
        keeps_modify_calm h n (fun _ => ⟨⟨rfl, rfl, rfl, rfl, rfl⟩, rfl, fun hi => absurd hi hs⟩)
          (Or.inr fun _ => rfl)
      cases s with
      | busy =>
        have hclear := (hbusy (by decide)).trans (keeps_modify_calm (S := ∅) (T := ∅) (E := False)
          (h.modify n (·.setState h.now .busy)) n
          (f := fun p => { p with blockedSince := none, blockedDetail := none })
          (fun _ => ⟨⟨rfl, rfl, rfl, rfl, rfl⟩, rfl, id⟩) (Or.inr fun _ => rfl))
        exact hclear.quietTurn
      | blocked =>
        simp only [if_true]
        split
        · have hdetail := (hbusy (by decide)).trans (keeps_modify_calm (S := ∅) (T := ∅) (E := False)
            (h.modify n (·.setState h.now .blocked)) n
            (f := fun p => { p with blockedSince := some h.now, blockedDetail := detail })
            (fun _ => ⟨⟨rfl, rfl, rfl, rfl, rfl⟩, rfl, id⟩) (Or.inr fun _ => rfl))
          have hrearmed : Keeps ∅ ∅ False _ { (h.modify n (·.setState h.now .blocked)).modify n (fun p =>
              { p with blockedSince := some h.now, blockedDetail := detail }) with
            blockedNotified := h.blockedNotified.filter (· ≠ n) } :=
            hdetail.trans (keeps_floor rfl rfl rfl rfl rfl le_rfl rfl)
          exact hrearmed.quietTurn
        · exact (hbusy (by decide)).quietTurn
      | idle =>
        have hidle : Keeps {n} ∅ False h ((h.modify n (·.setState h.now .idle)).modify n fun p =>
            { p with blockedSince := none, blockedDetail := none }) :=
          (keeps_report h n (f := (·.setState h.now .idle)) (fun _ => ⟨rfl, rfl, rfl, rfl, rfl⟩)
            fun _ => rfl).trans (keeps_report _ n (fun _ => ⟨rfl, rfl, rfl, rfl, rfl⟩) fun _ => rfl)
        refine turn_flush env hn hidle fun q q' hq hq' => ?_
        rw [get?_modify_self, get?_modify_self, hq, Option.map_some, Option.map_some,
          Option.some.injEq] at hq'
        rw [← hq']
        rfl
  · exact (keeps_handleState env hn m f).turn hm hm

/-! ## Commands -/

/-- The note of the hub to the participant `n`. -/
def noteFor (text : Str) (wall : Rat) (id : Nat) (n : Str) : Msg where
  id := id
  sender := systemSender
  addressee := n
  kind := str "note"
  text := text
  ts := wall
  addressing := some .direct

/-- The agent `n` is on the roster. -/
def hasAgent (h : Hub) (n : Str) : Bool := (h.get? n).any (!·.isObserver)

theorem hasAgent_roster (hr : h.Roster h') (n : Str) : h'.hasAgent n = h.hasAgent n := by
  unfold hasAgent
  cases hq : h.get? n with
  | none => rw [hr.none hq]
  | some q =>
    obtain ⟨q', hq', hs⟩ := hr.same n q hq
    rw [hq', Option.any_some, Option.any_some, hs.isObserver]

theorem systemNote_skip (text : Str) {m : Str} (hm : h.hasAgent m = false) :
    h.systemNote env text m = h := by
  unfold systemNote
  split
  · rfl
  · next p hp =>
    have hobs : p.isObserver = true := by simpa [hasAgent, hp] using hm
    simp only [hobs, if_true]

theorem counter_deliver (h : Hub) (n : Str) (msgs : List Msg) :
    (h.deliver env n msgs).msgCounter = h.msgCounter := by
  unfold deliver
  split
  · rfl
  · simp only
    split <;> rfl

/-- Every note to an agent takes an id. -/
theorem counter_systemNote (text : Str) (m : Str) :
    (h.systemNote env text m).msgCounter = h.msgCounter + if h.hasAgent m then 1 else 0 := by
  cases hp : h.get? m with
  | none =>
    rw [systemNote, hp]
    simp [hasAgent, hp]
  | some p =>
    rw [systemNote, hp]
    by_cases hobs : p.isObserver = true
    · simp [hasAgent, hp, hobs]
    · simp only [hobs, Bool.false_eq_true, if_false]
      have hagent : h.hasAgent m = true := by simp [hasAgent, hp, hobs]
      rw [if_pos hagent]
      split
      · exact counter_deliver _ _ _ _
      · rfl

/-- A note to the agent `n` wakes it or is queued for it. -/
theorem turn_systemNote (hn : h.Named) (text : Str) {q : Participant} (hq : h.get? n = some q)
    (hobs : q.isObserver = false) :
    Turn env n [noteFor text h.wall (h.msgCounter + 1) n] h (h.systemNote env text n) := by
  have hname := hn n q hq
  have hroster := (keeps_systemNote env (E := False) hn text n).toRoster
  have hcount : h.msgCounter + 1 ≤ (h.systemNote env text n).msgCounter := by
    rw [counter_systemNote, if_pos (by simp [hasAgent, hq, hobs])]
  have hback : ∀ q', h.get? n = some q' → q' = q := fun q' hq' => by
    rw [hq, Option.some.injEq] at hq'
    exact hq'.symm
  by_cases hidle : q.state = .idle ∧ h.up q.client = true
  · -- the agent is woken: it is busy afterwards
    generalize hmsg : noteFor text h.wall (h.msgCounter + 1) n = msg at *
    obtain ⟨h₁, hh₁⟩ : ∃ h₁ : Hub, h₁ = { h with msgCounter := h.msgCounter + 1 }.modify n fun p =>
        { p with context := (q.context.drain (some (h.msgCounter + 1))).2 } := ⟨_, rfl⟩
    have heq : h.systemNote env text n =
        h₁.deliver env n ((q.context.drain (some (h.msgCounter + 1))).1 ++ [msg]) := by
      rw [hh₁, ← hmsg, systemNote, hq]
      simp only [hobs, Bool.false_eq_true, if_false]
      refine (if_pos hidle).trans ?_
      rw [hname]
      rfl
    have hk₁ : Keeps {n} ∅ False h h₁ := by
      have hfloor : Keeps {n} ∅ False h { h with msgCounter := h.msgCounter + 1 } :=
        keeps_floor rfl rfl rfl rfl rfl (Nat.le_succ _) rfl
      rw [hh₁]
      exact hfloor.trans (keeps_report _ n (fun _ => ⟨rfl, rfl, rfl, rfl, rfl⟩) fun _ => rfl)
    have hq₁ : h₁.get? n = some
        { q with context := (q.context.drain (some (h.msgCounter + 1))).2 } := by
      rw [hh₁, get?_modify_self]
      show (h.get? n).map _ = _
      rw [hq]
      rfl
    have hget := get?_deliver env hq₁ ((q.context.drain (some (h.msgCounter + 1))).1 ++ [msg])
    rw [if_neg (by simpa [Participant.isObserver] using hobs)] at hget
    have hdel := deliveries_deliver env (hk₁.named hn) hq₁
      ((q.context.drain (some (h.msgCounter + 1))).1 ++ [msg])
    rw [hk₁.delivered n (Set.notMem_empty n)] at hdel
    rw [heq] at hcount hroster ⊢
    have hid : msg.id = h.msgCounter + 1 := by rw [← hmsg]; rfl
    refine ⟨hroster, Nat.le_of_succ_le hcount, fun _ q' hq' _ hi _ => ?_,
      fun hnone => absurd hnone (by simp [hq]), fun q' hq' => ?_⟩
    · rw [hget, Option.some.injEq] at hq'
      rw [← hq'] at hi
      cases hi
    · rw [hback q' hq']
      refine ⟨[.wake msg], _, hget, ⟨rfl, rfl, rfl, rfl, rfl⟩, rfl, ?_, fun _ => ?_, fun _ hr => ?_⟩
      · simp only [Mail.play_cons, Mail.play_nil, Mail.act, hid]
        rfl
      · rw [hdel]
        simp only [Mail.playFrames_cons, Mail.frames, Mail.playFrames_nil, List.append_nil, hid]
        rfl
      · refine ⟨⟨⟨by omega, ?_, hr q hq hobs hidle.1 hidle.2⟩, trivial⟩, ?_⟩
        · rw [← hmsg]
          simp [noteFor]
        · simp only [List.foldl_cons, List.foldl_nil, Act.raise]
          omega
  · -- the agent is busy or gone: the note is queued
    generalize hmsg : noteFor text h.wall (h.msgCounter + 1) n = msg at *
    have heq : h.systemNote env text n =
        { h with msgCounter := h.msgCounter + 1 }.modify n (·.enqueue env.config msg) := by
      rw [← hmsg, systemNote, hq]
      simp only [hobs, Bool.false_eq_true, if_false]
      refine (if_neg hidle).trans ?_
      rw [hname]
      rfl
    have hq₁ : (h.systemNote env text n).get? n = some (q.enqueue env.config msg) := by
      rw [heq, get?_modify_self]
      show (h.get? n).map _ = _
      rw [hq]
      rfl
    have hs := same_enqueue env.config q msg
    have hstate : (q.enqueue env.config msg).state = q.state := by
      unfold Participant.enqueue
      split <;> rfl
    have hid : msg.id = h.msgCounter + 1 := by rw [← hmsg]; rfl
    refine ⟨hroster, Nat.le_of_succ_le hcount, fun _ q' hq' _ hi hup => ?_,
      fun hnone => absurd hnone (by simp [hq]), fun q' hq' => ?_⟩
    · rw [hq₁, Option.some.injEq] at hq'
      rw [← hq', hstate] at hi
      rw [← hq', hs.client, heq] at hup
      exact absurd ⟨hi, hup⟩ hidle
    · rw [hback q' hq']
      refine ⟨[.enqueue msg], _, hq₁, hs, rfl, mail_enqueue env q msg, fun _ => ?_, fun _ _ => ?_⟩
      · rw [heq]
        simp [Mail.frames, modify]
      · refine ⟨⟨⟨by omega, ?_⟩, trivial⟩, ?_⟩
        · rw [← hmsg]
          simp [noteFor]
        · simp only [List.foldl_cons, List.foldl_nil, Act.raise]
          omega

/-- The notes to `n` of a system message to the names `ns`. -/
def notesFor (h : Hub) (text : Str) (ns : List Str) (n : Str) : List Msg :=
  if n ∈ ns ∧ h.hasAgent n = true then
    [noteFor text h.wall (h.msgCounter + 1 + (ns.takeWhile (· ≠ n)).countP h.hasAgent) n]
  else []

theorem turn_systemNotes (hn : h.Named) (text : Str) {ns : List Str} (hns : ns.Nodup) (n : Str) :
    Turn env n (h.notesFor text ns n) h (ns.foldl (systemNote env text) h) := by
  induction ns generalizing h with
  | nil => exact .refl h
  | cons m ns ih =>
    rw [List.nodup_cons] at hns
    rw [List.foldl_cons]
    have hk := keeps_systemNote env (E := False) hn text m
    have hn' := hk.named hn
    by_cases hm : m = n
    · subst hm
      have hrest : Turn env m [] (h.systemNote env text m)
          (ns.foldl (systemNote env text) (h.systemNote env text m)) :=
        (keeps_systemNotes env (E := False) hn' text ns).turn hns.1 hns.1
      by_cases hagent : h.hasAgent m = true
      · cases hq : h.get? m with
        | none => simp [hasAgent, hq] at hagent
        | some q =>
          have hobs : q.isObserver = false := by simpa [hasAgent, hq] using hagent
          have hone := (turn_systemNote env hn text hq hobs).trans hrest
          rw [List.append_nil] at hone
          have hnotes : h.notesFor text (m :: ns) m = [noteFor text h.wall (h.msgCounter + 1) m] := by
            simp [notesFor, hagent]
          rw [hnotes]
          exact hone
      · rw [notesFor, if_neg (fun hc => hagent hc.2)]
        rw [systemNote_skip env text (by simpa using hagent)] at hrest ⊢
        exact hrest
    · have hskip : Turn env n [] h (h.systemNote env text m) := hk.turn (Ne.symm hm) (Ne.symm hm)
      have hall := hskip.trans (ih hn' hns.2)
      rw [List.nil_append] at hall
      have hnotes : (h.systemNote env text m).notesFor text ns n = h.notesFor text (m :: ns) n := by
        have hfun : (h.systemNote env text m).hasAgent = h.hasAgent :=
          funext fun k => hasAgent_roster hk.toRoster k
        simp only [notesFor, hfun, hk.wall, counter_systemNote, List.mem_cons, Ne.symm hm, false_or,
          List.takeWhile_cons, ne_eq, hm, not_false_eq_true, decide_true, if_true,
          List.countP_cons]
        congr 3
        omega
      rwa [hnotes] at hall

theorem turn_systemMessage (hn : h.Named) (text : Str) (n : Str) :
    Turn env n (h.notesFor text h.participants.keys n) h (h.systemMessage env text) :=
  turn_systemNotes env hn text h.participants.nodup_keys n

/-- The goal line for `n`. -/
def goalLine (h : Hub) (text : Str) (n : Str) : List Msg :=
  if h.hasAgent n then [(h.goalMsg text).tag .overheard] else []

theorem turn_bufferGoal (text : Str) (n : Str) :
    Turn env n (h.goalLine text n) h (h.bufferGoal text) := by
  have hget : ∀ q, h.get? n = some q → (h.bufferGoal text).get? n = some
      (if q.isObserver then q
        else { q with context := q.context.append ((h.goalMsg text).tag .overheard) }) := by
    intro q hq
    refine (get?_mapParticipants _ _ _).trans ?_
    rw [hq]
    rfl
  refine ⟨(keeps_bufferGoal (E := False) h text).toRoster, le_rfl, fun hr q' hq' hobs hi hup => ?_,
    fun hnone => ⟨rfl, by rw [goalLine, if_neg (by simp [hasAgent, hnone])]⟩, fun q hq => ?_⟩
  · obtain ⟨q, hq, -⟩ := (keeps_bufferGoal (E := False) h text).toRoster.back hq'
    rw [hget q hq, Option.some.injEq] at hq'
    split at hq'
    · rw [← hq'] at hobs hi hup ⊢
      exact hr q hq hobs hi hup
    · rw [← hq'] at hobs hi hup ⊢
      exact hr q hq hobs hi hup
  · by_cases hobs : q.isObserver = true
    · refine ⟨[], q, by rw [hget q hq, if_pos hobs], .refl q, ?_, rfl, ?_, fun _ _ => ⟨trivial, le_rfl⟩⟩
      · rw [goalLine, if_neg (by simp [hasAgent, hq, hobs])]
        rfl
      · intro hf
        rw [hobs] at hf
        cases hf
    · have hagent : h.hasAgent n = true := by simp [hasAgent, hq, hobs]
      rw [goalLine, if_pos hagent]
      refine ⟨[.overhear ((h.goalMsg text).tag .overheard)],
        { q with context := q.context.append ((h.goalMsg text).tag .overheard) },
        by rw [hget q hq, if_neg hobs], ⟨rfl, rfl, rfl, rfl, rfl⟩, rfl, rfl,
        fun _ => ?_, fun _ _ => ⟨⟨⟨Or.inl rfl, rfl⟩, trivial⟩, ?_⟩⟩
      · simp [Mail.frames, bufferGoal, mapParticipants]
      · simp only [List.foldl_cons, List.foldl_nil, Act.raise]
        exact max_le le_rfl (Nat.zero_le _)

/-- The copies a command creates for `n`. -/
def commandCopies (h : Hub) (c : Command) (n : Str) : List Msg :=
  match c with
  | .mute => h.notesFor muteText h.participants.keys n
  | .unmute => h.notesFor unmuteText h.participants.keys n
  | .goal text _ => h.goalLine text n
  | _ => []

theorem turn_runCommand (hn : h.Named) (c : Command) (n : Str) :
    Turn env n (h.commandCopies c n) h (h.runCommand env c) := by
  have hflag : ∀ (h' : Hub) (e : HubEvent), h'.wire = h.wire → h'.participants = h.participants →
      h'.dead = h.dead → h'.now = h.now → h'.wall = h.wall → h'.msgCounter = h.msgCounter →
      h'.recent = h.recent → (Effect.append h'.wall (.event e h'.wall)).marking = false →
      Keeps ∅ ∅ False h (h'.emitEvent env e none) :=
    fun h' e hw hp hd hnow hwall hcount hrecent he =>
      (keeps_floor hw hp hd hnow hwall hcount.ge hrecent).trans
        (keeps_emitEvent env h' e none (Or.inr he))
  cases c with
  | freeze => exact (hflag { h with frozen := true } _ rfl rfl rfl rfl rfl rfl rfl rfl).quietTurn
  | resume n =>
    exact (hflag { h with maxRounds := _, frozen := false } _ rfl rfl rfl rfl rfl rfl rfl
      rfl).quietTurn
  | reset =>
    exact (hflag { h with round := 0, frozen := false } _ rfl rfl rfl rfl rfl rfl rfl rfl).quietTurn
  | mute =>
    have hk := hflag { h with muted := true } .muted rfl rfl rfl rfl rfl rfl rfl rfl
    exact hk.quietTurn.trans (turn_systemMessage env (hk.named hn) muteText n)
  | unmute =>
    have hk := hflag { h with muted := false } .unmuted rfl rfl rfl rfl rfl rfl rfl rfl
    exact hk.quietTurn.trans (turn_systemMessage env (hk.named hn) unmuteText n)
  | goal text ok =>
    have hk := hflag { h with goal := text } (.goalSet text) rfl rfl rfl rfl rfl rfl rfl rfl
    have hgoal := hk.quietTurn.trans (turn_bufferGoal env text n)
    have hwrite : Keeps ∅ ∅ False _ ((({ h with goal := text }.emitEvent env (.goalSet text)
      none).bufferGoal text).writeGoal text) := (quiet_writeGoal _ _).keeps
    have := hgoal.trans hwrite.quietTurn
    rw [List.nil_append, List.append_nil] at this
    exact this

/-- The copies a `cmd` frame of the participant `m` creates for `n`. -/
def cmdCopies (h : Hub) (m : Str) (c : Command) (n : Str) : List Msg :=
  match h.get? m with
  | none => []
  | some p => if p.isObserver then h.commandCopies c n else []

theorem turn_handleCmd (hn : h.Named) (m : Str) (c : Command) (seq : Option Int) (n : Str) :
    Turn env n (h.cmdCopies m c n) h (h.handleCmd env m c seq) := by
  unfold handleCmd cmdCopies
  cases hp : h.get? m with
  | none => exact .refl h
  | some p =>
    by_cases hobs : p.isObserver = true
    · simp only [hobs, Bool.true_eq_false, if_false, if_true]
      have hrest : Keeps ∅ ∅ False (h.runCommand env c)
          ((h.runCommand env c).touchActivity.send env p (.ok seq)) :=
        (keeps_touchActivity _).trans (quiet_send env _ p (by simp)).keeps
      have := (turn_runCommand env hn c n).trans hrest.quietTurn
      rwa [List.append_nil] at this
    · simp only [hobs, if_true, Bool.false_eq_true, if_false]
      exact (quiet_err env h p _ _ _ _).keeps.quietTurn (E := False)

/-! ## Watchdog -/

theorem turn_assumeIdle (hn : h.Named) (m : Str) (p : Participant) (n : Str) :
    Turn env n [] h (h.assumeIdle env m p) := by
  by_cases hm : n = m
  · subst hm
    unfold assumeIdle
    split
    · have hstall : Keeps {n} ∅ False h ((h.modify n (·.setIdle)).emitEvent env
          (.stall (str "no sign of life from " ++ p.name ++ str ", assumed idle")) none) :=
        (keeps_setIdle h n).trans (keeps_emitEvent env _ _ none (Or.inr rfl))
      refine turn_flush env hn hstall fun q q' hq hq' => ?_
      have hself : (h.modify n (·.setIdle)).get? n = some q' := hq'
      rw [get?_modify_self, hq, Option.map_some, Option.some.injEq] at hself
      rw [← hself]
      rfl
    · exact .refl h
  · exact (keeps_assumeIdle env hn m p).turn hm hm

theorem turn_tickAgent (hn : h.Named) (m : Str) (p : Participant) (n : Str) :
    Turn env n [] h (((h.pingSilent env m p).assumeIdle env m p).notifyBlocked env m) := by
  have hping : Keeps ∅ ∅ False h (h.pingSilent env m p) := keeps_pingSilent env h m p
  have hnote : Keeps ∅ ∅ False ((h.pingSilent env m p).assumeIdle env m p)
    (((h.pingSilent env m p).assumeIdle env m p).notifyBlocked env m) := keeps_notifyBlocked env _ m
  have := (hping.quietTurn.trans (turn_assumeIdle env (hping.named hn) m p n)).trans
    hnote.quietTurn
  rwa [List.append_nil, List.append_nil] at this

/-! ## Frames -/

/-- The copies a frame other than `hello` creates for `n`. -/
def frameCopies (env : Env) (h : Hub) (m : Str) (f : Inbound) (n : Str) : List Msg :=
  match f with
  | .say f => saidCopies env (h.lifeSign m) m f n
  | .cmd c _ => (h.lifeSign m).cmdCopies m c n
  | _ => []

theorem turn_dispatch (hn : h.Named) (c : ClientId) {f : Inbound} (hf : f ≠ .bye) (n : Str) :
    Turn env n (frameCopies env h (h.wire.clients c).name f n) h (h.dispatch env c f) := by
  have hlife : Keeps ∅ ∅ False h (h.lifeSign (h.wire.clients c).name) := keeps_lifeSign h _
  have hn' := hlife.named hn
  unfold dispatch
  generalize hm : (h.wire.clients c).name = m at *
  simp only
  cases hp : h.get? m with
  | none =>
    have hnone : (h.lifeSign m).get? m = none := hlife.toRoster.none hp
    have hcopies : frameCopies env h m f n = [] := by
      cases f with
      | say f => simp only [frameCopies, saidCopies, hnone]
      | cmd cmd seq => simp only [frameCopies, cmdCopies, hnone]
      | _ => rfl
    rw [hcopies]
    exact (quiet_errRaw env h c _ _ _).keeps.quietTurn (E := False)
  | some p =>
    cases f with
    | hello f => exact hlife.quietTurn
    | say f => exact hlife.quietTurn.trans (turn_handleSay env hn' m f n)
    | state f => exact hlife.quietTurn.trans (turn_handleState env hn' m f n)
    | cmd cmd seq => exact hlife.quietTurn.trans (turn_handleCmd env hn' m cmd seq n)
    | roster seq => exact (hlife.trans (quiet_handleRoster env _ _ seq).keeps).quietTurn
    | bye => exact absurd rfl hf
    | pong => exact hlife.quietTurn

end

end Hub

end Moot
