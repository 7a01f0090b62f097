import Moot.Hub.Clean
import Moot.Hub.Deed
import Moot.Hub.Numbering

/-!
# Replies

A frame is answered once, to the client that sent it, or not at all.  The other
frames a handler sends on its way, deliveries and events, are no replies.

Proved here: `one_reply`, for every frame on clean strings in every reachable state.
-/

namespace Moot
open Py Proto PyJson

/-- The frame answers a request. -/
def Frame.isReply : Frame → Bool
  | .welcome .. | .said .. | .ok .. | .err .. | .roster .. => true
  | .deliver .. | .event .. | .ping => false

/-- Whom the effect answers, and how. -/
def Effect.reply : Effect → Option (ClientId × Frame)
  | .send _ c _ f => if f.isReply then some (c, f) else none
  | _ => none

/-- The replies in a log. -/
def replies (log : List Effect) : List (ClientId × Frame) := log.filterMap Effect.reply

namespace Hub

/-- Nobody is answered on the way. -/
abbrev Hushed (h h' : Hub) : Prop := Wrote (fun e => e.reply = none) h h'

/-- The replies on the way are `rs`. -/
def Replied (rs : List (ClientId × Frame)) (h h' : Hub) : Prop :=
  ∃ es, h'.wire.log = h.wire.log ++ es ∧ replies es = rs

section
variable {env : Env} {h h' h'' : Hub} {n : Str} {p : Participant} {c : ClientId} {r : Frame}
  {rs : List (ClientId × Frame)}

theorem Hushed.replied (hh : Hushed h h') : Replied [] h h' := by
  obtain ⟨es, hes, hnone⟩ := hh
  exact ⟨es, hes, List.filterMap_eq_nil_iff.mpr hnone⟩

theorem Replied.trans {rs' : List (ClientId × Frame)} (hab : Replied rs h h')
    (hbc : Replied rs' h' h'') : Replied (rs ++ rs') h h'' := by
  obtain ⟨es, hes, rfl⟩ := hab
  obtain ⟨fs, hfs, rfl⟩ := hbc
  exact ⟨es ++ fs, by rw [hfs, hes, List.append_assoc], List.filterMap_append⟩

/-- What answers nobody may come after. -/
theorem Replied.hush (hr : Replied rs h h') (hh : Hushed h' h'') : Replied rs h h'' := by
  have hall := hr.trans hh.replied
  rwa [List.append_nil] at hall

/-- What answers nobody may come before. -/
theorem Hushed.then (hh : Hushed h h') (hr : Replied rs h' h'') : Replied rs h h'' :=
  hh.replied.trans hr

theorem Replied.new (hr : Replied rs h h') : replies (newEffects h h') = rs := by
  obtain ⟨es, hes, rfl⟩ := hr
  rw [newEffects, hes, List.drop_left]

/-! ## What answers nobody -/

variable (env)

theorem hushed_emitEvent (h : Hub) (e : HubEvent) (skip : Option Str) :
    Hushed h (h.emitEvent env e skip) :=
  wrote_emitEvent env h e skip (fun _ _ _ => rfl) rfl

theorem hushed_notify (h : Hub) (title message : Str) : Hushed h (h.notify env title message) :=
  wrote_notify env h title message fun _ _ => rfl

theorem hushed_deliver (h : Hub) (n : Str) (msgs : List Msg) : Hushed h (h.deliver env n msgs) :=
  wrote_deliver env h n msgs (fun _ _ _ _ _ => rfl) fun _ _ _ _ _ _ _ => rfl

theorem hushed_deliverAll (h : Hub) (bs : List (Str × List Msg)) :
    Hushed h (h.deliverAll env bs) := by
  induction bs generalizing h with
  | nil => exact wrote_nothing rfl
  | cons b bs ih => exact (hushed_deliver env h b.1 b.2).trans (ih _)

theorem hushed_checkRoundLimit (h : Hub) : Hushed h (h.checkRoundLimit env) := by
  have hlimit : Hushed h (h.announceLimit env) :=
    wrote_announceLimit env h (fun _ _ => rfl) (fun _ _ _ _ _ => rfl) fun _ _ _ _ => rfl
  unfold checkRoundLimit
  split
  · split
    · exact hlimit
    · exact hlimit.trans (wrote_one rfl rfl)
  · exact wrote_nothing rfl

theorem hushed_checkSessionDone (h : Hub) : Hushed h (h.checkSessionDone env) :=
  wrote_checkSessionDone env h (fun _ _ => rfl) (fun _ _ _ _ => rfl) fun _ _ _ => rfl

theorem hushed_flushQueue (h : Hub) (n : Str) : Hushed h (h.flushQueue env n) := by
  unfold flushQueue
  split
  · exact wrote_nothing rfl
  · next p hp =>
    split
    · exact wrote_nothing rfl
    · have hdrained : ∀ k : Hub, k.wire = h.wire → Hushed h (k.deliver env n (p.flushBatch env.config)) :=
        fun k hk => (wrote_nothing (congrArg Wire.log hk)).trans (hushed_deliver env k n _)
      simp only
      apply Wrote.trans _ (hushed_checkSessionDone env _)
      split
      · apply Wrote.trans _ (hushed_checkRoundLimit env _)
        exact hdrained _ rfl
      · exact hdrained _ rfl

theorem hushed_systemNote (text : Str) (h : Hub) (n : Str) : Hushed h (h.systemNote env text n) := by
  unfold systemNote
  split
  · exact wrote_nothing rfl
  · split
    · exact wrote_nothing rfl
    · simp only
      split
      · exact Wrote.trans (wrote_nothing rfl) (hushed_deliver env _ n _)
      · exact wrote_nothing rfl

theorem hushed_systemMessage (h : Hub) (text : Str) : Hushed h (h.systemMessage env text) := by
  unfold systemMessage
  generalize h.participants.keys = ns
  induction ns generalizing h with
  | nil => exact wrote_nothing rfl
  | cons n ns ih => exact (hushed_systemNote env text h n).trans (ih _)

theorem hushed_leave (h : Hub) (n : Str) (p : Participant) : Hushed h (h.leave env n p) :=
  Wrote.trans (wrote_nothing rfl) (hushed_emitEvent env _ (.peerLeft n) none)

theorem hushed_close (h : Hub) (c : ClientId) : Hushed h (h.close c) := wrote_one rfl rfl

theorem hushed_disconnect (h : Hub) (c : ClientId) : Hushed h (h.disconnect env c) := by
  unfold disconnect
  simp only
  split
  · exact hushed_close h c
  · split
    · exact ((hushed_leave env h _ _).trans (hushed_checkSessionDone env _)).trans (hushed_close _ c)
    · exact hushed_close h c

theorem hushed_giveBacklog (h : Hub) (n : Str) : Hushed h (h.giveBacklog env n) := by
  unfold giveBacklog
  split
  · exact wrote_nothing rfl
  · simp only
    split
    · split
      · exact wrote_nothing rfl
      · exact hushed_deliver env h n _
    · exact wrote_nothing rfl

theorem hushed_route (h : Hub) (msg : Msg) : Hushed h (h.route env msg).1 := by
  unfold route
  simp only
  generalize batches (fun q => (routeOne env h.up msg q).woken) h = bw
  generalize batches (fun q => (routeOne env h.up msg q).observed) h = bo
  have hgiven : ∀ k : Hub, k.wire = h.wire → Hushed h ((k.deliverAll env bo).deliverAll env bw) :=
    fun k hk => ((wrote_nothing (congrArg Wire.log hk)).trans (hushed_deliverAll env k bo)).trans
      (hushed_deliverAll env _ bw)
  split
  · exact hgiven _ rfl
  · apply Wrote.trans _ (hushed_checkRoundLimit env _)
    exact hgiven _ rfl

theorem hushed_remember (h : Hub) (p : Participant) (f : Say) : Hushed h (h.remember env p f) := by
  have hwire : (h.countSay p f).wire = h.wire := by
    unfold countSay noteSay
    simp only
    split_ifs <;> rfl
  have hcounted : Hushed h (h.countSay p f) := wrote_nothing (congrArg Wire.log hwire)
  exact hcounted.trans (wrote_one rfl rfl)

theorem hushed_emitRejected (h : Hub) (p : Participant) (code addressee kind text : Str)
    (retry : Option Rat) (priv : Bool) :
    Hushed h (h.emitRejected env p code addressee kind text retry priv) := by
  unfold emitRejected
  split
  · exact wrote_nothing rfl
  · exact Wrote.trans (wrote_one rfl rfl) (hushed_emitEvent env (h.encodeText text) _ none)

theorem hushed_inferIdle (h : Hub) (n : Str) : Hushed h (h.inferIdle env n) := by
  unfold inferIdle
  split
  · exact wrote_nothing rfl
  · split
    · exact Wrote.trans (wrote_nothing rfl) (hushed_flushQueue env _ n)
    · exact wrote_nothing rfl

theorem hushed_settle (h : Hub) (n : Str) (f : Say) (accepted : Bool) :
    Hushed h (h.settle env n f accepted) := by
  have hinfer := hushed_inferIdle env h n
  unfold settle
  simp only
  split
  · exact hinfer
  · split
    · split
      · exact hinfer.trans (Wrote.trans (wrote_nothing rfl) (hushed_checkSessionDone env _))
      · exact hinfer.trans (wrote_nothing rfl)
    · exact hinfer

theorem hushed_handleState (h : Hub) (n : Str) (f : Report) : Hushed h (h.handleState env n f) := by
  unfold handleState
  split
  · exact wrote_nothing rfl
  · simp only
    split
    · split <;> exact wrote_nothing rfl
    · split
      · exact Wrote.trans (wrote_nothing rfl) (hushed_flushQueue env _ n)
      · exact wrote_nothing rfl

theorem hushed_runCommand (h : Hub) (c : Command) : Hushed h (h.runCommand env c) := by
  have htold : ∀ (k : Hub) (e : HubEvent), k.wire = h.wire → Hushed h (k.emitEvent env e none) :=
    fun k e hk => (wrote_nothing (congrArg Wire.log hk)).trans (hushed_emitEvent env k e none)
  cases c with
  | freeze => exact htold _ _ rfl
  | resume n ok => exact htold _ _ rfl
  | reset => exact htold _ _ rfl
  | mute => exact (htold { h with muted := true } _ rfl).trans (hushed_systemMessage env _ _)
  | unmute => exact (htold { h with muted := false } _ rfl).trans (hushed_systemMessage env _ _)
  | goal text ok =>
    exact (htold { h with goal := text } _ rfl).trans (wrote_one rfl rfl)

theorem hushed_reap (h : Hub) (n : Str) : Hushed h (h.reap env n) := by
  unfold reap
  split
  · split
    · exact wrote_nothing rfl
    · exact hushed_disconnect env h _
  · exact wrote_nothing rfl

theorem hushed_declareRoom (h : Hub) (f : Hello) : Hushed h (h.declareRoom f) := by
  unfold declareRoom
  split
  · exact wrote_one rfl rfl
  · exact wrote_nothing rfl

/-! ## What answers -/

theorem replied_send (h : Hub) (p : Participant) (hr : r.isReply = true) :
    Replied [(p.client, r)] h (h.send env p r) :=
  ⟨[_], rfl, by simp [replies, Effect.reply, hr]⟩

theorem replied_errRaw (h : Hub) (c : ClientId) (code detail : Str) (seq : Option Int) :
    Replied [(c, .err code detail seq none)] h (h.errRaw env c code detail seq) :=
  ⟨[_], rfl, rfl⟩

theorem replied_refuse (h : Hub) (p : Participant) (f : Say) (code detail : Str) (retry : Option Rat) :
    Replied [(p.client, .err code detail (some f.seq) retry)] h
      (h.refuse env p f code detail retry) :=
  (replied_send env h p rfl).hush (hushed_emitRejected env _ p code _ _ _ retry _)

theorem replied_answer (h : Hub) (p : Participant) (f : Say) (id queued : Nat) :
    Replied [(p.client, .said id queued f.seq)] h (h.answer env p f id queued) := by
  have hsent := replied_send env h p (r := .said id queued f.seq) rfl
  unfold answer
  simp only
  split
  · exact (hsent.hush (hushed_notify env _ _ _)).hush (wrote_nothing rfl)
  · exact hsent.hush (wrote_nothing rfl)

/-- In how many queues an accepted say lands. -/
def landed (h : Hub) (p : Participant) (f : Say) : Nat :=
  ((h.remember env p f).route env (h.sayMsg p f)).2

theorem replied_accept (h : Hub) (p : Participant) (f : Say) :
    Replied [(p.client, .said (h.msgCounter + 1) (landed env h p f) f.seq)] h (h.accept env p f) :=
  Hushed.then ((hushed_remember env h p f).trans (hushed_route env _ (h.sayMsg p f)))
    (replied_answer env _ p f (h.msgCounter + 1) _)

theorem hushed_charged {f : Say} (hc : Charged h n f h') : Hushed h h' := by
  cases hc with
  | free => exact wrote_nothing rfl
  | rated => exact wrote_nothing rfl
  | seen => exact wrote_one rfl rfl

theorem replied_handleCmd (hp : h.get? n = some p) (cmd : Command) (seq : Option Int) :
    ∃ r, Replied [(p.client, r)] h (h.handleCmd env n cmd seq) ∧
      (r = .ok seq ∨ ∃ code detail, r = .err code detail seq none) := by
  rw [handleCmd, hp]
  simp only
  split
  · exact ⟨_, replied_send env h p rfl, Or.inr ⟨_, _, rfl⟩⟩
  · have hran : Hushed h (h.runCommand env cmd).touchActivity :=
      (hushed_runCommand env h cmd).trans (wrote_nothing rfl)
    exact ⟨_, hran.then (replied_send env _ p rfl), Or.inl rfl⟩

theorem replied_handleRoster (hp : h.get? n = some p) (seq : Option Int) :
    ∃ round most frozen muted goal peers,
      Replied [(p.client, .roster round most frozen muted seq goal peers)] h
        (h.handleRoster env n seq) := by
  rw [handleRoster, hp]
  exact ⟨_, _, _, _, _, _, replied_send env h p rfl⟩

/-- The answer to a hello. -/
def HelloReply (r : Frame) : Prop :=
  (∃ k p, r = welcome env k p) ∨ ∃ code detail, r = .err code detail none none

theorem replied_register (h : Hub) (c : ClientId) (f : Hello) :
    ∃ r, Replied [(c, r)] h (h.register env c f) ∧ HelloReply env r := by
  have hwelcome := replied_send env (h.enroll c f.name (admitted env h c f)) (admitted env h c f)
    (r := welcome env (h.enroll c f.name (admitted env h c f)) (admitted env h c f)) rfl
  rw [admitted_client] at hwelcome
  have hgreet : Replied [(c, welcome env (h.enroll c f.name (admitted env h c f))
      (admitted env h c f))] h ((h.enroll c f.name (admitted env h c f)).greet env f.name
        (admitted env h c f) (h.dead.contains f.name)) := by
    unfold greet
    simp only
    have hback : ∀ k k' : Hub, Hushed k k' →
        Hushed k (k'.touchActivity.emitEvent env (.peerJoined f.name (admitted env h c f).kind
          (admitted env h c f).role) (some f.name)) := fun k k' hk =>
      (hk.trans (wrote_nothing rfl)).trans (hushed_emitEvent env k'.touchActivity _ _)
    split
    · exact hwelcome.hush (hback _ _ (hushed_giveBacklog env _ f.name))
    · exact hwelcome.hush (hback _ _ (wrote_nothing rfl))
  unfold register
  simp only
  split
  · exact ⟨_, hgreet.hush (hushed_flushQueue env _ f.name), Or.inl ⟨_, _, rfl⟩⟩
  · exact ⟨_, hgreet, Or.inl ⟨_, _, rfl⟩⟩

theorem replied_handleHello (h : Hub) (c : ClientId) (f : Hello) :
    ∃ r, Replied [(c, r)] h (h.handleHello env c f) ∧ HelloReply env r := by
  unfold handleHello
  simp only
  split
  · exact ⟨_, replied_errRaw env h c _ _ _, Or.inr ⟨_, _, rfl⟩⟩
  · have hready : Hushed h ((h.reap env f.name).declareRoom f) :=
      (hushed_reap env h f.name).trans (hushed_declareRoom _ f)
    split
    · exact ⟨_, hready.then ((replied_errRaw env _ c _ _ _).hush (hushed_close _ c)),
        Or.inr ⟨_, _, rfl⟩⟩
    · obtain ⟨r, hr, hfits⟩ := replied_register env ((h.reap env f.name).declareRoom f) c f
      exact ⟨r, hready.then hr, hfits⟩

/-! ## The queues -/

/-- The agents whose wake queue holds the message with that id. -/
def holders (h : Hub) (id : Nat) : List Participant :=
  h.agents.filter fun q => q.queue.any (·.id = id)

/-- The participant is one of them. -/
def Participant.holds (id : Nat) (q : Participant) : Bool :=
  q.queue.any (·.id = id) && !q.isObserver

theorem length_holders (h : Hub) (id : Nat) : (h.holders id).length =
    (h.participants.keys.filter fun n => (h.get? n).any (Participant.holds id)).length := by
  rw [holders, agents, List.filter_filter]
  exact Dict.length_filter_values h.participants (Participant.holds id)

/-- A new message is in the queue of those that routing puts it into. -/
theorem holds_routed {up : ClientId → Bool} {msg : Msg} {q q' : Participant}
    (hold : ∀ m ∈ q.queue, m.id ≠ msg.id) (hsame : q'.isObserver = q.isObserver)
    (hmail : q'.mail = q.mail.play env.config (routeActs up msg q)) :
    Participant.holds msg.id q' = (routeOne env up msg q).queued := by
  have hqueue : q'.queue = (q.mail.play env.config (routeActs up msg q)).queue :=
    congrArg Mail.queue hmail
  have hnone : q.queue.any (·.id = msg.id) = false := by
    rw [List.any_eq_false]
    intro m hm
    simpa using hold m hm
  have hput : ∀ ms : List Msg, (ms ++ [msg.tag (q.addressing msg.addressee)]).any (·.id = msg.id) = true := by
    intro ms
    simp [Msg.tag]
  rw [Participant.holds, hqueue, hsame]
  unfold routeActs routeOne
  simp only
  by_cases hself : q.name = msg.sender
  · simp only [hself, true_or, if_true, Mail.play_nil]
    rw [show q.mail.queue = q.queue from rfl, hnone, Bool.false_and]
  by_cases hobs : q.isObserver = true
  · simp only [hobs, or_true, if_true, hself, if_false, Bool.not_true, Bool.and_false]
  rw [Bool.not_eq_true] at hobs
  simp only [hself, hobs, or_self, if_false, Bool.false_eq_true, Bool.not_false, Bool.and_true]
  by_cases hmode : q.addressing msg.addressee = .overheard
  · simp only [hmode, if_true]
    split
    · exact hnone
    · exact hnone
  simp only [hmode, if_false]
  by_cases hready : q.state = .idle ∧ up q.client = true
  · simp only [hready, and_self, if_true]
    exact hnone
  · simp only [if_neg hready]
    rw [Mail.play_cons, Mail.play_nil, Mail.act]
    split
    · exact hput _
    · exact hput _

/-- Nothing kept has the id that is next. -/
def Untaken (h : Hub) : Prop := ∀ n q, h.get? n = some q → q.mail.All fun m => m.id ≤ h.msgCounter

theorem Untaken.queue (hf : h.Untaken) {q : Participant} (hq : h.get? n = some q) :
    ∀ m ∈ q.queue, m.id ≠ h.msgCounter + 1 := by
  intro m hm
  have hle : m.id ≤ h.msgCounter := hf n q hq m (List.mem_append_left _ hm)
  omega

theorem landed_eq (hn : h.Named) (hf : h.Untaken) (p : Participant) (f : Say) :
    landed env h p f = ((h.accept env p f).holders (h.msgCounter + 1)).length := by
  have hrem := roster_remember env h p f
  have hacc := roster_accept env hn p f
  rw [length_holders, hacc.keys]
  show ((h.remember env p f).participants.values.filter fun q =>
    (routeOne env (h.remember env p f).up (h.sayMsg p f) q).queued).length = _
  rw [Dict.length_filter_values, hrem.keys]
  congr 1
  apply List.filter_congr
  intro n hmem
  obtain ⟨q, hq⟩ := Dict.mem_keys_iff.mp hmem
  obtain ⟨q₁, hq₁, hcalm, hstate, -⟩ := get?_remember env p f hq
  obtain ⟨q', hdealt⟩ := accept_spec env hn p f hq
  rw [show (h.remember env p f).participants.get? n = some q₁ from hq₁, hdealt.here, Option.any_some,
    Option.any_some]
  have hacts : routeActs (h.remember env p f).up (h.sayMsg p f) q₁ =
      routeActs h.up (h.sayMsg p f) q := by
    rw [up_remember, routeActs_congr hcalm.toSame hstate]
  have hqueue : q₁.queue = q.queue := congrArg Mail.queue hcalm.mail
  have hold : ∀ m ∈ q₁.queue, m.id ≠ (h.sayMsg p f).id := by
    rw [hqueue]
    exact hf.queue hq
  apply (holds_routed env hold _ _).symm
  · rw [hdealt.same.isObserver, hcalm.isObserver]
  · rw [hacts, hcalm.mail]
    exact hdealt.mail

/-- After the say, its sender's queue may be flushed: it does not hold the message. -/
theorem holders_settle (hn : h.Named) {m : Str} {id : Nat} (hpos : 0 < id)
    (hown : ∀ q, h.get? m = some q → q.mail.All fun x => x.id ≠ id) (f : Say) (accepted : Bool) :
    ((h.settle env m f accepted).holders id).length = (h.holders id).length := by
  have hkeep := keeps_settle env hn m f accepted
  rw [length_holders, length_holders, hkeep.keys]
  congr 1
  apply List.filter_congr
  intro n hmem
  obtain ⟨q, hq⟩ := Dict.mem_keys_iff.mp hmem
  obtain ⟨q', hq', hs⟩ := hkeep.same n q hq
  rw [show h.get? n = some q from hq, hq', Option.any_some, Option.any_some]
  by_cases hnm : n = m
  · subst hnm
    obtain ⟨as, q'', hq'', -, hmsgs, hmail, -⟩ := (turn_settle env hn n f accepted n).acts q hq
    obtain rfl : q' = q'' := Option.some.inj (hq'.symm.trans hq'')
    have hall : q'.mail.All fun x => x.id ≠ id := by
      rw [hmail]
      exact (All.play env.config (hown q hq) (fun _ => hpos.ne) (fun _ => hpos.ne) as
        (by simp [hmsgs])).1
    have hno : ∀ k : Participant, (k.mail.All fun x => x.id ≠ id) → Participant.holds id k = false := by
      intro k hk
      rw [Participant.holds, List.any_eq_false.mpr, Bool.false_and]
      intro x hx
      simpa using hk x (List.mem_append_left _ hx)
    rw [hno q' hall, hno q (hown q hq)]
  · have hqueue : q'.queue = q.queue := congrArg Mail.queue (hkeep.calm n hnm q q' hq hq').mail
    rw [Participant.holds, Participant.holds, hqueue, hs.isObserver]

/-! ## A say -/

/-- **A say is answered**, with its id and the number of the queues it is in, or refused. -/
theorem replied_handleSay (hn : h.Named) (hf : h.Untaken) (hp : h.get? n = some p) (f : Say) :
    ((h.routeSay env n f).1 = true →
      Replied [(p.client, .said (h.msgCounter + 1)
        ((h.handleSay env n f).holders (h.msgCounter + 1)).length f.seq)] h (h.handleSay env n f)) ∧
    ((h.routeSay env n f).1 = false → ∃ code detail retry,
      Replied [(p.client, .err code detail (some f.seq) retry)] h (h.handleSay env n f)) := by
  obtain ⟨h₀, hc, heq | ⟨code, detail, retry, heq⟩⟩ := routeSay_cases env hp f
  · have hcharged : Keeps ∅ ∅ False h h₀ := hc.keeps
    have hn₀ := hcharged.named hn
    have hcount : h₀.msgCounter = h.msgCounter := by cases hc <;> rfl
    have hf₀ : h₀.Untaken := by
      intro m q₀ hq₀
      obtain ⟨q, hq, -⟩ := hcharged.toRoster.back hq₀
      rw [(hcharged.calm m (Set.notMem_empty m) q q₀ hq hq₀).mail, hcount]
      exact hf m q hq
    have hsettled : ((h.handleSay env n f).holders (h.msgCounter + 1)).length =
        ((h₀.accept env p f).holders (h.msgCounter + 1)).length := by
      rw [handleSay, heq]
      apply holders_settle env ((roster_accept env hn₀ p f).named hn₀) (Nat.succ_pos _)
      intro q' hq'
      obtain ⟨q, hq, -⟩ := (roster_accept env hn₀ p f).back hq'
      obtain ⟨q'', hdealt⟩ := accept_spec env hn₀ p f hq
      obtain rfl : q' = q'' := Option.some.inj (hq'.symm.trans hdealt.here)
      have hself : q.name = p.name := (hn₀ n q hq).trans (hn n p hp).symm
      have hnone : routeActs h₀.up (h₀.sayMsg p f) q = [] := by
        unfold routeActs
        exact if_pos (Or.inl hself)
      rw [hdealt.mail, hnone, Mail.play_nil]
      intro x hx
      have hle : x.id ≤ h₀.msgCounter := hf₀ n q hq x hx
      omega
    refine ⟨fun _ => ?_, fun hno => absurd (hno.symm.trans (congrArg Prod.fst heq))
      Bool.false_ne_true⟩
    have hreply := (hushed_charged hc).then (replied_accept env h₀ p f)
    rw [landed_eq env hn₀ hf₀, hcount, ← hsettled] at hreply
    have hall := hreply.hush (hushed_settle env (h₀.accept env p f) n f true)
    rw [handleSay, heq] at hall ⊢
    exact hall
  · refine ⟨fun hyes => absurd (hyes.symm.trans (congrArg Prod.fst heq)) Bool.false_ne_true.symm,
      fun _ => ⟨code, detail, retry, ?_⟩⟩
    rw [handleSay, heq]
    exact ((hushed_charged hc).then (replied_refuse env h₀ p f code detail retry)).hush
      (hushed_settle env _ n f false)

end

/-! ## A frame -/

section
variable {F : Type} [PyFloat F] (env : Env)

/-- The frame is taken in without an answer. -/
def taken (h : Hub) (c : ClientId) (frame : Obj F) : Bool :=
  h.participants.contains (h.wire.clients c).name &&
    match validate env.isPrintable frame with
    | .ok (.state _) | .ok .bye | .ok .pong => true
    | _ => false

/-- Where an accepted say is: on record once.  What is kept or handed out is the hub's own, of a
message before it, or a copy of it. -/
structure Placed (old : List MsgRec) (r : MsgRec) (h h' : Hub) : Prop where
  recorded : said h'.wire.log = said h.wire.log ++ [r]
  copies : Carries (fun _ => True) (Known (old ++ [r])) h'
  new : ∀ s ∈ old, s.id < r.id

/-- What the reply `r` to a frame is; `old` are the messages before it. -/
def Fits (old : List MsgRec) (h : Hub) (c : ClientId) (frame : Obj F) (h' : Hub) (r : Frame) : Prop :=
  match validate env.isPrintable frame with
  | .error _ => ∃ code detail, r = .err code detail (optSeq frame) none
  | .ok (.hello _) => HelloReply env r
  | .ok f =>
    if h.participants.contains (h.wire.clients c).name = true then
      match f with
      | .say f =>
        optSeq frame = some f.seq ∧
          match acceptedSays env h (.handle c frame) with
          | [] => ∃ code detail retry, r = .err code detail (some f.seq) retry
          | m :: _ => r = .said m.id (h'.holders m.id).length f.seq ∧ Placed old m h h'
      | .cmd .. => r = .ok (optSeq frame) ∨ ∃ code detail, r = .err code detail (optSeq frame) none
      | .roster _ => ∃ round most frozen muted goal peers,
          r = .roster round most frozen muted (optSeq frame) goal peers
      | _ => False
    else ∃ code detail, r = .err code detail none none

/-- The messages in the mail, the frames and the window are the hub's own or of `records` and the
log; their ids are taken. -/
structure Kept (records : List MsgRec) (h : Hub) : Prop where
  ready : h.Ready
  known : Carries (fun _ => True) (Known (records ++ said h.wire.log)) h
  old : ∀ r ∈ records ++ said h.wire.log, r.id ≤ h.msgCounter

variable {env} {h : Hub} {records : List MsgRec}

theorem said_step (hw : h.Wf) (op : Op F) :
    said (h.step env op).wire.log = said h.wire.log ++ acceptedSays env h op := by
  rw [said_eq_map, said_eq_map, (remembers_step env hw op).said, List.map_append, List.map_map]
  exact congrArg (_ ++ ·) (List.map_id _)

theorem Kept.step (hk : Kept records h) (op : Op F) : Kept records (h.step env op) := by
  have hrem := remembers_step env hk.ready.wf op
  have hrule : Handled env anyFrame fun h =>
      Carries (fun _ => True) (Known (records ++ said h.wire.log)) h :=
    Strokes.rule fun _ _ hw hstroke hc => known_stroke hw hstroke hc
  refine ⟨hk.ready.step op, ?_, fun r hr => ?_⟩
  · exact hrule.step hk.ready.wf hk.known (allowed_any h op) (fun _ => hk.known.pruneDead)
      fun _ _ _ => ⟨hk.known.names, hk.known.mail, hk.known.recent, hk.known.frames⟩
  · rw [said_step hk.ready.wf, ← List.append_assoc] at hr
    rcases List.mem_append.mp hr with hr | hr
    · exact (hk.old r hr).trans hrem.counter
    · exact (hrem.fresh r hr).2

theorem kept_init (records : List MsgRec) (now wall : Rat) : Kept records (init env records now wall) where
  ready := ready_init records now wall
  known := carries_init (fun r hr => Or.inr (List.mem_append_left _ hr)) now wall
  old r hr := by
    rw [show said (init env records now wall).wire.log = [] from rfl, List.append_nil] at hr
    exact le_foldr_max (List.mem_map_of_mem hr)

theorem Kept.placed (hk : Kept records h) {op : Op F} {r : MsgRec} {rs : List MsgRec}
    (hr : acceptedSays env h op = r :: rs) (hone : rs = []) :
    Placed (records ++ said h.wire.log) r h (h.step env op) := by
  subst hone
  have hsaid : said (h.step env op).wire.log = _ := said_step hk.ready.wf op
  rw [hr] at hsaid
  refine ⟨hsaid, ?_, fun s hs => ?_⟩
  · have hknown : Carries _ _ (h.step env op) := (hk.step op).known
    rwa [hsaid, ← List.append_assoc] at hknown
  · have hnew := ((remembers_step env hk.ready.wf op).fresh r (by rw [hr]; exact List.mem_cons_self ..)).1
    exact (hk.old s hs).trans_lt hnew

/-- A say of a participant. -/
theorem fits_say (hk : Kept records h) {c : ClientId} {frame : Obj F} {f : Say} {p : Participant}
    (hv : validate env.isPrintable frame = .ok (.say f))
    (hp : h.get? (h.wire.clients c).name = some p) (hown : p.client = c) :
    ∃ r, Replied [(c, r)] h (h.step env (.handle c frame)) ∧
      Fits env (records ++ said h.wire.log) h c frame (h.step env (.handle c frame)) r := by
  have hlife : Keeps ∅ ∅ True h (h.lifeSign (h.wire.clients c).name) := keeps_lifeSign h _
  have hp₁ := get?_lifeSign hp
  have hfresh : (h.lifeSign (h.wire.clients c).name).Untaken := by
    intro m q₁ hq₁
    obtain ⟨q, hq, -⟩ := hlife.toRoster.back hq₁
    rw [(hlife.calm m (Set.notMem_empty m) q q₁ hq hq₁).mail]
    exact hk.ready.kept m q (box?_of_get? hq)
  have hstep : h.step env (.handle c frame) =
      (h.lifeSign (h.wire.clients c).name).handleSay env (h.wire.clients c).name f := by
    show h.handle env c frame = _
    rw [handle, hv]
    show h.dispatch env c (.say f) = _
    rw [dispatch, hp]
  have hheld : h.participants.contains (h.wire.clients c).name = true := contains_of_get? hp
  obtain ⟨hyes, hno⟩ := replied_handleSay env (hlife.named hk.ready.wf.named) hfresh hp₁ f
  have hsays : acceptedSays env h (.handle c frame) = if ((h.lifeSign
      (h.wire.clients c).name).routeSay env (h.wire.clients c).name f).1 then
        [recordOf ((h.lifeSign (h.wire.clients c).name).sayMsg
          { p with lastRx := h.now, awaitingPong := false } f)] else [] := by
    simp only [acceptedSays, hv]
    rw [acceptedOf, hp₁]
  have hquiet : Hushed h (h.lifeSign (h.wire.clients c).name) := wrote_nothing rfl
  rw [hown] at hyes hno
  rw [hstep]
  cases hok : ((h.lifeSign (h.wire.clients c).name).routeSay env (h.wire.clients c).name f).1 with
  | true =>
    rw [hok, if_pos rfl] at hsays
    refine ⟨_, hquiet.then (hyes hok), ?_⟩
    have hplaced := hk.placed hsays rfl
    rw [hstep] at hplaced
    simp only [Fits, hv, hheld, if_true, hsays]
    exact ⟨(validateSay_fields (validate_of_say hv)).2.2, rfl, hplaced⟩
  | false =>
    rw [hok, if_neg Bool.false_ne_true] at hsays
    obtain ⟨code, detail, retry, hreply⟩ := hno hok
    refine ⟨_, hquiet.then hreply, ?_⟩
    simp only [Fits, hv, hheld, if_true, hsays]
    exact ⟨(validateSay_fields (validate_of_say hv)).2.2, code, detail, retry, rfl⟩

variable (env) in
/-- **A frame in a state that is kept.** -/
theorem answered (hk : Kept records h) {c : ClientId}
    (hown : ∀ p, h.get? (h.wire.clients c).name = some p → p.client = c) (frame : Obj F) :
    if taken env h c frame = true then Hushed h (h.step env (.handle c frame))
    else ∃ r, Replied [(c, r)] h (h.step env (.handle c frame)) ∧
      Fits env (records ++ said h.wire.log) h c frame (h.step env (.handle c frame)) r := by
  cases hv : validate env.isPrintable frame with
  | error e =>
    have hstep : h.step env (.handle c frame) = h.errRaw env c e.code e.detail e.seq := by
      show h.handle env c frame = _
      rw [handle, hv]
    rw [if_neg (by simp [taken, hv]), hstep]
    refine ⟨_, replied_errRaw env h c e.code e.detail e.seq, ?_⟩
    simp only [Fits, hv]
    exact ⟨e.code, e.detail, by rw [validate_error_seq hv]⟩
  | ok f =>
    rcases handleInbound_cases env h c f with ⟨g, rfl, hg⟩ | ⟨hnot, hg⟩
    · have hstep : h.step env (.handle c frame) = h.handleHello env c g := by
        rw [← hg]
        show h.handle env c frame = _
        rw [handle, hv]
      rw [if_neg (by simp [taken, hv]), hstep]
      obtain ⟨r, hr, hfits⟩ := replied_handleHello env h c g
      refine ⟨r, hr, ?_⟩
      simp only [Fits, hv]
      exact hfits
    · have hstep : h.step env (.handle c frame) = h.dispatch env c f := by
        rw [← hg]
        show h.handle env c frame = _
        rw [handle, hv]
      cases hp : h.get? (h.wire.clients c).name with
      | none =>
        have hout : h.participants.contains (h.wire.clients c).name = false :=
          not_contains_of_get? hp
        rw [if_neg (by simp [taken, hout]), hstep, dispatch, hp]
        refine ⟨_, replied_errRaw env h c _ _ none, ?_⟩
        cases f with
        | hello g => exact absurd rfl (hnot g)
        | _ =>
          simp only [Fits, hv, hout, Bool.false_eq_true, if_false]
          exact ⟨_, _, rfl⟩
      | some p =>
        have hin : h.participants.contains (h.wire.clients c).name = true := contains_of_get? hp
        have hlife : Hushed h (h.lifeSign (h.wire.clients c).name) := wrote_nothing rfl
        have hp₁ := get?_lifeSign hp
        cases f with
        | hello g => exact absurd rfl (hnot g)
        | say f =>
          rw [if_neg (by simp [taken, hv])]
          exact fits_say hk hv hp (hown p hp)
        | state f =>
          rw [if_pos (by simp [taken, hin, hv]), hstep, dispatch, hp]
          exact hlife.trans (hushed_handleState env _ _ f)
        | cmd cmd seq =>
          rw [if_neg (by simp [taken, hv]), hstep, dispatch, hp]
          obtain ⟨r, hr, hfits⟩ := replied_handleCmd env hp₁ cmd seq
          rw [hown p hp] at hr
          refine ⟨r, hlife.then hr, ?_⟩
          rw [validate_of_cmd hv] at hfits
          simp only [Fits, hv, hin, if_true]
          exact hfits
        | roster seq =>
          rw [if_neg (by simp [taken, hv]), hstep, dispatch, hp]
          obtain ⟨round, most, frozen, muted, goal, peers, hr⟩ := replied_handleRoster env hp₁ seq
          rw [hown p hp] at hr
          refine ⟨_, hlife.then hr, ?_⟩
          rw [validate_of_roster hv]
          simp only [Fits, hv, hin, if_true]
          exact ⟨round, most, frozen, muted, goal, peers, rfl⟩
        | bye =>
          rw [if_pos (by simp [taken, hin, hv]), hstep, dispatch, hp]
          exact hlife.trans (hushed_disconnect env _ c)
        | pong =>
          rw [if_pos (by simp [taken, hin, hv]), hstep, dispatch, hp]
          exact hlife

/-! ## Runs -/

end

end Hub

end Moot
