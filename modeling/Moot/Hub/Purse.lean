import Moot.Hub.Handled
import Moot.Hub.Passage

/-!
# What the checks of a say charge

The token bucket and the dedup window of a registration (its purse), and when it
was last heard.  `Hub.Funded`: the step leaves every purse as it is.

Proved here: one lemma for each handler that charges nobody, and `saved_step`,
what an operation does to the purse of a registration that says nothing in it.
-/

namespace Moot
open Py Proto

/-- The bucket, the dedup window, and the last sign of life. -/
structure Purse where
  bucket : TokenBucket
  dedup : DedupWindow
  lastRx : Rat

def Participant.purse (p : Participant) : Purse := ⟨p.bucket, p.dedup, p.lastRx⟩

namespace Hub

/-- Nobody is charged or heard. -/
structure Funded (h h' : Hub) : Prop where
  dead : h'.dead = h.dead
  now : h'.now = h.now
  purse : ∀ n, (h'.get? n).map Participant.purse = (h.get? n).map Participant.purse

section
variable {h h' h'' : Hub}

theorem Funded.refl (h : Hub) : h.Funded h := ⟨rfl, rfl, fun _ => rfl⟩

theorem Funded.trans (hab : h.Funded h') (hbc : h'.Funded h'') : h.Funded h'' :=
  ⟨hbc.dead.trans hab.dead, hbc.now.trans hab.now, fun n => (hbc.purse n).trans (hab.purse n)⟩

theorem funded_floor (hp : h'.participants = h.participants) (hd : h'.dead = h.dead)
    (hnow : h'.now = h.now) : h.Funded h' :=
  ⟨hd, hnow, fun n => by rw [get?, hp]; rfl⟩

theorem Quiet.funded (hq : h.Quiet h') : h.Funded h' :=
  funded_floor hq.participants hq.dead (hq.same Hub.now fun _ _ => rfl)

theorem funded_modify (h : Hub) (n : Str) {f : Participant → Participant}
    (hf : ∀ p, (f p).purse = p.purse) : h.Funded (h.modify n f) := by
  refine ⟨rfl, rfl, fun m => ?_⟩
  by_cases hm : m = n
  · subst hm
    rw [get?_modify_self, Option.map_map]
    exact congrArg (Option.map · (h.get? m)) (funext hf)
  · rw [get?_modify_of_ne h hm]

theorem funded_mapParticipants (h : Hub) {f : Participant → Participant}
    (hf : ∀ p, (f p).purse = p.purse) : h.Funded (h.mapParticipants f) := by
  refine ⟨rfl, rfl, fun m => ?_⟩
  rw [get?_mapParticipants, Option.map_map]
  exact congrArg (Option.map · (h.get? m)) (funext hf)

variable (env : Env)

theorem funded_emitEvent (h : Hub) (e : HubEvent) (skip : Option Str) :
    h.Funded (h.emitEvent env e skip) := funded_floor rfl rfl rfl

theorem funded_notify (h : Hub) (title message : Str) : h.Funded (h.notify env title message) :=
  (quiet_notify env h title message).funded

/-! ## Delivery -/

theorem funded_deliver (h : Hub) (n : Str) (msgs : List Msg) : h.Funded (h.deliver env n msgs) := by
  unfold deliver
  split
  · exact .refl h
  · next p _ =>
    have hout : h.Funded (h.handOut env p (sortById msgs)) := funded_floor rfl rfl rfl
    simp only
    split
    · exact hout
    · have hbusy := hout.trans (funded_modify (h.handOut env p (sortById msgs)) n
        (f := fun p => { p with state := .busy, busySince := h.now }) fun _ => rfl)
      exact hbusy.trans (funded_floor rfl rfl rfl)

theorem funded_deliverAll (h : Hub) (bs : List (Str × List Msg)) : h.Funded (h.deliverAll env bs) := by
  induction bs generalizing h with
  | nil => exact .refl h
  | cons b bs ih => exact (funded_deliver env h b.1 b.2).trans (ih _)

theorem funded_checkSessionDone (h : Hub) : h.Funded (h.checkSessionDone env) := by
  unfold checkSessionDone
  split
  · have hsay : h.Funded { h.announceDone env with round := 0 } := by
      unfold announceDone
      have hemit : h.Funded { h.emitEvent env (.sessionDone h.round) none with
          sessionDoneAt := some h.wall } := funded_floor rfl rfl rfl
      exact (hemit.trans (funded_notify env _ _ _)).trans (funded_floor rfl rfl rfl)
    refine hsay.trans (funded_mapParticipants _ fun p => ?_)
    split <;> rfl
  · exact .refl h

theorem funded_checkRoundLimit (h : Hub) : h.Funded (h.checkRoundLimit env) := by
  have hk : Keeps ∅ ∅ False h (h.checkRoundLimit env) := keeps_checkRoundLimit env h
  exact funded_floor (participants_checkRoundLimit env h) hk.dead hk.now

theorem funded_flushQueue (h : Hub) (n : Str) : h.Funded (h.flushQueue env n) := by
  cases hp : h.get? n with
  | none => rw [flushQueue, hp]; exact .refl h
  | some p =>
    by_cases hskip : p.queue = [] ∨ h.up p.client = false
    · rw [flushQueue_skip env hp hskip]
      exact .refl h
    · simp only [not_or, Bool.not_eq_false] at hskip
      obtain ⟨h₁, hh₁, h₂, hh₂, heq⟩ := flushQueue_eq env hp hskip.1 hskip.2
      have htake : h.Funded h₁ := by
        have hmod : h.Funded (h.modify n (·.flushed env.config)) := funded_modify h n fun _ => rfl
        rcases hh₁ with rfl | rfl
        · exact hmod
        · exact hmod.trans (funded_floor rfl rfl rfl)
      have hgive : h₁.Funded h₂ := by
        have hdel := funded_deliver env h₁ n (p.flushBatch env.config)
        rcases hh₂ with rfl | rfl
        · exact hdel
        · exact hdel.trans (funded_checkRoundLimit env _)
      rw [heq]
      exact (htake.trans hgive).trans (funded_checkSessionDone env _)

theorem purse_enqueue (cfg : Config) (p : Participant) (m : Msg) :
    (p.enqueue cfg m).purse = p.purse := by
  unfold Participant.enqueue
  split <;> rfl

theorem funded_systemNote (text : Str) (h : Hub) (n : Str) :
    h.Funded (h.systemNote env text n) := by
  unfold systemNote
  split
  · exact .refl h
  · next p _ =>
    split
    · exact .refl h
    · have hcount : h.Funded { h with msgCounter := h.msgCounter + 1 } := funded_floor rfl rfl rfl
      simp only
      split
      · have hdrain := hcount.trans (funded_modify { h with msgCounter := h.msgCounter + 1 } n
          (f := fun q => { q with context := (p.context.drain (some (h.msgCounter + 1))).2 })
          fun _ => rfl)
        exact hdrain.trans (funded_deliver env _ n _)
      · exact hcount.trans (funded_modify _ n (purse_enqueue _ · _))

theorem funded_systemMessage (h : Hub) (text : Str) : h.Funded (h.systemMessage env text) := by
  unfold systemMessage
  generalize h.participants.keys = ns
  induction ns generalizing h with
  | nil => exact .refl h
  | cons n ns ih => exact (funded_systemNote env text h n).trans (ih _)

/-! ## Say -/

theorem purse_routeOne (up : ClientId → Bool) (msg : Msg) (q : Participant) :
    (routeOne env up msg q).participant.purse = q.purse := by
  unfold routeOne
  simp only
  split
  · rfl
  split
  · rfl
  split
  · dsimp only
    split <;> rfl
  split
  · rfl
  · exact purse_enqueue _ _ _

theorem funded_route (h : Hub) (msg : Msg) : h.Funded (h.route env msg).1 := by
  have hmap : h.Funded (h.mapParticipants fun q => (routeOne env h.up msg q).participant) :=
    funded_mapParticipants h (purse_routeOne env h.up msg)
  unfold route
  simp only
  generalize batches (fun q => (routeOne env h.up msg q).observed) h = bo
  generalize batches (fun q => (routeOne env h.up msg q).woken) h = bw
  by_cases hbw : bw.isEmpty = true
  · simp only [hbw, if_true]
    exact (hmap.trans (funded_deliverAll env _ bo)).trans (funded_deliverAll env _ bw)
  · simp only [hbw]
    have hround : h.Funded { h.mapParticipants fun q => (routeOne env h.up msg q).participant with
        round := h.round + 1 } := hmap.trans (funded_floor rfl rfl rfl)
    exact ((hround.trans (funded_deliverAll env _ bo)).trans
      (funded_deliverAll env _ bw)).trans (funded_checkRoundLimit env _)

theorem funded_noteSay (h : Hub) (p : Participant) (addressee : Str) :
    h.Funded (h.noteSay p addressee) := by
  have hsay : h.Funded (h.modify p.name fun p => { p with lastSay := h.now }) :=
    funded_modify h p.name fun _ => rfl
  unfold noteSay
  simp only
  split_ifs
  · exact hsay
  · exact hsay.trans (funded_floor rfl rfl rfl)
  · exact hsay.trans (funded_floor rfl rfl rfl)

theorem funded_remember (h : Hub) (p : Participant) (f : Say) :
    h.Funded (h.remember env p f) := by
  have hcount : h.Funded { h with msgCounter := h.msgCounter + 1 } := funded_floor rfl rfl rfl
  exact (hcount.trans (funded_noteSay _ p f.addressee)).trans (funded_floor rfl rfl rfl)

theorem funded_answer (h : Hub) (p : Participant) (f : Say) (id queuedFor : Nat) :
    h.Funded (h.answer env p f id queuedFor) := by
  have hsaid : h.Funded (h.send env p (.said id queuedFor f.seq)) := funded_floor rfl rfl rfl
  unfold answer
  simp only
  split
  · exact (hsaid.trans (funded_notify env _ _ _)).trans (funded_floor rfl rfl rfl)
  · exact hsaid.trans (funded_floor rfl rfl rfl)

theorem funded_accept (h : Hub) (p : Participant) (f : Say) : h.Funded (h.accept env p f) :=
  ((funded_remember env h p f).trans (funded_route env _ _)).trans (funded_answer env _ p f _ _)

theorem funded_inferIdle (h : Hub) (n : Str) : h.Funded (h.inferIdle env n) := by
  unfold inferIdle
  split
  · exact .refl h
  · split
    · have hidle : h.Funded (h.modify n (·.setIdle)) := funded_modify h n fun _ => rfl
      exact hidle.trans (funded_flushQueue env _ n)
    · exact .refl h

theorem funded_setFinished (h : Hub) (n : Str) (b : Bool) :
    h.Funded (h.modify n fun p => { p with finished := b }) := funded_modify h n fun _ => rfl

theorem funded_markDone (h : Hub) (n : Str) : h.Funded (h.markDone env n) :=
  (funded_setFinished h n true).trans (funded_checkSessionDone env _)

/-! ## State, commands -/

theorem funded_handleState (h : Hub) (n : Str) (f : Report) :
    h.Funded (h.handleState env n f) := by
  unfold handleState
  split
  · exact .refl h
  · have hset : h.Funded (h.modify n (·.setState h.now f.state)) := funded_modify h n fun _ => rfl
    simp only
    split
    · split
      · exact (hset.trans (funded_modify _ n
          (f := fun p => { p with blockedSince := some h.now, blockedDetail := f.detail })
          fun _ => rfl)).trans (funded_floor rfl rfl rfl)
      · exact hset
    · have hclear := hset.trans (funded_modify (h.modify n (·.setState h.now f.state)) n
        (f := fun p => { p with blockedSince := none, blockedDetail := none }) fun _ => rfl)
      split
      · exact hclear.trans (funded_flushQueue env _ n)
      · exact hclear

theorem funded_runCommand (h : Hub) (c : Command) : h.Funded (h.runCommand env c) := by
  cases c with
  | freeze => exact funded_floor rfl rfl rfl
  | resume n pos => exact funded_floor rfl rfl rfl
  | reset => exact funded_floor rfl rfl rfl
  | mute =>
    have hflag : h.Funded ({ h with muted := true }.emitEvent env .muted none) :=
      funded_floor rfl rfl rfl
    exact hflag.trans (funded_systemMessage env _ _)
  | unmute =>
    have hflag : h.Funded ({ h with muted := false }.emitEvent env .unmuted none) :=
      funded_floor rfl rfl rfl
    exact hflag.trans (funded_systemMessage env _ _)
  | goal text ok =>
    have hflag : h.Funded ({ h with goal := text }.emitEvent env (.goalSet text) none) :=
      funded_floor rfl rfl rfl
    have hgoal : h.Funded (({ h with goal := text }.emitEvent env (.goalSet text)
        none).bufferGoal text) := by
      refine hflag.trans (funded_mapParticipants _ fun p => ?_)
      split <;> rfl
    exact hgoal.trans (funded_floor rfl rfl rfl)

theorem funded_handleCmd (h : Hub) (n : Str) (c : Command) (seq : Option Int) :
    h.Funded (h.handleCmd env n c seq) := by
  unfold handleCmd
  split
  · exact .refl h
  · split
    · exact funded_floor rfl rfl rfl
    · exact (funded_runCommand env h c).trans (funded_floor rfl rfl rfl)

/-! ## Watchdog -/

theorem funded_pingSilent (h : Hub) (n : Str) (p : Participant) :
    h.Funded (h.pingSilent env n p) := by
  unfold pingSilent
  split
  · have hping : h.Funded (h.modify n fun p =>
        { p with awaitingPong := true, pongDeadline := h.now + env.config.pongTimeout }) :=
      funded_modify h n fun _ => rfl
    exact hping.trans (funded_floor rfl rfl rfl)
  · exact .refl h

theorem funded_assumeIdle (h : Hub) (n : Str) (p : Participant) :
    h.Funded (h.assumeIdle env n p) := by
  unfold assumeIdle
  split
  · have hidle : h.Funded (h.modify n (·.setIdle)) := funded_modify h n fun _ => rfl
    exact (hidle.trans (funded_emitEvent env _ _ _)).trans (funded_flushQueue env _ n)
  · exact .refl h

theorem Keeps.funded {S T : Set Str} {E : Prop} (hk : Keeps S T E h h')
    (hp : h'.participants = h.participants) : h.Funded h' := funded_floor hp hk.dead hk.now

theorem participants_notify (h : Hub) (title message : Str) :
    (h.notify env title message).participants = h.participants :=
  (quiet_notify env h title message).participants

theorem participants_notifyBlocked (h : Hub) (n : Str) :
    (h.notifyBlocked env n).participants = h.participants := by
  unfold notifyBlocked
  split
  · rfl
  · split
    · exact participants_notify env _ _ _
    · rfl

theorem participants_checkQuorum (h : Hub) :
    (h.checkQuorum env).participants = h.participants := by
  unfold checkQuorum
  split
  · rfl
  · split
    · simp only
      split
      · rfl
      · exact participants_notify env _ _ _
    · rfl

theorem participants_checkStall (h : Hub) :
    (h.checkStall env).participants = h.participants := by
  unfold checkStall
  split
  · exact participants_notify env _ _ _
  · rfl

/-! ## Joining -/

theorem funded_giveBacklog (h : Hub) (n : Str) : h.Funded (h.giveBacklog env n) := by
  unfold giveBacklog
  split
  · exact .refl h
  · simp only
    split
    · split
      · exact .refl h
      · exact funded_deliver env h n _
    · exact funded_modify h n fun _ => rfl

theorem funded_greet (h : Hub) (n : Str) (p : Participant) (rejoined : Bool) :
    h.Funded (h.greet env n p rejoined) := by
  have hwelcome : h.Funded (h.send env p (welcome env h p)) := funded_floor rfl rfl rfl
  unfold greet
  simp only
  split
  · exact (hwelcome.trans (funded_giveBacklog env _ n)).trans (funded_floor rfl rfl rfl)
  · exact hwelcome.trans (funded_floor rfl rfl rfl)

/-! ## Operations -/

/-- The registrations `q` and `q'` have the same bucket and dedup window. -/
structure Unspent (h : Hub) (q q' : Participant) : Prop where
  bucket : q'.bucket = q.bucket
  dedup : q'.dedup = q.dedup
  lastRx : q'.lastRx = q.lastRx ∨ q'.lastRx = h.now

/-- The registration is a new one. -/
structure Fresh (h : Hub) (q : Participant) : Prop where
  bucket : q.bucket = TokenBucket.new env.config.rateBurst
    (env.config.rateMessages / env.config.rateWindow) h.now
  dedup : q.dedup = DedupWindow.new env.config.dedupWindow
  lastRx : q.lastRx = h.now

/-- What becomes of the purse of `n` while `n` says nothing. -/
inductive Saved (n : Str) (h h' : Hub) : Prop
  | kept (q q' : Participant) (found : h.box? n = some q) (found' : h'.box? n = some q')
      (unspent : Unspent h q q')
  | absent (away : h.box? n = none) (away' : h'.box? n = none)
  | fresh (q' : Participant) (away : h.box? n = none) (found : h'.box? n = some q')
      (fresh : Fresh env h q')

theorem Saved.refl (n : Str) (h : Hub) : Saved env n h h := by
  cases hq : h.box? n with
  | none => exact .absent hq hq
  | some q => exact .kept q q hq hq ⟨rfl, rfl, Or.inl rfl⟩

variable {env} {n : Str}

theorem Saved.congr (hs : Saved env n h h')
    (hbox : (h''.box? n).map Participant.purse = (h'.box? n).map Participant.purse) :
    Saved env n h h'' := by
  have hsome : ∀ q', h'.box? n = some q' → ∃ q'', h''.box? n = some q'' ∧ q''.purse = q'.purse := by
    intro q' hq'
    rw [hq', Option.map_some, Option.map_eq_some_iff] at hbox
    exact hbox
  cases hs with
  | kept q q' found found' unspent =>
    obtain ⟨q'', hq'', hpurse⟩ := hsome q' found'
    refine .kept q q'' found hq'' ⟨?_, ?_, ?_⟩
    · exact (congrArg Purse.bucket hpurse).trans unspent.bucket
    · exact (congrArg Purse.dedup hpurse).trans unspent.dedup
    · rw [show q''.lastRx = q'.lastRx from congrArg Purse.lastRx hpurse]
      exact unspent.lastRx
  | absent away away' =>
    rw [away', Option.map_none, Option.map_eq_none_iff] at hbox
    exact .absent away hbox
  | fresh q' away found fresh =>
    obtain ⟨q'', hq'', hpurse⟩ := hsome q' found
    exact .fresh q'' away hq'' ⟨(congrArg Purse.bucket hpurse).trans fresh.bucket,
      (congrArg Purse.dedup hpurse).trans fresh.dedup,
      (congrArg Purse.lastRx hpurse).trans fresh.lastRx⟩

theorem Funded.box (hf : h.Funded h') (n : Str) :
    (h'.box? n).map Participant.purse = (h.box? n).map Participant.purse := by
  have hget := hf.purse n
  unfold box?
  rw [hf.dead]
  cases hp : h.get? n with
  | none =>
    rw [hp, Option.map_none, Option.map_eq_none_iff] at hget
    rw [hget]
  | some p =>
    rw [hp, Option.map_some, Option.map_eq_some_iff] at hget
    obtain ⟨p', hp', hpurse⟩ := hget
    rw [hp', Option.some_or, Option.some_or, Option.map_some, Option.map_some, hpurse]

theorem Saved.lifeSign (hs : Saved env n h h') (hnow : h'.now = h.now) (m : Str) :
    Saved env n h (h'.lifeSign m) := by
  by_cases hm : n = m
  · subst hm
    cases hp : h'.get? n with
    | none =>
      refine hs.congr ?_
      have hp' : (h'.lifeSign n).get? n = none := by
        rw [Hub.lifeSign, get?_modify_self, hp]
        rfl
      rw [box?_of_none hp, box?_of_none hp']
      rfl
    | some p =>
      have hp' : (h'.lifeSign n).get? n = some { p with lastRx := h'.now, awaitingPong := false } := by
        rw [Hub.lifeSign, get?_modify_self, hp]
        rfl
      have hbox := box?_of_get? hp
      cases hs with
      | kept q q' found found' unspent =>
        rw [hbox, Option.some.injEq] at found'
        subst found'
        exact .kept q _ found (box?_of_get? hp') ⟨unspent.bucket, unspent.dedup, Or.inr hnow⟩
      | absent away away' =>
        rw [hbox] at away'
        cases away'
      | fresh q' away found fresh =>
        rw [hbox, Option.some.injEq] at found
        subst found
        exact .fresh _ away (box?_of_get? hp') ⟨fresh.bucket, fresh.dedup, hnow⟩
  · refine hs.congr ?_
    have hget : (h'.lifeSign m).get? n = h'.get? n := get?_modify_of_ne h' hm _
    rw [box?, box?, hget]
    rfl

theorem box?_leave {m : Str} {p : Participant} (hp : h.get? m = some p) (n : Str) :
    (h.leave env m p).box? n = h.box? n := by
  by_cases hn : n = m
  · subst hn
    rw [box?_of_none (get?_leave_self env h n p), leave_dead, Dict.get?_insert_self,
      box?_of_get? hp]
  · rw [box?, box?, get?_leave_of_ne env h hn, leave_dead, Dict.get?_insert_of_ne _ hn]

theorem Saved.disconnect (hs : Saved env n h h') (c : ClientId) :
    Saved env n h (h'.disconnect env c) := by
  have hclose : ∀ k : Hub, k.Funded (k.close c) := fun k => funded_floor rfl rfl rfl
  rcases disconnect_cases env h' c with ⟨p, hp, -, heq⟩ | ⟨-, heq⟩
  · rw [heq]
    refine hs.congr ((((funded_checkSessionDone env _).trans (hclose _)).box n).trans ?_)
    rw [box?_leave hp]
  · rw [heq]
    exact hs.congr ((hclose h').box n)

theorem Saved.register (hs : Saved env n h h') (hnow : h'.now = h.now) {c : ClientId}
    {f : Hello} (hfree : h'.get? f.name = none) : Saved env n h (h'.register env c f) := by
  have hgreet : (h'.enroll c f.name (admitted env h' c f)).Funded (h'.register env c f) := by
    rw [register_eq]
    split
    · exact (funded_greet env _ _ _ _).trans (funded_flushQueue env _ _)
    · exact funded_greet env _ _ _ _
  suffices henroll : Saved env n h (h'.enroll c f.name (admitted env h' c f)) from
    henroll.congr (hgreet.box n)
  by_cases hn : n = f.name
  · subst hn
    have hself := box?_of_get? (get?_enroll_self h' c f.name (admitted env h' c f))
    have hbox := box?_of_none hfree
    cases hd : h'.dead.get? f.name with
    | none =>
      have hadm : admitted env h' c f = Hub.fresh env h' f c := by rw [admitted, hd]
      rw [hd] at hbox
      cases hs with
      | kept q q' found found' unspent =>
        rw [hbox] at found'
        cases found'
      | absent away away' =>
        refine .fresh _ away hself ?_
        rw [hadm]
        exact ⟨by rw [← hnow]; rfl, rfl, hnow⟩
      | fresh q' away found fresh =>
        rw [hbox] at found
        cases found
    | some d =>
      have hadm : admitted env h' c f = reclaimed h' f c d := by rw [admitted, hd]
      rw [hd] at hbox
      cases hs with
      | kept q q' found found' unspent =>
        rw [hbox, Option.some.injEq] at found'
        subst found'
        refine .kept q _ found hself ?_
        rw [hadm]
        exact ⟨unspent.bucket, unspent.dedup, Or.inr hnow⟩
      | absent away away' =>
        rw [hbox] at away'
        cases away'
      | fresh q' away found fresh =>
        rw [hbox, Option.some.injEq] at found
        subst found
        refine .fresh _ away hself ?_
        rw [hadm]
        exact ⟨fresh.bucket, fresh.dedup, hnow⟩
  · refine hs.congr ?_
    rw [box?, box?, get?_enroll_of_ne h' c hn, enroll_dead, Dict.get?_erase_of_ne _ hn]

/-- No frame is a say of `n`. -/
def notSayOf (n : Str) : Filter := fun m _ f => ∀ s, f = .say s → m ≠ n

/-- What becomes of the purse of `n`, at one reading of the clock. -/
def SavedAt (env : Env) (n : Str) (h h' : Hub) : Prop := h'.now = h.now ∧ Saved env n h h'

theorem SavedAt.funded (hs : SavedAt env n h h') (hf : h'.Funded h'') : SavedAt env n h h'' :=
  ⟨hf.now.trans hs.1, hs.2.congr (hf.box n)⟩

theorem funded_charged {m : Str} {f : Say} {h₀ : Hub} (hc : Charged h m f h₀) (hn : n ≠ m) :
    h₀.now = h.now ∧ h₀.box? n = h.box? n := by
  cases hc with
  | free => exact ⟨rfl, rfl⟩
  | rated b =>
    refine ⟨rfl, ?_⟩
    rw [box?, box?, get?_modify_of_ne h hn]
    rfl
  | seen b d =>
    refine ⟨rfl, ?_⟩
    rw [box?, box?, get?_modify_of_ne (h.encodeText _) hn]
    rfl

theorem handled_saved (h : Hub) : Handled env (notSayOf n) (SavedAt env n h) where
  errRaw k c code detail seq _ hs := hs.funded (quiet_errRaw env k c code detail seq).funded
  lifeSign k m _ hs := ⟨hs.1, hs.2.lifeSign hs.1 m⟩
  routeSay k m p f hw hp hA hs := by
    have hne : n ≠ m := Ne.symm (hA f rfl)
    obtain ⟨k₀, hc, hroute⟩ := routeSay_cases env hp f
    obtain ⟨hnow, hbox⟩ := funded_charged hc hne
    have hcharged : SavedAt env n h k₀ := ⟨hnow.trans hs.1, hs.2.congr (by rw [hbox])⟩
    rcases hroute with heq | ⟨code, detail, retry, heq⟩
    · rw [heq]
      exact hcharged.funded (funded_accept env k₀ p f)
    · rw [heq]
      exact hcharged.funded (quiet_refuse env k₀ p f code detail retry).funded
  inferIdle k m _ _ _ _ _ hs := hs.funded (funded_inferIdle env k m)
  markDone k m _ _ _ _ hs := hs.funded (funded_markDone env k m)
  goOn k m _ _ _ _ hs := hs.funded (funded_setFinished k m false)
  handleState k m _ f _ _ _ hs := hs.funded (funded_handleState env k m f)
  handleCmd k m _ c seq _ _ _ hs := hs.funded (funded_handleCmd env k m c seq)
  handleRoster k m seq _ hs := hs.funded (quiet_handleRoster env k m seq).funded
  disconnect k c _ hs := by
    refine ⟨?_, hs.2.disconnect c⟩
    rcases disconnect_cases env k c with ⟨p, -, -, heq⟩ | ⟨-, heq⟩
    · rw [heq]
      exact (funded_checkSessionDone env _).now.trans hs.1
    · rw [heq]
      exact hs.1
  declareRoom k f _ _ hs := by
    refine hs.funded ?_
    unfold declareRoom
    split
    · exact funded_floor rfl rfl rfl
    · exact .refl k
  turnAway k c m _ hs := hs.funded (funded_floor rfl rfl rfl)
  register k c f hw hname hfree _ hs :=
    ⟨(keeps_register env hw hname f).now.trans hs.1, hs.2.register hs.1 hfree⟩
  pingSilent k m p _ _ hs := hs.funded (funded_pingSilent env k m p)
  assumeIdle k m p _ _ _ hs := hs.funded (funded_assumeIdle env k m p)
  notifyBlocked k m _ hs := hs.funded
    ((keeps_notifyBlocked (S := ∅) (T := ∅) (E := False) env k m).funded
      (participants_notifyBlocked env k m))
  checkQuorum k _ hs := hs.funded
    ((keeps_checkQuorum (S := ∅) (T := ∅) (E := False) env k).funded
      (participants_checkQuorum env k))
  checkStall k _ hs := hs.funded
    ((keeps_checkStall (S := ∅) (T := ∅) (E := False) env k).funded
      (participants_checkStall env k))
  fail k c _ hs := hs.funded (funded_floor rfl rfl rfl)

variable {F : Type} [PyJson.PyFloat F]

variable (env) in
theorem box?_pruneDead (h : Hub) (n : Str) :
    (h.pruneDead env).box? n = h.box? n ∨
      (h.pruneDead env).box? n = none ∧
        ∃ d, h.box? n = some d ∧ env.config.deadTtl < h.now - d.lastRx := by
  cases hp : h.get? n with
  | some p =>
    have hp' : (h.pruneDead env).get? n = some p := hp
    exact Or.inl (by rw [box?_of_get? hp, box?_of_get? hp'])
  | none =>
    have hp' : (h.pruneDead env).get? n = none := hp
    rw [box?_of_none hp, box?_of_none hp']
    cases hq : (h.pruneDead env).dead.get? n with
    | some q => exact Or.inl (Dict.get?_filter_eq_some_iff.mp hq).1.symm
    | none =>
      cases hd : h.dead.get? n with
      | none => exact Or.inl rfl
      | some d =>
        refine Or.inr ⟨rfl, d, rfl, ?_⟩
        by_contra hlive
        have hkept : (h.pruneDead env).dead.get? n = some d :=
          Dict.get?_filter_eq_some_iff.mpr ⟨hd, decide_eq_true (not_lt.mp hlive)⟩
        rw [hq] at hkept
        cases hkept

/-- **Nothing but its own says touches the purse of a registration**, until it expires. -/
theorem saved_step (hw : h.Wf) {op : Op F} (hop : Allowed env (notSayOf n) h op) :
    Saved env n h (h.step env op) ∨
      op = .watchdogTick ∧ (h.step env op).box? n = none ∧
        ∃ d, h.box? n = some d ∧ env.config.deadTtl < h.now - d.lastRx := by
  by_cases hclock : ∃ now wall, op = .clock now wall
  · obtain ⟨now, wall, rfl⟩ := hclock
    exact Or.inl ((Saved.refl env n h).congr rfl)
  by_cases hgone : op = .watchdogTick ∧ (h.pruneDead env).box? n ≠ h.box? n
  · obtain ⟨rfl, hgone⟩ := hgone
    obtain ⟨hnone, hold⟩ := (box?_pruneDead env h n).resolve_left hgone
    refine Or.inr ⟨rfl, ?_, hold⟩
    have hticks := (passage_ticks env (hw.pruneDead env) (h.pruneDead env).participants.keys n).andThen
      (keeps_checks (S := ∅) (T := ∅) (E := True) env _).quietStill.passage
    exact (hticks.absent hnone).1
  · have hclosed := (handled_saved h).step hw ⟨rfl, .refl env n h⟩ hop
      (fun hop => ⟨rfl, (Saved.refl env n h).congr (by
        rw [not_not.mp (not_and.mp hgone hop)])⟩)
      fun now wall heq => absurd ⟨now, wall, heq⟩ hclock
    exact Or.inl hclosed.2

end

end Hub

end Moot
