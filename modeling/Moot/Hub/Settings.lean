import Moot.Hub.Handled

/-!
# What only says and commands set

The mute flag, the goal and the quorum timer (`Hub.settings`).  Routing, flushes,
joins and leaves, and the checks of the floor leave them alone.

Proved here: one lemma for each handler, and `settings_step`, an operation that is
no say, command or tick changes no setting.
-/

namespace Moot
open Py Proto

/-- The flags and the quorum timer of a hub. -/
structure Settings where
  muted : Bool
  goal : Str
  lastObserverSay : Option Rat
  quorumExpected : List Str
  quorumLatched : Bool
  deriving DecidableEq

namespace Hub

def settings (h : Hub) : Settings where
  muted := h.muted
  goal := h.goal
  lastObserverSay := h.lastObserverSay
  quorumExpected := h.quorumExpected
  quorumLatched := h.quorumLatched

section
variable (env : Env) {h h' : Hub}

theorem Quiet.settings (hq : h.Quiet h') : h'.settings = h.settings :=
  hq.same Hub.settings fun _ _ => rfl

/-! ## Delivery -/

theorem settings_notify (h : Hub) (title message : Str) :
    (h.notify env title message).settings = h.settings := (quiet_notify env h title message).settings

theorem settings_deliver (h : Hub) (n : Str) (msgs : List Msg) :
    (h.deliver env n msgs).settings = h.settings := by
  cases hp : h.get? n with
  | none => rw [deliver, hp]
  | some p =>
    rw [deliver_eq env hp]
    split <;> rfl

theorem settings_deliverAll (h : Hub) (bs : List (Str × List Msg)) :
    (h.deliverAll env bs).settings = h.settings := by
  unfold deliverAll
  induction bs generalizing h with
  | nil => rfl
  | cons b bs ih =>
    rw [List.foldl_cons, ih]
    exact settings_deliver env h _ _

theorem settings_checkSessionDone (h : Hub) : (h.checkSessionDone env).settings = h.settings := by
  unfold checkSessionDone
  split
  · exact settings_notify env { h.emitEvent env (.sessionDone h.round) none with
      sessionDoneAt := some h.wall } _ _
  · rfl

theorem settings_checkRoundLimit (h : Hub) : (h.checkRoundLimit env).settings = h.settings := by
  have hlimit : (h.announceLimit env).settings = h.settings := by
    unfold announceLimit
    exact settings_notify env _ _ _
  unfold checkRoundLimit
  split
  · split
    · exact hlimit
    · exact hlimit
  · rfl

theorem settings_flushQueue (h : Hub) (n : Str) : (h.flushQueue env n).settings = h.settings := by
  cases hp : h.get? n with
  | none => rw [flushQueue, hp]
  | some p =>
    by_cases hskip : p.queue = [] ∨ h.up p.client = false
    · rw [flushQueue_skip env hp hskip]
    · simp only [not_or, Bool.not_eq_false] at hskip
      obtain ⟨h₁, hh₁, h₂, hh₂, heq⟩ := flushQueue_eq env hp hskip.1 hskip.2
      have hfirst : h₁.settings = h.settings := by rcases hh₁ with rfl | rfl <;> rfl
      have hdel : (h₁.deliver env n (p.flushBatch env.config)).settings = h.settings :=
        (settings_deliver env h₁ n _).trans hfirst
      rw [heq, settings_checkSessionDone]
      rcases hh₂ with rfl | rfl
      · exact hdel
      · exact (settings_checkRoundLimit env _).trans hdel

theorem settings_systemNote (text : Str) (h : Hub) (n : Str) :
    (h.systemNote env text n).settings = h.settings := by
  unfold systemNote
  split
  · rfl
  · split
    · rfl
    · simp only
      split
      · exact settings_deliver env _ n _
      · rfl

theorem settings_systemMessage (h : Hub) (text : Str) :
    (h.systemMessage env text).settings = h.settings := by
  unfold systemMessage
  generalize h.participants.keys = ns
  induction ns generalizing h with
  | nil => rfl
  | cons n ns ih =>
    rw [List.foldl_cons, ih]
    exact settings_systemNote env text h n

/-! ## Says -/

theorem settings_route (h : Hub) (msg : Msg) : (h.route env msg).1.settings = h.settings := by
  unfold route
  simp only
  split
  · rw [settings_deliverAll, settings_deliverAll]
    rfl
  · rw [settings_checkRoundLimit, settings_deliverAll, settings_deliverAll]
    rfl

theorem settings_answer (h : Hub) (p : Participant) (f : Say) (id queuedFor : Nat) :
    (h.answer env p f id queuedFor).settings = h.settings := by
  unfold answer
  simp only
  split
  · exact settings_notify env (h.send env p (.said id queuedFor f.seq)) _ _
  · rfl

/-- The settings after a say of `p` to `addressee` that is accepted in `h`. -/
def armed (h : Hub) (p : Participant) (addressee : Str) : Settings :=
  if p.isObserver = true ∧ h.asked addressee ≠ [] then
    { h.settings with
      lastObserverSay := some h.now, quorumExpected := h.asked addressee, quorumLatched := false }
  else h.settings

theorem settings_noteSay (h : Hub) (p : Participant) (addressee : Str) :
    (h.noteSay p addressee).settings = h.armed p addressee := by
  unfold noteSay armed
  by_cases hobs : p.isObserver = true
  · by_cases hnone : h.asked addressee = []
    · simp only [hobs, hnone, if_true, List.isEmpty_nil, ne_eq, not_true_eq_false, and_false,
        if_false]
      rfl
    · have hsome : (h.asked addressee).isEmpty = false := by simpa using hnone
      simp only [hobs, hsome, hnone, if_true, Bool.false_eq_true, if_false, ne_eq,
        not_false_eq_true, and_self]
      rfl
  · simp only [hobs, Bool.false_eq_true, if_false, false_and]
    rfl

theorem settings_accept (h : Hub) (p : Participant) (f : Say) :
    (h.accept env p f).settings = h.armed p f.addressee := by
  unfold accept
  simp only
  rw [settings_answer, settings_route]
  exact settings_noteSay { h with msgCounter := h.msgCounter + 1 } p f.addressee

/-- What is read off the participants does not see a change of what it does not read. -/
theorem map_filter_modify {β : Type} (h : Hub) (n : Str) {g : Participant → Participant}
    {P : Participant → Bool} {φ : Participant → β} (hP : ∀ q, P (g q) = P q)
    (hφ : ∀ q, φ (g q) = φ q) : ((h.modify n g).participants.values.filter P).map φ =
      (h.participants.values.filter P).map φ := by
  simp only [modify, Dict.modify, Dict.values, List.map_map, List.filter_map]
  have hentry : ∀ e : Str × Participant,
      (P (if e.1 = n then (e.1, g e.2) else e).2 = P e.2) ∧
        φ (if e.1 = n then (e.1, g e.2) else e).2 = φ e.2 := by
    intro e
    split
    · exact ⟨hP e.2, hφ e.2⟩
    · exact ⟨rfl, rfl⟩
  have hfilter : (P ∘ Prod.snd ∘ fun e : Str × Participant => if e.1 = n then (e.1, g e.2) else e) =
      P ∘ Prod.snd := funext fun e => (hentry e).1
  have hmap : (φ ∘ Prod.snd ∘ fun e : Str × Participant => if e.1 = n then (e.1, g e.2) else e) =
      φ ∘ Prod.snd := funext fun e => (hentry e).2
  rw [hfilter, hmap]

theorem asked_modify (h : Hub) (n : Str) {g : Participant → Participant}
    (hg : ∀ q, (g q).isObserver = q.isObserver ∧ (g q).client = q.client ∧ (g q).name = q.name)
    (addressee : Str) : (h.modify n g).asked addressee = h.asked addressee := by
  have hagents : ((h.modify n g).agents.filter fun q => (h.modify n g).up q.client).map (·.name) =
      (h.agents.filter fun q => h.up q.client).map (·.name) := by
    simp only [agents, List.filter_filter]
    exact map_filter_modify h n (fun q => by rw [(hg q).1, (hg q).2.1])
      fun q => (hg q).2.2
  have htargets : (h.modify n g).targetsAgent addressee = h.targetsAgent addressee := by
    unfold targetsAgent
    by_cases hn : addressee = n
    · subst hn
      rw [get?_modify_self]
      cases h.get? addressee with
      | none => rfl
      | some q => simp [(hg q).1]
    · rw [get?_modify_of_ne h hn]
  rw [asked, asked, hagents, htargets]

theorem armed_agent {p : Participant} (hobs : p.isObserver = false) (addressee : Str) :
    h.armed p addressee = h.settings := by
  rw [armed, if_neg]
  rintro ⟨h, -⟩
  rw [hobs] at h
  cases h

theorem settings_routeSay {n : Str} {p : Participant} (hp : h.get? n = some p) (f : Say) :
    (h.routeSay env n f).2.settings =
      if (h.routeSay env n f).1 then h.armed p f.addressee else h.settings := by
  have hrefuse : ∀ (k : Hub) code detail r, (k.refuse env p f code detail r).settings = k.settings :=
    fun k code detail r => (quiet_refuse env k p f code detail r).settings
  obtain ⟨r, hr⟩ : ∃ r, r = h.routeSay env n f := ⟨_, rfl⟩
  rw [← hr]
  rw [routeSay, hp] at hr
  simp only at hr
  split_ifs at hr with hfrozen hmuted hunknown hobs hrate hdup
  · rw [hr]
    exact hrefuse h _ _ _
  · rw [hr]
    exact hrefuse h _ _ _
  · rw [hr]
    exact hrefuse h _ _ _
  · rw [hr]
    exact settings_accept env h p f
  · rw [hr]
    exact hrefuse _ _ _ _
  · rw [hr]
    exact hrefuse _ _ _ _
  · have hagent : p.isObserver = false := by simpa using hobs
    rw [hr, if_pos rfl, armed_agent hagent]
    exact (settings_accept env _ p f).trans (armed_agent hagent _)

theorem settings_inferIdle (h : Hub) (n : Str) : (h.inferIdle env n).settings = h.settings := by
  unfold inferIdle
  split
  · rfl
  · split
    · exact settings_flushQueue env _ n
    · rfl

theorem settings_settle (h : Hub) (n : Str) (f : Say) (accepted : Bool) :
    (h.settle env n f accepted).settings = h.settings := by
  have hinfer := settings_inferIdle env h n
  unfold settle
  simp only
  split
  · exact hinfer
  · split
    · split
      · exact (settings_checkSessionDone env _).trans hinfer
      · exact hinfer
    · exact hinfer

theorem settings_handleSay {n : Str} {p : Participant} (hp : h.get? n = some p) (f : Say) :
    (h.handleSay env n f).settings =
      if (h.routeSay env n f).1 then h.armed p f.addressee else h.settings :=
  (settings_settle env _ n f _).trans (settings_routeSay env hp f)

theorem settings_handleState (h : Hub) (n : Str) (f : Report) :
    (h.handleState env n f).settings = h.settings := by
  unfold handleState
  split
  · rfl
  · simp only
    split
    · split <;> rfl
    · split
      · exact settings_flushQueue env _ n
      · rfl

/-! ## Coming and going -/

theorem settings_disconnect (h : Hub) (c : ClientId) : (h.disconnect env c).settings = h.settings := by
  unfold disconnect
  simp only
  split
  · rfl
  · split
    · exact settings_checkSessionDone env _
    · rfl

theorem settings_reap (h : Hub) (n : Str) : (h.reap env n).settings = h.settings := by
  unfold reap
  split
  · split
    · rfl
    · exact settings_disconnect env h _
  · rfl

theorem settings_declareRoom (h : Hub) (f : Hello) : (h.declareRoom f).settings = h.settings := by
  unfold declareRoom
  split <;> rfl

theorem settings_giveBacklog (h : Hub) (n : Str) : (h.giveBacklog env n).settings = h.settings := by
  unfold giveBacklog
  split
  · rfl
  · simp only
    split
    · split
      · rfl
      · exact settings_deliver env h n _
    · rfl

theorem settings_greet (h : Hub) (n : Str) (p : Participant) (rejoined : Bool) :
    (h.greet env n p rejoined).settings = h.settings := by
  unfold greet
  simp only
  split
  · exact settings_giveBacklog env (h.send env p (welcome env h p)) n
  · rfl

theorem settings_register (h : Hub) (c : ClientId) (f : Hello) :
    (h.register env c f).settings = h.settings := by
  have hgreet := settings_greet env (h.enroll c f.name (admitted env h c f)) f.name
    (admitted env h c f) (h.dead.contains f.name)
  unfold register
  simp only
  split
  · exact (settings_flushQueue env _ f.name).trans hgreet
  · exact hgreet

theorem settings_handleHello (h : Hub) (c : ClientId) (f : Hello) :
    (h.handleHello env c f).settings = h.settings := by
  have hready : ((h.reap env f.name).declareRoom f).settings = h.settings :=
    (settings_declareRoom _ f).trans (settings_reap env h f.name)
  unfold handleHello
  simp only
  split
  · rfl
  · split
    · exact hready
    · exact (settings_register env _ c f).trans hready

/-! ## Watchdog -/

theorem settings_tickOne (h : Hub) (n : Str) : (h.tickOne env n).settings = h.settings := by
  have hping : ∀ p, (h.pingSilent env n p).settings = h.settings := by
    intro p
    unfold pingSilent
    split <;> rfl
  have hassume : ∀ (k : Hub) (p : Participant), (k.assumeIdle env n p).settings = k.settings := by
    intro k p
    unfold assumeIdle
    split
    · exact settings_flushQueue env _ n
    · rfl
  have hblocked : ∀ k : Hub, (k.notifyBlocked env n).settings = k.settings := by
    intro k
    unfold notifyBlocked
    split
    · rfl
    · split
      · exact settings_notify env _ _ _
      · rfl
  unfold tickOne
  split
  · rfl
  · split
    · exact settings_disconnect env h _
    · split
      · exact settings_disconnect env h _
      · simp only
        split
        · exact hping _
        · exact (hblocked _).trans ((hassume _ _).trans (hping _))

theorem settings_ticks (h : Hub) (ns : List Str) :
    (ns.foldl (tickOne env) h).settings = h.settings := by
  induction ns generalizing h with
  | nil => rfl
  | cons n ns ih =>
    rw [List.foldl_cons, ih]
    exact settings_tickOne env h n

theorem settings_checkStall (h : Hub) : (h.checkStall env).settings = h.settings := by
  unfold checkStall
  split
  · exact settings_notify env _ _ _
  · rfl

/-! ## Operations -/

/-- What a command sets. -/
def commandSettings (h : Hub) : Command → Settings
  | .mute => { h.settings with muted := true }
  | .unmute => { h.settings with muted := false }
  | .goal text _ => { h.settings with goal := text }
  | _ => h.settings

theorem settings_runCommand (h : Hub) (c : Command) :
    (h.runCommand env c).settings = h.commandSettings c := by
  cases c with
  | mute => exact settings_systemMessage env ({ h with muted := true }.emitEvent env .muted none) _
  | unmute =>
    exact settings_systemMessage env ({ h with muted := false }.emitEvent env .unmuted none) _
  | _ => rfl

theorem settings_handleCmd {n : Str} {p : Participant} (hp : h.get? n = some p) (c : Command)
    (seq : Option Int) : (h.handleCmd env n c seq).settings =
      if p.isObserver then h.commandSettings c else h.settings := by
  rw [handleCmd, hp]
  simp only
  cases hobs : p.isObserver with
  | false => rfl
  | true => exact settings_runCommand env h c

/-- What a tick of the watchdog sets. -/
theorem settings_watchdogTick (h : Hub) : (h.watchdogTick env).settings =
    (((h.pruneDead env).participants.keys.foldl (tickOne env) (h.pruneDead env)).checkQuorum
      env).settings := settings_checkStall env _

variable {F : Type} [PyJson.PyFloat F]

/-- What an operation sets. -/
inductive SetBy (h : Hub) (op : Op F) (s : Settings) : Prop
  | nothing (same : s = h.settings)
  | said (c : ClientId) (frame : Obj F) (f : Say) (p : Participant) (handled : op = .handle c frame)
      (valid : validate env.isPrintable frame = .ok (.say f))
      (sender : h.get? (h.wire.clients c).name = some p)
      (set : s = if ((h.lifeSign (h.wire.clients c).name).routeSay env (h.wire.clients c).name f).1
        then h.armed p f.addressee else h.settings)
  | commanded (c : ClientId) (frame : Obj F) (cmd : Command) (seq : Option Int) (p : Participant)
      (handled : op = .handle c frame) (valid : validate env.isPrintable frame = .ok (.cmd cmd seq))
      (sender : h.get? (h.wire.clients c).name = some p) (observer : p.isObserver = true)
      (set : s = h.commandSettings cmd)
  | ticked (tick : op = .watchdogTick)

theorem armed_lifeSign (h : Hub) (n : Str) (p : Participant) (addressee : Str) :
    (h.lifeSign n).armed { p with lastRx := h.now, awaitingPong := false } addressee =
      h.armed p addressee := by
  have hasked : (h.lifeSign n).asked addressee = h.asked addressee :=
    asked_modify h n (g := fun q => { q with lastRx := h.now, awaitingPong := false })
      (fun _ => ⟨rfl, rfl, rfl⟩) addressee
  rw [armed, armed, hasked]
  rfl

/-- **What an operation sets.** -/
theorem settings_step (op : Op F) : SetBy env h op (h.step env op).settings := by
  cases op with
  | disconnect c => exact .nothing (settings_disconnect env h c)
  | watchdogTick => exact .ticked rfl
  | clock => exact .nothing rfl
  | fail => exact .nothing rfl
  | handle c frame =>
    show SetBy env h (.handle c frame) (h.handle env c frame).settings
    cases hv : validate env.isPrintable frame with
    | error e =>
      rw [handle, hv]
      exact .nothing rfl
    | ok f =>
      rw [handle, hv]
      show SetBy env h (.handle c frame) (h.handleInbound env c f).settings
      rcases handleInbound_cases env h c f with ⟨g, rfl, hg⟩ | ⟨hno, hg⟩
      · rw [hg]
        exact .nothing (settings_handleHello env h c g)
      rw [hg]
      cases hp : h.get? (h.wire.clients c).name with
      | none =>
        rw [dispatch, hp]
        exact .nothing rfl
      | some p =>
        have hp' : (h.lifeSign (h.wire.clients c).name).get? (h.wire.clients c).name =
            some { p with lastRx := h.now, awaitingPong := false } := by
          rw [lifeSign, get?_modify_self, hp]
          rfl
        rw [dispatch, hp]
        cases f with
        | hello g => exact absurd rfl (hno g)
        | say f =>
          refine .said c frame f p rfl hv hp ?_
          rw [← armed_lifeSign h (h.wire.clients c).name]
          exact settings_handleSay env hp' f
        | state f => exact .nothing (settings_handleState env _ _ f)
        | cmd cmd seq =>
          have hcmd := settings_handleCmd env hp' cmd seq
          by_cases hobs : p.isObserver = true
          · refine .commanded c frame cmd seq p rfl hv hp hobs ?_
            rw [if_pos (show Participant.isObserver { p with
              lastRx := h.now, awaitingPong := false } = true from hobs)] at hcmd
            exact hcmd
          · rw [if_neg (show ¬ Participant.isObserver { p with
              lastRx := h.now, awaitingPong := false } = true from hobs)] at hcmd
            exact .nothing hcmd
        | roster seq => exact .nothing (quiet_handleRoster env _ _ seq).settings
        | bye => exact .nothing (settings_disconnect env _ c)
        | pong => exact .nothing rfl

end

end Hub

end Moot
