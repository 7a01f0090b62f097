import Moot.Hub.Stroke

/-!
# What a stroke says

Whom the effects of a stroke give as a sender, and whom its deliver frames go to.

Proved here: `Stroke.mentions`.
-/

namespace Moot
open Py Proto

/-- The senders an effect gives. -/
def Effect.senders : Effect → List Str
  | .send _ _ _ (.deliver _ ms) => ms.map Msg.sender
  | .send _ _ _ (.event e) => e.names
  | .append _ (.msg _ r) => [r.sender]
  | .append _ (.event e _) => e.names
  | .append _ (.roomDeclared _ name _) => [name]
  | _ => []

/-- The effect gives senders that satisfy `P`; a delivery goes where `D` says. -/
def Effect.Fits (P : Str → Prop) (D : Str → ClientId → Prop) : Effect → Prop
  | .send n c _ (.deliver _ _) => D n c
  | e => ∀ s ∈ e.senders, P s

namespace Hub

/-! ## The senders of a step -/

/-- What the step says gives senders that satisfy `P`, and is delivered as `D` says. -/
def Mentions (P : Str → Prop) (D : Str → ClientId → Prop) (w w' : Wire) : Prop :=
  ∃ es, w'.log = w.log ++ es ∧ ∀ e ∈ es, e.Fits P D

/-- The connection `c` holds the name `n`. -/
def Holds (h : Hub) (n : Str) (c : ClientId) : Prop := ∃ p, h.get? n = some p ∧ p.client = c

/-- Whoever is registered is where `D` says. -/
def Linked (D : Str → ClientId → Prop) (h : Hub) : Prop := ∀ n c, h.Holds n c → D n c

section
variable {env : Env} {P : Str → Prop} {D : Str → ClientId → Prop} {h h' : Hub} {w w' w'' : Wire}

theorem Holds.roster_back (hr : h.Roster h') {n : Str} {c : ClientId} (hc : h'.Holds n c) :
    h.Holds n c := by
  obtain ⟨p', hp', rfl⟩ := hc
  obtain ⟨p, hp, hs⟩ := hr.back hp'
  exact ⟨p, hp, hs.client.symm⟩

theorem Linked.roster (hl : Linked D h) (hr : h.Roster h') : Linked D h' :=
  fun n c hc => hl n c (hc.roster_back hr)

theorem Mentions.refl (w : Wire) : Mentions P D w w := ⟨[], (List.append_nil _).symm, nofun⟩

theorem Mentions.trans (hab : Mentions P D w w') (hbc : Mentions P D w' w'') :
    Mentions P D w w'' := by
  obtain ⟨es, hes, hes'⟩ := hab
  obtain ⟨fs, hfs, hfs'⟩ := hbc
  refine ⟨es ++ fs, by rw [hfs, hes, List.append_assoc], fun e he => ?_⟩
  rcases List.mem_append.mp he with he | he
  · exact hes' e he
  · exact hfs' e he

theorem mentions_one {e : Effect} (hlog : w'.log = w.log ++ [e]) (he : e.Fits P D) :
    Mentions P D w w' := ⟨[e], hlog, fun e' he' => by rw [List.mem_singleton.mp he']; exact he⟩

theorem Effect.fits_talk {e : Effect} (he : e.talk = true) : e.Fits P D := by
  unfold Effect.Fits
  split
  · cases he
  · unfold Effect.senders
    split <;> first | cases he | simp

theorem Talks.mentions (ht : h.Talks h') : Mentions P D h.wire h'.wire := by
  obtain ⟨es, hes, htalk⟩ := ht.talk
  exact ⟨es, hes, fun e he => Effect.fits_talk (htalk e he)⟩

variable (env)

theorem mentions_append (h : Hub) {r : Record}
    (hr : ∀ s ∈ (Effect.append h.wall r).senders, P s) : Mentions P D h.wire (h.append r).wire :=
  mentions_one rfl hr

theorem mentions_emitEvent (h : Hub) {e : HubEvent} (he : ∀ s ∈ e.names, P s)
    (skip : Option Str) : Mentions P D h.wire (h.emitEvent env e skip).wire := by
  have htell : ∀ (ps : List Participant) (w : Wire),
      Mentions P D w (ps.foldl (tellEvent env e skip) w) := by
    intro ps
    induction ps with
    | nil => exact fun w => .refl w
    | cons p ps ih =>
      intro w
      refine Mentions.trans ?_ (ih _)
      unfold tellEvent
      split
      · exact mentions_one rfl he
      · exact .refl w
  exact (htell h.participants.values h.wire).trans (mentions_one rfl he)

theorem mentions_deliver (hn : h.Named) (hl : Linked D h) (n : Str) (msgs : List Msg) :
    Mentions P D h.wire (h.deliver env n msgs).wire := by
  cases hp : h.get? n with
  | none => rw [deliver, hp]; exact .refl _
  | some p =>
    have hsend : Mentions P D h.wire (h.send env p (.deliver h.round (sortById msgs))).wire :=
      mentions_one rfl (hl p.name p.client ⟨p, by rw [hn n p hp]; exact hp, rfl⟩)
    have hout : Mentions P D h.wire (h.handOut env p (sortById msgs)).wire :=
      hsend.trans (mentions_append _ (by simp [Effect.senders]))
    rw [deliver_eq env hp]
    split
    · exact hout
    · exact hout

theorem mentions_deliverAll (hn : h.Named) (hl : Linked D h) (bs : List (Str × List Msg)) :
    Mentions P D h.wire (h.deliverAll env bs).wire := by
  induction bs generalizing h with
  | nil => exact .refl _
  | cons b bs ih =>
    have hk : Keeps ∅ {b.1} True h (h.deliver env b.1 b.2) := keeps_deliver env hn b.1 b.2
    exact (mentions_deliver env hn hl b.1 b.2).trans (ih (hk.named hn) (hl.roster hk.toRoster))

theorem mentions_checkRoundLimit (h : Hub) : Mentions P D h.wire (h.checkRoundLimit env).wire := by
  have hann : Mentions P D h.wire (h.announceLimit env).wire :=
    (mentions_emitEvent env { h with frozen := true } (e := .roundLimit h.round h.maxRounds)
      (by simp [HubEvent.names]) none).trans (talks_notify env _ _ _).mentions
  unfold checkRoundLimit
  split
  · split
    · exact hann
    · exact hann.trans (mentions_append _ (by simp [Effect.senders]))
  · exact .refl _

theorem mentions_checkSessionDone (h : Hub) :
    Mentions P D h.wire (h.checkSessionDone env).wire := by
  unfold checkSessionDone
  split
  · exact (mentions_emitEvent env h (e := .sessionDone h.round) (by simp [HubEvent.names]) none).trans
      (talks_notify env { h.emitEvent env (.sessionDone h.round) none with
        sessionDoneAt := some h.wall } _ _).mentions
  · exact .refl _

theorem mentions_flushQueue (hn : h.Named) (hl : Linked D h) (n : Str) :
    Mentions P D h.wire (h.flushQueue env n).wire := by
  cases hp : h.get? n with
  | none => rw [flushQueue, hp]; exact .refl _
  | some p =>
    by_cases hskip : p.queue = [] ∨ h.up p.client = false
    · rw [flushQueue_skip env hp hskip]
      exact .refl _
    · simp only [not_or, Bool.not_eq_false] at hskip
      obtain ⟨k₁, hk₁, k₂, hk₂, heq⟩ := flushQueue_eq env hp hskip.1 hskip.2
      have hmod : Keeps {n} ∅ True h (h.modify n (·.flushed env.config)) :=
        keeps_modify h n (same_flushed env) (Or.inl trivial)
      have hl₁ := hl.roster hmod.toRoster
      have hdel : Mentions P D h.wire (k₁.deliver env n (p.flushBatch env.config)).wire := by
        rcases hk₁ with rfl | rfl
        · exact mentions_deliver env (hmod.named hn) hl₁ n _
        · exact mentions_deliver env (h := { h.modify n (·.flushed env.config) with
            round := h.round + 1 }) (hmod.named hn) hl₁ n _
      rw [heq]
      refine Mentions.trans ?_ (mentions_checkSessionDone env k₂)
      rcases hk₂ with rfl | rfl
      · exact hdel
      · exact hdel.trans (mentions_checkRoundLimit env _)

theorem mentions_route (hn : h.Named) (hl : Linked D h) (msg : Msg) :
    Mentions P D h.wire (h.route env msg).1.wire := by
  have hmap : Keeps Set.univ ∅ False h
      (h.mapParticipants fun q => (routeOne env h.up msg q).participant) :=
    keeps_mapParticipants h Set.univ
      (fun n p _ => ⟨same_routeOne env _ _ p, fun hm => absurd (Set.mem_univ _) hm⟩)
      (Or.inr fun p => finished_routeOne env _ _ p)
  have hdel : ∀ (k : Hub) bo bw, k.wire = h.wire → k.Named → Linked D k →
      Mentions P D h.wire ((k.deliverAll env bo).deliverAll env bw).wire := by
    intro k bo bw hk hn hl
    have hall := keeps_deliverAll env (E := True) hn bo
    rw [← hk]
    exact (mentions_deliverAll env hn hl bo).trans
      (mentions_deliverAll env (hall.named hn) (hl.roster hall.toRoster) bw)
  have hn₁ := hmap.named hn
  have hl₁ := hl.roster hmap.toRoster
  unfold route
  simp only
  split
  · exact hdel _ _ _ rfl hn₁ hl₁
  · refine Mentions.trans ?_ (mentions_checkRoundLimit env _)
    exact hdel { h.mapParticipants fun q => (routeOne env h.up msg q).participant with
      round := h.round + 1 } _ _ rfl hn₁ hl₁

theorem mentions_remember (h : Hub) {p : Participant} (hp : P p.name) (f : Say) :
    Mentions P D h.wire (h.remember env p f).wire := by
  have hcount : (h.countSay p f).wire = h.wire := by
    unfold countSay noteSay
    simp only
    split_ifs <;> rfl
  rw [← hcount]
  exact mentions_append (h.countSay p f)
    (r := .msg (h.countSay p f).round (recordOf (h.sayMsg p f))) (by
      intro s hs
      rw [List.mem_singleton.mp hs]
      exact hp)

theorem mentions_systemNote (hn : h.Named) (hl : Linked D h) (text n : Str) :
    Mentions P D h.wire (h.systemNote env text n).wire := by
  cases hp : h.get? n with
  | none => rw [systemNote, hp]; exact .refl _
  | some p =>
    rw [systemNote, hp]
    simp only
    split
    · exact .refl _
    · split
      · have hmod : Keeps {n} ∅ True h (h.modify n fun q =>
            { q with context := (p.context.drain (some (h.msgCounter + 1))).2 }) :=
          keeps_modify h n (fun _ => ⟨rfl, rfl, rfl, rfl, rfl⟩) (Or.inl trivial)
        have hl₁ := hl.roster hmod.toRoster
        exact mentions_deliver env (h := { h.modify n fun q =>
          { q with context := (p.context.drain (some (h.msgCounter + 1))).2 } with
            msgCounter := h.msgCounter + 1 }) (hmod.named hn) hl₁ n _
      · exact .refl _

theorem mentions_giveBacklog (hn : h.Named) (hl : Linked D h) (n : Str) :
    Mentions P D h.wire (h.giveBacklog env n).wire := by
  unfold giveBacklog
  split
  · exact .refl _
  · simp only
    split
    · split
      · exact .refl _
      · exact mentions_deliver env hn hl _ _
    · exact .refl _

theorem mentions_greet (hn : h.Named) (hl : Linked D h) {n : Str} (hP : P n) (p : Participant)
    (rejoined : Bool) : Mentions P D h.wire (h.greet env n p rejoined).wire := by
  have htalk : h.Talks (h.send env p (welcome env h p)) :=
    talks_send env h p (by simp [welcome]) (by simp [welcome])
  have hk : Keeps ∅ ∅ True h (h.send env p (welcome env h p)) := htalk.toQuiet.keeps
  have hevent : ∀ k : Hub, Mentions P D k.wire
      (k.touchActivity.emitEvent env (.peerJoined n p.kind p.role) (some n)).wire := fun k =>
    mentions_emitEvent env k.touchActivity (e := .peerJoined n p.kind p.role)
      (fun s hs => by rw [List.mem_singleton.mp hs]; exact hP) (some n)
  unfold greet
  simp only
  split
  · exact (htalk.mentions.trans
      (mentions_giveBacklog env (hk.named hn) (hl.roster hk.toRoster) n)).trans (hevent _)
  · exact htalk.mentions.trans (hevent _)

/-- A registration delivers to those who hold their names once the newcomer is enrolled. -/
theorem mentions_register (hw : h.Wf) {c : ClientId} (hc : (h.wire.clients c).name = []) {f : Hello}
    (hP : P f.name) :
    Mentions P (h.enroll c f.name (admitted env h c f)).Holds h.wire (h.register env c f).wire := by
  have hwf := hw.enroll hc (admitted_name env hw c f) (nameRe_ne_nil f.name_ok.2)
    (admitted_client env h c f)
  have hl : Linked (h.enroll c f.name (admitted env h c f)).Holds
      (h.enroll c f.name (admitted env h c f)) := fun _ _ hc => hc
  have hgreet := mentions_greet env hwf.named hl hP (admitted env h c f) (h.dead.contains f.name)
  have hk := keeps_greet env hwf.named f.name (admitted env h c f) (h.dead.contains f.name)
  unfold register
  simp only
  split
  · exact hgreet.trans (mentions_flushQueue env (hk.named hwf.named) (hl.roster hk.toRoster) _)
  · exact hgreet

variable {env}

/-- A stroke gives registered names, and delivers to those who hold them. -/
theorem Stroke.mentions {A : Filter} (hs : Stroke env A Set.univ h h') (hw : h.Wf)
    (hnames : ∀ n p, h.get? n = some p → P n)
    (hhello : ∀ f : Hello, A f.name f.kind (.hello f) → P f.name) :
    Mentions P h.Holds h.wire h'.wire := by
  have hl : Linked h.Holds h := fun _ _ hc => hc
  have hn := hw.named
  cases hs with
  | talk ht => exact ht.mentions
  | aside ha =>
    rw [ha.wire]
    exact .refl _
  | event e skip he hn =>
    refine mentions_emitEvent env h (fun s hs => ?_) skip
    obtain ⟨p, hp⟩ := hn s hs
    exact hnames s p hp
  | @declared f room hA =>
    refine mentions_append h fun s hs => ?_
    rw [List.mem_singleton.mp hs]
    exact hhello f hA
  | touched => exact .refl _
  | reported => exact .refl _
  | inferred => exact .refl _
  | flushed => exact mentions_flushQueue env hn hl _
  | @accepted n p q f hq hsame =>
    have hp : P p.name := by
      rw [← hsame.name, hn n q hq]
      exact hnames n q hq
    have hrem := roster_remember env h p f
    exact (mentions_remember env h hp f).trans
      (mentions_route env (hrem.named hn) (hl.roster hrem) _)
  | wentOn => exact .refl _
  | finished => exact mentions_checkSessionDone env _
  | @commanded _ _ c => cases c <;> exact .refl _
  | noted m => exact mentions_systemNote env hn hl _ m
  | goalTold => exact .refl _
  | @left n p hp =>
    refine Mentions.trans ?_ (mentions_checkSessionDone env _)
    refine mentions_emitEvent env { h with
      dead := h.dead.insert n p
      participants := h.participants.erase n
      blockedNotified := h.blockedNotified.filter (· ≠ n) }.touchActivity (e := .peerLeft n)
      (fun s hs => ?_) none
    rw [List.mem_singleton.mp hs]
    exact hnames n p hp
  | enrolled => exact .refl _
  | caughtUp => exact mentions_giveBacklog env hn hl _

end

end Hub

end Moot
