import Moot.Hub.Cargo
import Moot.Hub.Deed
import Moot.Hub.Accounting
import Moot.Lib.Trace

/-!
# Wakes and context by id

The record of a deliver frame keeps the ids of its messages and, apart, the ids of
the overheard ones.  For a reader of these ids a frame is told apart
(`ToldApart`) if a message that is overheard and one that is not share an id only
where the second is the note about dropped messages.

Proved here: in every run each deliver frame is told apart (`Parted.everyRun`),
and each deliver record comes right after its frame (`records_follow`).
-/

namespace Moot
open Py Proto

/-- The message is context. -/
def Msg.heard (m : Msg) : Bool := m.addressing = some .overheard

/-- What shares the id of an overheard message is overheard, but for the note about what the queue
of `n` has lost. -/
def ToldApart (n : Str) (f : List Msg) : Prop :=
  ∀ a ∈ f, ∀ b ∈ f, a.heard = true → b.heard = false → a.id = b.id → ∃ k, b = droppedNote n k

theorem toldApart_singleton (n : Str) (m : Msg) : ToldApart n [m] := by
  intro a ha b hb hheard hwake _
  rw [List.mem_singleton.mp ha, List.mem_singleton.mp hb] at *
  rw [hheard] at hwake
  cases hwake

/-! ## The mailbox -/

/-- The id of `m` is taken, and in `W` if and only if `m` is for a wake. -/
def Marked (W : Set Nat) (k : Nat) (n : Str) (m : Msg) : Prop :=
  m.id ≤ k ∧ ((∃ j, m = droppedNote n j) ∨ (m.id ∈ W ↔ m.heard = false))

theorem Marked.mono {W : Set Nat} {k k' : Nat} {n : Str} {m : Msg} (hm : Marked W k n m) (hk : k ≤ k') :
    Marked W k' n m := ⟨hm.1.trans hk, hm.2⟩

theorem toldApart_of_marked {W : Set Nat} {k : Nat} {n : Str} {f : List Msg}
    (hf : ∀ m ∈ f, Marked W k n m) : ToldApart n f := by
  intro a ha b hb hheard hwake hid
  rcases (hf b hb).2 with hnote | hb'
  · exact hnote
  · rcases (hf a ha).2 with ⟨j, rfl⟩ | ha'
    · simp [droppedNote, Msg.heard] at hheard
    · have hin : a.id ∈ W := by rw [hid]; exact hb'.mpr hwake
      rw [ha'.mp hin] at hheard
      cases hheard

/-- The ids of the wakes are apart from the ids of the context. -/
def Mail.Parted (k : Nat) (b : Mail) : Prop :=
  ∃ W : Set Nat, 0 ∉ W ∧ b.All (Marked W k b.owner)

theorem Mail.Parted.mono {k k' : Nat} {b : Mail} (hb : b.Parted k) (hk : k ≤ k') : b.Parted k' := by
  obtain ⟨W, hzero, hall⟩ := hb
  exact ⟨W, hzero, fun m hm => (hall m hm).mono hk⟩

/-- The message comes with a new id, or is overheard and has none. -/
def Msg.New (k : Nat) (m : Msg) : Prop := k < m.id ∨ m.heard = true ∧ m.id = 0

/-- New messages keep the ids apart, and every frame is told apart. -/
theorem Mail.Parted.play {k k' : Nat} {b : Mail} (hb : b.Parted k) (cfg : Config) (hk : k ≤ k')
    (as : List Act) (hnew : ∀ m ∈ as.flatMap Act.msgs, m.New k ∧ m.id ≤ k')
    (hsort : ∀ m ∈ as.flatMap Act.msgs, ∀ m' ∈ as.flatMap Act.msgs, m.id = m'.id →
      m.heard = m'.heard) :
    (b.play cfg as).Parted k' ∧ ∀ f ∈ b.playFrames cfg as, ToldApart b.owner f := by
  obtain ⟨W, hzero, hall⟩ := hb
  -- the wakes that are put in are marked as such
  let W' : Set Nat := { i | i ∈ W ∧ i ≤ k ∨
    k < i ∧ ∃ m ∈ as.flatMap Act.msgs, m.id = i ∧ m.heard = false }
  have hW : ∀ i, i ≤ k → (i ∈ W' ↔ i ∈ W) := by
    intro i hi
    constructor
    · rintro (⟨hin, -⟩ | ⟨hlt, -⟩)
      · exact hin
      · omega
    · exact fun hin => Or.inl ⟨hin, hi⟩
  have hzero' : 0 ∉ W' := fun h => hzero ((hW 0 (Nat.zero_le k)).mp h)
  have hkept : b.All (Marked W' k' b.owner) := by
    intro m hm
    obtain ⟨hle, hmark⟩ := hall m hm
    refine ⟨hle.trans hk, hmark.imp_right fun hiff => ?_⟩
    rw [hW m.id hle]
    exact hiff
  have hput : ∀ m ∈ as.flatMap Act.msgs, Marked W' k' b.owner m := by
    intro m hm
    obtain ⟨hfresh, hle⟩ := hnew m hm
    refine ⟨hle, Or.inr ?_⟩
    rcases hfresh with hlt | ⟨hheard, hid⟩
    · constructor
      · rintro (⟨-, hle'⟩ | ⟨-, m', hm', hid, hwake⟩)
        · omega
        · rw [hsort m hm m' hm' hid.symm, hwake]
      · exact fun hwake => Or.inr ⟨hlt, m, hm, rfl, hwake⟩
    · rw [hid, hheard]
      exact ⟨fun h => absurd h hzero', nofun⟩
  have homitted : ∀ n, Marked W' k' b.owner (omittedNote n) := fun n =>
    ⟨Nat.zero_le k', Or.inr ⟨fun h => absurd h hzero', fun h => by cases h⟩⟩
  have hdropped : ∀ n, Marked W' k' b.owner (droppedNote b.owner n) := fun n =>
    ⟨Nat.zero_le k', Or.inl ⟨n, rfl⟩⟩
  obtain ⟨hplay, hframes⟩ := All.play cfg hkept homitted hdropped as hput
  have howner : (b.play cfg as).owner = b.owner := by
    clear hnew hsort hput hplay hframes hkept hall hdropped homitted hzero' hW W'
    induction as generalizing b with
    | nil => rfl
    | cons a as ih => rw [Mail.play_cons, ih, Mail.act_owner]
  exact ⟨⟨W', hzero', by rw [howner]; exact hplay⟩, fun f hf => toldApart_of_marked (hframes f hf)⟩

/-- Acts that put nothing in. -/
theorem Mail.Parted.quietPlay {k : Nat} {b : Mail} (hb : b.Parted k) (cfg : Config) {as : List Act}
    (hnone : as.flatMap Act.msgs = []) :
    (b.play cfg as).Parted k ∧ ∀ f ∈ b.playFrames cfg as, ToldApart b.owner f :=
  hb.play cfg le_rfl as (by simp [hnone]) (by simp [hnone])

theorem parted_empty (env : Env) (n : Str) (k : Nat) : (Hub.emptyMail env n).Parted k :=
  ⟨∅, by simp, fun m hm => by simp [Hub.emptyMail, Hub.emptyContext] at hm⟩

namespace Hub

section
variable {env : Env} {h h' : Hub} {n : Str} {p : Participant}

/-! ## The hub -/

/-- The ids of all mail are apart, and so is every frame. -/
structure Parted (h : Hub) : Prop extends Recalls h where
  mail : ∀ n p, h.box? n = some p → p.mail.Parted h.msgCounter
  frames : ∀ n, ∀ f ∈ deliveries n h.wire.log, ToldApart n f

theorem parted_init (records : List MsgRec) (now wall : Rat)
    (hasc : ((lastN env.config.recentWindow records).map MsgRec.id).Pairwise (· < ·)) :
    (init env records now wall).Parted where
  toRecalls := recalls_init env hasc
  mail _ _ hq := nomatch hq
  frames _ _ hf := nomatch hf

theorem Parted.same (hi : h.Parted) (hs : SameMail h h') (hcount : h.msgCounter ≤ h'.msgCounter) :
    h'.Parted where
  ascending := by rw [hs.recent]; exact hi.ascending
  taken r hr := by
    rw [hs.recent] at hr
    exact (hi.taken r hr).trans hcount
  mail n q' hq' := by
    obtain ⟨q, hq, -, hmail⟩ := hs.mail n q' hq'
    rw [hmail]
    exact (hi.mail n q hq).mono hcount
  frames n := by
    rw [hs.delivered n]
    exact hi.frames n

theorem Parted.quiet {E : Prop} (hi : h.Parted) (hk : Keeps ∅ ∅ E h h') : h'.Parted :=
  hi.same hk.sameMail hk.counter

/-- A step that registers nobody and removes nobody. -/
theorem Parted.roster (hi : h.Parted) (hr : h.Roster h') (hcount : h.msgCounter ≤ h'.msgCounter)
    (hrecalls : h'.Recalls) (hmail : ∀ n q', h'.get? n = some q' → q'.mail.Parted h'.msgCounter)
    (hframes : ∀ n, ∀ f ∈ deliveries n h'.wire.log, ToldApart n f) : h'.Parted := by
  refine ⟨hrecalls, fun n q' hq' => ?_, hframes⟩
  cases hp' : h'.get? n with
  | some p' =>
    rw [box?_of_get? hp', Option.some.injEq] at hq'
    subst hq'
    exact hmail n p' hp'
  | none =>
    have hp : h.get? n = none := by
      cases hp : h.get? n with
      | none => rfl
      | some p =>
        obtain ⟨p', hp'', -⟩ := hr.same n p hp
        rw [hp'] at hp''
        cases hp''
    rw [box?_of_none hp', hr.dead, ← box?_of_none hp] at hq'
    exact (hi.mail n q' hq').mono hcount

/-- A step that touches the mail of `n` alone. -/
theorem Parted.only {E : Prop} (hi : h.Parted) (hk : Keeps {n} {n} E h h')
    (hself : ∀ p', h'.get? n = some p' → p'.mail.Parted h'.msgCounter)
    (hframes : ∀ f ∈ deliveries n h'.wire.log, ToldApart n f) : h'.Parted := by
  refine hi.roster hk.toRoster hk.counter
    ⟨by rw [hk.recent]; exact hi.ascending, fun r hr => ?_⟩ (fun m q' hq' => ?_) fun m => ?_
  · rw [hk.recent] at hr
    exact (hi.taken r hr).trans hk.counter
  · by_cases hm : m = n
    · subst hm
      exact hself q' hq'
    · obtain ⟨q, hq, -⟩ := hk.back hq'
      rw [(hk.calm m hm q q' hq hq').mail]
      exact (hi.mail m q (box?_of_get? hq)).mono hk.counter
  · by_cases hm : m = n
    · rw [hm]
      exact hframes
    · rw [hk.delivered m hm]
      exact hi.frames m

/-- More frames. -/
theorem Parted.more (hi : h.Parted) {fs : List (List Msg)}
    (hdel : deliveries n h'.wire.log = deliveries n h.wire.log ++ fs) (hfs : ∀ f ∈ fs, ToldApart n f) :
    ∀ f ∈ deliveries n h'.wire.log, ToldApart n f := by
  rw [hdel]
  intro f hf
  rcases List.mem_append.mp hf with hf | hf
  · exact hi.frames n f hf
  · exact hfs f hf

/-! ## Strokes -/

/-- At most one copy of a message is for a participant. -/
theorem copiesFor_cases (msg : Msg) (q : Participant) :
    copiesFor msg q = [] ∨ ∃ a, copiesFor msg q = [msg.tag a] := by
  unfold copiesFor
  simp only
  split
  · exact Or.inl rfl
  · split
    · split
      · exact Or.inl rfl
      · exact Or.inr ⟨_, rfl⟩
    · exact Or.inr ⟨_, rfl⟩

/-- New ids and one heading, for the copies of a message. -/
theorem copies_new {k : Nat} {msg : Msg} (hid : msg.id = k + 1) (q : Participant) :
    (∀ m ∈ copiesFor msg q, m.New k ∧ m.id ≤ k + 1) ∧
      ∀ m ∈ copiesFor msg q, ∀ m' ∈ copiesFor msg q, m.id = m'.id → m.heard = m'.heard := by
  rcases copiesFor_cases msg q with hnone | ⟨a, hone⟩
  · rw [hnone]
    exact ⟨nofun, nofun⟩
  · rw [hone]
    refine ⟨fun m hm => ?_, fun m hm m' hm' _ => ?_⟩
    · rw [List.mem_singleton.mp hm]
      have htag : (msg.tag a).id = k + 1 := hid
      exact ⟨Or.inl (by omega), by omega⟩
    · rw [List.mem_singleton.mp hm, List.mem_singleton.mp hm']

theorem Parted.flush (hi : h.Parted) (hn : h.Named) (n : Str) : (h.flushQueue env n).Parted := by
  have hk := keeps_flushQueue env hn n
  cases hp : h.get? n with
  | none => rw [flushQueue, hp]; exact hi
  | some p =>
    obtain ⟨as, p', hp', -, hmail, hdel, hcases⟩ := flush_acts env hn hp
    have hnone : as.flatMap Act.msgs = [] := by
      rcases hcases with ⟨rfl, -⟩ | ⟨rfl, -⟩ <;> rfl
    obtain ⟨hkept, hout⟩ := (hi.mail n p (box?_of_get? hp)).quietPlay env.config hnone
    refine hi.only hk (fun q hq => ?_) (hi.more hdel fun f hf => ?_)
    · rw [hp', Option.some.injEq] at hq
      rw [← hq, hmail]
      exact hkept.mono hk.counter
    · rw [← hn n p hp]
      exact hout f hf

theorem Parted.noted (hi : h.Parted) (hn : h.Named) (text : Str) (n : Str) :
    (h.systemNote env text n).Parted := by
  by_cases hagent : h.hasAgent n = true
  · obtain ⟨p, hp, hobs⟩ : ∃ p, h.get? n = some p ∧ p.isObserver = false := by
      cases hp : h.get? n with
      | none => simp [hasAgent, hp] at hagent
      | some p => exact ⟨p, rfl, by simpa [hasAgent, hp] using hagent⟩
    have hk : Keeps {n} {n} True h (h.systemNote env text n) := keeps_systemNote env hn text n
    obtain ⟨as, p', hp', -, hmsgs, hmail, hdel, -⟩ :=
      (turn_systemNote env hn text hp hobs).acts p hp
    have hcount : (h.systemNote env text n).msgCounter = h.msgCounter + 1 := by
      rw [counter_systemNote, hagent]
      rfl
    obtain ⟨hkept, hout⟩ := (hi.mail n p (box?_of_get? hp)).play env.config (Nat.le_succ _) as
      (by
        rw [hmsgs]
        intro m hm
        rw [List.mem_singleton.mp hm]
        exact ⟨Or.inl (Nat.lt_succ_self _), le_rfl⟩)
      (by
        rw [hmsgs]
        intro m hm m' hm' _
        rw [List.mem_singleton.mp hm, List.mem_singleton.mp hm'])
    refine hi.only hk (fun q hq => ?_) (hi.more (hdel hobs) fun f hf => ?_)
    · rw [hp', Option.some.injEq] at hq
      rw [← hq, hmail, hcount]
      exact hkept
    · rw [← hn n p hp]
      exact hout f hf
  · rw [systemNote_skip env text (by simpa using hagent)]
    exact hi

theorem Parted.goalTold (hi : h.Parted) (text : Str) : (h.bufferGoal text).Parted := by
  have hk : Keeps Set.univ ∅ True h (h.bufferGoal text) := keeps_bufferGoal h text
  refine hi.roster hk.toRoster hk.counter ⟨hi.ascending, hi.taken⟩ (fun n q' hq' => ?_) hi.frames
  obtain ⟨q, hq, -⟩ := hk.back hq'
  rw [bufferGoal, get?_mapParticipants, hq, Option.map_some, Option.some.injEq] at hq'
  rw [← hq']
  split
  · exact hi.mail n q (box?_of_get? hq)
  · refine ((hi.mail n q (box?_of_get? hq)).play {} (le_refl h.msgCounter)
      [.overhear ((h.goalMsg text).tag .overheard)] (fun m hm => ?_) fun m hm m' hm' _ => ?_).1
    · rw [List.mem_singleton.mp hm]
      exact ⟨Or.inr ⟨rfl, rfl⟩, Nat.zero_le _⟩
    · rw [List.mem_singleton.mp hm, List.mem_singleton.mp hm']

theorem Parted.accepted (hi : h.Parted) (hn : h.Named) (p : Participant) (f : Say) :
    ((h.remember env p f).route env (h.sayMsg p f)).1.Parted := by
  have hrem := roster_remember env h p f
  have hk := keeps_route env (E := True) (hrem.named hn) (h.sayMsg p f)
  have hcount : h.msgCounter + 1 ≤ ((h.remember env p f).route env (h.sayMsg p f)).1.msgCounter := by
    rw [← counter_remember env h p f]
    exact hk.counter
  -- the recent window has the new message at its end
  have hrecalls : ((h.remember env p f).route env (h.sayMsg p f)).1.Recalls := by
    have hremembers := remembers_remember env h p f
    have hwindow : (h.remember env p f).Recalls := hremembers.recalls hi.toRecalls
    refine ⟨by rw [hk.recent]; exact hwindow.ascending, fun r hr => ?_⟩
    rw [hk.recent] at hr
    exact (hwindow.taken r hr).trans hk.counter
  -- one participant, its mail after the routing and what it is handed
  have hone : ∀ n q, h.get? n = some q →
      (∃ q', ((h.remember env p f).route env (h.sayMsg p f)).1.get? n = some q' ∧
        q'.mail.Parted ((h.remember env p f).route env (h.sayMsg p f)).1.msgCounter) ∧
      ∀ g ∈ deliveries n ((h.remember env p f).route env (h.sayMsg p f)).1.wire.log,
        ToldApart n g := by
    intro n q hq
    obtain ⟨q₁, hq₁, hcalm, -⟩ := get?_remember env p f hq
    have hr := route_spec env (hrem.named hn) (h.sayMsg p f) hq₁
    obtain ⟨q', hq', -, hmail, -⟩ := hr.get?
    have hparted : q₁.mail.Parted h.msgCounter := by
      rw [hcalm.mail]
      exact hi.mail n q (box?_of_get? hq)
    obtain ⟨hnew, hsort⟩ := copies_new (show (h.sayMsg p f).id = h.msgCounter + 1 from rfl) q₁
    rw [← msgs_routeActs (h.remember env p f).up] at hnew hsort
    obtain ⟨hkept, hout⟩ := hparted.play env.config (Nat.le_succ _) _ hnew hsort
    have hdel := hr.delivered
    rw [deliveries_remember] at hdel
    refine ⟨⟨q', hq', ?_⟩, hi.more hdel fun g hg => ?_⟩
    · rw [hmail, mail_routeOne]
      exact hkept.mono hcount
    · by_cases hobs : q₁.isObserver = true
      · rw [observed_routeOne _ _ hobs] at hg
        split at hg
        · rw [List.map_singleton, List.mem_singleton] at hg
          rw [hg]
          exact toldApart_singleton n _
        · cases hg
      · rw [frames_routeOne env _ _ (by simpa using hobs)] at hg
        rw [← hrem.named hn n q₁ hq₁]
        exact hout g hg
  refine hi.roster (hrem.trans hk.toRoster) (Nat.le_of_succ_le hcount) hrecalls (fun n q' hq' => ?_)
    fun n => ?_
  · obtain ⟨q, hq, -⟩ := (hrem.trans hk.toRoster).back hq'
    obtain ⟨⟨q'', hq'', hparted⟩, -⟩ := hone n q hq
    rw [hq', Option.some.injEq] at hq''
    rw [hq'']
    exact hparted
  · cases hq : h.get? n with
    | none =>
      rw [hk.delivered n fun hmem => hmem (hrem.none hq), deliveries_remember]
      exact hi.frames n
    | some q => exact (hone n q hq).2

/-- The frame is not a hello. -/
def exceptHello : Filter := fun _ _ f => ∀ g, f ≠ .hello g

/-- **Every stroke** that a frame other than a hello can cause. -/
theorem Parted.stroke (hi : h.Parted) (hw : h.Wf) (hs : Stroke env exceptHello Set.univ h h') : h'.Parted := by
  cases hs with
  | talk ht => exact hi.quiet (ht.toQuiet.keeps (E := True))
  | aside ha => exact hi.quiet (ha.keeps (E := True))
  | event e skip => exact hi.quiet (keeps_emitEvent env h e skip (E := True) (Or.inl trivial))
  | declared _ hA => exact absurd rfl (hA _)
  | touched hg =>
    exact hi.same (sameMail_modify h _ (fun q => (hg q).kind) fun q => (hg q).mail) le_rfl
  | reported => exact hi.same (sameMail_modify h _ (fun _ => rfl) fun _ => rfl) le_rfl
  | inferred => exact hi.same (sameMail_modify h _ (fun _ => rfl) fun _ => rfl) le_rfl
  | flushed => exact hi.flush hw.named _
  | accepted => exact hi.accepted hw.named _ _
  | wentOn => exact hi.same (sameMail_modify h _ (fun _ => rfl) fun _ => rfl) le_rfl
  | finished => exact hi.quiet (keeps_markDone env h _)
  | @commanded _ _ c =>
    refine hi.same ?_ ?_
    · cases c <;> exact ⟨rfl, fun _ => rfl, fun _ q hq => ⟨q, hq, rfl, rfl⟩⟩
    · cases c <;> exact le_rfl
  | noted m => exact hi.noted hw.named _ m
  | goalTold => exact hi.goalTold _
  | left hp =>
    refine hi.same (sameMail_leave hp) ?_
    exact (keeps_checkSessionDone (S := ∅) (T := ∅) env (h.leave env _ _)).counter
  | enrolled _ _ hA => exact absurd rfl (hA _)
  | caughtUp _ _ hA => exact absurd rfl (hA _)

/-! ## Joins -/

/-- The ids of a backlog are those of different records. -/
theorem toldApart_backlogFrames (hrec : h.Recalls) (p : Participant) :
    ∀ f ∈ backlogFrames env p h.recent, ToldApart n f := by
  intro f hf
  unfold backlogFrames at hf
  split at hf
  · cases hf
  · rw [List.mem_singleton] at hf
    subst hf
    intro a ha b hb hheard hwake hid
    rw [mem_sortById] at ha hb
    obtain ⟨a₀, ha₀, rfl⟩ := List.mem_map.mp ha
    obtain ⟨b₀, hb₀, rfl⟩ := List.mem_map.mp hb
    have hnodup : ((backlog env p.name true h.recent).map Msg.id).Nodup :=
      ((hrec.ascending.imp Nat.ne_of_lt).sublist (ids_backlog env p.name true h.recent))
    have hsame : a₀ = b₀ := List.inj_on_of_nodup_map hnodup ha₀ hb₀ hid
    rw [hsame, hwake] at hheard
    cases hheard

theorem Parted.register (hi : h.Parted) (hw : h.Wf) {c : ClientId} {f : Hello}
    (hc : (h.wire.clients c).name = []) (hfree : h.get? f.name = none) :
    (h.register env c f).Parted := by
  have hk := keeps_register env hw hc f
  have hcount : h.msgCounter ≤ (h.register env c f).msgCounter := hk.counter
  have hrecent : (h.register env c f).recent = h.recent := hk.recent
  have hrecalls : (h.register env c f).Recalls := by
    refine ⟨by rw [hrecent]; exact hi.ascending, fun r hr => ?_⟩
    rw [hrecent] at hr
    exact (hi.taken r hr).trans hcount
  -- the newcomer: its registration is an old one or a fresh one
  have hself : ∃ q', (h.register env c f).get? f.name = some q' ∧
      q'.mail.Parted (h.register env c f).msgCounter ∧
      ∀ g ∈ deliveries f.name (h.register env c f).wire.log, ToldApart f.name g := by
    cases hd : h.dead.get? f.name with
    | some q =>
      obtain ⟨as, q', hq', -, -, has, hmail, hdel⟩ := (reclaimed_register env hw hc hd).acts
      have hbox : h.box? f.name = some q := by rw [box?_of_none hfree, hd]
      have hnone : as.flatMap Act.msgs = [] := by
        rcases has with rfl | ⟨rfl, -⟩ <;> rfl
      obtain ⟨hkept, hout⟩ := (hi.mail f.name q hbox).quietPlay env.config hnone
      refine ⟨q', hq', by rw [hmail]; exact hkept.mono hcount, hi.more hdel fun g hg => ?_⟩
      rcases List.mem_append.mp hg with hg | hg
      · exact toldApart_backlogFrames hi.toRecalls q' g hg
      · have howner : q.mail.owner = f.name := hw.deadNamed f.name q hd
        rw [← howner]
        exact hout g hg
    | none =>
      obtain ⟨q', hq', -, -, hmail, hdel⟩ := (joined_register env hw hc hd).acts
      refine ⟨q', hq', ?_, hi.more hdel fun g hg => toldApart_backlogFrames hi.toRecalls q' g hg⟩
      rw [hmail]
      split
      · exact parted_empty env _ _
      · -- a fresh mailbox overhears the backlog, with ids that are taken
        have hids : ∀ m ∈ overheardBacklog env f.name h.recent, m.heard = true ∧
            m.id ≤ h.msgCounter := by
          intro m hm
          refine ⟨by simpa [Msg.heard] using heard_overheardBacklog hm, ?_⟩
          obtain ⟨r, hr, hid⟩ := List.mem_map.mp
            ((ids_overheardBacklog env f.name h.recent).subset (List.mem_map_of_mem hm))
          rw [← hid]
          exact hi.taken r hr
        refine (Mail.Parted.play (parted_empty env f.name 0) env.config (Nat.zero_le _) _
          (fun m hm => ?_) fun m hm m' hm' _ => ?_).1
        · rw [msgs_overhears] at hm
          obtain ⟨hheard, hle⟩ := hids m hm
          refine ⟨?_, hle.trans hcount⟩
          rcases Nat.eq_zero_or_pos m.id with hz | hpos
          · exact Or.inr ⟨hheard, hz⟩
          · exact Or.inl hpos
        · rw [msgs_overhears] at hm hm'
          rw [(hids m hm).1, (hids m' hm').1]
  obtain ⟨p', hp', hmail, hframes⟩ := hself
  refine ⟨hrecalls, fun n q' hq' => ?_, fun n => ?_⟩
  · by_cases hn : n = f.name
    · subst hn
      rw [box?_of_get? hp', Option.some.injEq] at hq'
      rw [← hq']
      exact hmail
    · have hs := still_register env hw hc hn
      cases hq : h.box? n with
      | none =>
        rw [hs.absent hq] at hq'
        cases hq'
      | some q =>
        obtain ⟨q'', hq'', -, -, hsame⟩ := hs.same q hq
        rw [hq', Option.some.injEq] at hq''
        rw [hq'', hsame]
        exact (hi.mail n q hq).mono hcount
  · by_cases hn : n = f.name
    · rw [hn]
      exact hframes
    · rw [(still_register env hw hc hn).delivered]
      exact hi.frames n

/-! ## Runs -/

theorem handled_parted : Handled env anyFrame Parted :=
  have hrest : Handled env exceptHello Parted := Strokes.rule fun _ _ hw hs hi => hi.stroke hw hs
  { hrest with
    routeSay := fun h n p f hw hp _ hi => hrest.routeSay h n p f hw hp nofun hi
    inferIdle := fun h n p f hw hp _ hi => hrest.inferIdle h n p f hw hp nofun hi
    handleState := fun h n p f hw hp _ hi => hrest.handleState h n p f hw hp nofun hi
    handleCmd := fun h n p c seq hw hp _ hi => hrest.handleCmd h n p c seq hw hp nofun hi
    declareRoom := fun h f _ _ hi => by
      unfold declareRoom
      split
      · exact hi.quiet (keeps_append h _ (E := True) rfl (Or.inl trivial))
      · exact hi
    register := fun _ _ _ hw hc hfree _ hi => hi.register hw hc hfree }

/-- **In every run** the ids are apart. -/
theorem Parted.everyRun {F : Type} [PyJson.PyFloat F] (hi : h.Parted) (hw : h.Wf)
    (ops : List (Op F)) : (Run.after (Hub.step env) h ops).Parted :=
  handled_parted.everyRun (fun k _ hk => hk.same (sameMail_pruneDead env k) le_rfl)
    (fun _ _ _ hk => hk.same ⟨rfl, fun _ => rfl, fun _ q hq => ⟨q, hq, rfl, rfl⟩⟩ le_rfl) hw hi ops

end

end Hub

/-! ## The records -/

/-- The effect puts no delivery on record. -/
def Effect.unledgered : Effect → Bool
  | .append _ (.deliver ..) => false
  | _ => true

/-- A delivery goes on record right after its frame, with the ids of its messages and of those that
are overheard. -/
def Follows (pre : List Effect) : Effect → Prop
  | .append _ (.deliver n round ids overheard _) => ∃ init c up msgs,
      pre = init ++ [.send n c up (.deliver round msgs)] ∧ ids = msgs.map Msg.id ∧
        overheard = (msgs.filter (·.addressing = some .overheard)).map Msg.id
  | _ => True

theorem follows_unledgered (pre : List Effect) {e : Effect} (he : e.unledgered = true) :
    Follows pre e := by
  cases e with
  | append wall r => cases r <;> trivial
  | _ => trivial

namespace Hub

section
variable {env : Env} {A : Filter} {h h' : Hub}

/-- The deliveries on record follow their frames. -/
def Recorded (h : Hub) : Prop := Trace.Lawful Follows h.wire.log

theorem Recorded.wrote (hi : h.Recorded) (hw : Wrote (·.unledgered = true) h h') : h'.Recorded := by
  obtain ⟨es, hes, hall⟩ := hw
  rw [Recorded, hes]
  refine Trace.Lawful.append hi ?_
  rintro pre e post rfl
  exact follows_unledgered _ (hall e (by simp))

theorem Recorded.deliver (hi : h.Recorded) (n : Str) (msgs : List Msg) :
    (h.deliver env n msgs).Recorded := by
  cases hp : h.get? n with
  | none =>
    rw [Hub.deliver, hp]
    exact hi
  | some p =>
    have hframe := Trace.Lawful.snoc (e := Effect.send p.name p.client (h.up p.client)
      (.deliver h.round (sortById msgs))) hi trivial
    have hout : (h.handOut env p (sortById msgs)).Recorded :=
      Trace.Lawful.snoc hframe ⟨_, _, _, _, rfl, rfl, rfl⟩
    rw [deliver_eq env hp]
    split
    · exact hout
    · exact hout

theorem unledgered_murmur (e : Effect) (he : e.murmur = true) : e.unledgered = true := by
  cases e with
  | append => cases he
  | _ => rfl

variable (env) in
theorem unledgered_event (h : Hub) (e : HubEvent) (skip : Option Str) :
    Wrote (·.unledgered = true) h (h.emitEvent env e skip) :=
  wrote_emitEvent env h e skip (fun _ _ _ => rfl) rfl

variable (env) in
theorem unledgered_notify (h : Hub) (title message : Str) :
    Wrote (·.unledgered = true) h (h.notify env title message) :=
  wrote_notify env h title message fun _ _ => rfl

theorem Recorded.joined (hi : h.Recorded) (c : ClientId) (f : Hello) :
    (registered env c f h).Recorded := by
  have hwelcome : ((h.enroll c f.name (admitted env h c f)).send env (admitted env h c f)
      (welcome env (h.enroll c f.name (admitted env h c f)) (admitted env h c f))).Recorded :=
    hi.wrote (wrote_one rfl rfl)
  have hend : ∀ k : Hub, k.Recorded → (k.touchActivity.emitEvent env
      (.peerJoined f.name (admitted env h c f).kind (admitted env h c f).role)
        (some f.name)).Recorded :=
    fun k hk => Recorded.wrote hk (unledgered_event env k.touchActivity _ _)
  unfold registered greet
  simp only
  apply hend
  split
  · unfold giveBacklog
    split
    · exact hwelcome
    · simp only
      split
      · split
        · exact hwelcome
        · exact hwelcome.deliver _ _
      · exact hwelcome
  · exact hwelcome

theorem Deed.recordsAfter (hd : Deed env A h h') (hi : h.Recorded) : h'.Recorded := by
  cases hd with
  | murmured hm => exact hi.wrote (hm.wrote unledgered_murmur)
  | told e => exact hi.wrote (unledgered_event env h e none)
  | recorded r hr =>
    refine hi.wrote (wrote_one rfl ?_)
    cases r <;> first | rfl | cases hr
  | timed => exact hi
  | mailed => exact hi
  | mailedAll => exact hi
  | counted hc =>
    rw [hc.rest]
    exact hi
  | @reported n p f hp =>
    rw [report, hp]
    exact hi
  | inferred => exact hi
  | delivered msgs => exact hi.deliver _ msgs
  | limited =>
    exact hi.wrote (wrote_announceLimit env h (fun _ _ => rfl) (fun _ _ _ _ _ => rfl)
      fun _ _ _ _ => rfl)
  | ended =>
    exact hi.wrote (wrote_checkSessionDone env h (fun _ _ => rfl) (fun _ _ _ _ => rfl)
      fun _ _ _ => rfl)
  | marked => exact hi
  | @remembered n p q f =>
    have hlog : (h.countSay p f).wire = h.wire := by
      unfold countSay noteSay
      simp only
      split
      · split <;> rfl
      · rfl
    refine hi.wrote (wrote_one (e := .append (h.countSay p f).wall (.msg (h.countSay p f).round
      (recordOf (h.sayMsg p f)))) ?_ rfl)
    rw [← hlog]
    rfl
  | @answered n p q f id k =>
    have hsaid : (h.send env p (.said id k f.seq)).Recorded := hi.wrote (wrote_one rfl rfl)
    unfold answer
    simp only
    split
    · exact hsaid.wrote (unledgered_notify env _ _ _)
    · exact hsaid
  | @flagged n p c seq =>
    have hflags : (h.flags env c).Recorded := by cases c <;> exact hi
    exact hflags.wrote (unledgered_event env (h.flags env c) _ none)
  | okayed => exact hi.wrote (wrote_one rfl rfl)
  | polled n seq =>
    unfold handleRoster
    split
    · exact hi
    · exact hi.wrote (wrote_one rfl rfl)
  | alarmed n =>
    by_cases hdue : AlarmDue env h n
    · obtain ⟨detail, title, message, heq⟩ := notifyBlocked_due hdue
      rw [heq]
      exact Recorded.wrote (Recorded.wrote hi
        (unledgered_event env { h with blockedNotified := h.blockedNotified ++ [n] } _ none))
        (unledgered_notify env _ _ _)
    · rw [notifyBlocked_not_due hdue]
      exact hi
  | @left n p =>
    exact Recorded.wrote hi (unledgered_event env { h with
      dead := h.dead.insert n p
      participants := h.participants.erase n
      blockedNotified := h.blockedNotified.filter (· ≠ n) }.touchActivity (.peerLeft n) none)
  | joined => exact hi.joined _ _

theorem handled_recorded : Handled env anyFrame Recorded :=
  { handles_deeds (A := anyFrame) fun _ _ _ hd hi => hd.recordsAfter hi with
    checkQuorum := fun h _ hi => by
      by_cases hdue : h.QuorumDue
      · obtain ⟨detail, k, rfl, heq | ⟨title, message, heq⟩⟩ := checkQuorum_due env hdue
        · rw [heq]
          exact Recorded.wrote hi (unledgered_event env { h with quorumLatched := true } _ none)
        · rw [heq]
          exact Recorded.wrote (Recorded.wrote hi
            (unledgered_event env { h with quorumLatched := true } _ none)) (unledgered_notify env _ _ _)
      · rw [checkQuorum_not_due hdue]
        exact hi
    checkStall := fun h _ hi => by
      by_cases hdue : StallDue env h
      · obtain ⟨title, message, heq⟩ := checkStall_due hdue
        rw [heq]
        exact Recorded.wrote (Recorded.wrote hi
          (unledgered_event env { h with stallLatched := true } _ none)) (unledgered_notify env _ _ _)
      · rw [checkStall_not_due hdue]
        exact hi }

/-- **In every run** a delivery goes on record right after its frame. -/
theorem records_follow {F : Type} [PyJson.PyFloat F] (records : List MsgRec) (now wall : Rat)
    (ops : List (Op F)) : (Run.after (Hub.step env) (init env records now wall) ops).Recorded :=
  handled_recorded.everyRun (fun _ _ hk => hk) (fun _ _ _ hk => hk) (wf_init env records now wall)
    Trace.lawful_nil ops

end

end Hub

end Moot
