import Moot.Hub.Accounting

/-!
# What an operation does to the mail of a registration

The mail of a registration after an operation is what it was, or is new and empty,
and some acts on it.  The acts put in the copies the operation creates or, for one
that joins as an agent, the backlog (`Hub.Mailed`).

Proved here: `mailed`, and `Ready.step`, what is kept has been given an id.
-/

namespace Moot
open Py Proto

section
variable {cfg : Config} {k : Nat} {b : Mail}

/-- The highest id so far bounds the ids put in. -/
theorem msgs_le_raise {as : List Act} : (∀ m ∈ as.flatMap Act.msgs, m.id ≤ as.foldl Act.raise k) ∧
    k ≤ as.foldl Act.raise k := by
  induction as generalizing k with
  | nil => exact ⟨fun m hm => (nomatch hm), le_rfl⟩
  | cons a as ih =>
    obtain ⟨hrest, hle⟩ := ih (k := a.raise k)
    have hput : ∀ m : Msg, k ≤ max k m.id ∧ ∀ x ∈ [m], x.id ≤ max k m.id := by
      refine fun m => ⟨le_max_left _ _, fun x hx => ?_⟩
      rw [List.mem_singleton.mp hx]
      exact le_max_right _ _
    have hone : k ≤ a.raise k ∧ ∀ m ∈ a.msgs, m.id ≤ a.raise k := by
      cases a with
      | wake m => exact hput m
      | enqueue m => exact hput m
      | overhear m => exact hput m
      | flush => exact ⟨le_rfl, fun m hm => nomatch hm⟩
    refine ⟨fun m hm => ?_, hone.1.trans hle⟩
    rw [List.flatMap_cons] at hm
    rcases List.mem_append.mp hm with hm | hm
    · exact (hone.2 m hm).trans hle
    · exact hrest m hm

end

namespace Hub

section
variable {env : Env} {h : Hub} {n : Str} {F : Type} [PyJson.PyFloat F]

/-! ## Copies -/

theorem notesFor_observer {q : Participant} (hq : h.get? n = some q) (hobs : q.isObserver = true)
    (text : Str) (ns : List Str) : h.notesFor text ns n = [] := by
  rw [notesFor, if_neg]
  rintro ⟨-, hagent⟩
  simp [hasAgent, hq, hobs] at hagent

/-- No copies are created for an observer. -/
theorem prescribed_observer {q : Participant} (hq : h.get? n = some q) (hobs : q.isObserver = true)
    (op : Op F) : prescribed env h op n = [] := by
  cases op with
  | handle c frame =>
    cases hv : validate env.isPrintable frame with
    | error e => simp only [prescribed, hv]
    | ok f =>
      simp only [prescribed, hv]
      obtain ⟨q', hq', hsame⟩ := (keeps_lifeSign (S := ∅) (T := ∅) (E := True) h
        (h.wire.clients c).name).same n q hq
      have hobs' : q'.isObserver = true := hsame.isObserver.trans hobs
      cases f with
      | say f =>
        simp only [frameCopies, saidCopies]
        split
        · rfl
        · split
          · rw [copies_eq hq', copiesFor]
            simp [hobs']
          · rfl
      | cmd cmd seq =>
        simp only [frameCopies, cmdCopies]
        split
        · rfl
        · split
          · cases cmd with
            | mute => exact notesFor_observer hq' hobs' _ _
            | unmute => exact notesFor_observer hq' hobs' _ _
            | goal text ok => simp [commandCopies, goalLine, hasAgent, hq', hobs']
            | _ => rfl
          · rfl
      | _ => rfl
  | _ => rfl

/-- A registration that is not live is created no copies. -/
theorem prescribed_away (hq : h.get? n = none) (op : Op F) : prescribed env h op n = [] := by
  cases op with
  | handle c frame =>
    cases hv : validate env.isPrintable frame with
    | error e => simp only [prescribed, hv]
    | ok f =>
      simp only [prescribed, hv]
      have hq' : (h.lifeSign (h.wire.clients c).name).get? n = none := by
        by_cases hn : n = (h.wire.clients c).name
        · subst hn
          rw [lifeSign, get?_modify_self, hq]
          rfl
        · rw [lifeSign, get?_modify_of_ne _ hn, hq]
      cases f with
      | say f =>
        simp only [frameCopies, saidCopies]
        split
        · rfl
        · split
          · rw [copies, hq']
          · rfl
      | cmd cmd seq =>
        simp only [frameCopies, cmdCopies]
        split
        · rfl
        · split
          · cases cmd with
            | mute => simp [commandCopies, notesFor, hasAgent, hq']
            | unmute => simp [commandCopies, notesFor, hasAgent, hq']
            | goal text ok => simp [commandCopies, goalLine, hasAgent, hq']
            | _ => rfl
          · rfl
      | _ => rfl
  | _ => rfl

/-! ## The ids that are kept -/

/-- The hub is as runs leave it: nothing kept has an id that is still to come. -/
structure Ready (h : Hub) : Prop where
  wf : h.Wf
  rested : ∀ n, h.Rested n
  taken : ∀ r ∈ h.recent, r.id ≤ h.msgCounter
  kept : ∀ n q, h.box? n = some q → q.mail.All fun m => m.id ≤ h.msgCounter

theorem ready_init (records : List MsgRec) (now wall : Rat) : (init env records now wall).Ready where
  wf := wf_init env records now wall
  rested _ := rested_init records now wall
  taken _ hr := le_foldr_max (List.mem_map_of_mem ((lastN_suffix _ _).subset hr))
  kept _ _ hq := nomatch hq

/-- The mail of a registration after an operation, from what it was or from nothing. -/
structure Mailed (env : Env) (n : Str) (h : Hub) (op : Op F) (q' : Participant) (b : Mail)
    (as : List Act) : Prop where
  before : (∃ q, h.box? n = some q ∧ q.mail = b) ∨ b = emptyMail env n
  mail : q'.mail = b.play env.config as
  put : as.flatMap Act.msgs = [] ∨
    (as.flatMap Act.msgs = prescribed env h op n ∧ FollowsAll env.config h.msgCounter b as) ∨
      as = (overheardBacklog env n h.recent).map .overhear
  ids : ∀ m ∈ as.flatMap Act.msgs, m.id ≤ (h.step env op).msgCounter
  frames : q'.isObserver = false → newFrames n h (h.step env op) = b.playFrames env.config as

/-- What is put in is a copy the operation creates, or the backlog. -/
theorem Mailed.source {op : Op F} {q' : Participant} {b : Mail} {as : List Act}
    (hm : Mailed env n h op q' b as) : ∀ m ∈ as.flatMap Act.msgs,
      m ∈ prescribed env h op n ∨ m ∈ overheardBacklog env n h.recent := by
  intro m hmem
  rcases hm.put with hnone | ⟨hcopies, -⟩ | rfl
  · rw [hnone] at hmem
    cases hmem
  · rw [hcopies] at hmem
    exact Or.inl hmem
  · rw [msgs_overhears] at hmem
    exact Or.inr hmem

/-- **What an operation does to the mail of a registration.** -/
theorem mailed (hr : h.Ready) (op : Op F) {q' : Participant}
    (hq' : (h.step env op).box? n = some q') : ∃ b as, Mailed env n h op q' b as := by
  cases fate_step env hr.wf op n with
  | kept hp =>
    cases hbox : h.box? n with
    | none =>
      rw [(hp.absent hbox).1] at hq'
      cases hq'
    | some q =>
      obtain ⟨as, q₁, hq₁, -, hkind, hmsgs, hmail, hdel, hfol⟩ := hp.acts q hbox
      rw [hq₁, Option.some.injEq] at hq'
      subst hq'
      have hobs : q₁.isObserver = q.isObserver := isObserver_of_kind hkind
      cases hq : q.isObserver with
      | true =>
        have hnone : prescribed env h op n = [] := by
          cases hlive : h.get? n with
          | none => exact prescribed_away hlive op
          | some p =>
            rw [box?_of_get? hlive, Option.some.injEq] at hbox
            subst hbox
            exact prescribed_observer hlive hq op
        rw [hnone] at hmsgs
        exact ⟨q.mail, as, Or.inl ⟨q, hbox, rfl⟩, hmail, Or.inl hmsgs, by simp [hmsgs],
          fun h => absurd (hobs.symm.trans h) (by rw [hq]; decide)⟩
      | false =>
        obtain ⟨hfollows, hraise⟩ := hfol hq (hr.rested n)
        exact ⟨q.mail, as, Or.inl ⟨q, hbox, rfl⟩, hmail, Or.inr (Or.inl ⟨hmsgs, hfollows⟩),
          fun m hm => (msgs_le_raise.1 m hm).trans hraise, fun _ => newFrames_eq (hdel hq)⟩
  | expired _ he =>
    rw [he.gone] at hq'
    cases hq'
  | reclaimed f q name _ found hrec =>
    subst name
    obtain ⟨as, q₁, hq₁, -, -, has, hmail, hdel⟩ := hrec.acts
    rw [box?_of_get? hq₁, Option.some.injEq] at hq'
    subst hq'
    have hno : as.flatMap Act.msgs = [] := by
      rcases has with rfl | ⟨rfl, -⟩ <;> rfl
    refine ⟨q.mail, as, Or.inl ⟨q, found, rfl⟩, hmail, Or.inl hno, by simp [hno],
      fun hobs => newFrames_eq ?_⟩
    rw [hdel, backlogFrames_agent hobs, List.nil_append]
  | joined f name _ _ hj =>
    subst name
    obtain ⟨q₁, hq₁, -, -, hmail, hdel⟩ := hj.acts
    rw [box?_of_get? hq₁, Option.some.injEq] at hq'
    subst hq'
    cases hobs : q₁.isObserver with
    | true =>
      rw [hobs, if_pos rfl] at hmail
      exact ⟨emptyMail env f.name, [], Or.inr rfl, hmail, Or.inl rfl, fun m hm => (nomatch hm),
        fun h => absurd (hobs.symm.trans h) (by decide)⟩
    | false =>
      rw [hobs, if_neg Bool.false_ne_true] at hmail
      refine ⟨emptyMail env f.name, _, Or.inr rfl, hmail, Or.inr (Or.inr rfl), fun m hm => ?_,
        fun _ => newFrames_eq ?_⟩
      · rw [msgs_overhears] at hm
        obtain ⟨r, hrec, hid⟩ := List.mem_map.mp
          ((ids_overheardBacklog env f.name h.recent).subset (List.mem_map_of_mem hm))
        rw [← hid]
        exact (hr.taken r hrec).trans hj.counter
      · rw [hdel, backlogFrames_agent hobs, playFrames_overhears]

theorem Ready.step (hr : h.Ready) (op : Op F) : (h.step env op).Ready := by
  have hrem := remembers_step env hr.wf op
  refine ⟨hr.wf.step env op, fun n => rested_step hr.wf (hr.rested n) op, fun r hrec => ?_,
    fun n q' hq' => ?_⟩
  · rw [hrem.recent] at hrec
    rcases mem_recentAfter env hrec with hrec | hrec
    · exact (hr.taken r hrec).trans hrem.counter
    · exact (hrem.fresh r hrec).2
  · obtain ⟨b, as, hm⟩ := mailed hr op hq'
    have hb : b.All fun m => m.id ≤ (h.step env op).msgCounter := by
      rcases hm.before with ⟨q, hq, rfl⟩ | rfl
      · exact fun m hmem => (hr.kept n q hq m hmem).trans hrem.counter
      · exact fun m hmem => nomatch hmem
    rw [hm.mail]
    exact (All.play env.config hb (fun _ => Nat.zero_le _) (fun _ => Nat.zero_le _) as hm.ids).1

/-- Who is not registered is handed nothing. -/
theorem newFrames_absent (hr : h.Ready) (op : Op F) (hq' : (h.step env op).box? n = none) :
    newFrames n h (h.step env op) = [] := by
  have hsame : deliveries n (h.step env op).wire.log = deliveries n h.wire.log := by
    cases fate_step env hr.wf op n with
    | kept hp =>
      cases hbox : h.box? n with
      | none => exact (hp.absent hbox).2.2
      | some q =>
        obtain ⟨as, q₁, hq₁, -⟩ := hp.acts q hbox
        rw [hq₁] at hq'
        cases hq'
    | expired _ he => exact he.delivered
    | reclaimed f q name _ _ hrec =>
      subst name
      obtain ⟨as, q₁, hq₁, -⟩ := hrec.acts
      rw [box?_of_get? hq₁] at hq'
      cases hq'
    | joined f name _ _ hj =>
      subst name
      obtain ⟨q₁, hq₁, -⟩ := hj.acts
      rw [box?_of_get? hq₁] at hq'
      cases hq'
  exact newFrames_eq (by rw [hsame, List.append_nil])

end

end Hub

end Moot
