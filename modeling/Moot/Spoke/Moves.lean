import Moot.Spoke.Tui

/-!
# The numbers of the seat

What the threads of the full-screen seat do to the frames that are sent, to their
numbers, and to the says that wait for an answer (`Core`).

Proved here: `act_moves` and the `hear_` lemmas, what a step of either thread does to
them; `Move.counted`, no number is taken twice, and `Move.waits`, a say waits from its
composition to its answer.
-/

namespace Moot.Spoke
open Py PyJson Proto

/-! ## What the steps do to the numbers -/

/-- What the screen shows of the answers of the hub: a say that was taken, or an `err`. -/
inductive Verdict (F : Type)
  | said (e : Echo) (queued : Int) (id : Option Int)
  | refused (frame : Obj F)

section
variable {F : Type}

def Drawn.verdict : Drawn F → Option (Verdict F)
  | .echo e queued id => some (.said e queued id)
  | .frame f => if kindOf f = str "err" then some (.refused f) else none
  | _ => none

/-- What the exchange with the hub turns on: the frames that are sent and those of the line that still
are to be, the says that wait for an answer, the numbers, and what is shown of the answers. -/
structure Core (F : Type) where
  sent : List (Obj F)
  rest : List (Obj F)
  pending : Dict Int Echo
  seq : Int
  pollSeq : Int
  verdicts : List (Verdict F)

def Tui.core (s : Tui F) : Core F :=
  ⟨s.sent, s.rest, s.pending, s.console.seq, s.pollSeq, s.screen.filterMap Drawn.verdict⟩

/-- What a step may do that hears no answer. -/
inductive Move (x : Core F) : Core F → Prop
  | stay : Move x x
  | give (frame : Obj F) (hspeaks : Speaks frame) (hseq : seqOf frame = none)
      (hecho : echoOf frame = none) : Move x { x with sent := x.sent ++ [frame] }
  | poll (up : Bool) : Move x
      { x with
        pollSeq := x.pollSeq - 1
        sent := if up then x.sent ++ [rosterQuery (x.pollSeq - 1)] else x.sent }
  | send (frame : Obj F) (rest : List (Obj F)) (h : x.rest = frame :: rest) :
    Move x { x with sent := x.sent ++ [frame], rest := rest }
  | waste (seq : Int) (h : x.seq ≤ seq) : Move x { x with seq := seq }
  | compose (seq : Int) (out : Outgoing F) (hrest : x.rest = []) (h : Numbered x.seq seq out) :
    Move x { x with seq := seq, pending := updated x.pending out.echo, rest := out.frames }

theorem Numbered.le {seq seq' : Int} {out : Outgoing F} (h : Numbered seq seq' out) : seq ≤ seq' := by
  obtain ⟨k, rfl, -⟩ := h.numbers
  omega

namespace Tui

variable {s : Tui F}

theorem core_draw {d : Drawn F} (hd : d.verdict = none) : (s.draw d).core = s.core := by
  simp [core, draw, hd]

@[simp] theorem core_setSeat (s : Tui F) (seat : Seat F) : (s.setSeat seat).core = s.core := rfl

@[simp] theorem core_hangUp (s : Tui F) (failed : Bool) : (s.hangUp failed).core = s.core := by
  unfold hangUp
  simp only
  split
  · rfl
  · exact core_draw rfl

theorem move_give {frame : Obj F} (hspeaks : Speaks frame) (hseq : seqOf frame = none)
    (hecho : echoOf frame = none) : Move s.core (s.give frame).core :=
  .give frame hspeaks hseq hecho

theorem core_remember (s : Tui F) (text : Str) (kept : Bool) : (s.remember text kept).core = s.core := by
  unfold remember
  split
  · rfl
  · split
    · rfl
    · exact core_draw rfl

theorem move_poll (up : Bool) : Move s.core (s.poll up).core := by
  unfold poll
  split
  · exact .stay
  · have hmove := Move.poll (x := s.core) up
    cases up with
    | false => exact hmove
    | true => exact hmove

theorem move_round (r : Round) : Move s.core (s.round r).core := by
  have hpolled : ∀ (b : Bool) (s' : Tui F), s'.core = s.core →
      Move s.core (if b then s'.poll r.up else s').core := by
    intro b s' hs'
    rw [← hs']
    split
    · exact move_poll r.up
    · exact .stay
  unfold round
  simp only
  split
  · exact hpolled _ _ rfl
  · split
    · exact .stay
    · exact hpolled _ _ rfl
    · split
      · exact hpolled _ _ rfl
      · exact hpolled _ _ rfl

/-- A line leaves the editor, and its frames wait to be sent. -/
theorem move_submit {out : Outgoing F} {seq : Int} (h : Numbered seq s.console.seq out)
    (hle : seq ≤ s.console.seq) (hrest : s.rest = []) (kept : Bool) :
    Move { s.core with seq := seq } (s.submit out kept).core := by
  have hleft : ∀ s' : Tui F, s'.core = s.core →
      Move { s.core with seq := seq } (if out.frames.isEmpty = true then s'
        else if s'.closed = true then s'.draw .hubGone
        else { s' with pending := updated s'.pending out.echo, rest := out.frames }).core := by
    intro s' hs'
    split
    · rw [hs']
      exact .waste _ hle
    · split
      · rw [core_draw rfl, hs']
        exact .waste _ hle
      · have hcore : core { s' with pending := updated s'.pending out.echo, rest := out.frames } =
            { s'.core with pending := updated s'.core.pending out.echo, rest := out.frames } := rfl
        rw [hcore, hs']
        exact .compose (x := { s.core with seq := seq }) _ out hrest h
  unfold submit
  simp only
  apply hleft
  have hkept := core_remember { s with editor := s.editor.submit.2 } s.editor.submit.1 kept
  have hignored : ∀ s' : Tui F, s'.core = s.core →
      (if out.ignored = true then s'.draw (.ignored s.editor.submit.1) else s').core = s.core := by
    intro s' hs'
    split
    · rw [core_draw rfl, hs']
    · exact hs'
  split
  · rw [core_draw rfl]
    exact hignored _ hkept
  · exact hignored _ hkept

variable [PyFloat F] {desk : Desk}

theorem move_enter (hrest : s.rest = []) (rows : Nat) (today : List (Obj F)) (kept : Bool) :
    Move s.core (s.enter desk rows today kept).core := by
  unfold enter
  split
  · exact .stay
  · split
    · exact .stay
    · next out console hout =>
      obtain ⟨hconsole, hnum⟩ := counts_buildOutgoing _ _ _ hout
      have hwaste : Move s.core { s.core with seq := console.seq } := .waste _ hnum.le
      simp only
      split
      · rw [core_draw rfl]
        exact hwaste
      · split
        · exact hwaste
        · rw [core_draw rfl]
          exact hwaste
        · exact move_submit (s := { s with console := console }) hnum hnum.le hrest kept

theorem move_press (hrest : s.rest = []) (rows : Nat) (today : List (Obj F)) (kept : Bool) :
    Move s.core (s.press desk rows today kept).core := by
  unfold press
  split
  · exact .stay
  · next keys _ => exact move_enter (s := { s with keys := keys }) hrest rows today kept
  · simp only
    split
    · exact .stay
    · exact .stay

/-- **A step of the seat** that reads nothing. -/
theorem act_moves (s : Tui F) (a : Act F) : Move s.core (s.act desk a).core := by
  cases a with
  | round r =>
    unfold act
    simp only
    split
    · exact move_round r
    · exact .stay
  | press rows today kept =>
    unfold act
    simp only
    split
    · next h => exact move_press (List.isEmpty_iff.mp h.2.2) rows today kept
    · exact .stay
  | send up =>
    unfold act
    simp only
    split
    · next frame rest _ hrest =>
      split
      · exact .send frame rest hrest
      · exact .stay
    · exact .stay
  | leave up =>
    unfold act
    simp only
    split
    · split
      · exact move_give (s := { s with phase := .over }) .bye rfl rfl
      · exact .stay
    · exact .stay
  | crash => exact .stay
  | wake =>
    unfold act
    simp only
    split
    · exact .stay
    · exact .stay
  | eof failed =>
    show Move s.core (s.eof failed).core
    unfold eof
    split
    · exact .stay
    · split
      · rw [core_hangUp]
        exact .stay
      · exact .stay

end Tui

end

/-! ## What the frames do to the numbers -/

namespace Tui

section
variable {F : Type} (s : Tui F) {frame : Obj F} (now : F) (fine : Bool)

theorem core_greeted : (s.greeted frame fine).core = s.core := by
  unfold greeted
  split
  · split
    · rfl
    · split
      · exact core_draw (s := s.setSeat _) rfl
      · rfl
  · rfl

theorem core_observing {d : Drawn F} (hd : d.verdict = none) : (s.observing frame d fine).core = s.core := by
  unfold observing
  split
  · exact core_hangUp s true
  · split
    · exact core_draw hd
    · exact core_hangUp _ true

variable {s}

theorem listens_hangUp (hphase : s.phase ≠ .greeting) (failed : Bool) : (s.hangUp failed).listens = false := by
  unfold hangUp
  simp only
  split
  · simp [listens, hphase]
  · simp [listens, draw, hphase]

theorem listens_fail (hreading : s.reading = false) : s.fail.listens = false := by
  simp [listens, fail, hreading]

/-- A frame that is no answer, no ping and no error. -/
theorem hear_plain (hping : kindOf frame ≠ str "ping") (hok : kindOf frame ≠ str "ok")
    (herr : kindOf frame ≠ str "err") : (s.hear frame now fine).core = s.core := by
  have hdrawn : (Drawn.frame frame).verdict = none := if_neg herr
  unfold hear
  simp only [if_neg hping, if_neg hok, if_neg herr]
  split
  · exact core_observing s fine rfl
  · exact core_observing s fine hdrawn

theorem hear_ping (hping : kindOf frame = str "ping") : Move s.core (s.hear frame now fine).core := by
  unfold hear
  simp only [if_pos hping]
  split
  · exact move_give .pong rfl rfl
  · rw [core_hangUp]
    exact .stay

theorem hear_ok (hok : kindOf frame = str "ok") : s.hear frame now fine = s.acknowledged frame now fine := by
  have hping : kindOf frame ≠ str "ping" := by rw [hok]; decide
  unfold hear
  simp only [if_neg hping, if_pos hok]

/-- The echo of a say that was waiting. -/
theorem core_acknowledged {seq : Int} {e : Echo} (hseq : pyInt? (field frame "seq") = some seq)
    (he : s.pending.get? seq = some e) (hphase : s.phase ≠ .greeting) :
    ∃ shown, (s.acknowledged frame now fine).core = { s.core with
        pending := s.pending.erase seq, verdicts := s.core.verdicts ++ shown } ∧
      (shown = [.said e ((pyInt? (field frame "queued")).getD 0) (msgId frame)] ∨
        shown = [] ∧ (s.acknowledged frame now fine).listens = false) := by
  unfold acknowledged
  simp only [hseq, he]
  cases fine with
  | true =>
    refine ⟨_, ?_, .inl rfl⟩
    cases hid : msgId frame with
    | none => simp [recordOwn, core, draw, popped, Drawn.verdict]
    | some id => simp [recordOwn, core, draw, popped, setSeat, Drawn.verdict]
  | false =>
    refine ⟨[], ?_, .inr ⟨rfl, listens_hangUp (by exact hphase) true⟩⟩
    rw [if_neg Bool.false_ne_true, core_hangUp, List.append_nil]
    rfl

/-- An error ends the wait, and is shown. -/
theorem hear_err (herr : kindOf frame = str "err") (hphase : s.phase ≠ .greeting) :
    ∃ shown, (s.hear frame now fine).core = { s.core with
        pending := (s.popped (pyInt? (field frame "seq"))).pending
        verdicts := s.core.verdicts ++ shown } ∧
      (shown = [.refused frame] ∨ shown = [] ∧ (s.hear frame now fine).listens = false) := by
  have hping : kindOf frame ≠ str "ping" := by rw [herr]; decide
  have hok : kindOf frame ≠ str "ok" := by rw [herr]; decide
  have hroster : kindOf frame ≠ str "roster" := by rw [herr]; decide
  have ht : field frame "t" = some (.str (str "err")) := by
    unfold kindOf at herr
    split at herr
    · next t heq => rw [heq, herr]
    · cases herr
  have hseat : ∀ seat : Seat F, seat.observe frame = some seat := by
    intro seat
    unfold Seat.observe
    rw [ht]
    rfl
  generalize hseq : pyInt? (field frame "seq") = seq
  have hcore : (s.popped seq).core = { s.core with pending := (s.popped seq).pending } := by
    cases seq <;> rfl
  have hphase' : ((s.popped seq).setSeat (s.popped seq).console.seat).phase ≠ .greeting := by
    cases seq <;> exact hphase
  have hheard : s.hear frame now fine = (s.popped seq).observing frame (.frame frame) fine := by
    unfold hear
    simp only [if_neg hping, if_neg hok, if_pos herr, hroster, false_and, if_false, hseq]
  rw [hheard]
  unfold observing
  rw [hseat]
  simp only
  cases fine with
  | true =>
    refine ⟨[.refused frame], ?_, .inl rfl⟩
    have hshown : (Drawn.frame frame).verdict = some (.refused frame) := if_pos herr
    have hdrawn : (((s.popped seq).setSeat (s.popped seq).console.seat).draw (.frame frame)).core =
        { (s.popped seq).core with verdicts := (s.popped seq).core.verdicts ++ [.refused frame] } := by
      simp [core, draw, setSeat, hshown]
    rw [if_pos rfl, hdrawn, hcore]
  | false =>
    refine ⟨[], ?_, .inr ⟨rfl, listens_hangUp hphase' true⟩⟩
    rw [if_neg Bool.false_ne_true, core_hangUp, core_setSeat, hcore, List.append_nil]

/-! ### Before the welcome -/

/-- The seat has been welcomed, as far as it can be told. -/
def Joined (s : Tui F) : Prop :=
  s.phase = .looping ∨ s.reading = true ∨ s.sent.length + s.rest.length ≠ 1

/-- The threads stay where they are, or end. -/
def Stays (s s' : Tui F) : Prop :=
  (s'.phase = s.phase ∨ s'.phase = .over) ∧ (s'.reading = true → s.reading = true)

theorem stays_of_eq {s' : Tui F} (hphase : s'.phase = s.phase) (hreading : s'.reading = s.reading) :
    s.Stays s' := ⟨.inl hphase, fun h => hreading.symm.trans h⟩

theorem stays_fail : s.Stays s.fail := ⟨.inr rfl, id⟩

theorem stays_hangUp (failed : Bool) : s.Stays (s.hangUp failed) := by
  unfold hangUp
  simp only
  split
  · exact ⟨.inl rfl, nofun⟩
  · exact ⟨.inl rfl, nofun⟩

theorem stays_round (r : Round) : s.Stays (s.round r) := by
  have hpolled : ∀ (b : Bool) (s' : Tui F), s'.phase = s.phase → s'.reading = s.reading →
      s.Stays (if b then s'.poll r.up else s') := by
    intro b s' hphase hreading
    unfold poll
    simp only
    split_ifs
    all_goals exact stays_of_eq hphase hreading
  unfold round
  simp only
  split
  · exact hpolled _ _ rfl rfl
  · split
    · exact stays_of_eq rfl rfl
    · exact hpolled _ _ rfl rfl
    · split
      · exact hpolled _ _ rfl rfl
      · exact hpolled _ _ rfl rfl

theorem stays_submit (out : Outgoing F) (kept : Bool) : s.Stays (s.submit out kept) := by
  have hremember : ∀ (s' : Tui F) (text : Str), (s'.remember text kept).phase = s'.phase ∧
      (s'.remember text kept).reading = s'.reading := by
    intro s' text
    unfold remember
    split_ifs
    all_goals exact ⟨rfl, rfl⟩
  obtain ⟨hphase, hreading⟩ := hremember { s with editor := s.editor.submit.2 } s.editor.submit.1
  unfold submit
  simp only
  cases out.shown with
  | none =>
    simp only
    split_ifs
    all_goals exact stays_of_eq hphase hreading
  | some shown =>
    simp only
    split_ifs
    all_goals exact stays_of_eq hphase hreading

theorem stays_press [PyFloat F] {desk : Desk} (rows : Nat) (today : List (Obj F)) (kept : Bool) :
    s.Stays (s.press desk rows today kept) := by
  have henter : ∀ keys, s.Stays ({ s with keys := keys }.enter desk rows today kept) := by
    intro keys
    unfold enter
    split
    · exact stays_of_eq rfl rfl
    · split
      · exact stays_fail
      · next out console _ =>
        simp only
        split
        · exact stays_of_eq rfl rfl
        · split
          · exact stays_fail
          · exact stays_of_eq rfl rfl
          · exact stays_submit (s := { s with keys := keys, console := console }) out kept
  unfold press
  split
  · exact stays_of_eq rfl rfl
  · exact henter _
  · simp only
    split
    · exact stays_of_eq rfl rfl
    · exact stays_of_eq rfl rfl

theorem stays_act [PyFloat F] (desk : Desk) (a : Act F) : s.Stays (s.act desk a) := by
  have hstay : s.Stays s := stays_of_eq rfl rfl
  cases a with
  | round r =>
    unfold act
    simp only
    split
    · exact stays_round r
    · exact hstay
  | press rows today kept =>
    unfold act
    simp only
    split
    · exact stays_press rows today kept
    · exact hstay
  | send up =>
    unfold act
    simp only
    split
    · split
      · exact stays_of_eq rfl rfl
      · exact stays_fail
    · exact hstay
  | leave up =>
    unfold act
    simp only
    split
    · split
      · exact ⟨.inr rfl, id⟩
      · exact stays_fail
    · exact hstay
  | crash => exact stays_fail
  | wake =>
    unfold act
    simp only
    split
    · exact stays_of_eq rfl rfl
    · exact hstay
  | eof failed =>
    unfold act eof
    simp only
    split
    · exact stays_fail
    · split
      · exact stays_hangUp failed
      · exact hstay

theorem Stays.listens {s' : Tui F} (h : s.Stays s') (hl : s'.listens = true) : s.listens = true := by
  simp only [Tui.listens, Bool.or_eq_true, decide_eq_true_eq] at hl ⊢
  rcases hl with hphase | hreading
  · rcases h.1 with heq | heq
    · exact .inl (heq.symm.trans hphase)
    · cases heq.symm.trans hphase
  · exact .inr (h.2 hreading)

/-- Out of its loop the main thread sends nothing. -/
theorem act_elsewhere [PyFloat F] (desk : Desk) (hphase : s.phase ≠ .looping) (a : Act F) :
    (s.act desk a).sent = s.sent ∧ (s.act desk a).rest = s.rest := by
  cases a with
  | round r => simp only [act, hphase, false_and, if_false, and_self]
  | press rows today kept => simp only [act, hphase, false_and, if_false, and_self]
  | send up =>
    unfold act
    simp only
    split
    · next h _ => exact absurd h hphase
    · exact ⟨rfl, rfl⟩
  | leave up => simp only [act, hphase, false_and, if_false, and_self]
  | crash => exact ⟨rfl, rfl⟩
  | wake =>
    unfold act
    simp only
    split
    · exact ⟨rfl, rfl⟩
    · exact ⟨rfl, rfl⟩
  | eof failed =>
    unfold act eof hangUp draw
    simp only
    split_ifs
    all_goals exact ⟨rfl, rfl⟩

theorem joined_act [PyFloat F] {desk : Desk} {a : Act F} (h : (s.act desk a).Joined) : s.Joined := by
  by_cases hphase : s.phase = .looping
  · exact .inl hphase
  · obtain ⟨hsent, hrest⟩ := act_elsewhere desk hphase a
    obtain ⟨hphase', hreading⟩ := stays_act (s := s) desk a
    unfold Joined at h
    rw [hsent, hrest] at h
    refine .inr (h.elim (fun h => ?_) (Or.imp_left hreading))
    rcases hphase' with heq | heq
    · exact absurd (heq.symm.trans h) hphase
    · cases heq.symm.trans h

/-- The first frame must be the welcome. -/
theorem joined_recv (h : (s.recv frame now fine).Joined) :
    s.Joined ∨ s.phase = .greeting ∧ kindOf frame = str "welcome" := by
  unfold recv at h
  split at h
  · next hphase =>
    by_cases hkind : kindOf frame = str "welcome"
    · exact .inr ⟨hphase, hkind⟩
    · unfold greeted at h
      rw [if_neg hkind] at h
      exact .inl (.inr (h.elim nofun id))
  · split at h
    · next hreading => exact .inl (.inr (.inl hreading))
    · exact .inl h

theorem phase_hangUp (failed : Bool) : (s.hangUp failed).phase = s.phase := by
  unfold hangUp
  simp only
  split <;> rfl

/-- Nothing leads back to the beginning. -/
theorem phase_recv (h : (s.recv frame now fine).phase = .greeting) : False := by
  have hplain : ∀ (d : Drawn F) (s' : Tui F), (s'.observing frame d fine).phase = s'.phase := by
    intro d s'
    unfold observing
    split
    · exact phase_hangUp true
    · split
      · rfl
      · exact phase_hangUp true
  unfold recv at h
  split at h
  · unfold greeted at h
    split at h
    · split at h
      · cases h
      · split at h
        · cases h
        · cases h
    · cases h
  · next hphase =>
    split at h
    · refine hphase (Eq.trans ?_ h)
      have hpopped : ∀ seq, (s.popped seq).phase = s.phase := fun seq => by cases seq <;> rfl
      have hown : ∀ (s' : Tui F) (e : Echo) (id : Option Int), (s'.recordOwn e now id).phase = s'.phase :=
        fun s' e id => by
          cases id with
          | none => rfl
          | some id => simp only [recordOwn, setSeat]
      unfold hear
      simp only
      split
      · split
        · rfl
        · exact (phase_hangUp true).symm
      · split
        · unfold acknowledged
          split
          · rfl
          · split
            · rfl
            · simp only
              split
              · rw [hown]
                rfl
              · rw [phase_hangUp]
                rfl
        · split
          · rw [hplain]
            split
            · exact (hpopped _).symm
            · rfl
          · rw [hplain]
            split
            · exact (hpopped _).symm
            · rfl
    · exact hphase h

end

end Tui

/-! ## No number is taken twice -/

section
variable {F : Type} {x y : Core F} {frame : Obj F} {i : Int} {e : Echo} {answered : List (Option Int)}

theorem seqOf_of_echoOf (h : echoOf frame = some (i, e)) : seqOf frame = some i := by
  unfold echoOf at h
  split at h
  · next t seq _ _ _ ht hseq _ _ _ =>
    split at h
    · next hsay =>
      rw [Option.some.injEq, Prod.mk.injEq] at h
      simp only [seqOf, ht, hseq, hsay, true_or, if_true, h.1]
    · cases h
  · cases h

/-- The frames are a seat's, and their numbers are distinct and below those that come next. -/
structure Core.Counted (x : Core F) : Prop where
  speaks : ∀ frame ∈ x.sent ++ x.rest, Speaks frame
  distinct : ((x.sent ++ x.rest).filterMap seqOf).Nodup
  within : ∀ i ∈ (x.sent ++ x.rest).filterMap seqOf, x.pollSeq ≤ i ∧ i ≤ x.seq
  around : x.pollSeq ≤ 0 ∧ 0 ≤ x.seq

/-- The says of the seat, with their numbers. -/
def Core.uttered (x : Core F) : List (Int × Echo) := (x.sent ++ x.rest).filterMap echoOf

/-- What waits are the says that have not been answered. -/
def Core.Waits (x : Core F) (answered : List (Option Int)) : Prop :=
  ∀ i e, x.pending.get? i = some e ↔ (i, e) ∈ x.uttered ∧ some i ∉ answered

theorem mem_uttered : (i, e) ∈ x.uttered ↔ ∃ frame ∈ x.sent ++ x.rest, echoOf frame = some (i, e) :=
  List.mem_filterMap

/-- Two frames under one number are one frame. -/
theorem Core.Counted.unique (hc : x.Counted) {f g : Obj F} (hf : f ∈ x.sent ++ x.rest)
    (hg : g ∈ x.sent ++ x.rest) (hfi : seqOf f = some i) (hgi : seqOf g = some i) : f = g := by
  by_contra hne
  have hpair := List.pairwise_filterMap.mp hc.distinct
  have hsymm : Std.Symm fun a b : Obj F => ∀ j, seqOf a = some j → ∀ j', seqOf b = some j' → j ≠ j' :=
    ⟨fun a b hab j hj j' hj' heq => hab j' hj' j hj heq.symm⟩
  exact hpair.forall hf hg hne i hfi i hgi rfl

theorem Move.sent (h : Move x y) : x.sent <+: y.sent := by
  cases h with
  | give frame _ _ _ => exact List.prefix_append ..
  | poll up =>
    cases up with
    | false => exact List.prefix_rfl
    | true => exact List.prefix_append ..
  | send frame rest _ => exact List.prefix_append ..
  | _ => exact List.prefix_rfl

theorem Move.verdicts (h : Move x y) : y.verdicts = x.verdicts := by
  cases h <;> rfl

/-- The numbers of a line are new. -/
theorem Numbered.fresh {seq seq' : Int} {out : Outgoing F} (h : Numbered seq seq' out)
    (hi : i ∈ out.frames.filterMap seqOf) : seq < i ∧ i ≤ seq' := by
  obtain ⟨k, rfl, hnumbers⟩ := h.numbers
  rw [hnumbers, List.mem_map] at hi
  obtain ⟨n, hn, rfl⟩ := hi
  rw [List.mem_range] at hn
  omega

theorem Numbered.distinct {seq seq' : Int} {out : Outgoing F} (h : Numbered seq seq' out) :
    (out.frames.filterMap seqOf).Nodup := by
  obtain ⟨k, -, hnumbers⟩ := h.numbers
  rw [hnumbers]
  exact List.nodup_range.map fun a b hab => by omega

theorem Move.counted (h : Move x y) (hc : x.Counted) : y.Counted := by
  cases h with
  | stay => exact hc
  | give frame hspeaks hseq hecho =>
    have hnumbers : ((x.sent ++ [frame]) ++ x.rest).filterMap seqOf = (x.sent ++ x.rest).filterMap seqOf := by
      simp [hseq]
    refine ⟨fun f hf => ?_, ?_, ?_, hc.around⟩
    · simp only [List.mem_append, List.mem_singleton] at hf
      rcases hf with (hf | rfl) | hf
      · exact hc.speaks f (List.mem_append_left _ hf)
      · exact hspeaks
      · exact hc.speaks f (List.mem_append_right _ hf)
    · rw [hnumbers]
      exact hc.distinct
    · rw [hnumbers]
      exact hc.within
  | poll up =>
    have hwithin : ∀ i ∈ (x.sent ++ x.rest).filterMap seqOf, x.pollSeq - 1 < i ∧ i ≤ x.seq := by
      intro i hi
      have := hc.within i hi
      omega
    have haround : x.pollSeq - 1 ≤ 0 ∧ 0 ≤ x.seq := by
      have := hc.around
      omega
    cases up with
    | false => exact ⟨hc.speaks, hc.distinct, fun i hi => ⟨(hwithin i hi).1.le, (hwithin i hi).2⟩, haround⟩
    | true =>
      have hperm : (((x.sent ++ [rosterQuery (x.pollSeq - 1)]) ++ x.rest).filterMap seqOf).Perm
          ((x.pollSeq - 1) :: (x.sent ++ x.rest).filterMap seqOf) := by
        have hnumber : [rosterQuery (F := F) (x.pollSeq - 1)].filterMap seqOf = [x.pollSeq - 1] := rfl
        rw [List.append_assoc, List.filterMap_append, List.filterMap_append, hnumber, List.filterMap_append]
        exact List.perm_middle
      refine ⟨fun f hf => ?_, hperm.nodup_iff.mpr (List.nodup_cons.mpr ⟨fun hmem => ?_, hc.distinct⟩),
        fun i hi => ?_, haround⟩
      · simp only [if_true, List.mem_append, List.mem_singleton] at hf
        rcases hf with (hf | rfl) | hf
        · exact hc.speaks f (List.mem_append_left _ hf)
        · exact .roster _
        · exact hc.speaks f (List.mem_append_right _ hf)
      · exact absurd (hwithin _ hmem).1 (lt_irrefl _)
      · rcases List.mem_cons.mp (hperm.subset hi) with rfl | hi
        · exact ⟨le_rfl, haround.1.trans haround.2⟩
        · exact ⟨(hwithin i hi).1.le, (hwithin i hi).2⟩
  | send frame rest hrest =>
    have hall : (x.sent ++ [frame]) ++ rest = x.sent ++ x.rest := by
      rw [hrest, List.append_assoc]
      rfl
    refine ⟨?_, ?_, ?_, hc.around⟩
    · rw [hall]
      exact hc.speaks
    · rw [hall]
      exact hc.distinct
    · rw [hall]
      exact hc.within
  | waste seq hle =>
    exact ⟨hc.speaks, hc.distinct, fun i hi => ⟨(hc.within i hi).1, (hc.within i hi).2.trans hle⟩,
      hc.around.1, hc.around.2.trans hle⟩
  | compose seq out hrest hnum =>
    have hsent : x.sent ++ x.rest = x.sent := by rw [hrest, List.append_nil]
    have hold : ∀ i ∈ x.sent.filterMap seqOf, x.pollSeq ≤ i ∧ i ≤ x.seq := by
      rw [← hsent]
      exact hc.within
    refine ⟨fun f hf => ?_, ?_, fun i hi => ?_, hc.around.1, hc.around.2.trans hnum.le⟩
    · rcases List.mem_append.mp hf with hf | hf
      · exact hc.speaks f (List.mem_append_left _ hf)
      · exact hnum.speaks f hf
    · rw [List.filterMap_append, List.nodup_append]
      refine ⟨by rw [← hsent]; exact hc.distinct, hnum.distinct, fun a ha b hb => ?_⟩
      have hle := (hold a ha).2
      have hlt := (hnum.fresh hb).1
      omega
    · rw [List.filterMap_append, List.mem_append] at hi
      rcases hi with hi | hi
      · exact ⟨(hold i hi).1, (hold i hi).2.trans hnum.le⟩
      · have hpos := hc.around
        have hnew := hnum.fresh hi
        show x.pollSeq ≤ i ∧ i ≤ seq
        omega

/-! ## A say waits for its answer -/

theorem get?_updated (pending echo : Dict Int Echo) (i : Int) :
    (updated pending echo).get? i = (echo.get? i).or (pending.get? i) :=
  Dict.get?_foldl_insert echo.nodup pending i

/-- What is composed waits from then on. -/
theorem Move.waits (h : Move x y) (hc : x.Counted) (hw : x.Waits answered)
    (hanswered : ∀ i, some i ∈ answered → i ∈ (x.sent ++ x.rest).filterMap seqOf) : y.Waits answered := by
  cases h with
  | stay => exact hw
  | give frame _ _ hecho =>
    have huttered : ((x.sent ++ [frame]) ++ x.rest).filterMap echoOf = x.uttered := by
      simp [Core.uttered, hecho]
    intro i e
    show _ ↔ (i, e) ∈ ((x.sent ++ [frame]) ++ x.rest).filterMap echoOf ∧ _
    rw [huttered]
    exact hw i e
  | poll up =>
    cases up with
    | false => exact hw
    | true =>
      have hecho : echoOf (rosterQuery (F := F) (x.pollSeq - 1)) = none := rfl
      have huttered : ((x.sent ++ [rosterQuery (x.pollSeq - 1)]) ++ x.rest).filterMap echoOf = x.uttered := by
        simp [Core.uttered, hecho]
      intro i e
      show _ ↔ (i, e) ∈ ((x.sent ++ [rosterQuery (x.pollSeq - 1)]) ++ x.rest).filterMap echoOf ∧ _
      rw [huttered]
      exact hw i e
  | send frame rest hrest =>
    have hall : (x.sent ++ [frame]) ++ rest = x.sent ++ x.rest := by
      rw [hrest, List.append_assoc]
      rfl
    intro i e
    show _ ↔ (i, e) ∈ ((x.sent ++ [frame]) ++ rest).filterMap echoOf ∧ _
    rw [hall]
    exact hw i e
  | waste seq hle => exact hw
  | compose seq out hrest hnum =>
    have huttered : x.uttered = x.sent.filterMap echoOf := by rw [Core.uttered, hrest, List.append_nil]
    have hold : ∀ i, i ∈ (x.sent ++ x.rest).filterMap seqOf → i ≤ x.seq := fun i hi => (hc.within i hi).2
    intro i e
    show (updated x.pending out.echo).get? i = some e ↔
      (i, e) ∈ (x.sent ++ out.frames).filterMap echoOf ∧ _
    rw [get?_updated, List.filterMap_append, List.mem_append, ← huttered, List.mem_filterMap (l := out.frames),
      ← hnum.echo i e]
    cases hnew : out.echo.get? i with
    | none =>
      rw [Option.none_or, hw i e]
      simp
    | some e' =>
      -- the number is new: it is neither on an older say nor in an answer
      obtain ⟨f, hf, hecho⟩ := (hnum.echo i e').mp hnew
      have hfresh := (hnum.fresh (List.mem_filterMap.mpr ⟨f, hf, seqOf_of_echoOf hecho⟩)).1
      have hnot : some i ∉ answered := fun hmem => absurd (hold i (hanswered i hmem)) (by omega)
      have hsay : (i, e) ∉ x.uttered := by
        intro hmem
        obtain ⟨g, hg, hgi⟩ := mem_uttered.mp hmem
        exact absurd (hold i (List.mem_filterMap.mpr ⟨g, hg, seqOf_of_echoOf hgi⟩)) (by omega)
      simp [hnot, hsay]

/-- An answer ends the wait. -/
theorem Core.Waits.answer (hw : x.Waits answered) (i : Int) (verdicts : List (Verdict F)) :
    ({ x with pending := x.pending.erase i, verdicts := verdicts } : Core F).Waits (answered ++ [some i]) := by
  intro j e
  show (x.pending.erase i).get? j = some e ↔ (j, e) ∈ x.uttered ∧ _
  rw [Dict.get?_erase]
  split
  · next hj => simp [hj]
  · next hj => simp [hw j e, hj]

/-- What answers no say ends no wait. -/
theorem Core.Waits.other (hw : x.Waits answered) {a : Option Int}
    (ha : ∀ i, a = some i → ∀ e, (i, e) ∉ x.uttered) : x.Waits (answered ++ [a]) := by
  intro i e
  rw [hw i e, List.mem_append, List.mem_singleton, not_or]
  constructor
  · rintro ⟨hsay, hnot⟩
    exact ⟨hsay, hnot, fun heq => ha i heq.symm e hsay⟩
  · rintro ⟨hsay, hnot, -⟩
    exact ⟨hsay, hnot⟩

end

end Moot.Spoke
