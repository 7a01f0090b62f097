import Moot.Hub.Ledger
import Moot.Lib.Strip

/-!
# The lines of `moot log`

`_deliver_line` of `cli/log.py` takes the ids of a deliver record apart again:
context is what the record lists as overheard, the wake is every id that is not
listed there.

Proved here, for every deliver record of every run: `deliverLine_accounts`, the
line tells the wake and the context of the frame exactly if the frame has not both
the note about dropped messages and an overheard line with the id 0.
-/

namespace Moot
open Py Proto

namespace Cli

/-- A deliver record, as it is read back; one from before `overheard` has none. -/
structure DeliverRec where
  recipient : Str
  round : Nat
  msgIds : List Nat
  overheard : Option (List Nat)
  ts : Rat

/-- What `_ids` shows of an id. -/
def idText (i : Nat) : Str := if i = 0 then str "sys" else str "#" ++ natStr i

/-- `_ids` -/
def idsText (ids : List Nat) : Str :=
  let s := join (str " ") (ids.map idText)
  if s.isEmpty then str "—" else s

section
variable (hhmmss : Rat → Str)

/-- The start of a line. -/
def deliverHead (rec : DeliverRec) : Str :=
  hhmmss rec.ts ++ str " [deliver r" ++ natStr rec.round ++ str "] → " ++ rec.recipient

/-- `_deliver_line` -/
def deliverLine (rec : DeliverRec) : Str :=
  let head := deliverHead hhmmss rec
  match rec.overheard with
  | none => head ++ str " · " ++ idsText rec.msgIds
  | some overheard =>
    let wake := rec.msgIds.filter fun i => i ∉ overheard
    let line := head ++ str " · wake " ++ idsText wake
    if overheard.isEmpty then line else line ++ str " · context " ++ idsText overheard

/-- The end of a line that lists `wake` and `context`. -/
def listing (wake context : List Nat) : Str :=
  str " · wake " ++ idsText wake ++
    if context.isEmpty then [] else str " · context " ++ idsText context

/-- The line lists the ids of the frame, each where it belongs and as often as it occurs. -/
def Accounts (rec : DeliverRec) (msgs : List Msg) : Prop :=
  ∃ wake context, deliverLine hhmmss rec = deliverHead hhmmss rec ++ listing wake context ∧
    wake.Perm ((msgs.filter (·.addressing ≠ some .overheard)).map Msg.id) ∧
      context.Perm ((msgs.filter (·.addressing = some .overheard)).map Msg.id)

end

/-! ## Reading a line back -/

theorem idText_plain (i : Nat) {p : CodePoint} (hp : p ∈ idText i) :
    p ≠ .scalar ' ' ∧ p ≠ .scalar '·' := by
  unfold idText at hp
  split at hp
  · have hall : ∀ p ∈ str "sys", p ≠ .scalar ' ' ∧ p ≠ .scalar '·' := by decide
    exact hall p hp
  · rcases List.mem_append.mp hp with hp | hp
    · have hall : ∀ p ∈ str "#", p ≠ .scalar ' ' ∧ p ≠ .scalar '·' := by decide
      exact hall p hp
    · obtain ⟨c, hc, rfl⟩ := List.mem_map.mp hp
      have hdigit : c.isDigit = true := Nat.isDigit_of_mem_toDigits (by omega) (by omega) hc
      constructor
      · rintro ⟨⟩
        exact absurd hdigit (by decide)
      · rintro ⟨⟩
        exact absurd hdigit (by decide)

theorem idText_head (i : Nat) :
    (idText i).head? = some (.scalar 's') ∨ (idText i).head? = some (.scalar '#') := by
  unfold idText
  split
  · exact Or.inl rfl
  · exact Or.inr rfl

theorem idText_ne_nil (i : Nat) : idText i ≠ [] := by
  intro h
  rcases idText_head i with hhead | hhead
  · rw [h] at hhead
    cases hhead
  · rw [h] at hhead
    cases hhead

theorem idText_inj {i j : Nat} (h : idText i = idText j) : i = j := by
  have hhash : ∀ k : Nat, str "sys" ≠ str "#" ++ natStr k := fun k heq => by
    have hhead : some (CodePoint.scalar 's') = some (.scalar '#') := congrArg List.head? heq
    exact absurd hhead (by decide)
  unfold idText at h
  split at h
  · split at h
    · omega
    · exact absurd h (hhash j)
  · split at h
    · exact absurd h.symm (hhash i)
    · exact natStr_inj (List.append_cancel_left h)

theorem idsText_cons (i : Nat) (is : List Nat) :
    idsText (i :: is) = join (str " ") ((i :: is).map idText) := by
  have hne : join (str " ") ((i :: is).map idText) ≠ [] := by
    cases is with
    | nil => exact idText_ne_nil i
    | cons j is =>
      intro h
      exact idText_ne_nil i (List.append_eq_nil_iff.mp (List.append_eq_nil_iff.mp h).1).1
  unfold idsText
  simp only
  rw [if_neg (by simpa using hne)]

theorem idsText_plain (is : List Nat) : CodePoint.scalar '·' ∉ idsText is := by
  cases is with
  | nil => decide
  | cons i is =>
    rw [idsText_cons]
    generalize i :: is = js
    induction js with
    | nil => exact List.not_mem_nil
    | cons j js ih =>
      have hfirst : CodePoint.scalar '·' ∉ idText j := fun h => (idText_plain j h).2 rfl
      cases js with
      | nil => exact hfirst
      | cons k js =>
        intro h
        rcases List.mem_append.mp h with h | h
        · rcases List.mem_append.mp h with h | h
          · exact hfirst h
          · exact absurd h (by decide)
        · exact ih h

/-- The ids can be read back. -/
theorem idsText_inj {is js : List Nat} (h : idsText is = idsText js) : is = js := by
  have hdash : ∀ (k : Nat) (ks : List Nat), str "—" ≠ idsText (k :: ks) := by
    intro k ks heq
    have hhead : (idsText (k :: ks)).head? = (idText k).head? := by
      rw [idsText_cons]
      cases ks with
      | nil => rfl
      | cons j ks =>
        rw [List.map_cons, List.map_cons, join, List.append_assoc,
          List.head?_append_of_ne_nil _ (idText_ne_nil k)]
    rw [← heq] at hhead
    rcases idText_head k with hfirst | hfirst
    · rw [hfirst] at hhead
      exact absurd hhead (by decide)
    · rw [hfirst] at hhead
      exact absurd hhead (by decide)
  cases is with
  | nil =>
    cases js with
    | nil => rfl
    | cons j js => exact absurd h (hdash j js)
  | cons i is =>
    cases js with
    | nil => exact absurd h.symm (hdash i is)
    | cons j js =>
      rw [idsText_cons, idsText_cons] at h
      have hspace : ∀ ks : List Nat, ∀ s ∈ ks.map idText, CodePoint.scalar ' ' ∉ s := by
        intro ks s hs hmem
        obtain ⟨k, -, rfl⟩ := List.mem_map.mp hs
        exact (idText_plain k hmem).1 rfl
      have htexts := join_inj (hspace _) (hspace _) (by simp) (by simp) h
      exact List.map_injective_iff.mpr (fun _ _ => idText_inj) htexts

/-- The two lists of a line can be read back. -/
theorem listing_inj {wake wake' context context' : List Nat}
    (h : listing wake context = listing wake' context') : wake = wake' ∧ context = context' := by
  unfold listing at h
  rw [List.append_assoc, List.append_assoc] at h
  have h := List.append_cancel_left h
  have hcontext : str " · context " = str " " ++ .scalar '·' :: str " context " := by decide
  -- the dot before the context is the first one
  have hdot : ∀ (is js : List Nat), CodePoint.scalar '·' ∈ idsText is ++
      (str " · context " ++ idsText js) := by
    intro is js
    rw [hcontext]
    simp
  have hwake : ∀ is : List Nat, CodePoint.scalar '·' ∉ idsText is ++ str " " := by
    intro is hmem
    rcases List.mem_append.mp hmem with hmem | hmem
    · exact idsText_plain is hmem
    · exact absurd hmem (by decide)
  cases context with
  | nil =>
    cases context' with
    | nil =>
      simp only [List.isEmpty_nil, if_true, List.append_nil] at h
      exact ⟨idsText_inj h, rfl⟩
    | cons j js =>
      simp only [List.isEmpty_nil, List.isEmpty_cons, if_true, Bool.false_eq_true, if_false,
        List.append_nil] at h
      exact absurd (by rw [h]; exact hdot wake' (j :: js)) (idsText_plain wake)
  | cons i is =>
    cases context' with
    | nil =>
      simp only [List.isEmpty_nil, List.isEmpty_cons, if_true, Bool.false_eq_true, if_false,
        List.append_nil] at h
      exact absurd (by rw [← h]; exact hdot wake (i :: is)) (idsText_plain wake')
    | cons j js =>
      simp only [List.isEmpty_cons, Bool.false_eq_true, if_false, hcontext] at h
      have hcut : (idsText wake ++ str " ") ++ .scalar '·' :: (str " context " ++ idsText (i :: is)) =
          (idsText wake' ++ str " ") ++ .scalar '·' :: (str " context " ++ idsText (j :: js)) := by
        simpa using h
      obtain ⟨hleft, hright⟩ := append_sep_inj (hwake wake) (hwake wake') hcut
      exact ⟨idsText_inj (List.append_cancel_right hleft),
        idsText_inj (List.append_cancel_left hright)⟩

/-! ## What a line accounts for -/

section
variable {hhmmss : Rat → Str}

/-- The line lists what `_deliver_line` takes apart. -/
theorem deliverLine_eq (n : Str) (round : Nat) (ids overheard : List Nat) (ts : Rat) :
    deliverLine hhmmss ⟨n, round, ids, some overheard, ts⟩ =
      deliverHead hhmmss ⟨n, round, ids, some overheard, ts⟩ ++
        listing (ids.filter fun i => i ∉ overheard) overheard := by
  unfold deliverLine listing
  simp only
  split
  · rw [List.append_nil, List.append_assoc]
  · simp only [List.append_assoc]

/-- The ids of a wake are what is left without the context, if no wake has the id of an overheard
line. -/
theorem accounts_iff (n : Str) (round : Nat) (ts : Rat) (msgs : List Msg) :
    Accounts hhmmss ⟨n, round, msgs.map Msg.id,
        some ((msgs.filter (·.addressing = some .overheard)).map Msg.id), ts⟩ msgs ↔
      ∀ a ∈ msgs, ∀ b ∈ msgs, a.addressing = some .overheard → b.addressing ≠ some .overheard →
        a.id ≠ b.id := by
  constructor
  · rintro ⟨wake, context, hline, hwake, -⟩ a ha b hb hheard hnot hid
    rw [deliverLine_eq] at hline
    obtain ⟨hsplit, -⟩ := listing_inj (List.append_cancel_left hline)
    -- the id of `b` is in the wake, but the line has taken it for context
    have hin : b.id ∈ wake := hwake.mem_iff.mpr
      (List.mem_map_of_mem (List.mem_filter.mpr ⟨hb, by simpa using hnot⟩))
    rw [← hsplit, List.mem_filter, ← hid] at hin
    have hover : a.id ∈ (msgs.filter (·.addressing = some .overheard)).map Msg.id :=
      List.mem_map_of_mem (List.mem_filter.mpr ⟨ha, by simpa using hheard⟩)
    simp [hover] at hin
  · intro hapart
    refine ⟨_, _, deliverLine_eq n round _ _ ts, ?_, .refl _⟩
    rw [List.filter_map]
    refine .of_eq (congrArg (List.map Msg.id) (List.filter_congr fun b hb => ?_))
    refine decide_eq_decide.mpr ⟨fun hnot hheard => hnot ?_, fun hwake hmem => ?_⟩
    · exact List.mem_map_of_mem (List.mem_filter.mpr ⟨hb, by simpa using hheard⟩)
    · obtain ⟨a, ha, hid⟩ := List.mem_map.mp hmem
      obtain ⟨ha, hheard⟩ := List.mem_filter.mp ha
      exact hapart a ha b hb (by simpa using hheard) hwake hid

end

section
variable (env : Env) {F : Type} [PyJson.PyFloat F]

/-- **The ledger.**  Every deliver record of a run comes right after its frame, and its line accounts
for the frame exactly if the frame has not both the note about what was dropped and an overheard line
with the id 0. -/
theorem deliverLine_accounts (hhmmss : Rat → Str) (records : List MsgRec) (now wall : Rat)
    (hasc : ((lastN env.config.recentWindow records).map MsgRec.id).Pairwise (· < ·))
    (ops : List (Op F)) (pre post : List Effect) (written : Rat) (n : Str) (round : Nat)
    (ids overheard : List Nat) (ts : Rat)
    (hlog : (Run.after (Hub.step env) (Hub.init env records now wall) ops).wire.log =
      pre ++ .append written (.deliver n round ids overheard ts) :: post) :
    ∃ init c up msgs, pre = init ++ [.send n c up (.deliver round msgs)] ∧
      (Accounts hhmmss ⟨n, round, ids, some overheard, ts⟩ msgs ↔
        ¬((∃ k, droppedNote n k ∈ msgs) ∧
          ∃ m ∈ msgs, m.addressing = some .overheard ∧ m.id = 0)) := by
  obtain ⟨init, c, up, msgs, rfl, rfl, rfl⟩ :=
    @Hub.records_follow env F _ records now wall ops _ _ _ hlog
  have hapart : ToldApart n msgs := by
    have hparted : (Run.after (Hub.step env) (Hub.init env records now wall) ops).Parted :=
      (Hub.parted_init records now wall hasc).everyRun (Hub.wf_init env records now wall) ops
    refine hparted.frames n msgs ?_
    rw [hlog]
    exact List.mem_filterMap.mpr ⟨.send n c up (.deliver round msgs), by simp, by simp [Effect.delivery?]⟩
  refine ⟨init, c, up, msgs, rfl, ?_⟩
  rw [accounts_iff]
  constructor
  · rintro hids ⟨⟨k, hnote⟩, m, hm, hheard, hid⟩
    exact hids m hm _ hnote hheard (by simp [droppedNote]) hid
  · intro hnot a ha b hb hheard hwake hid
    obtain ⟨k, rfl⟩ := hapart a ha b hb (by simpa [Msg.heard] using hheard)
      (by simpa [Msg.heard] using hwake) hid
    exact hnot ⟨⟨k, hb⟩, a, ha, hheard, hid⟩

end

/-- The goal of an observer as it comes off the wire. -/
def goalFrame : Obj PyJson.Token :=
  [(str "t", .str (str "cmd")), (str "cmd", .str (str "goal")),
    (str "args", .obj [(str "text", .str (str "ship it"))])]

/-- Alice is busy; of two messages to her one is dropped, a goal is set, and she comes back. -/
def droppedAndGoal : List (Op PyJson.Token) :=
  [.handle 0 (helloFrame "olga" "observer" []), .handle 1 (helloFrame "alice" "agent" []),
    .handle 1 (stateFrame "busy"), .handle 0 (sayFrame "alice" "claim" "one" false),
    .handle 0 (sayFrame "alice" "claim" "two" false), .handle 0 goalFrame,
    .handle 1 (stateFrame "idle")]

/-- One message waits. -/
def shortQueue : Env := { Env.still with config := { Env.still.config with
  queueCap := 1, queueCap_pos := Nat.one_pos } }

/-- The frame alice comes back to. -/
def lateFrame : List Msg :=
  [{ id := 0, sender := systemSender, addressee := everyone, kind := str "note",
     text := str "moot goal: ship it", ts := 0, addressing := some .overheard },
    droppedNote (str "alice") 1,
    { id := 2, sender := str "olga", addressee := str "alice", kind := str "claim",
      text := str "two", ts := 0, addressing := some .direct, seq := some 1 }]

theorem log_droppedAndGoal :
    ∃ pre, (Run.after (Hub.step shortQueue) (Hub.init shortQueue [] 0 0) droppedAndGoal).wire.log =
      pre ++ [.send (str "alice") 1 true (.deliver 1 lateFrame)] ++
        .append 0 (.deliver (str "alice") 1 [0, 0, 2] [0] 0) :: [] := by
  have hend : (Run.after (Hub.step shortQueue) (Hub.init shortQueue [] 0 0) droppedAndGoal).wire.log.drop
      13 = [.send (str "alice") 1 true (.deliver 1 lateFrame),
        .append 0 (.deliver (str "alice") 1 [0, 0, 2] [0] 0)] := by decide +kernel
  generalize (Run.after (Hub.step shortQueue) (Hub.init shortQueue [] 0 0) droppedAndGoal).wire.log =
    log at hend ⊢
  refine ⟨log.take 13, ?_⟩
  rw [List.append_assoc]
  exact (List.take_append_drop 13 log).symm.trans (congrArg (log.take 13 ++ ·) hend)

/-- The note about the dropped message is missing from the wake. -/
theorem deliverLine_loses_note :
    ∃ pre, (Run.after (Hub.step shortQueue) (Hub.init shortQueue [] 0 0) droppedAndGoal).wire.log =
        pre ++ [.send (str "alice") 1 true (.deliver 1 lateFrame)] ++
          .append 0 (.deliver (str "alice") 1 [0, 0, 2] [0] 0) :: [] ∧
      deliverLine (fun _ => str "00:00:00") ⟨str "alice", 1, [0, 0, 2], some [0], 0⟩ =
        str "00:00:00 [deliver r1] → alice · wake #2 · context sys" ∧
      ¬Accounts (fun _ => str "00:00:00") ⟨str "alice", 1, [0, 0, 2], some [0], 0⟩ lateFrame := by
  obtain ⟨pre, hlog⟩ := log_droppedAndGoal
  refine ⟨pre, hlog, by decide, fun hacc => ?_⟩
  have hids := (accounts_iff (str "alice") 1 0 lateFrame).mp hacc
  exact hids lateFrame[0] (by simp [lateFrame]) lateFrame[1] (by simp [lateFrame]) rfl (by decide) rfl

theorem deliverLine_accounts_late : ∃ c up msgs,
    Effect.send (str "alice") 1 true (.deliver 1 lateFrame) =
      .send (str "alice") c up (.deliver 1 msgs) ∧
    (Accounts (fun _ => []) ⟨str "alice", 1, [0, 0, 2], some [0], 0⟩ msgs ↔
      ¬((∃ k, droppedNote (str "alice") k ∈ msgs) ∧
        ∃ m ∈ msgs, m.addressing = some .overheard ∧ m.id = 0)) := by
  obtain ⟨pre, hlog⟩ := log_droppedAndGoal
  obtain ⟨init, c, up, msgs, hinit, hiff⟩ := deliverLine_accounts shortQueue (fun _ => []) [] 0 0
    (by decide) droppedAndGoal _ [] 0 (str "alice") 1 [0, 0, 2] [0] 0 hlog
  obtain ⟨-, hlast⟩ := List.append_inj' hinit rfl
  exact ⟨c, up, msgs, (List.cons.inj hlast).1, hiff⟩

end Cli

end Moot
