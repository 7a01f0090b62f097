import Moot.Lib.Run
import Moot.Primitives

/-!
# The OpenCode plugin

`MootPlugin` of `opencode/moot.ts`: what comes from the hub is put into prompts by
one chain of injections, and is held as long as no session has the seat.

Proved here: `prompts_in_order`.  Every text is prompted at most once, one prompt is
out at a time, and what is dropped is counted, in every run; the texts are prompted
in the order of arrival as long as none is prompted past those that are held.
-/

namespace Moot.Opencode
open Py

/-! ## The plugin -/

def heldCap : Nat := 100

theorem heldCap_pos : 0 < heldCap := Nat.zero_lt_succ _

/-- A text on its way.  Only `words` is read: `stamp` says how many texts came from the
hub before it, and `again` that it was held. -/
structure Text where
  stamp : Nat
  again : Bool := false
  words : Str
deriving DecidableEq

inductive Report
  | idle
  | busy
deriving DecidableEq

/-- What a running `inject` waits for: `moot brief`, or the end of its prompt. -/
inductive Injection
  | briefing (id : Str) (head : Str) (text : Text)
  | prompting (id : Str)

/-- A call of `client.session.prompt`. -/
structure Prompt where
  id : Str
  text : Text
  body : Str

/-- The variables of `MootPlugin`; `chain` has the injections that have not begun, the
first of them next.  The last four fields are only written: the texts that came from the
hub, the prompts, how many of them are over, and the states that were sent. -/
structure Plugin where
  activeSessionID : Option Str := none
  reportedState : Option Report := none
  briefed : List Str := []
  hubClosedNotified : Bool := false
  children : List Str := []
  held : List Text := []
  heldDropped : Nat := 0
  chain : List Text := []
  running : Option Injection := none
  welcomeLine : Option Str := none
  arrived : List Str := []
  prompts : List Prompt := []
  returned : Nat := 0
  sent : List Report := []

namespace Plugin

/-- `while (held.length > HELD_CAP)` -/
def shed : List Text → Nat → List Text × Nat
  | [], dropped => ([], dropped)
  | text :: held, dropped =>
    if heldCap < (text :: held).length then shed held (dropped + 1) else (text :: held, dropped)

/-- `client.session.prompt` -/
def prompt (s : Plugin) (id : Str) (text : Text) (body : Str) : Plugin :=
  { s with prompts := s.prompts ++ [⟨id, text, body⟩], running := some (.prompting id) }

/-- `inject`, up to what it waits for. -/
def inject (s : Plugin) (text : Text) : Plugin :=
  match s.activeSessionID with
  | none =>
    let (held, heldDropped) := shed (s.held ++ [text]) s.heldDropped
    { s with held, heldDropped }
  | some id =>
    if s.briefed.contains id then s.prompt id text text.words
    else
      let head := match s.welcomeLine with
        | none => []
        | some line => line ++ str "\n"
      { s with briefed := id :: s.briefed, running := some (.briefing id head text) }

/-- `injectSoon` -/
def injectSoon (s : Plugin) (text : Text) : Plugin := { s with chain := s.chain ++ [text] }

/-- A text from the hub is given to `injectSoon`. -/
def arrive (s : Plugin) (words : Str) : Plugin :=
  { s with arrived := s.arrived ++ [words] }.injectSoon { stamp := s.arrived.length, words }

def rejoined : Str := str "[moot] rejoined the floor"

def closedNotice : Str := str "[moot] hub closed — reconnecting; do not send until it is back"

/-- `conn.send({ t: "state", … })` -/
def send (s : Plugin) (state : Report) : Plugin := { s with sent := s.sent ++ [state] }

/-- `onWelcome`, of the rendered frame. -/
def onWelcome (s : Plugin) (lines : List Str) : Plugin :=
  let s := if s.hubClosedNotified then { s with hubClosedNotified := false }.arrive rejoined else s
  let s := match s.reportedState with
    | none => s
    | some state => s.send state
  { s with welcomeLine := lines.head? }

/-- `onFrame`, of the rendered frame. -/
def onFrame (s : Plugin) (lines : List Str) : Plugin :=
  if lines = [] then s else s.arrive (join (str "\n") lines)

/-- `onHubClosed` -/
def onHubClosed (s : Plugin) : Plugin :=
  if s.hubClosedNotified then s else { s with hubClosedNotified := true }.arrive closedNotice

/-- `adopt`: the seat, unless another session has it. -/
def adopt (s : Plugin) (id : Str) : Plugin :=
  { s with activeSessionID := some (s.activeSessionID.getD id) }

/-- A state that the hub does not hold yet. -/
def report (s : Plugin) (state : Report) : Plugin :=
  if s.reportedState = some state then s else { s with reportedState := some state }.send state

/-- `session.created`; an empty `parentID` is none. -/
def onCreated (s : Plugin) (id : Str) (parentID : Option Str) : Plugin :=
  if parentID.getD [] ≠ [] then { s with children := id :: s.children } else s.adopt id

/-- `[moot] … earlier message(s) were dropped` -/
def dropNotice (dropped : Nat) : Str :=
  str "[moot] " ++ natStr dropped ++ str " earlier message(s) were dropped\n"

/-- `held.splice(0, held.length)`, each text on to `injectSoon`. -/
def release (s : Plugin) : Plugin :=
  let (waiting, heldDropped) := match s.held with
    | text :: rest =>
      if 0 < s.heldDropped then
        ({ text with words := dropNotice s.heldDropped ++ text.words } :: rest, 0)
      else (text :: rest, s.heldDropped)
    | [] => ([], s.heldDropped)
  { s with
    held := []
    heldDropped
    chain := s.chain ++ waiting.map fun text => { text with again := true } }

/-- The seat goes to a session that is no child. -/
def seat (s : Plugin) (id : Str) : Plugin :=
  if s.children.contains id then s else { s with activeSessionID := some id }

/-- `session.idle` -/
def onIdle (s : Plugin) (id : Str) : Plugin :=
  let s := s.seat id
  if some id ≠ s.activeSessionID then s else (s.report .idle).release

/-- `session.status` -/
def onStatus (s : Plugin) (id : Str) (busy : Bool) : Plugin :=
  if s.children.contains id then s
  else
    let s := s.adopt id
    if some id ≠ s.activeSessionID then s
    else if busy then s.report .busy else s

/-- The chain begins its next injection. -/
def begin (s : Plugin) : Plugin :=
  match s.running, s.chain with
  | none, text :: chain => { s with chain }.inject text
  | _, _ => s

/-- `moot brief` is done, or its replacement is. -/
def brief (s : Plugin) (briefing : Str) : Plugin :=
  match s.running with
  | some (.briefing id head text) =>
    s.prompt id text (head ++ briefing ++ str "\n\n" ++ text.words)
  | _ => s

/-- `client.session.prompt` is done. -/
def complete (s : Plugin) : Plugin :=
  match s.running with
  | some (.prompting _) => { s with running := none, returned := s.returned + 1 }
  | _ => s

end Plugin

/-- What happens to the plugin. -/
inductive Event
  | welcome (lines : List Str)
  | frame (lines : List Str)
  | hubClosed
  | created (id : Str) (parentID : Option Str)
  | idle (id : Str)
  | status (id : Str) (busy : Bool)
  | begin
  | brief (briefing : Str)
  | complete

namespace Plugin

def step (s : Plugin) : Event → Plugin
  | .welcome lines => s.onWelcome lines
  | .frame lines => s.onFrame lines
  | .hubClosed => s.onHubClosed
  | .created id parentID => s.onCreated id parentID
  | .idle id => s.onIdle id
  | .status id busy => s.onStatus id busy
  | .begin => s.begin
  | .brief briefing => s.brief briefing
  | .complete => s.complete

end Plugin

/-! ## What the plugin is to do -/

def stamps (texts : List Text) : List Nat := texts.map Text.stamp

namespace Plugin

/-- The texts that a prompt has, or a running `inject` takes to one. -/
def begun (s : Plugin) : List Text :=
  match s.running with
  | some (.briefing _ _ text) => s.prompts.map Prompt.text ++ [text]
  | _ => s.prompts.map Prompt.text

/-- The text came from the hub, is in no prompt and will come to none. -/
def Lost (s : Plugin) (k : Nat) : Prop :=
  k < s.arrived.length ∧ k ∉ stamps (s.begun ++ s.chain ++ s.held)

/-- Each text is prompted at most once and as it came, one prompt is out at a time, and
the first prompt of a text that was held says how many were dropped before it. -/
structure Sound (s : Plugin) : Prop where
  once : (stamps (s.prompts.map Prompt.text)).Nodup
  words : ∀ p ∈ s.prompts, ∃ w, s.arrived[p.text.stamp]? = some w ∧ w <:+ p.body
  single : s.prompts.length ≤ s.returned + 1
  counted : ∃ lost, (∀ k, s.Lost k ↔ k < lost) ∧
    ∀ p, s.prompts.find? (fun p => p.text.again) = some p → 0 < lost →
      ∃ w, s.arrived[p.text.stamp]? = some w ∧ dropNotice lost ++ w <:+ p.body

/-- The prompts have the texts in the order of arrival. -/
def InOrder (s : Plugin) : Prop := (stamps (s.prompts.map Prompt.text)).Pairwise (· < ·)

/-- A text that the step loses is among the oldest of more than `HELD_CAP`, and no session
has the seat. -/
def Sheds (s : Plugin) (e : Event) : Prop :=
  ∀ k, (s.step e).Lost k → ¬ s.Lost k →
    s.activeSessionID = none ∧ (s.step e).held.length = heldCap ∧ ∀ j ≤ k, (s.step e).Lost j

/-- No text is prompted past one that is held, and the held ones are not handed over past
one that waits in the chain. -/
def Orderly (s : Plugin) : Event → Prop
  | .begin => s.activeSessionID = none ∨ s.running ≠ none ∨ s.chain = [] ∨ s.held = []
  | .idle id => some id ≠ (s.seat id).activeSessionID ∨ s.chain = [] ∨ s.held = []
  | _ => True

instance (s : Plugin) (e : Event) : Decidable (s.Orderly e) := by
  cases e <;> unfold Orderly <;> infer_instance

end Plugin

/-! ## The flow of the texts -/

/-- Where the texts are. -/
structure Flow where
  seated : Bool
  begun : List Text
  chain : List Text
  held : List Text
  dropped : Nat
  arrived : List Str

namespace Flow

/-- What the held texts are handed over as. -/
def handed (held : List Text) (dropped : Nat) : List Text :=
  match held with
  | text :: rest =>
    let words := if 0 < dropped then Plugin.dropNotice dropped ++ text.words else text.words
    { text with words, again := true } :: rest.map fun text => { text with again := true }
  | [] => []

/-- A text comes from the hub. -/
def arrive (f : Flow) (words : Str) : Flow :=
  { f with
    arrived := f.arrived ++ [words]
    chain := f.chain ++ [{ stamp := f.arrived.length, words }] }

/-- The first text of the chain is held. -/
def hold (f : Flow) (text : Text) (chain : List Text) : Flow :=
  { f with
    chain
    held := (Plugin.shed (f.held ++ [text]) f.dropped).1
    dropped := (Plugin.shed (f.held ++ [text]) f.dropped).2 }

/-- The first text of the chain is taken to a prompt. -/
def start (f : Flow) (text : Text) (chain : List Text) : Flow :=
  { f with chain, begun := f.begun ++ [text] }

/-- The held texts go back to the chain. -/
def release (f : Flow) : Flow :=
  { f with
    chain := f.chain ++ handed f.held f.dropped
    held := []
    dropped := if f.held = [] then f.dropped else 0 }

/-- What happens to the texts; if `orderly`, then none overtakes one that is held. -/
inductive Move (orderly : Prop) : Flow → Flow → Prop
  | still (f : Flow) : Move orderly f f
  | seat (f : Flow) : Move orderly f { f with seated := true }
  | arrive (f : Flow) (words : Str) : Move orderly f (f.arrive words)
  | hold {f : Flow} {text : Text} {chain : List Text} (hseat : f.seated = false)
      (hchain : f.chain = text :: chain) : Move orderly f (f.hold text chain)
  | start {f : Flow} {text : Text} {chain : List Text} (hseat : f.seated = true)
      (hchain : f.chain = text :: chain) (horder : orderly → f.held = []) :
      Move orderly f (f.start text chain)
  | release {f : Flow} (hseat : f.seated = true) (horder : orderly → f.chain = [] ∨ f.held = []) :
      Move orderly f f.release

end Flow

namespace Plugin

def flow (s : Plugin) : Flow :=
  ⟨s.activeSessionID.isSome, s.begun, s.chain, s.held, s.heldDropped, s.arrived⟩

@[simp] theorem flow_report (s : Plugin) (state : Report) : (s.report state).flow = s.flow := by
  unfold report
  split <;> rfl

variable {orderly : Prop}

theorem arrive_move (s : Plugin) (words : Str) : Flow.Move orderly s.flow (s.arrive words).flow :=
  .arrive s.flow words

theorem adopt_move (s : Plugin) (id : Str) : Flow.Move orderly s.flow (s.adopt id).flow :=
  .seat s.flow

theorem release_flow (s : Plugin) : s.release.flow = s.flow.release := by
  unfold release flow Flow.release Flow.handed
  cases hheld : s.held with
  | nil => rfl
  | cons text rest =>
    by_cases hpos : 0 < s.heldDropped
    · simp [hpos, begun]
    · have hzero : s.heldDropped = 0 := by omega
      simp [hzero, begun]

theorem welcome_move (s : Plugin) (lines : List Str) : Flow.Move orderly s.flow (s.onWelcome lines).flow := by
  unfold onWelcome
  by_cases hclosed : s.hubClosedNotified = true
  · simp only [if_pos hclosed]
    cases s.reportedState <;> exact arrive_move { s with hubClosedNotified := false } rejoined
  · simp only [if_neg hclosed]
    cases s.reportedState <;> exact .still s.flow

theorem frame_move (s : Plugin) (lines : List Str) : Flow.Move orderly s.flow (s.onFrame lines).flow := by
  unfold onFrame
  split
  · exact .still _
  · exact arrive_move ..

theorem hubClosed_move (s : Plugin) : Flow.Move orderly s.flow s.onHubClosed.flow := by
  unfold onHubClosed
  split
  · exact .still _
  · exact arrive_move { s with hubClosedNotified := true } _

theorem created_move (s : Plugin) (id : Str) (parentID : Option Str) :
    Flow.Move orderly s.flow (s.onCreated id parentID).flow := by
  unfold onCreated
  split
  · exact .still _
  · exact adopt_move ..

theorem status_move (s : Plugin) (id : Str) (busy : Bool) :
    Flow.Move orderly s.flow (s.onStatus id busy).flow := by
  unfold onStatus
  split
  · exact .still _
  · dsimp only
    split
    · exact adopt_move ..
    · cases busy
      · exact adopt_move ..
      · rw [if_pos rfl, flow_report]
        exact adopt_move ..

theorem begin_start {s : Plugin} {id : Str} {text : Text} {chain : List Text}
    (hrunning : s.running = none) (hseat : s.activeSessionID = some id)
    (hchain : s.chain = text :: chain) :
    s.begin.flow = s.flow.start text chain ∧ s.begin.activeSessionID = some id := by
  unfold begin inject
  simp only [hrunning, hchain, hseat]
  split <;> simp [flow, begun, prompt, Flow.start, hrunning, hseat]

theorem begin_hold {s : Plugin} {text : Text} {chain : List Text} (hrunning : s.running = none)
    (hseat : s.activeSessionID = none) (hchain : s.chain = text :: chain) :
    s.begin.flow = s.flow.hold text chain := by
  unfold begin inject
  simp only [hrunning, hchain, hseat]
  simp [flow, begun, Flow.hold, hrunning, hseat]

theorem begin_move (s : Plugin) : Flow.Move (s.Orderly .begin) s.flow s.begin.flow := by
  cases hrunning : s.running with
  | some injection =>
    have hstill : s.begin = s := by simp [begin, hrunning]
    rw [hstill]
    exact .still _
  | none =>
    cases hchain : s.chain with
    | nil =>
      have hstill : s.begin = s := by simp [begin, hchain]
      rw [hstill]
      exact .still _
    | cons text chain =>
      cases hseat : s.activeSessionID with
      | none =>
        rw [begin_hold hrunning hseat hchain]
        exact .hold (by simp [flow, hseat]) hchain
      | some id =>
        rw [(begin_start hrunning hseat hchain).1]
        refine .start (by simp [flow, hseat]) hchain ?_
        rintro (hnone | hbusy | hempty | hheld)
        · exact absurd (hseat.symm.trans hnone) (by simp)
        · exact absurd hrunning hbusy
        · exact absurd (hchain.symm.trans hempty) (by simp)
        · exact hheld

theorem brief_move (s : Plugin) (briefing : Str) : Flow.Move orderly s.flow (s.brief briefing).flow := by
  unfold brief
  split
  next id head text hrunning =>
    have hflow : (s.prompt id text (head ++ briefing ++ str "\n\n" ++ text.words)).flow = s.flow := by
      simp [flow, begun, prompt, hrunning]
    rw [hflow]
    exact .still _
  · exact .still _

theorem complete_move (s : Plugin) : Flow.Move orderly s.flow s.complete.flow := by
  unfold complete
  split
  next id hrunning =>
    have hflow : ({ s with running := none, returned := s.returned + 1 } : Plugin).flow = s.flow := by
      simp [flow, begun, hrunning]
    rw [hflow]
    exact .still _
  · exact .still _

end Plugin

/-! ## Accounts -/

namespace Flow

/-- The text is the one that came, with the notice if it is the oldest after a loss. -/
def Worded (arrived : List Str) (lost : Nat) (text : Text) : Prop :=
  ∃ w, arrived[text.stamp]? = some w ∧
    text.words = if text.again ∧ text.stamp = lost ∧ 0 < lost then Plugin.dropNotice lost ++ w else w

/-- Nothing was handed over so far. -/
structure Waiting (f : Flow) (lost : Nat) : Prop where
  fresh : ∀ text ∈ f.begun ++ f.chain ++ f.held, text.again = false
  dropped : f.dropped = lost
  full : 0 < lost → f.held.length = heldCap

/-- The held texts were handed over, the oldest first. -/
structure Released (f : Flow) (lost : Nat) : Prop where
  seated : f.seated = true
  held : f.held = []
  dropped : f.dropped = 0
  oldest : ∃ n, stamps ((f.begun ++ f.chain).filter Text.again) = List.range' lost n

/-- All texts but the oldest `lost` are there, each once. -/
structure Accounts (f : Flow) (lost : Nat) : Prop where
  le : lost ≤ f.arrived.length
  perm : (stamps (f.begun ++ f.chain ++ f.held)).Perm (List.range' lost (f.arrived.length - lost))
  room : f.held.length ≤ heldCap
  held : stamps f.held = List.range' lost f.held.length
  vacant : f.seated = false → f.begun = [] ∧
    stamps (f.held ++ f.chain) = List.range' lost (f.arrived.length - lost)
  words : ∀ text ∈ f.begun ++ f.chain ++ f.held, Worded f.arrived lost text
  handed : Waiting f lost ∨ Released f lost

theorem Worded.arrive {arrived : List Str} {lost : Nat} {text : Text} (w : Str)
    (h : Worded arrived lost text) : Worded (arrived ++ [w]) lost text := by
  obtain ⟨v, hv, hwords⟩ := h
  obtain ⟨hlt, -⟩ := List.getElem?_eq_some_iff.1 hv
  exact ⟨v, by rw [List.getElem?_append_left hlt, hv], hwords⟩

theorem Worded.fresh {arrived : List Str} {lost lost' : Nat} {text : Text}
    (h : Worded arrived lost text) (hfresh : text.again = false) : Worded arrived lost' text := by
  obtain ⟨v, hv, hwords⟩ := h
  refine ⟨v, hv, ?_⟩
  simp [hfresh] at hwords ⊢
  exact hwords

theorem Accounts.mem_lt {f : Flow} {lost : Nat} (h : Accounts f lost) {text : Text}
    (htext : text ∈ f.begun ++ f.chain ++ f.held) : text.stamp < f.arrived.length := by
  obtain ⟨w, hw, -⟩ := h.words text htext
  exact (List.getElem?_eq_some_iff.1 hw).1

theorem stamps_append (xs ys : List Text) : stamps (xs ++ ys) = stamps xs ++ stamps ys :=
  List.map_append

theorem stamps_handed (held : List Text) (dropped : Nat) :
    stamps (handed held dropped) = stamps held := by
  cases held <;> simp [stamps, handed, Function.comp_def]

theorem range'_snoc {lost n : Nat} (h : lost ≤ n) :
    List.range' lost (n + 1 - lost) = List.range' lost (n - lost) ++ [n] := by
  have hsucc : n + 1 - lost = (n - lost) + 1 := by omega
  rw [hsucc, List.range'_concat]
  congr 2
  omega

theorem accounts_start : Accounts ({} : Plugin).flow 0 where
  le := Nat.le_refl 0
  perm := List.Perm.refl _
  room := Nat.zero_le _
  held := rfl
  vacant := fun _ => ⟨rfl, rfl⟩
  words := by simp [Plugin.flow, Plugin.begun]
  handed := Or.inl ⟨by simp [Plugin.flow, Plugin.begun], rfl, fun h => absurd h (Nat.lt_irrefl 0)⟩

theorem Accounts.seat {f : Flow} {lost : Nat} (h : Accounts f lost) :
    Accounts { f with seated := true } lost where
  le := h.le
  perm := h.perm
  room := h.room
  held := h.held
  vacant := fun hseat => absurd hseat (by simp)
  words := h.words
  handed := h.handed.imp (fun w => ⟨w.fresh, w.dropped, w.full⟩)
    (fun r => ⟨rfl, r.held, r.dropped, r.oldest⟩)

theorem Accounts.arrive {f : Flow} {lost : Nat} (h : Accounts f lost) (w : Str) :
    Accounts (f.arrive w) lost := by
  unfold Flow.arrive
  have hsnoc : List.range' lost ((f.arrived ++ [w]).length - lost) =
      List.range' lost (f.arrived.length - lost) ++ [f.arrived.length] := by
    rw [List.length_append, List.length_singleton]
    exact range'_snoc h.le
  constructor
  · rw [List.length_append]
    exact Nat.le_trans h.le (Nat.le_add_right ..)
  · rw [hsnoc]
    refine List.Perm.trans ?_ (h.perm.append_right _)
    simp only [stamps, List.map_append, List.append_assoc]
    refine List.Perm.append_left _ (List.Perm.append_left _ ?_)
    exact List.perm_append_comm
  · exact h.room
  · exact h.held
  · intro hseat
    obtain ⟨hbegun, hline⟩ := h.vacant hseat
    refine ⟨hbegun, ?_⟩
    rw [hsnoc, ← hline, ← List.append_assoc, stamps_append]
    rfl
  · intro text htext
    simp only [List.mem_append, List.mem_singleton] at htext
    obtain (htext | htext | rfl) | htext := htext
    · exact (h.words text (by simp [htext])).arrive w
    · exact (h.words text (by simp [htext])).arrive w
    · exact ⟨w, by simp, by simp⟩
    · exact (h.words text (by simp [htext])).arrive w
  · refine h.handed.imp (fun hwait => ?_) (fun hrel => ?_)
    · refine ⟨?_, hwait.dropped, hwait.full⟩
      intro text htext
      simp only [List.mem_append, List.mem_singleton] at htext
      obtain (htext | htext | rfl) | htext := htext
      · exact hwait.fresh text (by simp [htext])
      · exact hwait.fresh text (by simp [htext])
      · rfl
      · exact hwait.fresh text (by simp [htext])
    · refine ⟨hrel.seated, hrel.held, hrel.dropped, ?_⟩
      simpa [← List.append_assoc, List.filter_append] using hrel.oldest

theorem Accounts.start {f : Flow} {lost : Nat} (h : Accounts f lost) {text : Text}
    {chain : List Text} (hseat : f.seated = true) (hchain : f.chain = text :: chain) :
    Accounts (f.start text chain) lost := by
  unfold Flow.start
  have hline : (f.begun ++ [text]) ++ chain = f.begun ++ f.chain := by simp [hchain]
  constructor
  · exact h.le
  · simpa only [hline] using h.perm
  · exact h.room
  · exact h.held
  · intro hvacant
    exact absurd (hseat.symm.trans hvacant) (by simp)
  · simpa only [hline] using h.words
  · refine h.handed.imp (fun hwait => ?_) (fun hrel => ?_)
    · exact ⟨by simpa only [hline] using hwait.fresh, hwait.dropped, hwait.full⟩
    · exact ⟨hseat, hrel.held, hrel.dropped, by simpa only [hline] using hrel.oldest⟩

theorem shed_eq (held : List Text) (dropped : Nat) :
    Plugin.shed held dropped =
      (held.drop (held.length - heldCap), dropped + (held.length - heldCap)) := by
  induction held generalizing dropped with
  | nil => rfl
  | cons text held ih =>
    unfold Plugin.shed
    split
    next hlong =>
      have hlen : (text :: held).length - heldCap = (held.length - heldCap) + 1 := by
        rw [List.length_cons] at hlong ⊢
        omega
      rw [ih, hlen, List.drop_succ_cons]
      congr 1
      omega
    next hshort =>
      have hlen : (text :: held).length - heldCap = 0 := by omega
      rw [hlen, List.drop_zero, Nat.add_zero]

/-- How many texts go when one more is held. -/
def excess (f : Flow) : Nat := f.held.length + 1 - heldCap

theorem Accounts.excess_le {f : Flow} {lost : Nat} (h : Accounts f lost) : f.excess ≤ 1 := by
  have hroom := h.room
  unfold excess
  omega

theorem Accounts.hold {f : Flow} {lost : Nat} (h : Accounts f lost) {text : Text}
    {chain : List Text} (hseat : f.seated = false) (hchain : f.chain = text :: chain) :
    Accounts (f.hold text chain) (lost + f.excess) := by
  unfold Flow.hold
  have hlen : (f.held ++ [text]).length - heldCap = f.excess := by
    rw [List.length_append, List.length_singleton, excess]
  rw [shed_eq, hlen]
  have hroom := h.room
  have hpos := heldCap_pos
  have hexcess : f.excess = f.held.length + 1 - heldCap := rfl
  obtain ⟨hbegun, hline⟩ := h.vacant hseat
  have hwait : Waiting f lost := by
    refine h.handed.resolve_right fun hrel => ?_
    exact absurd (hrel.seated.symm.trans hseat) (by simp)
  have hcut : (f.held ++ [text]).drop f.excess ++ chain = (f.held ++ f.chain).drop f.excess := by
    rw [hchain, ← List.drop_append_of_le_length]
    · simp
    · rw [List.length_append, List.length_singleton]
      omega
  have hstamps : stamps ((f.held ++ [text]).drop f.excess ++ chain) =
      List.range' (lost + f.excess) (f.arrived.length - (lost + f.excess)) := by
    rw [hcut, stamps, List.map_drop, ← stamps, hline, List.drop_range', Nat.mul_one, Nat.sub_sub]
  have hcount : (f.held ++ f.chain).length = f.arrived.length - lost := by
    have hmap := congrArg List.length hline
    rwa [stamps, List.length_map, List.length_range'] at hmap
  have hmem : ∀ t ∈ f.begun ++ chain ++ (f.held ++ [text]).drop f.excess,
      t ∈ f.begun ++ f.chain ++ f.held := by
    intro t ht
    rw [hbegun, List.nil_append, List.mem_append] at ht
    rw [hbegun, List.nil_append, List.mem_append, hchain]
    obtain ht | ht := ht
    · exact Or.inl (List.mem_cons_of_mem _ ht)
    · have hin := List.mem_of_mem_drop ht
      rw [List.mem_append, List.mem_singleton] at hin
      obtain hin | rfl := hin
      · exact Or.inr hin
      · exact Or.inl (List.mem_cons_self ..)
  constructor
  · have hle := h.le
    rw [hchain, List.length_append, List.length_cons] at hcount
    dsimp only
    omega
  · dsimp only
    rw [hbegun, List.nil_append, ← hstamps, stamps_append, stamps_append]
    exact List.perm_append_comm
  · dsimp only
    rw [List.length_drop, List.length_append, List.length_singleton]
    omega
  · rw [stamps_append] at hstamps
    obtain ⟨n, -, hkept, -⟩ := List.range'_eq_append_iff.1 hstamps.symm
    have hn := congrArg List.length hkept
    rw [stamps, List.length_map, List.length_range'] at hn
    rw [hkept, hn]
  · intro _
    exact ⟨hbegun, hstamps⟩
  · intro t ht
    exact (h.words t (hmem t ht)).fresh (hwait.fresh t (hmem t ht))
  · refine Or.inl ⟨fun t ht => hwait.fresh t (hmem t ht), ?_, ?_⟩
    · dsimp only
      rw [hwait.dropped]
    · intro hlost
      dsimp only
      rw [List.length_drop, List.length_append, List.length_singleton]
      have hfull := hwait.full
      omega

theorem handed_again (held : List Text) (dropped : Nat) :
    ∀ text ∈ handed held dropped, text.again = true := by
  cases held <;> simp [handed]

theorem Worded.handed {arrived : List Str} {lost : Nat} {held : List Text}
    (hheld : ∀ text ∈ held, Worded arrived lost text ∧ text.again = false)
    (hstamps : stamps held = List.range' lost held.length) :
    ∀ text ∈ Flow.handed held lost, Worded arrived lost text := by
  cases held with
  | nil => simp [Flow.handed]
  | cons oldest rest =>
    simp only [stamps, List.map_cons, List.length_cons, List.range'_succ, List.cons.injEq] at hstamps
    obtain ⟨holdest, hrest⟩ := hstamps
    intro text htext
    simp only [Flow.handed, List.mem_cons, List.mem_map] at htext
    obtain rfl | ⟨old, hold, rfl⟩ := htext
    · obtain ⟨⟨w, hw, hwords⟩, hfresh⟩ := hheld oldest (List.mem_cons_self ..)
      rw [if_neg (by simp [hfresh])] at hwords
      refine ⟨w, hw, ?_⟩
      simp [holdest, hwords]
    · obtain ⟨⟨w, hw, hwords⟩, hfresh⟩ := hheld old (List.mem_cons_of_mem _ hold)
      rw [if_neg (by simp [hfresh])] at hwords
      refine ⟨w, hw, ?_⟩
      have hlater : old.stamp ∈ List.range' (lost + 1) rest.length := by
        rw [← hrest]
        exact List.mem_map_of_mem hold
      rw [List.mem_range'_1] at hlater
      have hne : old.stamp ≠ lost := by omega
      simp [hne, hwords]

theorem Accounts.release {f : Flow} {lost : Nat} (h : Accounts f lost) (hseat : f.seated = true) :
    Accounts f.release lost := by
  by_cases hnone : f.held = []
  · have hsame : f.release = f := by
      simp only [Flow.release, hnone, Flow.handed, List.append_nil, if_true]
      rw [← hnone]
    rw [hsame]
    exact h
  have hwait : Waiting f lost := h.handed.resolve_right fun hrel => hnone hrel.held
  unfold Flow.release
  rw [if_neg hnone]
  constructor
  · exact h.le
  · have hperm := h.perm
    simp only [stamps_append, stamps_handed, List.append_assoc] at hperm ⊢
    simpa [stamps] using hperm
  · exact Nat.zero_le _
  · rfl
  · intro hvacant
    exact absurd (hseat.symm.trans hvacant) (by simp)
  · intro text htext
    dsimp only at htext
    rw [List.append_nil, ← List.append_assoc, List.mem_append, hwait.dropped] at htext
    obtain htext | htext := htext
    · exact h.words text (List.mem_append_left _ htext)
    · refine Worded.handed (fun t ht => ?_) h.held text htext
      exact ⟨h.words t (List.mem_append_right _ ht), hwait.fresh t (List.mem_append_right _ ht)⟩
  · refine Or.inr ⟨hseat, rfl, rfl, f.held.length, ?_⟩
    have hold : (f.begun ++ f.chain).filter Text.again = [] := by
      rw [List.filter_eq_nil_iff]
      intro t ht
      rw [hwait.fresh t (List.mem_append_left _ ht)]
      simp
    have hnew : (Flow.handed f.held f.dropped).filter Text.again = Flow.handed f.held f.dropped :=
      List.filter_eq_self.2 (handed_again _ _)
    dsimp only
    rw [← List.append_assoc, List.filter_append, hold, hnew, List.nil_append, stamps_handed, h.held]

/-- How many more texts are lost in a move to `g`. -/
theorem Move.accounts {orderly : Prop} {f g : Flow} (hmove : Move orderly f g) {lost : Nat}
    (h : Accounts f lost) :
    Accounts g lost ∨ f.seated = false ∧ g.held.length = heldCap ∧ Accounts g (lost + 1) := by
  cases hmove with
  | still => exact Or.inl h
  | seat => exact Or.inl h.seat
  | arrive w => exact Or.inl (h.arrive w)
  | @hold text chain hseat hchain =>
    have hheld := h.hold hseat hchain
    obtain hzero | hone : f.excess = 0 ∨ f.excess = 1 := by
      have := h.excess_le
      omega
    · rw [hzero, Nat.add_zero] at hheld
      exact Or.inl hheld
    · rw [hone] at hheld
      refine Or.inr ⟨hseat, ?_, hheld⟩
      unfold Flow.hold
      rw [shed_eq, List.length_drop, List.length_append, List.length_singleton]
      unfold excess at hone
      omega
  | start hseat hchain _ => exact Or.inl (h.start hseat hchain)
  | release hseat _ => exact Or.inl (h.release hseat)

/-- The texts stand in order, those that are held behind none that has begun. -/
structure Lined (f : Flow) : Prop where
  order : (stamps (f.begun ++ (f.held ++ f.chain))).Pairwise (· < ·)
  first : f.held = [] ∨ f.begun = []

theorem Move.lined {orderly : Prop} {f g : Flow} (hmove : Move orderly f g) (hcalm : orderly)
    {lost : Nat} (haccounts : Accounts f lost) (h : Lined f) : Lined g := by
  cases hmove with
  | still => exact h
  | seat => exact ⟨h.order, h.first⟩
  | arrive w =>
    unfold Flow.arrive
    refine ⟨?_, h.first⟩
    have hline : f.begun ++ (f.held ++ (f.chain ++ [{ stamp := f.arrived.length, words := w }])) =
        f.begun ++ (f.held ++ f.chain) ++ [{ stamp := f.arrived.length, words := w }] := by simp
    rw [hline, stamps_append, List.pairwise_append]
    refine ⟨h.order, List.pairwise_singleton _ _, ?_⟩
    intro k hk n hn
    obtain ⟨text, htext, rfl⟩ := List.mem_map.1 hk
    obtain rfl : n = f.arrived.length := List.mem_singleton.1 hn
    apply haccounts.mem_lt
    simp only [List.mem_append] at htext ⊢
    tauto
  | @hold text chain hseat hchain =>
    obtain ⟨hbegun, -⟩ := haccounts.vacant hseat
    unfold Flow.hold
    refine ⟨?_, Or.inr hbegun⟩
    have horder := h.order
    rw [hbegun, hchain, List.nil_append] at horder
    rw [hbegun, List.nil_append, shed_eq]
    refine List.Pairwise.sublist ?_ horder
    apply List.Sublist.map
    rw [List.append_cons f.held text chain]
    exact (List.drop_sublist _ _).append_right _
  | @start text chain hseat hchain horder =>
    have hheld := horder hcalm
    unfold Flow.start
    refine ⟨?_, Or.inl hheld⟩
    have hline := h.order
    rw [hheld, hchain] at hline
    rw [hheld]
    simpa using hline
  | release hseat horder =>
    unfold Flow.release
    refine ⟨?_, Or.inl rfl⟩
    have hline := h.order
    obtain hchain | hheld := horder hcalm
    · simpa [hchain, stamps_append, stamps_handed] using hline
    · simpa [hheld, handed] using hline

end Flow

/-! ## Runs of the plugin -/

namespace Plugin
open Opencode.Flow

theorem idle_cases (s : Plugin) (id : Str) :
    (s.onIdle id).flow = (s.seat id).flow ∨ some id = (s.seat id).activeSessionID ∧
      (s.onIdle id).flow = ((s.seat id).report .idle).release.flow := by
  unfold onIdle
  dsimp only
  split
  · exact Or.inl rfl
  next hid => exact Or.inr ⟨Decidable.not_not.1 hid, rfl⟩

/-- The hand-over is a move of the texts. -/
theorem release_move (s : Plugin) (id : Str) (hid : some id = (s.seat id).activeSessionID) :
    Move (s.Orderly (.idle id)) (s.seat id).flow ((s.seat id).report .idle).release.flow := by
  have hchain : (s.seat id).chain = s.chain := by unfold seat; split <;> rfl
  have hheld : (s.seat id).held = s.held := by unfold seat; split <;> rfl
  rw [release_flow, flow_report]
  refine Move.release ?_ ?_
  · simp [flow, ← hid]
  · intro horder
    obtain hother | hempty | hnone := horder
    · exact absurd hid hother
    · exact Or.inl (hchain.trans hempty)
    · exact Or.inr (hheld.trans hnone)

/-- **Step lemma.**  A step loses at most the oldest text, and that for want of room. -/
theorem step_accounts (s : Plugin) (e : Event) {lost : Nat} (h : Accounts s.flow lost) :
    Accounts (s.step e).flow lost ∨ s.activeSessionID = none ∧
      (s.step e).held.length = heldCap ∧ Accounts (s.step e).flow (lost + 1) := by
  have hone : Move (s.Orderly e) s.flow (s.step e).flow → Accounts (s.step e).flow lost ∨
      s.activeSessionID = none ∧ (s.step e).held.length = heldCap ∧
        Accounts (s.step e).flow (lost + 1) := by
    intro hmove
    obtain hsame | ⟨hseat, hrest⟩ := hmove.accounts h
    · exact Or.inl hsame
    · exact Or.inr ⟨Option.isNone_iff_eq_none.1 (by simpa [flow] using hseat), hrest⟩
  cases e with
  | welcome lines => exact hone (welcome_move s lines)
  | frame lines => exact hone (frame_move s lines)
  | hubClosed => exact hone (hubClosed_move s)
  | created id parentID => exact hone (created_move s id parentID)
  | status id busy => exact hone (status_move s id busy)
  | begin => exact hone (begin_move s)
  | brief briefing => exact hone (brief_move s briefing)
  | complete => exact hone (complete_move s)
  | idle id =>
    have hseat : Accounts (s.seat id).flow lost := by
      unfold seat
      split
      · exact h
      · exact h.seat
    refine Or.inl ?_
    obtain hflow | ⟨hid, hflow⟩ := idle_cases s id
    · exact hflow ▸ hseat
    · rw [step, hflow, release_flow, flow_report]
      exact hseat.release (by simp [flow, ← hid])

theorem step_lined (s : Plugin) (e : Event) {lost : Nat} (haccounts : Accounts s.flow lost)
    (horder : s.Orderly e) (h : Lined s.flow) : Lined (s.step e).flow := by
  have hone : Move (s.Orderly e) s.flow (s.step e).flow → Lined (s.step e).flow :=
    fun hmove => hmove.lined horder haccounts h
  cases e with
  | welcome lines => exact hone (welcome_move s lines)
  | frame lines => exact hone (frame_move s lines)
  | hubClosed => exact hone (hubClosed_move s)
  | created id parentID => exact hone (created_move s id parentID)
  | status id busy => exact hone (status_move s id busy)
  | begin => exact hone (begin_move s)
  | brief briefing => exact hone (brief_move s briefing)
  | complete => exact hone (complete_move s)
  | idle id =>
    have hseat : Lined (s.seat id).flow ∧ Accounts (s.seat id).flow lost := by
      unfold seat
      split
      · exact ⟨h, haccounts⟩
      · exact ⟨⟨h.order, h.first⟩, haccounts.seat⟩
    obtain hflow | ⟨hid, hflow⟩ := idle_cases s id
    · exact hflow ▸ hseat.1
    · rw [step, hflow]
      exact (release_move s id hid).lined horder hseat.2 hseat.1

/-! ## Prompts -/

/-- The prompts that are out. -/
def out (s : Plugin) : Nat :=
  match s.running with
  | some (.prompting _) => 1
  | _ => 0

/-- A prompt ends with its text, and all prompts but one are over. -/
structure Ledger (s : Plugin) : Prop where
  bodies : ∀ p ∈ s.prompts, p.text.words <:+ p.body
  count : s.prompts.length = s.returned + s.out

/-- Nothing is prompted, and no prompt ends. -/
structure SameDesk (s t : Plugin) : Prop where
  prompts : t.prompts = s.prompts
  running : t.running = s.running
  returned : t.returned = s.returned

theorem SameDesk.ledger {s t : Plugin} (h : SameDesk s t) (hs : Ledger s) : Ledger t := by
  refine ⟨by simpa [h.prompts] using hs.bodies, ?_⟩
  have hout : t.out = s.out := by unfold out; rw [h.running]
  rw [h.prompts, h.returned, hout]
  exact hs.count

theorem Ledger.prompt {s : Plugin} (h : Ledger s) {id : Str} {text : Text} {body : Str}
    (hout : s.out = 0) (hbody : text.words <:+ body) : Ledger (s.prompt id text body) := by
  refine ⟨?_, ?_⟩
  · intro p hp
    rw [Plugin.prompt, List.mem_append, List.mem_singleton] at hp
    obtain hp | rfl := hp
    · exact h.bodies p hp
    · exact hbody
  · have hcount := h.count
    simp only [Plugin.prompt, List.length_append, List.length_singleton, out]
    omega

theorem welcome_desk (s : Plugin) (lines : List Str) : SameDesk s (s.onWelcome lines) := by
  unfold onWelcome
  by_cases hclosed : s.hubClosedNotified = true
  · simp only [if_pos hclosed]
    cases s.reportedState <;> exact ⟨rfl, rfl, rfl⟩
  · simp only [if_neg hclosed]
    cases s.reportedState <;> exact ⟨rfl, rfl, rfl⟩

theorem frame_desk (s : Plugin) (lines : List Str) : SameDesk s (s.onFrame lines) := by
  unfold onFrame
  split <;> exact ⟨rfl, rfl, rfl⟩

theorem hubClosed_desk (s : Plugin) : SameDesk s s.onHubClosed := by
  unfold onHubClosed
  split <;> exact ⟨rfl, rfl, rfl⟩

theorem created_desk (s : Plugin) (id : Str) (parentID : Option Str) :
    SameDesk s (s.onCreated id parentID) := by
  unfold onCreated
  split <;> exact ⟨rfl, rfl, rfl⟩

theorem report_desk (s : Plugin) (state : Report) : SameDesk s (s.report state) := by
  unfold report
  split <;> exact ⟨rfl, rfl, rfl⟩

theorem seat_desk (s : Plugin) (id : Str) : SameDesk s (s.seat id) := by
  unfold seat
  split <;> exact ⟨rfl, rfl, rfl⟩

theorem SameDesk.trans {s t u : Plugin} (h : SameDesk s t) (h' : SameDesk t u) : SameDesk s u :=
  ⟨h'.prompts.trans h.prompts, h'.running.trans h.running, h'.returned.trans h.returned⟩

theorem idle_desk (s : Plugin) (id : Str) : SameDesk s (s.onIdle id) := by
  unfold onIdle
  dsimp only
  split
  · exact seat_desk s id
  · exact ((seat_desk s id).trans (report_desk _ .idle)).trans ⟨rfl, rfl, rfl⟩

theorem status_desk (s : Plugin) (id : Str) (busy : Bool) : SameDesk s (s.onStatus id busy) := by
  have hadopt : SameDesk s (s.adopt id) := ⟨rfl, rfl, rfl⟩
  unfold onStatus
  dsimp only
  split
  · exact ⟨rfl, rfl, rfl⟩
  · split
    · exact hadopt
    · split
      · exact hadopt.trans (report_desk _ .busy)
      · exact hadopt

theorem begin_ledger {s : Plugin} (h : Ledger s) : Ledger s.begin := by
  unfold begin
  split
  next text chain hrunning hchain =>
    have hout : s.out = 0 := by simp [out, hrunning]
    unfold inject
    split
    · exact SameDesk.ledger (s := s) ⟨rfl, rfl, rfl⟩ h
    next id hseat =>
      split
      · exact Ledger.prompt (s := { s with chain }) ⟨h.bodies, h.count⟩ hout (List.suffix_refl _)
      · refine ⟨h.bodies, ?_⟩
        have hcount := h.count
        rw [hout] at hcount
        exact hcount
  · exact h

theorem brief_ledger {s : Plugin} (h : Ledger s) (briefing : Str) : Ledger (s.brief briefing) := by
  unfold brief
  split
  next id head text hrunning =>
    exact h.prompt (by simp [out, hrunning]) (List.suffix_append _ _)
  · exact h

theorem complete_ledger {s : Plugin} (h : Ledger s) : Ledger s.complete := by
  unfold complete
  split
  next id hrunning =>
    refine ⟨h.bodies, ?_⟩
    have hcount := h.count
    have hout : s.out = 1 := by simp [out, hrunning]
    rw [hout] at hcount
    exact hcount
  · exact h

theorem step_ledger (s : Plugin) (e : Event) (h : Ledger s) : Ledger (s.step e) := by
  cases e with
  | welcome lines => exact (welcome_desk s lines).ledger h
  | frame lines => exact (frame_desk s lines).ledger h
  | hubClosed => exact (hubClosed_desk s).ledger h
  | created id parentID => exact (created_desk s id parentID).ledger h
  | idle id => exact (idle_desk s id).ledger h
  | status id busy => exact (status_desk s id busy).ledger h
  | begin => exact begin_ledger h
  | brief briefing => exact brief_ledger h briefing
  | complete => exact complete_ledger h

/-! ## Prompting in order -/

theorem lost_iff {s : Plugin} {lost : Nat} (h : Accounts s.flow lost) (k : Nat) :
    s.Lost k ↔ k < lost := by
  have hle : lost ≤ s.arrived.length := h.le
  have hmem : k ∈ stamps (s.begun ++ s.chain ++ s.held) ↔
      k ∈ List.range' lost (s.arrived.length - lost) := h.perm.mem_iff
  rw [Lost, hmem, List.mem_range'_1]
  omega

theorem step_sheds (s : Plugin) (e : Event) {lost : Nat} (h : Accounts s.flow lost) :
    s.Sheds e := by
  intro k hgone hthere
  rw [lost_iff h] at hthere
  obtain hsame | ⟨hseat, hroom, hmore⟩ := step_accounts s e h
  · exact absurd ((lost_iff hsame k).1 hgone) hthere
  · refine ⟨hseat, hroom, fun j hj => ?_⟩
    rw [lost_iff hmore] at hgone ⊢
    omega

theorem begun_starts (s : Plugin) : s.prompts.map Prompt.text <+: s.begun := by
  unfold begun
  split
  · exact List.prefix_append _ _
  · exact List.prefix_refl _

theorem sound_of_accounts {s : Plugin} {lost : Nat} (h : Accounts s.flow lost) (hl : Ledger s) :
    Sound s := by
  have hmem : ∀ p ∈ s.prompts, p.text ∈ s.begun ++ s.chain ++ s.held := by
    intro p hp
    have hin := (begun_starts s).subset (List.mem_map_of_mem hp)
    simp [hin]
  constructor
  · have hnodup : (stamps (s.begun ++ s.chain ++ s.held)).Nodup :=
      h.perm.nodup_iff.2 List.nodup_range'
    refine hnodup.sublist (List.Sublist.map _ ?_)
    rw [List.append_assoc]
    exact (begun_starts s).sublist.trans (List.sublist_append_left ..)
  · intro p hp
    obtain ⟨w, hw, hwords⟩ := h.words p.text (hmem p hp)
    refine ⟨w, hw, List.IsSuffix.trans ?_ (hl.bodies p hp)⟩
    rw [hwords]
    split
    · exact List.suffix_append _ _
    · exact List.suffix_refl _
  · have hcount := hl.count
    have hout : s.out ≤ 1 := by unfold out; split <;> omega
    omega
  · refine ⟨lost, lost_iff h, fun p hp hpos => ?_⟩
    have hagain : p.text.again = true :=
      @List.find?_some _ (fun p : Prompt => p.text.again) _ _ hp
    have hin := List.mem_of_find?_eq_some hp
    have hrel : Released s.flow lost := by
      refine h.handed.resolve_left fun hwait => ?_
      rw [hwait.fresh p.text (hmem p hin)] at hagain
      cases hagain
    obtain ⟨n, hn⟩ := hrel.oldest
    obtain ⟨rest, hrest⟩ := begun_starts s
    have hfirst : ((s.begun ++ s.chain).filter Text.again).head? = some p.text := by
      rw [List.head?_filter, ← hrest, List.append_assoc, List.find?_append, List.find?_map]
      have hfind : s.prompts.find? (Text.again ∘ Prompt.text) = some p := hp
      rw [hfind]
      rfl
    have hstamp : p.text.stamp = lost := by
      have hhead := congrArg List.head? hn
      rw [stamps, List.head?_map] at hhead
      have hfirst' : ((s.flow.begun ++ s.flow.chain).filter Text.again).head? = some p.text := hfirst
      rw [hfirst'] at hhead
      cases n with
      | zero => cases hhead
      | succ n => exact Option.some.inj hhead
    obtain ⟨w, hw, hwords⟩ := h.words p.text (hmem p hin)
    rw [if_pos ⟨hagain, hstamp, hpos⟩] at hwords
    exact ⟨w, hw, hwords ▸ hl.bodies p hin⟩

theorem inOrder_of_lined {s : Plugin} (h : Lined s.flow) : InOrder s := by
  refine h.order.sublist (List.Sublist.map _ ?_)
  exact (begun_starts s).sublist.trans (List.sublist_append_left ..)

/-! ## Past the orderly runs -/

/-- What is begun can be ended. -/
theorem settles (s : Plugin) : ∃ fs, (Run.after step s fs).flow = s.flow ∧
    (Run.after step s fs).running = none ∧
    (Run.after step s fs).activeSessionID = s.activeSessionID := by
  cases hrunning : s.running with
  | none => exact ⟨[], rfl, hrunning, rfl⟩
  | some injection =>
    cases injection with
    | prompting id =>
      refine ⟨[.complete], ?_⟩
      simp [Run.after, step, complete, hrunning, flow, begun]
    | briefing id head text =>
      refine ⟨[.brief [], .complete], ?_⟩
      simp [Run.after, step, brief, prompt, complete, hrunning, flow, begun]

/-- With a session, what is in the chain can all be prompted, one text after the other. -/
theorem drains {s : Plugin} {id : Str} (hseat : s.activeSessionID = some id) :
    ∃ fs, (Run.after step s fs).prompts.map Prompt.text = s.begun ++ s.chain := by
  induction hchain : s.chain generalizing s with
  | nil =>
    obtain ⟨fs, hflow, hrunning, -⟩ := settles s
    refine ⟨fs, ?_⟩
    have hbegun : (Run.after step s fs).begun = s.begun := congrArg Flow.begun hflow
    rw [List.append_nil, ← hbegun, begun, hrunning]
  | cons text chain ih =>
    obtain ⟨fs, hflow, hrunning, hactive⟩ := settles s
    have hnext : (Run.after step s fs).chain = text :: chain :=
      (congrArg Flow.chain hflow).trans hchain
    obtain ⟨hstart, hactive'⟩ := begin_start hrunning (hactive.trans hseat) hnext
    rw [hflow] at hstart
    obtain ⟨gs, hgs⟩ := ih hactive' (congrArg Flow.chain hstart)
    have hbegun : (Run.after step s fs).begin.begun = s.begun ++ [text] :=
      congrArg Flow.begun hstart
    refine ⟨fs ++ .begin :: gs, ?_⟩
    rw [Run.after_append, Run.after_cons, step, hgs, hbegun, List.append_assoc]
    rfl

/-- A text of the chain, and a held one handed over behind it, are out of order. -/
theorem overtaken {f : Flow} (h : Lined f) (hchain : f.chain ≠ []) (hheld : f.held ≠ []) :
    ¬ (stamps (f.begun ++ (f.chain ++ handed f.held f.dropped))).Pairwise (· < ·) := by
  intro hpair
  obtain ⟨text, chain, hchain⟩ := List.exists_cons_of_ne_nil hchain
  obtain ⟨old, held, hheld⟩ := List.exists_cons_of_ne_nil hheld
  have hbefore : old.stamp < text.stamp := by
    have horder := h.order
    rw [stamps_append, stamps_append, List.pairwise_append, List.pairwise_append] at horder
    refine horder.2.1.2.2 _ ?_ _ ?_
    · simp [stamps, hheld]
    · simp [stamps, hchain]
  have hafter : text.stamp < old.stamp := by
    rw [stamps_append, stamps_append, stamps_handed, List.pairwise_append,
      List.pairwise_append] at hpair
    refine hpair.2.1.2.2 _ ?_ _ ?_
    · simp [stamps, hchain]
    · simp [stamps, hheld]
  omega

theorem idle_active {s : Plugin} {id : Str} (hid : some id = (s.seat id).activeSessionID) :
    (s.onIdle id).activeSessionID = some id ∧ (s.onIdle id).flow = (s.seat id).flow.release := by
  have hflow : (s.onIdle id).flow = ((s.seat id).report .idle).release.flow := by
    unfold onIdle
    dsimp only
    rw [if_neg (fun hne => hne hid)]
  refine ⟨?_, by rw [hflow, release_flow, flow_report]⟩
  have hreport : ((s.seat id).report .idle).activeSessionID = (s.seat id).activeSessionID := by
    unfold report
    split <;> rfl
  unfold onIdle
  dsimp only
  rw [if_neg (fun hne => hne hid), hid, ← hreport]
  rfl

/-- The texts in the chain, then the held ones, are what comes to the prompts. -/
theorem hands_over {s : Plugin} {id : Str} (hid : some id = (s.seat id).activeSessionID) :
    ∃ fs, (Run.after step s (.idle id :: fs)).prompts.map Prompt.text =
      s.begun ++ (s.chain ++ handed s.held s.heldDropped) := by
  obtain ⟨hactive, hflow⟩ := idle_active hid
  obtain ⟨fs, hfs⟩ := drains hactive
  refine ⟨fs, ?_⟩
  have hbegun : (s.onIdle id).begun = (s.seat id).begun := congrArg Flow.begun hflow
  have hchain : (s.onIdle id).chain =
      (s.seat id).chain ++ handed (s.seat id).held (s.seat id).heldDropped :=
    congrArg Flow.chain hflow
  rw [Run.after_cons, step, hfs, hbegun, hchain]
  unfold seat
  split <;> rfl

/-- **The condition is exact.**  After a step that is not orderly the texts can come to the
prompts out of order. -/
theorem disorder {s : Plugin} (h : Lined s.flow) {e : Event} (horder : ¬ s.Orderly e) :
    ∃ fs, ¬ (Run.after step s (e :: fs)).InOrder := by
  cases e with
  | begin =>
    simp only [Orderly, not_or, Decidable.not_not] at horder
    obtain ⟨hseat, hrunning, hchain, hheld⟩ := horder
    obtain ⟨id, hid⟩ := Option.ne_none_iff_exists'.1 hseat
    obtain ⟨text, chain, hnext⟩ := List.exists_cons_of_ne_nil hchain
    obtain ⟨hflow, hactive⟩ := begin_start hrunning hid hnext
    have hsame : some id = (s.begin.seat id).activeSessionID := by
      unfold seat
      split
      · exact hactive.symm
      · rfl
    obtain ⟨fs, hfs⟩ := hands_over hsame
    refine ⟨.idle id :: fs, fun hin => ?_⟩
    refine overtaken h hchain hheld ?_
    have hbegun : s.begin.begun = s.begun ++ [text] := congrArg Flow.begun hflow
    have hrest : s.begin.chain = chain := congrArg Flow.chain hflow
    have hheld' : s.begin.held = s.held := congrArg Flow.held hflow
    have hdropped : s.begin.heldDropped = s.heldDropped := congrArg Flow.dropped hflow
    rw [hbegun, hrest, hheld', hdropped] at hfs
    rw [InOrder, Run.after_cons, step, hfs] at hin
    have hline : s.flow.begun ++ (s.flow.chain ++ handed s.flow.held s.flow.dropped) =
        s.begun ++ [text] ++ (chain ++ handed s.held s.heldDropped) := by
      simp only [flow, hnext]
      simp
    rwa [hline]
  | idle id =>
    simp only [Orderly, not_or, Decidable.not_not] at horder
    obtain ⟨hid, hchain, hheld⟩ := horder
    obtain ⟨fs, hfs⟩ := hands_over hid
    refine ⟨fs, fun hin => overtaken h hchain hheld ?_⟩
    rw [InOrder, hfs] at hin
    exact hin
  | _ => exact absurd trivial horder

/-! ## Every run -/

theorem after_accounts (es : List Event) :
    ∃ lost, Accounts (Run.after step {} es).flow lost := by
  refine Run.preserved (I := fun s : Plugin => ∃ lost, Accounts s.flow lost) ?_
    ⟨0, accounts_start⟩ es
  rintro s e ⟨lost, h⟩
  obtain hsame | ⟨-, -, hmore⟩ := step_accounts s e h
  · exact ⟨lost, hsame⟩
  · exact ⟨lost + 1, hmore⟩

theorem after_lined {es : List Event} (horder : Run.Always step Orderly {} es) :
    Lined (Run.after step {} es).flow := by
  have hboth : (∃ lost, Accounts (Run.after step {} es).flow lost) ∧
      Lined (Run.after step {} es).flow := by
    refine Run.invariant (I := fun s : Plugin => (∃ lost, Accounts s.flow lost) ∧ Lined s.flow) ?_
      ⟨⟨0, accounts_start⟩, List.Pairwise.nil, Or.inl rfl⟩ horder
    rintro s e ⟨⟨lost, haccounts⟩, hline⟩ horder
    refine ⟨?_, step_lined s e haccounts horder hline⟩
    obtain hsame | ⟨-, -, hmore⟩ := step_accounts s e haccounts
    · exact ⟨lost, hsame⟩
    · exact ⟨lost + 1, hmore⟩
  exact hboth.2

/-- **Prompts in order.**  In every run each text is prompted at most once, one prompt is
out at a time, a text is lost only for want of room and is counted; and in a run whose
steps are orderly the texts are prompted in the order of arrival, while any step that is
not orderly has runs that end out of order. -/
theorem prompts_in_order (es : List Event) :
    Sound (Run.after step {} es) ∧ (∀ e, Sheds (Run.after step {} es) e) ∧
      (Run.Always step Orderly {} es → InOrder (Run.after step {} es) ∧
        ∀ e, ¬ (Run.after step {} es).Orderly e →
          ∃ fs, ¬ InOrder (Run.after step {} (es ++ e :: fs))) := by
  obtain ⟨lost, haccounts⟩ := after_accounts es
  have hledger : Ledger (Run.after step {} es) :=
    Run.preserved step_ledger ⟨by simp, rfl⟩ es
  refine ⟨sound_of_accounts haccounts hledger, fun e => step_sheds _ e haccounts, ?_⟩
  intro horder
  have hline := after_lined horder
  refine ⟨inOrder_of_lined hline, fun e hnot => ?_⟩
  obtain ⟨fs, hfs⟩ := disorder hline hnot
  refine ⟨fs, ?_⟩
  rwa [Run.after_append]

/-- A text is held, a session comes, and the next text is prompted before the session is
idle for the first time. -/
def lateHandover : List Event :=
  [.frame [str "first"], .begin, .created (str "ses") none, .frame [str "second"], .begin,
    .brief (str "rules"), .complete, .idle (str "ses"), .begin, .complete]

/-- The first text is prompted after the second. -/
theorem prompts_not_in_order : ¬ ∀ es, InOrder (Run.after step {} es) := by
  intro h
  have hstamps : stamps ((Run.after step {} lateHandover).prompts.map Prompt.text) = [1, 0] := by
    decide
  have horder := h lateHandover
  rw [InOrder, hstamps] at horder
  exact absurd horder (by decide)

theorem prompts_in_order_firstHeld :
    InOrder (Run.after step {} (lateHandover.take 4)) ∧
      ∃ fs, ¬ InOrder (Run.after step {} (lateHandover.take 4 ++ .begin :: fs)) := by
  have horder : Run.Always step Orderly {} (lateHandover.take 4) := by
    refine ⟨trivial, Or.inl rfl, trivial, trivial, trivial⟩
  obtain ⟨hin, hout⟩ := (prompts_in_order (lateHandover.take 4)).2.2 horder
  exact ⟨hin, hout .begin (by decide)⟩

end Plugin

end Moot.Opencode
