import Moot.Lib.Run
import Moot.Types
import Mathlib.Tactic

/-!
# The stream process

`cli/stream.py` as threads that take atomic steps: every section under the
lock, every operation on an event, every send and every operation on a slot is
one step.  The reader thread runs `read_hub`; a thread of the control server
runs `_relay_state` or `_forward_say`; the main thread stops the stream.

Proved here: `reports_survive`.  A state report reaches the hub as long as no
report is stored while `_adopt` is between its section under the lock and
`live.set`, no older report is sent after the newest one, and the newest one is
not sent into a connection that has just broken.  `report_lost_in_adopt` is a
run in which the first of these happens.
-/

namespace Moot

namespace Stream

abbrev ConnId := Nat

/-- What a thread hands to a connection. -/
inductive Out (Φ : Type)
  | state (frame : Φ)
  | say (seq : Nat) (frame : Φ)
  | pong
  | bye

/-- What `_forward_say` returns; `raised` is an exception instead, which leaves the control
client without a reply. -/
inductive Reply (Φ : Type)
  | hub (frame : Φ)
  | hubUnreachable
  | timeout
  | raised

/-- What the hub sends: a `ping`, a frame with a `seq` of ours, or any other. -/
inductive In (Φ : Type)
  | ping
  | answer (seq : Nat) (frame : Φ)
  | other (frame : Φ)

/-- A `_relay_state` after its section under the lock. -/
structure Relay (Φ : Type) where
  frame : Φ
  conn : Option ConnId

/-- Where a `_forward_say` stands. -/
inductive CallAt (Φ : Type)
  | sending (seq : Nat) (conn : ConnId)
  | waiting (seq : Nat)
  | leaving (seq : Nat) (reply : Reply Φ)
  | returned (reply : Reply Φ)

structure Call (Φ : Type) where
  frame : Φ
  pos : CallAt Φ

/-- Where the reader stands.  `crash` says that an exception is on its way out
of `_pump`. -/
inductive Reader (Φ : Type)
  | pumping (conn : ConnId)
  | handing (conn : ConnId) (seq : Nat) (frame : Φ)
  | ended (crash : Bool)
  | dark (crash : Bool)
  | failing (slots : List Nat) (crash : Bool)
  | reconnecting
  | closingOld (old : ConnId) (state : Option Φ)
  | replaying (state : Option Φ)
  | relighting (state : Option Φ)
  | closing
  | closed
  | lastDark
  | lastFailing (slots : List Nat)
  | done

end Stream

open Moot.Stream in
/-- `Stream`, the slots of the waiting says, the connections made, closed and
written to. -/
structure Stream (Φ : Type) where
  conn : ConnId := 0
  live : Bool := true
  closed : Bool := false
  stopping : Bool := false
  lastState : Option Φ := none
  seq : Nat := 0
  pending : List Nat := []
  slots : Nat → List (Reply Φ) := fun _ => []
  reader : Reader Φ := .pumping 0
  relays : List (Relay Φ) := []
  calls : List (Call Φ) := []
  conns : Nat := 1
  shut : List ConnId := []
  sent : ConnId → List (Out Φ) := fun _ => []

namespace Stream

variable {Φ : Type}

/-- `conn.send(frame)` that succeeds. -/
def send (s : Stream Φ) (c : ConnId) (out : Out Φ) : Stream Φ :=
  { s with sent := Function.update s.sent c (s.sent c ++ [out]) }

/-- `slot.put(reply)` -/
def put (s : Stream Φ) (seq : Nat) (reply : Reply Φ) : Stream Φ :=
  { s with slots := Function.update s.slots seq (s.slots seq ++ [reply]) }

/-- A send raises on a connection this process has closed; on another one it
may find the hub gone. -/
def delivers (s : Stream Φ) (c : ConnId) (ok : Bool) : Bool := ok && !s.shut.contains c

inductive Event (Φ : Type)
  -- a control thread
  | relayStore (frame : Φ)
  | relaySend (i : Nat) (ok : Bool)
  | register (frame : Φ)
  | callSend (i : Nat) (ok : Bool)
  | callRaise (i : Nat)
  | callGet (i : Nat) (expired : Bool)
  | callLeave (i : Nat)
  -- the reader thread
  | receive (frame : In Φ) (ok : Bool)
  | hand
  | eof (crash : Bool)
  | close
  | darken
  | snapshot
  | fail
  | connected
  | giveUp
  | closeOld
  | replay (ok : Bool)
  | relight
  -- the main thread
  | stop
  | bye (ok : Bool)
  | hangUp

/-- `_relay_state`, the section under the lock. -/
def relayStore (s : Stream Φ) (frame : Φ) : Stream Φ :=
  { s with
    lastState := some frame
    relays := s.relays ++ [⟨frame, if s.live then some s.conn else none⟩] }

/-- `_relay_state`, the send and the return; an `OSError` is swallowed. -/
def relaySend (s : Stream Φ) (i : Nat) (ok : Bool) : Stream Φ :=
  match s.relays[i]? with
  | none => s
  | some ⟨frame, conn⟩ =>
    let s' := { s with relays := s.relays.eraseIdx i }
    match conn with
    | none => s'
    | some c => if s.delivers c ok then s'.send c (.state frame) else s'

/-- `_forward_say`, the section under the lock. -/
def register (s : Stream Φ) (frame : Φ) : Stream Φ :=
  if s.closed || !s.live then
    { s with calls := s.calls ++ [⟨frame, .returned .hubUnreachable⟩] }
  else
    { s with
      seq := s.seq + 1
      pending := s.pending ++ [s.seq + 1]
      calls := s.calls ++ [⟨frame, .sending (s.seq + 1) s.conn⟩] }

def moveCall (s : Stream Φ) (i : Nat) (frame : Φ) (pos : CallAt Φ) : Stream Φ :=
  { s with calls := s.calls.set i ⟨frame, pos⟩ }

/-- `_forward_say`, the send. -/
def callSend (s : Stream Φ) (i : Nat) (ok : Bool) : Stream Φ :=
  match s.calls[i]? with
  | some ⟨frame, .sending seq c⟩ =>
    if s.delivers c ok then (s.send c (.say seq frame)).moveCall i frame (.waiting seq)
    else s.moveCall i frame (.leaving seq .hubUnreachable)
  | _ => s

/-- `_forward_say`, a send that raises no `OSError`: the text has no encoding. -/
def callRaise (s : Stream Φ) (i : Nat) : Stream Φ :=
  match s.calls[i]? with
  | some ⟨frame, .sending seq _⟩ => s.moveCall i frame (.leaving seq .raised)
  | _ => s

/-- `_forward_say`, `slot.get` with its timeout. -/
def callGet (s : Stream Φ) (i : Nat) (expired : Bool) : Stream Φ :=
  match s.calls[i]? with
  | some ⟨frame, .waiting seq⟩ =>
    match s.slots seq with
    | reply :: rest =>
      { s with slots := Function.update s.slots seq rest }.moveCall i frame (.leaving seq reply)
    | [] => if expired then s.moveCall i frame (.leaving seq .timeout) else s
  | _ => s

/-- `_forward_say`, the `finally` and the return. -/
def callLeave (s : Stream Φ) (i : Nat) : Stream Φ :=
  match s.calls[i]? with
  | some ⟨frame, .leaving seq reply⟩ =>
    { s with pending := s.pending.erase seq }.moveCall i frame (.returned reply)
  | _ => s

/-- `_pump`, one frame; `ok` says that answering a ping, or rendering, does not
raise. -/
def receive (s : Stream Φ) (frame : In Φ) (ok : Bool) : Stream Φ :=
  match s.reader with
  | .pumping c =>
    match frame with
    | .ping => if s.delivers c ok then s.send c .pong else { s with reader := .ended true }
    | .answer seq frame =>
      if s.pending.contains seq then { s with reader := .handing c seq frame }
      else if ok then s else { s with reader := .ended true }
    | .other _ => if ok then s else { s with reader := .ended true }
  | _ => s

/-- `_hand_to_waiter`, the put. -/
def hand (s : Stream Φ) : Stream Φ :=
  match s.reader with
  | .handing c seq frame => { s.put seq (.hub frame) with reader := .pumping c }
  | _ => s

/-- The connection of `_pump` ends, or reading it raises. -/
def eof (s : Stream Φ) (crash : Bool) : Stream Φ :=
  match s.reader with
  | .pumping _ => { s with reader := .ended crash }
  | _ => s

/-- `closed.set()` at the end of `read_hub`. -/
def close (s : Stream Φ) : Stream Φ :=
  match s.reader with
  | .closing => { s with closed := true, reader := .closed }
  | _ => s

/-- `live.clear()`, at the end of `_pump` and of `read_hub`. -/
def darken (s : Stream Φ) : Stream Φ :=
  match s.reader with
  | .ended crash => { s with live := false, reader := .dark crash }
  | .closed => { s with live := false, reader := .lastDark }
  | _ => s

/-- `_fail_pending`, the section under the lock. -/
def snapshot (s : Stream Φ) : Stream Φ :=
  match s.reader with
  | .dark crash => { s with reader := .failing s.pending crash }
  | .lastDark => { s with reader := .lastFailing s.pending }
  | _ => s

/-- `_fail_pending`, one put or the end of the loop. -/
def fail (s : Stream Φ) : Stream Φ :=
  match s.reader with
  | .failing (seq :: slots) crash =>
    { s.put seq .hubUnreachable with reader := .failing slots crash }
  | .failing [] crash =>
    { s with reader := if crash || s.stopping then .closing else .reconnecting }
  | .lastFailing (seq :: slots) => { s.put seq .hubUnreachable with reader := .lastFailing slots }
  | .lastFailing [] => { s with reader := .done }
  | _ => s

/-- `_reconnect` has a connection; `_adopt`, the section under the lock. -/
def connected (s : Stream Φ) : Stream Φ :=
  match s.reader with
  | .reconnecting =>
    { s with conn := s.conns, conns := s.conns + 1, reader := .closingOld s.conn s.lastState }
  | _ => s

/-- `_reconnect` returns false. -/
def giveUp (s : Stream Φ) : Stream Φ :=
  match s.reader with
  | .reconnecting => { s with reader := .closing }
  | _ => s

/-- `_adopt`, `old.close()`. -/
def closeOld (s : Stream Φ) : Stream Φ :=
  match s.reader with
  | .closingOld old state => { s with shut := old :: s.shut, reader := .replaying state }
  | _ => s

/-- `_adopt`, the send of the cached state. -/
def replay (s : Stream Φ) (ok : Bool) : Stream Φ :=
  match s.reader with
  | .replaying none => { s with reader := .relighting none }
  | .replaying (some frame) =>
    if s.delivers s.conn ok then
      { s.send s.conn (.state frame) with reader := .relighting (some frame) }
    else { s with reader := .closing }
  | _ => s

/-- `_adopt`, `live.set()`, and `_pump` on the new connection. -/
def relight (s : Stream Φ) : Stream Φ :=
  match s.reader with
  | .relighting _ => { s with live := true, reader := .pumping s.conn }
  | _ => s

/-- One step.  An event that is not enabled does nothing. -/
def step (s : Stream Φ) : Event Φ → Stream Φ
  | .relayStore frame => s.relayStore frame
  | .relaySend i ok => s.relaySend i ok
  | .register frame => s.register frame
  | .callSend i ok => s.callSend i ok
  | .callRaise i => s.callRaise i
  | .callGet i expired => s.callGet i expired
  | .callLeave i => s.callLeave i
  | .receive frame ok => s.receive frame ok
  | .hand => s.hand
  | .eof crash => s.eof crash
  | .close => s.close
  | .darken => s.darken
  | .snapshot => s.snapshot
  | .fail => s.fail
  | .connected => s.connected
  | .giveUp => s.giveUp
  | .closeOld => s.closeOld
  | .replay ok => s.replay ok
  | .relight => s.relight
  | .stop => { s with stopping := true }
  | .bye ok => if s.stopping && s.live && s.delivers s.conn ok then s.send s.conn .bye else s
  | .hangUp => if s.stopping then { s with shut := s.conn :: s.shut } else s

/-! ## The law -/

/-- The state a frame reports. -/
def Out.report? : Out Φ → Option Φ
  | .state frame => some frame
  | _ => none

/-- The last state frame of a connection. -/
def lastReport (outs : List (Out Φ)) : Option Φ := (outs.filterMap Out.report?).getLast?

@[simp] theorem lastReport_state (outs : List (Out Φ)) (frame : Φ) :
    lastReport (outs ++ [.state frame]) = some frame := by
  simp [lastReport, Out.report?]

theorem lastReport_other (outs : List (Out Φ)) {out : Out Φ} (h : out.report? = none) :
    lastReport (outs ++ [out]) = lastReport outs := by
  simp [lastReport, h]

/-- The state frame last sent on the connection is the report last stored. -/
def Current (s : Stream Φ) : Prop :=
  ∀ frame, s.lastState = some frame → lastReport (s.sent s.conn) = some frame

/-- What `_adopt` took under the lock, until `live.set()`. -/
def Reader.taken : Reader Φ → Option (Option Φ)
  | .closingOld _ state | .replaying state | .relighting state => some state
  | _ => none

/-- No `_relay_state` and no `_adopt` is in progress, and `live` is set. -/
def Quiet (s : Stream Φ) : Prop := s.relays = [] ∧ s.reader.taken = none ∧ s.live = true

/-- The step does not make one of the three mistakes: storing a report that the
running `_adopt` has missed, sending an older report after the newest one, and
sending the newest one, for the first time, into a broken connection. -/
def Harmless (s : Stream Φ) : Event Φ → Prop
  | .relayStore frame => ∀ state, s.reader.taken = some state → state = some frame
  | .relaySend i ok => ∀ frame, s.relays[i]? = some ⟨frame, some s.conn⟩ → s.live = true →
    if s.delivers s.conn ok then some frame = s.lastState ∨ ¬ s.Current
    else some frame ≠ s.lastState ∨ s.Current
  | _ => True

/-! ## The invariant -/

/-- The reader serves a connection and has not cleared `live` since. -/
def Reader.lit : Reader Φ → Bool
  | .pumping _ | .handing .. | .ended _ => true
  | _ => false

/-- Some relay has yet to send the newest report on the connection. -/
def Underway (s : Stream Φ) : Prop :=
  ∃ r ∈ s.relays, r.conn = some s.conn ∧ some r.frame = s.lastState

/-- While `live` is set the newest report is on the connection or on its way;
while `_adopt` runs, what it took is the newest report, and no relay writes to
the new connection. -/
structure Inv (s : Stream Φ) : Prop where
  lit : s.live = true → s.reader.lit = true
  connLt : s.conn < s.conns
  relayLt : ∀ r ∈ s.relays, ∀ c, r.conn = some c → c < s.conns
  taken : ∀ state, s.reader.taken = some state →
    state = s.lastState ∧ ∀ r ∈ s.relays, r.conn ≠ some s.conn
  replayed : ∀ frame, s.reader = .relighting (some frame) →
    lastReport (s.sent s.conn) = some frame
  current : s.live = true → s.Current ∨ s.Underway

theorem Inv.initial : Inv ({} : Stream Φ) where
  lit := fun _ => rfl
  connLt := Nat.one_pos
  relayLt := fun r hr => by simp at hr
  taken := fun state h => by simp [Reader.taken] at h
  replayed := fun frame h => by simp at h
  current := fun _ => Or.inl fun frame h => by simp at h

/-- A step that touches neither the reports nor the reader's place. -/
theorem Inv.same {s s' : Stream Φ} (h : Inv s) (hconn : s'.conn = s.conn)
    (hlive : s'.live = s.live) (hconns : s'.conns = s.conns) (hlast : s'.lastState = s.lastState)
    (hrelays : s'.relays = s.relays)
    (hsent : lastReport (s'.sent s.conn) = lastReport (s.sent s.conn))
    (hreader : s'.reader = s.reader ∨
      s'.reader.taken = none ∧ (s.live = true → s'.reader.lit = true)) : Inv s' := by
  have hcurrent : s.Current → s'.Current := by
    intro hc frame hf
    rw [hconn, hsent]
    exact hc frame (by rw [← hlast]; exact hf)
  have hunder : s.Underway → s'.Underway := by
    rintro ⟨r, hr, hrc, hrf⟩
    exact ⟨r, by rw [hrelays]; exact hr, by rw [hconn]; exact hrc, by rw [hlast]; exact hrf⟩
  refine
    { lit := fun hl => ?_
      connLt := by rw [hconn, hconns]; exact h.connLt
      relayLt := by rw [hrelays, hconns]; exact h.relayLt
      taken := fun state ht => ?_
      replayed := fun frame hr => ?_
      current := fun hl => ?_ }
  · rw [hlive] at hl
    rcases hreader with heq | ⟨-, hlit⟩
    · rw [heq]; exact h.lit hl
    · exact hlit hl
  · rcases hreader with heq | ⟨hnone, -⟩
    · rw [hlast, hrelays, hconn]
      exact h.taken state (by rw [← heq]; exact ht)
    · rw [hnone] at ht; cases ht
  · rcases hreader with heq | ⟨hnone, -⟩
    · rw [hconn, hsent]
      exact h.replayed frame (by rw [← heq]; exact hr)
    · rw [hr] at hnone; cases hnone
  · rw [hlive] at hl
    exact (h.current hl).imp hcurrent hunder

/-- Sending anything but a state. -/
theorem lastReport_send (s : Stream Φ) (c d : ConnId) {out : Out Φ} (h : out.report? = none) :
    lastReport ((s.send c out).sent d) = lastReport (s.sent d) := by
  simp only [send]
  by_cases hd : d = c
  · subst hd
    rw [Function.update_self, lastReport_other _ h]
  · rw [Function.update_of_ne hd]

theorem Inv.relayStore {s : Stream Φ} (h : Inv s) (frame : Φ)
    (hh : Harmless s (.relayStore frame)) : Inv (s.relayStore frame) := by
  refine
    { lit := h.lit
      connLt := h.connLt
      relayLt := ?_
      taken := ?_
      replayed := h.replayed
      current := ?_ }
  · intro r hr c hc
    rcases List.mem_append.mp hr with hr | hr
    · exact h.relayLt r hr c hc
    · rw [List.mem_singleton] at hr
      subst hr
      cases hl : s.live with
      | true =>
        simp only [hl, if_true, Option.some.injEq] at hc
        rw [← hc]
        exact h.connLt
      | false => simp [hl] at hc
  · intro state ht
    refine ⟨hh state ht, fun r hr => ?_⟩
    rcases List.mem_append.mp hr with hr | hr
    · exact (h.taken state ht).2 r hr
    · -- the reader is not lit, so the relay takes no connection
      rw [List.mem_singleton] at hr
      subst hr
      cases hl : s.live with
      | true =>
        have hlit := h.lit hl
        cases hrd : s.reader <;> simp [Stream.relayStore, hrd, Reader.taken, Reader.lit] at ht hlit
      | false => simp
  · intro hl
    refine Or.inr ⟨⟨frame, some s.conn⟩, ?_, rfl, rfl⟩
    have hl' : s.live = true := hl
    simp [Stream.relayStore, hl']

theorem mem_eraseIdx_of_ne {α : Type} {l : List α} {i : Nat} {a b : α} (hi : l[i]? = some a)
    (hb : b ∈ l) (hne : b ≠ a) : b ∈ l.eraseIdx i := by
  obtain ⟨j, hj, rfl⟩ := List.getElem_of_mem hb
  rw [List.mem_eraseIdx_iff_getElem]
  refine ⟨j, hj, ?_, rfl⟩
  rintro rfl
  rw [List.getElem?_eq_getElem hj, Option.some.injEq] at hi
  exact hne hi

theorem Inv.relaySend {s : Stream Φ} (h : Inv s) (i : Nat) (ok : Bool)
    (hh : Harmless s (.relaySend i ok)) : Inv (s.relaySend i ok) := by
  cases hi : s.relays[i]? with
  | none => rw [Stream.relaySend, hi]; exact h
  | some r =>
    obtain ⟨frame, conn⟩ := r
    have hsub : ∀ r ∈ s.relays.eraseIdx i, r ∈ s.relays := fun r hr => List.mem_of_mem_eraseIdx hr
    -- the newest report stays under way unless this relay carried it
    have hkeep : s.Underway → some frame ≠ s.lastState ∨ conn ≠ some s.conn →
        ∃ r ∈ s.relays.eraseIdx i, r.conn = some s.conn ∧ some r.frame = s.lastState := by
      rintro ⟨r, hr, hrc, hrf⟩ hne
      refine ⟨r, mem_eraseIdx_of_ne hi hr ?_, hrc, hrf⟩
      rintro rfl
      rcases hne with hne | hne
      · exact hne hrf
      · exact hne hrc
    have hdrop : (s.live = true → s.Current ∨ some frame ≠ s.lastState ∨ conn ≠ some s.conn) →
        Inv { s with relays := s.relays.eraseIdx i } := by
      intro hlive
      refine
        { lit := h.lit
          connLt := h.connLt
          relayLt := fun r hr => h.relayLt r (hsub r hr)
          taken := fun state ht => ⟨(h.taken state ht).1, fun r hr => (h.taken state ht).2 r (hsub r hr)⟩
          replayed := h.replayed
          current := fun hl => ?_ }
      rcases h.current hl with hc | hu
      · exact Or.inl hc
      · rcases hlive hl with hc | hne
        · exact Or.inl hc
        · exact Or.inr (hkeep hu hne)
    cases conn with
    | none =>
      rw [Stream.relaySend, hi]
      exact hdrop fun _ => Or.inr (Or.inr (by simp))
    | some c =>
      by_cases hd : s.delivers c ok = true
      · have hstep : s.relaySend i ok =
            { s with relays := s.relays.eraseIdx i }.send c (.state frame) := by
          rw [Stream.relaySend, hi]
          simp only
          exact if_pos hd
        rw [hstep]
        by_cases hc : c = s.conn
        · subst hc
          refine
            { lit := h.lit
              connLt := h.connLt
              relayLt := fun r hr => h.relayLt r (hsub r hr)
              taken := fun state ht =>
                absurd rfl ((h.taken state ht).2 _ (List.mem_of_getElem? hi))
              replayed := fun f hr =>
                absurd rfl ((h.taken _ (by rw [show s.reader = _ from hr]; rfl)).2 _
                  (List.mem_of_getElem? hi))
              current := fun hl => ?_ }
          have hsent : lastReport (Function.update s.sent s.conn
              (s.sent s.conn ++ [Out.state frame]) s.conn) = some frame := by
            rw [Function.update_self, lastReport_state]
          have hcase := hh frame hi hl
          rw [if_pos hd] at hcase
          rcases hcase with hnew | hold
          · left
            intro f hf
            rw [show s.lastState = some f from hf] at hnew
            exact hsent.trans hnew
          · by_cases hnew : some frame = s.lastState
            · left
              intro f hf
              rw [show s.lastState = some f from hf] at hnew
              exact hsent.trans hnew
            · right
              exact hkeep ((h.current hl).resolve_left hold) (Or.inl hnew)
        · -- a send on a connection that has been replaced
          have hother := hdrop fun _ => Or.inr (Or.inr (by simpa using hc))
          refine hother.same rfl rfl rfl rfl rfl ?_ (Or.inl rfl)
          simp only [send]
          rw [Function.update_of_ne (Ne.symm hc)]
      · have hstep : s.relaySend i ok = { s with relays := s.relays.eraseIdx i } := by
          rw [Stream.relaySend, hi]
          simp only
          exact if_neg hd
        rw [hstep]
        refine hdrop fun hl => ?_
        by_cases hc : c = s.conn
        · subst hc
          have hcase := hh frame hi hl
          rw [if_neg hd] at hcase
          exact hcase.elim (fun hne => Or.inr (Or.inl hne)) Or.inl
        · exact Or.inr (Or.inr (by simpa using hc))

/-- The reader leaves one place for another that `_adopt` has no part in. -/
theorem Inv.read {s : Stream Φ} (h : Inv s) (reader : Reader Φ) (htaken : reader.taken = none)
    (hlit : s.reader.lit = true → reader.lit = true) : Inv { s with reader := reader } :=
  h.same rfl rfl rfl rfl rfl rfl (Or.inr ⟨htaken, fun hl => hlit (h.lit hl)⟩)

theorem Inv.moveCall {s : Stream Φ} (h : Inv s) (i : Nat) (frame : Φ) (pos : CallAt Φ) :
    Inv (s.moveCall i frame pos) :=
  h.same rfl rfl rfl rfl rfl rfl (Or.inl rfl)

theorem Inv.put {s : Stream Φ} (h : Inv s) (seq : Nat) (reply : Reply Φ) : Inv (s.put seq reply) :=
  h.same rfl rfl rfl rfl rfl rfl (Or.inl rfl)

theorem Inv.send {s : Stream Φ} (h : Inv s) (c : ConnId) {out : Out Φ} (ho : out.report? = none) :
    Inv (s.send c out) :=
  h.same rfl rfl rfl rfl rfl (lastReport_send s c s.conn ho) (Or.inl rfl)

theorem Inv.receive {s : Stream Φ} (h : Inv s) (frame : In Φ) (ok : Bool) :
    Inv (s.receive frame ok) := by
  unfold Stream.receive
  split
  · next c hr =>
    have hmove : ∀ reader : Reader Φ, reader.taken = none → reader.lit = true →
        Inv { s with reader := reader } := fun reader ht hl => h.read reader ht fun _ => hl
    cases frame with
    | ping =>
      simp only
      split
      · exact h.send c rfl
      · exact hmove _ rfl rfl
    | answer seq frame =>
      simp only
      split_ifs
      · exact hmove _ rfl rfl
      · exact h
      · exact hmove _ rfl rfl
    | other frame =>
      simp only
      split
      · exact h
      · exact hmove _ rfl rfl
  · exact h

theorem Inv.darken {s : Stream Φ} (h : Inv s) : Inv s.darken := by
  have hdark : ∀ reader : Reader Φ, reader.taken = none →
      Inv { s with live := false, reader := reader } := by
    intro reader ht
    exact
      { lit := fun hl => by simp at hl
        connLt := h.connLt
        relayLt := h.relayLt
        taken := fun state hs => by rw [ht] at hs; cases hs
        replayed := fun frame hr => by rw [show reader = _ from hr] at ht; cases ht
        current := fun hl => by simp at hl }
  unfold Stream.darken
  split
  · exact hdark _ rfl
  · exact hdark _ rfl
  · exact h

theorem Inv.fail {s : Stream Φ} (h : Inv s) : Inv s.fail := by
  unfold Stream.fail
  split
  · next seq slots crash hr =>
    exact (h.put seq .hubUnreachable).read _ rfl fun hl => by simp [Stream.put, hr, Reader.lit] at hl
  · next crash hr =>
    refine h.read _ (by split <;> rfl) fun hl => ?_
    simp [hr, Reader.lit] at hl
  · next seq slots hr =>
    exact (h.put seq .hubUnreachable).read _ rfl fun hl => by simp [Stream.put, hr, Reader.lit] at hl
  · next hr => exact h.read _ rfl fun hl => by simp [hr, Reader.lit] at hl
  · exact h

/-- `_adopt` takes the report and the connection under one lock. -/
theorem Inv.connected {s : Stream Φ} (h : Inv s) : Inv s.connected := by
  unfold Stream.connected
  split
  · next hr =>
    have hdark : s.live = false := by
      cases hl : s.live with
      | false => rfl
      | true =>
        have := h.lit hl
        simp [hr, Reader.lit] at this
    exact
      { lit := fun hl => by simp [hdark] at hl
        connLt := Nat.lt_succ_self _
        relayLt := fun r hr c hc => Nat.lt_succ_of_lt (h.relayLt r hr c hc)
        taken := fun state ht => by
          simp only [Reader.taken, Option.some.injEq] at ht
          exact ⟨ht.symm, fun r hr hc => Nat.lt_irrefl _ (h.relayLt r hr _ hc)⟩
        replayed := fun frame hr => by simp at hr
        current := fun hl => by simp [hdark] at hl }
  · exact h

theorem Inv.closeOld {s : Stream Φ} (h : Inv s) : Inv s.closeOld := by
  unfold Stream.closeOld
  split
  · next old state hr =>
    have ht := h.taken state (by simp [hr, Reader.taken])
    exact
      { lit := fun hl => absurd (h.lit hl) (by simp [hr, Reader.lit])
        connLt := h.connLt
        relayLt := h.relayLt
        taken := fun state' hs => by
          simp only [Reader.taken, Option.some.injEq] at hs
          exact hs ▸ ht
        replayed := fun frame hr => by simp at hr
        current := h.current }
  · exact h

/-- The report taken is the first frame the new connection carries. -/
theorem Inv.replay {s : Stream Φ} (h : Inv s) (ok : Bool) : Inv (s.replay ok) := by
  unfold Stream.replay
  split
  · next hr =>
    have ht := h.taken none (by simp [hr, Reader.taken])
    exact
      { lit := fun hl => absurd (h.lit hl) (by simp [hr, Reader.lit])
        connLt := h.connLt
        relayLt := h.relayLt
        taken := fun state' hs => by
          simp only [Reader.taken, Option.some.injEq] at hs
          exact hs ▸ ht
        replayed := fun frame hr => by simp at hr
        current := h.current }
  · next frame hr =>
    have ht := h.taken (some frame) (by simp [hr, Reader.taken])
    have hdark : ∀ {p : Prop}, s.live = true → p := fun hl =>
      absurd (h.lit hl) (by simp [hr, Reader.lit])
    split
    · exact
        { lit := hdark
          connLt := h.connLt
          relayLt := h.relayLt
          taken := fun state' hs => by
            simp only [Reader.taken, Option.some.injEq] at hs
            exact hs ▸ ht
          replayed := fun frame' hr' => by
            simp only [Reader.relighting.injEq, Option.some.injEq] at hr'
            simp [Stream.send, hr']
          current := hdark }
    · exact h.read _ rfl fun hl => by simp [hr, Reader.lit] at hl
  · exact h

/-- `live.set()`: the report taken is still the newest one. -/
theorem Inv.relight {s : Stream Φ} (h : Inv s) : Inv s.relight := by
  unfold Stream.relight
  split
  · next state hr =>
    have ht := h.taken state (by simp [hr, Reader.taken])
    exact
      { lit := fun _ => rfl
        connLt := h.connLt
        relayLt := h.relayLt
        taken := fun state' hs => by simp [Reader.taken] at hs
        replayed := fun frame hr => by simp at hr
        current := fun _ => Or.inl fun frame hf => by
          have hstate : state = some frame := ht.1.trans hf
          exact h.replayed frame (by rw [hr, hstate]) }
  · exact h

theorem Inv.step {s : Stream Φ} (h : Inv s) (e : Event Φ) (hh : Harmless s e) :
    Inv (step s e) := by
  cases e with
  | relayStore frame => exact h.relayStore frame hh
  | relaySend i ok => exact h.relaySend i ok hh
  | register frame =>
    simp only [Stream.step, Stream.register]
    split <;> exact h.same rfl rfl rfl rfl rfl rfl (Or.inl rfl)
  | callSend i ok =>
    simp only [Stream.step, Stream.callSend]
    split
    · next frame seq c hi =>
      split
      · exact (h.send c rfl).moveCall ..
      · exact h.moveCall ..
    · exact h
  | callRaise i =>
    simp only [Stream.step, Stream.callRaise]
    split
    · exact h.moveCall ..
    · exact h
  | callGet i expired =>
    simp only [Stream.step, Stream.callGet]
    split
    · split
      · exact h.same rfl rfl rfl rfl rfl rfl (Or.inl rfl)
      · split
        · exact h.moveCall ..
        · exact h
    · exact h
  | callLeave i =>
    simp only [Stream.step, Stream.callLeave]
    split
    · exact h.same rfl rfl rfl rfl rfl rfl (Or.inl rfl)
    · exact h
  | receive frame ok => exact h.receive frame ok
  | hand =>
    simp only [Stream.step, Stream.hand]
    split
    · exact (h.put _ _).read _ rfl fun _ => rfl
    · exact h
  | eof crash =>
    simp only [Stream.step, Stream.eof]
    split
    · exact h.read _ rfl fun _ => rfl
    · exact h
  | close =>
    simp only [Stream.step, Stream.close]
    split
    · next hr =>
      exact h.same rfl rfl rfl rfl rfl rfl
        (Or.inr ⟨rfl, fun hl => absurd (h.lit hl) (by simp [hr, Reader.lit])⟩)
    · exact h
  | darken => exact h.darken
  | snapshot =>
    simp only [Stream.step, Stream.snapshot]
    split
    · next hr => exact h.read _ rfl fun hl => by simp [hr, Reader.lit] at hl
    · next hr => exact h.read _ rfl fun hl => by simp [hr, Reader.lit] at hl
    · exact h
  | fail => exact h.fail
  | connected => exact h.connected
  | giveUp =>
    simp only [Stream.step, Stream.giveUp]
    split
    · next hr => exact h.read _ rfl fun hl => by simp [hr, Reader.lit] at hl
    · exact h
  | closeOld => exact h.closeOld
  | replay ok => exact h.replay ok
  | relight => exact h.relight
  | stop => exact h.same rfl rfl rfl rfl rfl rfl (Or.inl rfl)
  | bye ok =>
    simp only [Stream.step]
    split
    · exact h.send _ rfl
    · exact h
  | hangUp =>
    simp only [Stream.step]
    split
    · exact h.same rfl rfl rfl rfl rfl rfl (Or.inl rfl)
    · exact h

/-- **Reports survive.**  In every interleaving whose steps are harmless, the
hub's view of a quiet stream is the report last stored. -/
theorem reports_survive (es : List (Event Φ)) (h : Run.Always step Harmless ({} : Stream Φ) es)
    (hq : (Run.after step ({} : Stream Φ) es).Quiet) :
    (Run.after step ({} : Stream Φ) es).Current := by
  have hinv := Run.invariant (I := Inv) (P := Harmless) (fun _ e hs he => hs.step e he)
    Inv.initial h
  rcases hinv.current hq.2.2 with hc | ⟨r, hr, -⟩
  · exact hc
  · rw [hq.1] at hr
    cases hr

/-- A `busy` reported before an outage is what the hub hears after it. -/
theorem reports_survive_an_outage :
    (Run.after step ({} : Stream State)
      [.relayStore .busy, .relaySend 0 true, .eof false, .darken, .snapshot, .fail, .connected,
        .closeOld, .replay true, .relight]).Current := by
  refine reports_survive _ ?_ ⟨rfl, rfl, rfl⟩
  refine ⟨fun state h => (nomatch h), fun frame h _ => ?_, trivial, trivial, trivial, trivial,
    trivial, trivial, trivial, trivial, trivial⟩
  obtain rfl : State.busy = frame := congrArg Relay.frame (Option.some.inj h)
  exact Or.inl rfl

/-- A hook reports `idle` between the section of `_adopt` under the lock and its
`live.set()`: the stream has it, the hub never hears of it. -/
theorem report_lost_in_adopt :
    let s := Run.after step ({} : Stream State)
      [.relayStore .busy, .relaySend 0 true, .eof false, .darken, .snapshot, .fail, .connected,
        .relayStore .idle, .relaySend 0 true, .closeOld, .replay true, .relight]
    s.Quiet ∧ ¬ s.Current := by
  refine ⟨⟨rfl, rfl, rfl⟩, fun h => ?_⟩
  have hlast := h .idle rfl
  have hsent : some State.busy = some State.idle := hlast
  exact absurd hsent (by decide)

end Stream

end Moot
