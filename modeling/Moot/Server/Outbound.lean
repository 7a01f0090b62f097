import Moot.Lib.Run
import Moot.Spoke.Conn
import Moot.Wire

/-!
# The way to a spoke

`StreamClient` of `core/server.py`: a bounded queue, the task that writes it out, and the
close that hands over what is still queued.

Proved here: `frames_arrive`.
-/

namespace Moot.Server
open Py PyJson Proto Spoke Wire

/-- The transport of a connection, which is lost by an abort, by the peer, or by the network. -/
inductive Transport
  | opened | closing | lost
  deriving DecidableEq

/-- `StreamClient`, with the bytes that its transport has taken, and how many of them have come to
the peer. -/
structure StreamClient where
  connected : Bool := true
  queue : List (List UInt8) := []
  writing : Bool := true
  transport : Transport := .opened
  written : List UInt8 := []
  arrived : Nat := 0

/-- What happens to a client: a frame, a round of the write loop, its failure, a close, its time
limit, bytes that come to the peer, a transport that is lost. -/
inductive Outgo
  | send (frame : Frame)
  | write
  | writeFails
  | close
  | expire
  | flush (n : Nat)
  | lose

section
variable {F : Type} [PyFloat F] (num : Rat → Json F) (queueMax : Nat)

/-- `proto.encode`, as bytes. -/
def encoded (frame : Frame) : Option (List UInt8) := (encode num frame).map (·.data.toList)

namespace StreamClient

/-- `_abort` -/
def abort (s : StreamClient) : StreamClient := { s with connected := false, transport := .lost }

/-- `full`, of a queue that has no bound if it is 0. -/
def full (s : StreamClient) : Bool := 0 < queueMax && queueMax ≤ s.queue.length

/-- `send`; a frame that has no encoding raises. -/
def send (s : StreamClient) (frame : Frame) : StreamClient :=
  if s.connected = false then s
  else
    match encoded num frame with
    | none => s
    | some data => if s.full queueMax then s.abort else { s with queue := s.queue ++ [data] }

/-- `writer.write`; only an open transport takes the bytes. -/
def transmit (s : StreamClient) (data : List UInt8) : StreamClient :=
  if s.transport = .opened then { s with written := s.written ++ data } else s

/-- A round of `_write_loop`. -/
def write (s : StreamClient) : StreamClient :=
  if s.writing then
    match s.queue with
    | [] => s
    | data :: queue => { s with queue := queue }.transmit data
  else s

/-- The `OSError` of `_write_loop`. -/
def writeFails (s : StreamClient) : StreamClient :=
  if s.writing then { s.abort with writing := false } else s

/-- `close` -/
def close (s : StreamClient) : StreamClient :=
  if s.transport ≠ .opened then { s with connected := false, writing := false }
  else
    { s with
      connected := false, queue := [], writing := false, transport := .closing
      written := s.written ++ s.queue.flatten }

/-- The time limit of `_finalize`. -/
def expire (s : StreamClient) : StreamClient :=
  if s.transport = .closing then { s with transport := .lost } else s

def flush (s : StreamClient) (n : Nat) : StreamClient :=
  if s.transport = .lost then s else { s with arrived := min s.written.length (s.arrived + n) }

def step (s : StreamClient) : Outgo → StreamClient
  | .send frame => s.send num queueMax frame
  | .write => s.write
  | .writeFails => s.writeFails
  | .close => s.close
  | .expire => s.expire
  | .flush n => s.flush n
  | .lose => { s with transport := .lost }

/-- What the peer has got. -/
def peer (s : StreamClient) : List UInt8 := s.written.take s.arrived

end StreamClient

/-! ## What is sent -/

/-- The frames that have an encoding, up to the first close. -/
structure Offer (F : Type) where
  sent : Sent F := []
  closed : Bool := false

def Offer.step (o : Offer F) : Outgo → Offer F
  | .send frame =>
    if o.closed then o
    else
      match objLine (frameFields num frame) with
      | none => o
      | some line => { o with sent := o.sent ++ [(frameFields num frame, line)] }
  | .close => { o with closed := true }
  | _ => o

variable {num queueMax}

theorem encoded_eq (frame : Frame) :
    encoded num frame = (objLine (frameFields num frame)).map (· ++ [lineFeed]) := by
  rw [encoded, encode, frame_toJson, encode?_obj, Option.map_map]
  congr 1
  funext line
  exact List.toList_data_toByteArray

omit [PyFloat F] in
theorem bytes_append (sent : Sent F) (frame : Obj F) (line : List UInt8) :
    Sent.bytes (sent ++ [(frame, line)]) = sent.bytes ++ (line ++ [lineFeed]) := by
  rw [Sent.bytes, List.flatMap_append]
  simp [Sent.bytes]

theorem Offer.proper_step (hnum : ∀ t, (num t).Wf) {o : Offer F} (ho : o.sent.Proper) (e : Outgo) :
    (o.step num e).sent.Proper := by
  cases e with
  | send frame =>
    unfold Offer.step
    simp only
    split
    · exact ho
    · split
      · exact ho
      · next line hline =>
        intro x hx
        rcases List.mem_append.mp hx with hx | hx
        · exact ho x hx
        · obtain rfl := List.mem_singleton.mp hx
          have hwf := (closed_wf hnum).frame frame
          rw [frame_toJson] at hwf
          exact ⟨hwf, hline⟩
  | _ => exact ho

/-- The client carries what is sent. -/
structure Carries (queueMax : Nat) (s : StreamClient) (o : Offer F) : Prop where
  room : 0 < queueMax → s.queue.length ≤ queueMax
  written : s.written <+: o.sent.bytes
  arrived : s.arrived ≤ s.written.length
  opened : s.transport = .opened → s.connected = true ∧ o.closed = false ∧
    o.sent.bytes = s.written ++ s.queue.flatten
  closing : s.transport = .closing → s.queue = [] ∧ s.writing = false ∧ o.sent.bytes = s.written
  closed : o.closed = true → s.connected = false
  shut : s.transport = .closing → o.closed = true

section
variable {s : StreamClient} {o : Offer F}

omit [PyFloat F] in
theorem carries_init : Carries queueMax {} ({} : Offer F) where
  room _ := Nat.zero_le _
  written := List.prefix_rfl
  arrived := Nat.zero_le _
  opened _ := ⟨rfl, rfl, rfl⟩
  closing h := by cases h
  closed h := by cases h
  shut h := by cases h

omit [PyFloat F] in
/-- A transport that is lost keeps what it had taken. -/
theorem Carries.lost (hc : Carries queueMax s o) {s' : StreamClient} (hqueue : s'.queue = s.queue)
    (hwritten : s'.written = s.written) (harrived : s'.arrived = s.arrived)
    (hlost : s'.transport = .lost) (hconnected : s.connected = false → s'.connected = false) :
    Carries queueMax s' o where
  room := hqueue ▸ hc.room
  written := hwritten ▸ hc.written
  arrived := by
    rw [harrived, hwritten]
    exact hc.arrived
  opened h := by rw [hlost] at h; cases h
  closing h := by rw [hlost] at h; cases h
  closed h := hconnected (hc.closed h)
  shut h := by rw [hlost] at h; cases h

omit [PyFloat F] in
theorem bytes_grow (sent : Sent F) (frame : Obj F) (line : List UInt8) :
    sent.bytes <+: Sent.bytes (sent ++ [(frame, line)]) := by
  rw [bytes_append]
  exact List.prefix_append _ _

omit [PyFloat F] in
/-- What is sent on a lost transport is lost. -/
theorem Carries.grow (hc : Carries queueMax s o) (hlost : s.transport = .lost) (frame : Obj F)
    (line : List UInt8) : Carries queueMax s { o with sent := o.sent ++ [(frame, line)] } where
  room := hc.room
  written := hc.written.trans (bytes_grow _ _ _)
  arrived := hc.arrived
  opened h := by rw [hlost] at h; cases h
  closing h := by rw [hlost] at h; cases h
  closed := hc.closed
  shut h := by rw [hlost] at h; cases h

theorem Carries.send (hc : Carries queueMax s o) (frame : Frame) :
    Carries queueMax (s.send num queueMax frame) (o.step num (.send frame)) := by
  unfold StreamClient.send Offer.step
  simp only
  rw [encoded_eq]
  by_cases hdown : s.connected = false
  · rw [if_pos hdown]
    split
    · exact hc
    · next hopen =>
      have hlost : s.transport = .lost := by
        cases htransport : s.transport with
        | opened =>
          rw [(hc.opened htransport).1] at hdown
          cases hdown
        | closing => exact absurd (hc.shut htransport) hopen
        | lost => rfl
      split
      · exact hc
      · exact hc.grow hlost _ _
  · rw [if_neg hdown, if_neg fun hclosed => hdown (hc.closed hclosed)]
    cases hline : objLine (frameFields num frame) with
    | none => exact hc
    | some line =>
      simp only [Option.map_some]
      split
      · have hlost : Carries queueMax s.abort o := hc.lost rfl rfl rfl rfl fun _ => rfl
        exact hlost.grow rfl _ _
      · next hfull =>
        have hroom : 0 < queueMax → s.queue.length < queueMax := by
          intro hpos
          simpa [StreamClient.full, hpos] using hfull
        exact {
          room := fun hpos => by
            rw [List.length_append, List.length_singleton]
            exact hroom hpos
          written := hc.written.trans (bytes_grow _ _ _)
          arrived := hc.arrived
          opened := fun h => by
            obtain ⟨hup, hopen, hbytes⟩ := hc.opened h
            refine ⟨hup, hopen, ?_⟩
            rw [bytes_append, hbytes, List.flatten_append, List.flatten_singleton, List.append_assoc]
          closing := fun h => absurd (hc.closed (hc.shut h)) hdown
          closed := hc.closed
          shut := hc.shut }

omit [PyFloat F] in
theorem Carries.write (hc : Carries queueMax s o) : Carries queueMax s.write o := by
  unfold StreamClient.write
  split
  · next hwriting =>
    cases hqueue : s.queue with
    | nil => exact hc
    | cons data queue =>
      simp only
      have hroom : 0 < queueMax → queue.length ≤ queueMax := fun hpos => by
        have hle := hc.room hpos
        rw [hqueue, List.length_cons] at hle
        omega
      unfold StreamClient.transmit
      split
      · next hopen =>
        obtain ⟨hup, hclosed, hbytes⟩ := hc.opened hopen
        rw [hqueue, List.flatten_cons, ← List.append_assoc] at hbytes
        exact {
          room := hroom
          written := ⟨queue.flatten, hbytes.symm⟩
          arrived := hc.arrived.trans (by rw [List.length_append]; exact Nat.le_add_right ..)
          opened := fun _ => ⟨hup, hclosed, hbytes⟩
          closing := fun h => by
            rw [show s.transport = .opened from hopen] at h
            cases h
          closed := hc.closed
          shut := hc.shut }
      · next hshut =>
        exact {
          room := hroom
          written := hc.written
          arrived := hc.arrived
          opened := fun h => absurd h hshut
          closing := fun h => by
            rw [(hc.closing h).2.1] at hwriting
            cases hwriting
          closed := hc.closed
          shut := hc.shut }
  · exact hc

omit [PyFloat F] in
/-- **A close** hands over what is queued. -/
theorem Carries.close (hc : Carries queueMax s o) :
    Carries queueMax s.close { o with closed := true } := by
  unfold StreamClient.close
  split
  · next hshut =>
    exact {
      room := hc.room
      written := hc.written
      arrived := hc.arrived
      opened := fun h => absurd h hshut
      closing := fun h => ⟨(hc.closing h).1, rfl, (hc.closing h).2.2⟩
      closed := fun _ => rfl
      shut := fun _ => rfl }
  · next hopen =>
    obtain ⟨-, -, hbytes⟩ := hc.opened (not_not.mp hopen)
    exact {
      room := fun _ => Nat.zero_le _
      written := hbytes ▸ List.prefix_rfl
      arrived := hc.arrived.trans (by
        rw [List.length_append]
        exact Nat.le_add_right ..)
      opened := fun h => by cases h
      closing := fun _ => ⟨rfl, rfl, hbytes⟩
      closed := fun _ => rfl
      shut := fun _ => rfl }

theorem Carries.step (hc : Carries queueMax s o) (e : Outgo) :
    Carries queueMax (s.step num queueMax e) (o.step num e) := by
  cases e with
  | send frame => exact hc.send frame
  | write => exact hc.write
  | writeFails =>
    show Carries queueMax s.writeFails o
    unfold StreamClient.writeFails
    split
    · exact hc.lost rfl rfl rfl rfl fun _ => rfl
    · exact hc
  | close => exact hc.close
  | expire =>
    show Carries queueMax s.expire o
    unfold StreamClient.expire
    split
    · exact hc.lost rfl rfl rfl rfl id
    · exact hc
  | flush n =>
    show Carries queueMax (s.flush n) o
    unfold StreamClient.flush
    split
    · exact hc
    · exact { hc with arrived := Nat.min_le_left .. }
  | lose => exact hc.lost rfl rfl rfl rfl id

end

variable (num queueMax) in
/-- The client, and what is sent to it, after a run. -/
def StreamClient.run (events : List Outgo) : StreamClient × Offer F :=
  Run.after (fun p e => (p.1.step num queueMax e, p.2.step num e)) ({}, {}) events

/-- **Frames arrive in order, whole, and none is lost before a later one.**  In every run of a
client, however the rounds of the write loop, failures and closes fall: the queue is bounded; a spoke
that reads what has come to it, to the end, reads a beginning of the frames that were sent up to the
close; while the transport closes nothing is queued; and unless the transport is lost the spoke reads
all of them once nothing is queued or on its way. -/
theorem frames_arrive (hnum : ∀ t, (num t).Wf) (events : List Outgo) :
    let s := (StreamClient.run num queueMax events).1
    let sent := (StreamClient.run num queueMax events).2.sent.map Prod.fst
    (0 < queueMax → s.queue.length ≤ queueMax) ∧
      (frames F s.peer).1 <+: sent ∧
      (s.transport = .closing → s.queue = []) ∧
      (s.transport ≠ .lost → s.queue = [] → s.arrived = s.written.length →
        frames F s.peer = (sent, true)) := by
  intro s sent
  obtain ⟨hc, hproper⟩ : Carries queueMax s (StreamClient.run num queueMax events).2 ∧
      (StreamClient.run num queueMax events).2.sent.Proper :=
    Run.preserved (I := fun p : StreamClient × Offer F => Carries queueMax p.1 p.2 ∧ p.2.sent.Proper)
      (fun p e hp => ⟨hp.1.step e, Offer.proper_step hnum hp.2 e⟩)
      ⟨carries_init, fun x hx => by cases hx⟩ events
  obtain ⟨hbegin, hall⟩ := frames_beginning hproper ((List.take_prefix s.arrived _).trans hc.written)
  refine ⟨hc.room, hbegin, fun h => (hc.closing h).1, fun hkept hqueue harrived => hall ?_⟩
  have hpeer : s.written.take s.arrived = s.written := by rw [harrived, List.take_length]
  rw [hpeer]
  cases htransport : s.transport with
  | opened =>
    obtain ⟨-, -, hbytes⟩ := hc.opened htransport
    rw [hbytes, hqueue, List.flatten_nil, List.append_nil]
  | closing => exact (hc.closing htransport).2.2.symm
  | lost => exact absurd htransport hkept

/-- A frame that is still queued at the close. -/
theorem frames_arrive_close :
    frames PyJson.Token (StreamClient.run (F := PyJson.Token) (fun _ => .int 0) 1
        [.send .ping, .write, .send (.ok none), .close, .send .ping, .flush 100]).1.peer =
      ([[(str "t", .str (str "ping"))], [(str "t", .str (str "ok")), (str "seq", .null)]], true) := by
  have hnum : ∀ t : Rat, ((fun _ => .int 0 : Rat → Json PyJson.Token) t).Wf := fun _ => trivial
  exact (frames_arrive hnum _).2.2.2 (by decide) (by decide) (by decide)

end

end Moot.Server
