import Moot.Lib.Ndjson
import Moot.Proto

/-!
# The spoke's end of the connection

`Conn` of `spoke/conn.py`: the bytes that have come from the hub, until it has closed,
are read line by line, a frame each.

Proved here: `frames_beginning`, of any beginning of what was sent, the frames are read
that are all there.
-/

namespace Moot.Spoke
open Py PyJson Proto

variable {F : Type} [PyFloat F]

/-- `readline`, of a stream that ends after the bytes. -/
def readline (stream : List UInt8) : List UInt8 × List UInt8 :=
  match Framing.cut lineFeed stream with
  | some (line, rest) => (line ++ [lineFeed], rest)
  | none => (stream, [])

/-- What `recv` comes to. -/
inductive Received (F : Type)
  | frame (frame : Obj F) (rest : List UInt8)
  | eof
  | raised

variable (F) in
/-- `recv` -/
def recv (stream : List UInt8) : Received F :=
  let (line, rest) := readline stream
  if line.isEmpty then .eof
  else
    match loadsBytes line with
    | some (.obj frame) => .frame frame rest
    | _ => .raised

theorem readline_rest {stream : List UInt8} (h : (readline stream).1 ≠ []) :
    (readline stream).2.length < stream.length := by
  unfold readline at h ⊢
  cases hcut : Framing.cut lineFeed stream with
  | some p => exact Framing.cut_length hcut
  | none =>
    rw [hcut] at h
    exact List.length_pos_iff.mpr h

theorem recv_rest {stream rest : List UInt8} {frame : Obj F} (h : recv F stream = .frame frame rest) :
    rest.length < stream.length := by
  unfold recv at h
  simp only at h
  split at h
  · cases h
  next hline =>
    split at h
    · cases h
      exact readline_rest (by simpa using hline)
    · cases h

variable (F) in
/-- `frames`, and whether it has come to the end with no exception. -/
def frames (stream : List UInt8) : List (Obj F) × Bool :=
  match _ : recv F stream with
  | .frame frame rest => (frame :: (frames rest).1, (frames rest).2)
  | .eof => ([], true)
  | .raised => ([], false)
termination_by stream.length
decreasing_by all_goals exact recv_rest ‹_›

section
variable {stream rest : List UInt8} {frame : Obj F}

theorem frames_of_frame (h : recv F stream = .frame frame rest) :
    frames F stream = (frame :: (frames F rest).1, (frames F rest).2) := by
  rw [frames]
  split
  next frame' rest' h' =>
    rw [h] at h'
    cases h'
    rfl
  next h' => rw [h] at h'; cases h'
  next h' => rw [h] at h'; cases h'

theorem frames_of_eof (h : recv F stream = .eof) : frames F stream = ([], true) := by
  rw [frames]
  split
  next h' => rw [h] at h'; cases h'
  next => rfl
  next h' => rw [h] at h'; cases h'

theorem frames_of_raised (h : recv F stream = .raised) : frames F stream = ([], false) := by
  rw [frames]
  split
  next h' => rw [h] at h'; cases h'
  next h' => rw [h] at h'; cases h'
  next => rfl

end

@[simp] theorem frames_nil : frames F [] = ([], true) := frames_of_eof rfl

/-! ## What was sent -/

/-- Objects, each with its line. -/
abbrev Sent (F : Type) := List (Obj F × List UInt8)

/-- The lines are those of the objects. -/
def Sent.Proper (sent : Sent F) : Prop := ∀ x ∈ sent, (Json.obj x.1).Wf ∧ objLine x.1 = some x.2

/-- The bytes. -/
def Sent.bytes (sent : Sent F) : List UInt8 := sent.flatMap fun x => x.2 ++ [lineFeed]

section
variable {frame : Obj F} {line : List UInt8}

theorem recv_line (hwf : (Json.obj frame).Wf) (hline : objLine frame = some line) (rest : List UInt8) :
    recv F (line ++ lineFeed :: rest) = .frame frame rest := by
  rw [recv, readline, Framing.cut_piece (lineFeed_notMem hline)]
  simp only
  rw [(loadsBytes_line hwf hline).2, if_neg (by simp)]

/-- The stream ends in the line. -/
theorem recv_cut (hwf : (Json.obj frame).Wf) (hline : objLine frame = some line) {p : List UInt8}
    (hp : p <+: line) (hne : p ≠ []) :
    recv F p = if p = line then .frame frame [] else .raised := by
  have hcut : Framing.cut lineFeed p = none :=
    Framing.cut_of_notMem fun hmem => lineFeed_notMem hline (hp.subset hmem)
  rw [recv, readline, hcut]
  simp only
  rw [if_neg (by simpa using hne)]
  by_cases hall : p = line
  · rw [if_pos hall, hall, (loadsBytes_line hwf hline).1]
  · rw [if_neg hall, loadsBytes_torn hwf hline hp hall]

end

omit [PyFloat F] in
theorem bytes_cons (frame : Obj F) (line : List UInt8) (sent : Sent F) :
    Sent.bytes ((frame, line) :: sent) = line ++ lineFeed :: sent.bytes := by
  rw [Sent.bytes, List.flatMap_cons, List.append_assoc]
  rfl

omit [PyFloat F] in
/-- A beginning of what was sent has the first line, or it is a beginning of that. -/
theorem prefix_cons {frame : Obj F} {line stream : List UInt8} {sent : Sent F}
    (hstream : stream <+: Sent.bytes ((frame, line) :: sent)) :
    (∃ rest, stream = line ++ lineFeed :: rest ∧ rest <+: sent.bytes ∧
      (stream = Sent.bytes ((frame, line) :: sent) → rest = sent.bytes)) ∨
    stream <+: line ∧ stream ≠ Sent.bytes ((frame, line) :: sent) := by
  rw [bytes_cons] at hstream ⊢
  rcases Nat.lt_or_ge line.length stream.length with hlong | hshort
  · obtain ⟨rest, rfl⟩ : line ++ [lineFeed] <+: stream :=
      List.prefix_of_prefix_length_le ⟨sent.bytes, List.append_cons line _ _ |>.symm⟩ hstream (by
        rw [List.length_append, List.length_singleton]
        exact hlong)
    rw [List.append_assoc, List.singleton_append] at hstream ⊢
    refine Or.inl ⟨rest, rfl, ?_, fun heq => (List.cons.inj (List.append_cancel_left heq)).2⟩
    rw [List.prefix_append_right_inj] at hstream
    exact (List.cons_prefix_cons.mp hstream).2
  · refine Or.inr ⟨List.prefix_of_prefix_length_le hstream (List.prefix_append _ _) hshort, fun heq => ?_⟩
    rw [heq, List.length_append, List.length_cons] at hshort
    omega

/-- **Of any beginning of what was sent**, whole frames are read, and of all of it, all of them. -/
theorem frames_beginning {sent : Sent F} (hsent : sent.Proper) {stream : List UInt8}
    (hstream : stream <+: sent.bytes) :
    (frames F stream).1 <+: sent.map Prod.fst ∧
      (stream = sent.bytes → frames F stream = (sent.map Prod.fst, true)) := by
  induction sent generalizing stream with
  | nil =>
    obtain rfl : stream = [] := List.prefix_nil.mp hstream
    rw [frames_nil]
    exact ⟨List.prefix_rfl, fun _ => rfl⟩
  | cons x sent ih =>
    obtain ⟨frame, line⟩ := x
    obtain ⟨hwf, hline⟩ := hsent (frame, line) (.head _)
    rcases prefix_cons hstream with ⟨rest, rfl, hrest, heq⟩ | ⟨hp, hne⟩
    · obtain ⟨hbegin, hall⟩ := ih (fun y hy => hsent y (.tail _ hy)) hrest
      rw [frames_of_frame (recv_line hwf hline rest), List.map_cons]
      exact ⟨List.cons_prefix_cons.mpr ⟨rfl, hbegin⟩, fun hstream => by rw [hall (heq hstream)]⟩
    · -- the line is not there, or only its end is missing
      refine ⟨?_, fun heq => absurd heq hne⟩
      by_cases hnil : stream = []
      · rw [hnil, frames_nil]
        exact List.nil_prefix
      have hrecv := recv_cut hwf hline hp hnil
      split at hrecv
      · rw [frames_of_frame hrecv, frames_nil]
        exact List.cons_prefix_cons.mpr ⟨rfl, List.nil_prefix⟩
      · rw [frames_of_raised hrecv]
        exact List.nil_prefix

end Moot.Spoke
