import Moot.Directory

/-!
# Frames on the wire

The fields of the hub's frames, and what holds of a frame because it holds of its
parts.

Proved here: `Closed.frame`, by which a property of JSON values is shown of every
frame at once; `closed_wf`, no frame has a key twice.
-/

namespace Moot.Wire
open Py PyJson Proto

section
variable {F : Type} {num : Rat → Json F}

/-! ## Fields -/

/-- The fields of a message. -/
def msgFields (num : Rat → Json F) (m : Msg) : Obj F := (asObj (m.toWire num)).getD []

/-- The fields of an event frame. -/
def eventFields (num : Rat → Json F) (e : HubEvent) : Obj F :=
  [(str "t", jstr (str "event")), (str "event", jstr e.name)] ++ e.extra num

/-- The fields of a frame. -/
def frameFields (num : Rat → Json F) (f : Frame) : Obj F := (asObj (f.toJson num)).getD []

theorem frame_toJson (f : Frame) : f.toJson num = .obj (frameFields num f) := by
  cases f <;> rfl

/-- The fields of a welcome, with the goal's in `goal`. -/
def welcomeFields (name : Str) (round : Nat) (peers : List Peer) (rate : Str) (maxRounds : Nat)
    (goal : Obj F) : Obj F :=
  [(str "t", jstr (str "welcome")), (str "name", jstr name), (str "round", jnat round),
    (str "peers", .arr (peers.map fun p => .obj p.fields)),
    (str "limits", .obj [(str "rate", jstr rate), (str "max_rounds", jnat maxRounds)])] ++ goal

/-- The fields of a roster, with the goal's in `goal`. -/
def rosterFields (num : Rat → Json F) (round maxRounds : Nat) (frozen muted : Bool)
    (seq : Option Int) (peers : List RosterPeer) (goal : Obj F) : Obj F :=
  [(str "t", jstr (str "roster")), (str "round", jnat round), (str "max_rounds", jnat maxRounds),
    (str "frozen", .bool frozen), (str "muted", .bool muted), (str "seq", jopt Json.int seq)] ++
    goal ++ [(str "peers", .arr (peers.map fun p => .obj (p.fields num)))]

/-! ## What a frame holds -/

/-- A property of JSON values that a frame has if its parts have it. -/
structure Closed (P : Json F → Prop) (num : Rat → Json F) : Prop where
  null : P .null
  bool : ∀ b, P (.bool b)
  int : ∀ z, P (.int z)
  str : ∀ s, P (.str s)
  time : ∀ t, P (num t)
  arr : ∀ xs, (∀ x ∈ xs, P x) → P (.arr xs)
  obj : ∀ kvs, (kvs.map Prod.fst).Nodup → (∀ kv ∈ kvs, P kv.2) → P (.obj kvs)

section
variable {P : Json F → Prop} (hP : Closed P num)
include hP

theorem Closed.jopt {α : Type} {g : α → Json F} (hg : ∀ a, P (g a)) (o : Option α) :
    P (jopt g o) := by
  cases o with
  | none => exact hP.null
  | some a => exact hg a

theorem Closed.map {α : Type} {g : α → Json F} (hg : ∀ a, P (g a)) (xs : List α) :
    P (.arr (xs.map g)) := by
  apply hP.arr
  intro x hx
  obtain ⟨a, -, rfl⟩ := List.mem_map.mp hx
  exact hg a

theorem Closed.fields {kvs : Obj F} (keys : List String) (hkeys : kvs.map Prod.fst = keys.map Py.str)
    (hnodup : (keys.map Py.str).Nodup) (h : ∀ kv ∈ kvs, P kv.2) : P (.obj kvs) :=
  hP.obj kvs (hkeys ▸ hnodup) h

theorem Closed.nat (n : Nat) : P (jnat n) := hP.int n

theorem Closed.jstr (s : Str) : P (jstr s) := hP.str s

theorem Closed.msg (m : Msg) : P (m.toWire num) := by
  have haddr := hP.jopt (g := fun a : Addressing => Moot.jstr a.text) (fun a => hP.str _) m.addressing
  have hseq := hP.jopt hP.int m.seq
  have hvalues : ∀ kv ∈ msgFields num m, P kv.2 := by
    unfold msgFields Msg.toWire fieldIf
    cases m.priv <;> simp [asObj, hP.nat, hP.jstr, hP.time, hP.bool, haddr, hseq]
  cases hpriv : m.priv with
  | true =>
    apply hP.fields ["id", "from", "to", "addressing", "kind", "text", "ts", "seq", "private"] _
      (by decide) hvalues
    simp [msgFields, Msg.toWire, asObj, fieldIf, hpriv]
  | false =>
    apply hP.fields ["id", "from", "to", "addressing", "kind", "text", "ts", "seq"] _
      (by decide) hvalues
    simp [msgFields, Msg.toWire, asObj, fieldIf, hpriv]

theorem Closed.peer (p : Peer) : P (.obj p.fields) := by
  apply hP.fields ["name", "kind", "role", "state"] rfl (by decide)
  simp [Peer.fields, hP.jstr]

theorem Closed.rosterPeer (p : RosterPeer) : P (.obj (p.fields num)) := by
  have hfrom : P (.arr (p.queuedFrom.map Moot.jstr)) := hP.map hP.str p.queuedFrom
  have hdetail := hP.jopt hP.jstr p.blockedDetail
  apply hP.fields ["name", "kind", "role", "state", "idle_for", "busy_for", "finished", "queued",
    "queued_from", "dropped", "context", "blocked_detail"] rfl (by decide)
  simp [RosterPeer.fields, Peer.fields, hP.jstr, hP.nat, hP.time, hP.bool, hfrom, hdetail]

theorem Closed.event (e : HubEvent) : P (.obj (eventFields num e)) := by
  have hvalues : ∀ kv ∈ eventFields num e, P kv.2 := by
    unfold eventFields
    cases e with
    | rejected name code addressee kind bytes retryAfter priv =>
      cases retryAfter <;> cases priv <;>
        simp [HubEvent.extra, fieldIf, hP.jstr, hP.nat, hP.time, hP.bool]
    | _ => simp [HubEvent.extra, hP.jstr, hP.nat]
  cases e with
  | rejected name code addressee kind bytes retryAfter priv =>
    cases retryAfter with
    | none =>
      cases priv
      · exact hP.fields ["t", "event", "name", "code", "to", "kind", "bytes"] rfl (by decide) hvalues
      · exact hP.fields ["t", "event", "name", "code", "to", "kind", "bytes", "private"] rfl
          (by decide) hvalues
    | some r =>
      cases priv
      · exact hP.fields ["t", "event", "name", "code", "to", "kind", "bytes", "retry_after"] rfl
          (by decide) hvalues
      · exact hP.fields ["t", "event", "name", "code", "to", "kind", "bytes", "retry_after",
          "private"] rfl (by decide) hvalues
  | sessionDone => exact hP.fields ["t", "event", "round"] rfl (by decide) hvalues
  | roundLimit => exact hP.fields ["t", "event", "round", "max_rounds"] rfl (by decide) hvalues
  | frozen => exact hP.fields ["t", "event", "round"] rfl (by decide) hvalues
  | resumed => exact hP.fields ["t", "event", "round", "max_rounds"] rfl (by decide) hvalues
  | reset =>
    exact hP.fields ["t", "event", "round", "from_round", "max_rounds"] rfl (by decide) hvalues
  | muted => exact hP.fields ["t", "event"] rfl (by decide) hvalues
  | unmuted => exact hP.fields ["t", "event"] rfl (by decide) hvalues
  | goalSet => exact hP.fields ["t", "event", "text"] rfl (by decide) hvalues
  | peerJoined => exact hP.fields ["t", "event", "name", "kind", "role"] rfl (by decide) hvalues
  | peerLeft => exact hP.fields ["t", "event", "name"] rfl (by decide) hvalues
  | stall => exact hP.fields ["t", "event", "detail"] rfl (by decide) hvalues
  | blocked => exact hP.fields ["t", "event", "name", "detail"] rfl (by decide) hvalues
  | quorum => exact hP.fields ["t", "event", "detail"] rfl (by decide) hvalues

/-- What the parts of a frame have, the frame has. -/
theorem Closed.frame (f : Frame) : P (f.toJson num) := by
  cases f with
  | welcome name round peers rate maxRounds goal =>
    have hpeers : P (.arr (peers.map fun p => .obj p.fields)) := hP.map hP.peer peers
    have hlimits : P (.obj [(Py.str "rate", Moot.jstr rate), (Py.str "max_rounds", jnat maxRounds)]) := by
      apply hP.fields ["rate", "max_rounds"] rfl (by decide)
      simp [hP.jstr, hP.nat]
    have hgoal : ∀ b, P (.obj (welcomeFields name round peers rate maxRounds (fieldIf b "goal"
        (Moot.jstr goal)))) := by
      rintro (_ | _)
      · apply hP.fields ["t", "name", "round", "peers", "limits"] rfl (by decide)
        simp [welcomeFields, fieldIf, hP.jstr, hP.nat, hpeers, hlimits]
      · apply hP.fields ["t", "name", "round", "peers", "limits", "goal"] rfl (by decide)
        simp [welcomeFields, fieldIf, hP.jstr, hP.nat, hpeers, hlimits]
    exact hgoal _
  | deliver round msgs =>
    have hmsgs : P (.arr (msgs.map (Msg.toWire num))) := hP.map hP.msg msgs
    apply hP.fields ["t", "round", "msgs"] rfl (by decide)
    simp [hP.jstr, hP.nat, hmsgs]
  | said id queued seq =>
    apply hP.fields ["t", "id", "queued", "seq"] rfl (by decide)
    simp [hP.jstr, hP.nat, hP.int]
  | ok seq =>
    have hseq := hP.jopt hP.int seq
    apply hP.fields ["t", "seq"] rfl (by decide)
    simp [hP.jstr, hseq]
  | err code detail seq retryAfter =>
    have hseq := hP.jopt hP.int seq
    cases retryAfter with
    | none =>
      apply hP.fields ["t", "code", "detail", "seq"] rfl (by decide)
      simp [hP.jstr, hseq]
    | some r =>
      apply hP.fields ["t", "code", "detail", "seq", "retry_after"] rfl (by decide)
      simp [hP.jstr, hseq, hP.time]
  | event e => exact hP.event e
  | ping =>
    apply hP.fields ["t"] rfl (by decide)
    simp [hP.jstr]
  | roster round maxRounds frozen muted seq goal peers =>
    have hseq := hP.jopt hP.int seq
    have hpeers : P (.arr (peers.map fun p => .obj (p.fields num))) := hP.map hP.rosterPeer peers
    have hgoal : ∀ b, P (.obj (rosterFields num round maxRounds frozen muted seq peers (fieldIf b "goal"
        (Moot.jstr goal)))) := by
      rintro (_ | _)
      · apply hP.fields ["t", "round", "max_rounds", "frozen", "muted", "seq", "peers"] rfl (by decide)
        simp [rosterFields, fieldIf, hP.jstr, hP.nat, hP.bool, hseq, hpeers]
      · apply hP.fields ["t", "round", "max_rounds", "frozen", "muted", "seq", "goal", "peers"] rfl
          (by decide)
        simp [rosterFields, fieldIf, hP.jstr, hP.nat, hP.bool, hseq, hpeers]
    exact hgoal _

end

theorem wf_of_mem {xs : List (Json F)} (h : ∀ x ∈ xs, x.Wf) : WfItems xs := by
  induction xs with
  | nil => trivial
  | cons x xs ih =>
    exact ⟨h x (List.mem_cons_self ..), ih fun y hy => h y (List.mem_cons_of_mem x hy)⟩

theorem wfFields_of_mem {kvs : Obj F} (h : ∀ kv ∈ kvs, kv.2.Wf) : WfFields kvs := by
  induction kvs with
  | nil => trivial
  | cons kv kvs ih =>
    exact ⟨h kv (List.mem_cons_self ..), ih fun kv' hkv => h kv' (List.mem_cons_of_mem kv hkv)⟩

theorem closed_wf (hnum : ∀ t, (num t).Wf) : Closed Json.Wf num where
  null := trivial
  bool _ := trivial
  int _ := trivial
  str _ := trivial
  time := hnum
  arr _ h := wf_of_mem h
  obj _ hnodup h := ⟨hnodup, wfFields_of_mem h⟩

end

end Moot.Wire
