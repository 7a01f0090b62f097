/-!
# Framing

A stream of pieces that a separator ends, which comes in chunks: the ended pieces
(`pieces`), and what is left (`remainder`).

Proved here: what a reader cuts off one by one (`cut`) are the pieces, and the cut of
the stream into chunks does not matter (`pieces_append`, `remainder_append`); and an
end marker that does not overlap itself is not found before it is complete
(`not_suffix_of_lt`).
-/

namespace Framing

universe u

variable {α : Type u} [DecidableEq α]

/-- The first piece, without the separator that ends it, and the rest. -/
def cut (sep : α) : List α → Option (List α × List α)
  | [] => none
  | x :: xs => if x = sep then some ([], xs) else (cut sep xs).map fun p => (x :: p.1, p.2)

theorem cut_length {sep : α} {xs piece rest : List α} (h : cut sep xs = some (piece, rest)) :
    rest.length < xs.length := by
  induction xs generalizing piece with
  | nil => cases h
  | cons x xs ih =>
    rw [cut] at h
    split at h
    · cases h
      exact Nat.lt_succ_self _
    · cases htail : cut sep xs with
      | none => simp [htail] at h
      | some p =>
        simp only [htail, Option.map_some, Option.some.injEq, Prod.mk.injEq] at h
        obtain ⟨-, rfl⟩ := h
        exact Nat.lt_succ_of_lt (ih htail)

theorem cut_of_notMem {sep : α} {xs : List α} (h : sep ∉ xs) : cut sep xs = none := by
  induction xs with
  | nil => rfl
  | cons x xs ih =>
    rw [List.mem_cons, not_or] at h
    rw [cut, if_neg (Ne.symm h.1), ih h.2]
    rfl

theorem notMem_of_cut {sep : α} {xs : List α} (h : cut sep xs = none) : sep ∉ xs := by
  induction xs with
  | nil => exact List.not_mem_nil
  | cons x xs ih =>
    rw [cut] at h
    split at h
    next hsep => cases h
    next hsep =>
      have htail := Option.map_eq_none_iff.mp h
      exact fun hmem => (List.mem_cons.mp hmem).elim (fun heq => hsep heq.symm) (ih htail)

theorem cut_piece {sep : α} {piece : List α} (h : sep ∉ piece) (rest : List α) :
    cut sep (piece ++ sep :: rest) = some (piece, rest) := by
  induction piece with
  | nil => rw [List.nil_append, cut, if_pos rfl]
  | cons x piece ih =>
    rw [List.mem_cons, not_or] at h
    rw [List.cons_append, cut, if_neg (Ne.symm h.1), ih h.2]
    rfl

theorem eq_of_cut {sep : α} {xs piece rest : List α} (h : cut sep xs = some (piece, rest)) :
    xs = piece ++ sep :: rest ∧ sep ∉ piece := by
  induction xs generalizing piece with
  | nil => cases h
  | cons x xs ih =>
    rw [cut] at h
    split at h
    next hsep =>
      cases h
      exact ⟨by rw [hsep]; rfl, List.not_mem_nil⟩
    next hsep =>
      cases htail : cut sep xs with
      | none => simp [htail] at h
      | some p =>
        simp only [htail, Option.map_some, Option.some.injEq, Prod.mk.injEq] at h
        obtain ⟨rfl, rfl⟩ := h
        obtain ⟨hxs, hnot⟩ := ih htail
        exact ⟨congrArg (x :: ·) hxs, fun hmem => (List.mem_cons.mp hmem).elim (fun h => hsep h.symm) hnot⟩

/-- The ended pieces. -/
def pieces (sep : α) (xs : List α) : List (List α) :=
  match _ : cut sep xs with
  | none => []
  | some (piece, rest) => piece :: pieces sep rest
termination_by xs.length
decreasing_by exact cut_length ‹_›

/-- What no separator ends. -/
def remainder (sep : α) (xs : List α) : List α :=
  match _ : cut sep xs with
  | none => xs
  | some (_, rest) => remainder sep rest
termination_by xs.length
decreasing_by exact cut_length ‹_›

variable {sep : α} {xs ys piece rest : List α}

theorem pieces_of_none (h : cut sep xs = none) : pieces sep xs = [] := by
  rw [pieces]
  split
  · rfl
  next hsome => rw [h] at hsome; cases hsome

theorem pieces_of_some (h : cut sep xs = some (piece, rest)) :
    pieces sep xs = piece :: pieces sep rest := by
  rw [pieces]
  split
  next hnone => rw [h] at hnone; cases hnone
  next hsome =>
    rw [h] at hsome
    cases hsome
    rfl

theorem remainder_of_none (h : cut sep xs = none) : remainder sep xs = xs := by
  rw [remainder]
  split
  · rfl
  next hsome => rw [h] at hsome; cases hsome

theorem remainder_of_some (h : cut sep xs = some (piece, rest)) :
    remainder sep xs = remainder sep rest := by
  rw [remainder]
  split
  next hnone => rw [h] at hnone; cases hnone
  next hsome =>
    rw [h] at hsome
    cases hsome
    rfl

theorem cut_append (h : cut sep xs = some (piece, rest)) :
    cut sep (xs ++ ys) = some (piece, rest ++ ys) := by
  induction xs generalizing piece with
  | nil => cases h
  | cons x xs ih =>
    rw [cut] at h
    rw [List.cons_append, cut]
    split at h
    next hsep =>
      cases h
      rw [if_pos hsep]
    next hsep =>
      rw [if_neg hsep]
      cases htail : cut sep xs with
      | none => simp [htail] at h
      | some p =>
        simp only [htail, Option.map_some, Option.some.injEq, Prod.mk.injEq] at h
        obtain ⟨rfl, rfl⟩ := h
        rw [ih htail]
        rfl

@[simp] theorem pieces_nil : pieces sep ([] : List α) = [] := pieces_of_none rfl

@[simp] theorem remainder_nil : remainder sep ([] : List α) = [] := remainder_of_none rfl

/-- A chunk more: the pieces so far, and those of what was left with the chunk. -/
theorem pieces_append (xs ys : List α) :
    pieces sep (xs ++ ys) = pieces sep xs ++ pieces sep (remainder sep xs ++ ys) := by
  induction hlen : xs.length using Nat.strongRecOn generalizing xs with
  | ind n ih =>
    cases hcut : cut sep xs with
    | none => rw [pieces_of_none hcut, remainder_of_none hcut, List.nil_append]
    | some p =>
      obtain ⟨piece, rest⟩ := p
      rw [pieces_of_some hcut, remainder_of_some hcut, pieces_of_some (cut_append hcut),
        List.cons_append, ih rest.length (hlen ▸ cut_length hcut) rest rfl]

theorem remainder_append (xs ys : List α) :
    remainder sep (xs ++ ys) = remainder sep (remainder sep xs ++ ys) := by
  induction hlen : xs.length using Nat.strongRecOn generalizing xs with
  | ind n ih =>
    cases hcut : cut sep xs with
    | none => rw [remainder_of_none hcut]
    | some p =>
      obtain ⟨piece, rest⟩ := p
      rw [remainder_of_some (cut_append hcut), remainder_of_some hcut,
        ih rest.length (hlen ▸ cut_length hcut) rest rfl]

/-! ## End markers -/

/-- No proper beginning of the marker is an end of it. -/
def Borderless (marker : List α) : Prop :=
  ∀ k, 0 < k → k < marker.length → ¬marker.take k <:+ marker

omit [DecidableEq α] in
/-- **The marker is found at its end only.**  Before a text without the marker is followed by the
whole of it, what has been read does not end in it. -/
theorem not_suffix_of_lt {marker text read : List α} (hmarker : Borderless marker)
    (htext : ¬marker <:+: text) (hread : read <+: text ++ marker)
    (hlt : read.length < text.length + marker.length) : ¬marker <:+ read := by
  intro hend
  rcases Nat.lt_or_ge text.length read.length with hlong | hshort
  · -- the end of what has been read is a beginning of the marker
    obtain ⟨k, hk⟩ := Nat.exists_eq_add_of_lt hlong
    have hcut : read = text ++ marker.take (k + 1) := by
      have htake := List.prefix_iff_eq_take.mp hread
      rw [hk, Nat.add_assoc, List.take_length_add_append] at htake
      exact htake
    have hle : (marker.take (k + 1)).length ≤ marker.length := by
      rw [List.length_take]
      omega
    refine hmarker (k + 1) (Nat.succ_pos k) (by omega) ?_
    exact List.suffix_of_suffix_length_le (by rw [hcut]; exact List.suffix_append _ _) hend hle
  · have hpart : read <+: text :=
      List.prefix_of_prefix_length_le hread (List.prefix_append _ _) hshort
    exact htext (hend.isInfix.trans hpart.isInfix)

end Framing
