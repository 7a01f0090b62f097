import Mathlib.Algebra.BigOperators.Group.Finset.Piecewise
import Mathlib.Algebra.Order.Ring.Nat
import Mathlib.Algebra.Order.BigOperators.Group.Finset

/-!
# Tallies

An allowance is a list of keys, each with a number; a key may have several.

Proved here: `length_le_allowance`, a list in which no key comes more often than
it is allowed is no longer than the whole allowance.
-/

namespace Tally

universe u

variable {α : Type u} [DecidableEq α]

/-- What a key is allowed. -/
def allowed (es : List (α × Nat)) (a : α) : Nat := ((es.filter (·.1 = a)).map Prod.snd).sum

/-- The whole allowance. -/
def total (es : List (α × Nat)) : Nat := (es.map Prod.snd).sum

theorem allowed_cons (e : α × Nat) (es : List (α × Nat)) (a : α) :
    allowed (e :: es) a = (if e.1 = a then e.2 else 0) + allowed es a := by
  unfold allowed
  by_cases h : e.1 = a
  · simp [h]
  · simp [h]

/-- Distinct keys are allowed no more than everything. -/
theorem sum_allowed_le (es : List (α × Nat)) (s : Finset α) : ∑ a ∈ s, allowed es a ≤ total es := by
  induction es with
  | nil => simp [allowed, total]
  | cons e es ih =>
    have hone : ∑ a ∈ s, (if e.1 = a then e.2 else 0) ≤ e.2 := by
      rw [Finset.sum_ite_eq s e.1 fun _ => e.2]
      split <;> simp
    calc ∑ a ∈ s, allowed (e :: es) a
        = ∑ a ∈ s, (if e.1 = a then e.2 else 0) + ∑ a ∈ s, allowed es a := by
          rw [← Finset.sum_add_distrib]
          exact Finset.sum_congr rfl fun a _ => allowed_cons e es a
      _ ≤ e.2 + total es := Nat.add_le_add hone ih
      _ = total (e :: es) := by simp [total]

theorem length_le_allowance {l : List α} {es : List (α × Nat)}
    (h : ∀ a, l.countP (fun b => decide (b = a)) ≤ allowed es a) : l.length ≤ total es := by
  rw [← List.sum_toFinset_count_eq_length l]
  exact (Finset.sum_le_sum fun a _ => h a).trans (sum_allowed_le es l.toFinset)

theorem le_allowed {es : List (α × Nat)} {a : α} {k : Nat} (h : (a, k) ∈ es) :
    k ≤ allowed es a := by
  induction es with
  | nil => cases h
  | cons e es ih =>
    rw [allowed_cons]
    rcases List.mem_cons.mp h with rfl | h
    · simp
    · exact (ih h).trans (Nat.le_add_left _ _)

end Tally
