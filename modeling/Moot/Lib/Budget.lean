import Moot.Lib.Run
import Mathlib.Tactic

/-!
# Budgets that refill with time

A machine whose states have a time and a level.  A step spends some of the level,
and the level rises with the time at a fixed rate, up to a capacity.

Proved here: `spentIn_le`, in any window of time a run spends at most the capacity
and what the window refills.
-/

namespace Run

universe u v w

variable {R : Type w} [Field R] [LinearOrder R] [IsStrictOrderedRing R]
variable {σ : Type u} {ε : Type v} (step : σ → ε → σ)

/-- What the steps of a run that start between `s` and `t` spend. -/
def spentIn (time : σ → R) (spend : σ → ε → R) (s t : R) : σ → List ε → R
  | _, [] => 0
  | x, e :: es =>
    (if s ≤ time x ∧ time x ≤ t then spend x e else 0) +
      spentIn time spend s t (step x e) es

/-- The accounts of a step from `x` with `e`: the clock does not go back, what is spent was there
and is gone, but for the refill, and the level keeps to the capacity. -/
structure Pays (time level : σ → R) (spend : σ → ε → R) (rate cap : R) (x : σ) (e : ε) : Prop where
  forward : time x ≤ time (step x e)
  covered : spend x e ≤ level x
  paid : spend x e + level (step x e) ≤ level x + rate * (time (step x e) - time x)
  nonneg : 0 ≤ level (step x e)
  capped : level (step x e) ≤ cap

variable {step} {time level : σ → R} {spend : σ → ε → R} {rate cap s t : R} {x : σ} {es : List ε}

omit [IsStrictOrderedRing R] in
/-- After the window nothing counts. -/
theorem spentIn_after (hpays : Always step (Pays step time level spend rate cap) x es)
    (hx : t < time x) : spentIn step time spend s t x es = 0 := by
  induction es generalizing x with
  | nil => rfl
  | cons e es ih =>
    have hnot : ¬ (s ≤ time x ∧ time x ≤ t) := fun h => absurd h.2 (not_le.mpr hx)
    rw [spentIn, if_neg hnot, ih hpays.2 (hx.trans_le hpays.1.forward), zero_add]

/-- Within the window, the level and the refill of the rest of the window bound what is spent. -/
theorem spentIn_within (hpays : Always step (Pays step time level spend rate cap) x es)
    (hrate : 0 ≤ rate) (hlevel : 0 ≤ level x) (hs : s ≤ time x) (ht : time x ≤ t) :
    spentIn step time spend s t x es ≤ level x + rate * (t - time x) := by
  induction es generalizing x with
  | nil =>
    have hrefill : 0 ≤ rate * (t - time x) := mul_nonneg hrate (sub_nonneg.mpr ht)
    rw [spentIn]
    linarith
  | cons e es ih =>
    have hone := hpays.1
    rw [spentIn, if_pos ⟨hs, ht⟩]
    by_cases hnext : time (step x e) ≤ t
    · have hrest := ih hpays.2 hone.nonneg (hs.trans hone.forward) hnext
      have hsplit : rate * (t - time x) =
          rate * (t - time (step x e)) + rate * (time (step x e) - time x) := by ring
      linarith [hone.paid]
    · have hrefill : 0 ≤ rate * (t - time x) := mul_nonneg hrate (sub_nonneg.mpr ht)
      rw [spentIn_after hpays.2 (not_le.mp hnext), add_zero]
      linarith [hone.covered]

/-- **Budget rule.**  In a window of time, a run spends at most the capacity and what the window
refills. -/
theorem spentIn_le (hpays : Always step (Pays step time level spend rate cap) x es)
    (hrate : 0 ≤ rate) (hlevel : 0 ≤ level x) (hcap : level x ≤ cap) (hst : s ≤ t) :
    spentIn step time spend s t x es ≤ cap + rate * (t - s) := by
  have hwindow : 0 ≤ rate * (t - s) := mul_nonneg hrate (sub_nonneg.mpr hst)
  induction es generalizing x with
  | nil =>
    rw [spentIn]
    linarith
  | cons e es ih =>
    by_cases hs : s ≤ time x
    · by_cases ht : time x ≤ t
      · have hin := spentIn_within hpays hrate hlevel hs ht
        have hpast : 0 ≤ rate * (time x - s) := mul_nonneg hrate (sub_nonneg.mpr hs)
        have hsplit : rate * (t - s) = rate * (t - time x) + rate * (time x - s) := by ring
        linarith
      · rw [spentIn_after hpays (not_le.mp ht)]
        linarith
    · have hrest := ih hpays.2 hpays.1.nonneg hpays.1.capped
      rw [spentIn, if_neg fun h => hs h.1, zero_add]
      exact hrest

end Run
