import Mathlib.Algebra.Order.Group.Defs
import Mathlib.Data.List.Basic
import Mathlib.Logic.Function.Basic
import Mathlib.Algebra.Order.Sub.Defs
import Mathlib.Tactic.Abel

/-!
# Sliding windows of time

A table that keeps, for each key, when it was last admitted, and drops what is
older than the window whenever it is asked.

Proved here: `Tracks`, what such a table knows of the keys admitted so far, is kept
by each of its operations, and `Tracks.recent_iff`, the answer it gives.
-/

namespace Window

universe u v

variable {κ : Type u} {R : Type v} [AddCommGroup R] [LinearOrder R]

/-- The table without what is older than the window. -/
def expire (window now : R) (seen : κ → Option R) : κ → Option R :=
  fun k => (seen k).filter fun s => decide (now - window ≤ s)

/-- At `now` the table holds admitted keys only, and all of those within the window. -/
structure Tracks (window now : R) (admitted : List (κ × R)) (seen : κ → Option R) : Prop where
  sound : ∀ k s, seen k = some s → (k, s) ∈ admitted
  complete : ∀ k s, (k, s) ∈ admitted → now - window ≤ s → seen k = some s
  past : ∀ k s, (k, s) ∈ admitted → s ≤ now

variable {window now now' : R} {admitted : List (κ × R)} {seen : κ → Option R}

theorem expire_eq_some {k : κ} {s : R} :
    expire window now seen k = some s ↔ seen k = some s ∧ now - window ≤ s := by
  simp [expire, Option.filter_eq_some_iff]

/-- Nothing has been admitted yet. -/
theorem Tracks.empty (window now : R) : Tracks (κ := κ) window now [] fun _ => none :=
  ⟨fun _ _ h => (nomatch h), fun _ _ h => (nomatch h), fun _ _ h => (nomatch h)⟩

theorem Tracks.later [IsOrderedAddMonoid R] (h : Tracks window now admitted seen)
    (hle : now ≤ now') : Tracks window now' admitted seen := by
  refine ⟨h.sound, fun k s hmem hs => h.complete k s hmem ?_, fun k s hmem =>
    (h.past k s hmem).trans hle⟩
  exact (sub_le_sub_right hle window).trans hs

theorem Tracks.expire (h : Tracks window now admitted seen) :
    Tracks window now admitted (expire window now seen) :=
  ⟨fun k s hs => h.sound k s (expire_eq_some.mp hs).1,
    fun k s hmem hs => expire_eq_some.mpr ⟨h.complete k s hmem hs, hs⟩, h.past⟩

/-- **The answer of the table.**  A key is there exactly if it was admitted within the window. -/
theorem Tracks.recent_iff (h : Tracks window now admitted seen) (k : κ) :
    (Window.expire window now seen k).isSome = true ↔
      ∃ s, (k, s) ∈ admitted ∧ now - window ≤ s ∧ s ≤ now := by
  rw [Option.isSome_iff_exists]
  constructor
  · rintro ⟨s, hs⟩
    obtain ⟨hseen, hle⟩ := expire_eq_some.mp hs
    exact ⟨s, h.sound k s hseen, hle, h.past k s (h.sound k s hseen)⟩
  · rintro ⟨s, hmem, hle, -⟩
    exact ⟨s, expire_eq_some.mpr ⟨h.complete k s hmem hle, hle⟩⟩

/-- A key that is not there is admitted. -/
theorem Tracks.take_in [DecidableEq κ] (h : Tracks window now admitted seen) {k : κ}
    (hnew : Window.expire window now seen k = none) :
    Tracks window now (admitted ++ [(k, now)])
      (Function.update (Window.expire window now seen) k (some now)) := by
  have hold := h.expire
  refine ⟨fun k' s hs => ?_, fun k' s hmem hs => ?_, fun k' s hmem => ?_⟩
  · by_cases hk : k' = k
    · subst hk
      rw [Function.update_self, Option.some.injEq] at hs
      subst hs
      exact List.mem_append_right _ (List.mem_singleton.mpr rfl)
    · rw [Function.update_of_ne hk] at hs
      exact List.mem_append_left _ (hold.sound k' s hs)
  · rcases List.mem_append.mp hmem with hmem | hmem
    · -- an older admission of the same key has left the window
      have hkept := hold.complete k' s hmem hs
      have hk : k' ≠ k := by
        rintro rfl
        rw [hnew] at hkept
        cases hkept
      rw [Function.update_of_ne hk]
      exact hkept
    · obtain ⟨rfl, rfl⟩ := Prod.mk.inj (List.mem_singleton.mp hmem)
      exact Function.update_self ..
  · rcases List.mem_append.mp hmem with hmem | hmem
    · exact h.past k' s hmem
    · obtain ⟨rfl, rfl⟩ := Prod.mk.inj (List.mem_singleton.mp hmem)
      exact le_rfl

end Window
