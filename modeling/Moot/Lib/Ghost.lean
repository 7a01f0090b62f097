import Moot.Lib.Run

/-!
# Ghost state

A machine with a component that is only written: what a property says of the past
of a run becomes a property of the state.

Proved here: the component does not change the runs (`after_withGhost`), and a run
of the machine is a run with it (`Always.withGhost`).
-/

namespace Run

universe u v w

variable {σ : Type u} {ε : Type v} {γ : Type w}

/-- The step with a ghost component, which `write` updates from the state before the step. -/
def withGhost (step : σ → ε → σ) (write : γ → σ → ε → γ) (x : γ × σ) (e : ε) : γ × σ :=
  (write x.1 x.2 e, step x.2 e)

variable {step : σ → ε → σ} {write : γ → σ → ε → γ}

@[simp] theorem after_withGhost (g : γ) (s : σ) (es : List ε) :
    (after (withGhost step write) (g, s) es).2 = after step s es := by
  induction es generalizing g s with
  | nil => rfl
  | cons e es ih => exact ih _ _

theorem Always.withGhost {P : σ → ε → Prop} {s : σ} {es : List ε} (h : Always step P s es) (g : γ) :
    Always (Run.withGhost step write) (fun x e => P x.2 e) (g, s) es := by
  induction es generalizing g s with
  | nil => trivial
  | cons e es ih => exact ⟨h.1, ih h.2 _⟩

end Run
