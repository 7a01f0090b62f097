/-!
# Runs of a state machine

A machine is a total step function `σ → ε → σ`; an event that is not enabled
leaves the state as it is.  A run is a list of events.

Proved here: the invariant rules `preserved`, `invariant` (under a condition that
every step of the run meets) and `always_of_invariant`; `after_congr`, two machines
that agree where an invariant holds have the same runs.
-/

namespace Run

universe u v

variable {σ : Type u} {ε : Type v} (step : σ → ε → σ)

/-- The state after a run. -/
def after (s : σ) (es : List ε) : σ := es.foldl step s

/-- Every step of the run meets `P`, which sees the state before the step. -/
def Always (P : σ → ε → Prop) : σ → List ε → Prop
  | _, [] => True
  | s, e :: es => P s e ∧ Always P (step s e) es

variable {step}

@[simp] theorem after_nil (s : σ) : after step s [] = s := rfl

@[simp] theorem after_cons (s : σ) (e : ε) (es : List ε) :
    after step s (e :: es) = after step (step s e) es := rfl

theorem after_append (s : σ) (es fs : List ε) :
    after step s (es ++ fs) = after step (after step s es) fs := List.foldl_append

/-- **Invariant rule.**  What a step that meets `P` preserves holds after every
run whose steps all meet `P`. -/
theorem invariant {I : σ → Prop} {P : σ → ε → Prop}
    (hstep : ∀ s e, I s → P s e → I (step s e)) {s : σ} {es : List ε} (h : I s)
    (hP : Always step P s es) : I (after step s es) := by
  induction es generalizing s with
  | nil => exact h
  | cons e es ih => exact ih (hstep s e h hP.1) hP.2

/-- What every step preserves holds after every run. -/
theorem preserved {I : σ → Prop} (hstep : ∀ s e, I s → I (step s e)) {s : σ} (h : I s)
    (es : List ε) : I (after step s es) := by
  induction es generalizing s with
  | nil => exact h
  | cons e es ih => exact ih (hstep s e h)

/-- An invariant that implies `P` gives a run whose steps all meet `P`. -/
theorem always_of_invariant {I : σ → Prop} {P : σ → ε → Prop}
    (hstep : ∀ s e, I s → I (step s e)) (hP : ∀ s e, I s → P s e) {s : σ} (h : I s)
    (es : List ε) : Always step P s es := by
  induction es generalizing s with
  | nil => trivial
  | cons e es ih => exact ⟨hP s e h, ih (hstep s e h)⟩

theorem always_append {P : σ → ε → Prop} {s : σ} {es fs : List ε} :
    Always step P s (es ++ fs) ↔ Always step P s es ∧ Always step P (after step s es) fs := by
  induction es generalizing s with
  | nil => simp [Always]
  | cons e es ih => rw [List.cons_append, Always, ih, Always, after_cons, and_assoc]

/-- What every event of a run meets, every step of it meets. -/
theorem always_and {P : σ → ε → Prop} {Q : ε → Prop} {s : σ} {es : List ε} (hP : Always step P s es)
    (hQ : ∀ e ∈ es, Q e) : Always step (fun s e => P s e ∧ Q e) s es := by
  induction es generalizing s with
  | nil => trivial
  | cons e es ih =>
    exact ⟨⟨hP.1, hQ e (List.mem_cons_self ..)⟩,
      ih hP.2 fun e' he' => hQ e' (List.mem_cons_of_mem e he')⟩

/-- Two machines whose steps agree where `I` holds, on the events of the run. -/
theorem after_congr {step' : σ → ε → σ} {I : σ → Prop} {s : σ} {es : List ε} (h : I s)
    (hstep : ∀ s, I s → ∀ e ∈ es, step s e = step' s e ∧ I (step' s e)) :
    after step s es = after step' s es ∧ I (after step' s es) := by
  induction es generalizing s with
  | nil => exact ⟨rfl, h⟩
  | cons e es ih =>
    obtain ⟨heq, hnext⟩ := hstep s h e (List.mem_cons_self ..)
    rw [after_cons, after_cons, heq]
    exact ih hnext fun s hs e' he => hstep s hs e' (List.mem_cons_of_mem e he)

end Run
