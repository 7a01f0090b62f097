/-!
# Labelled walks

A walk along a labelled transition relation, with its labels in order.

Proved here: `Walk.between`.  If some labels are enabled in ready states only and
leave them, then between any two of these a label stands that makes ready.
-/

universe u v

/-- A walk from state to state, and its labels. -/
inductive Walk {σ : Type u} {ε : Type v} (step : σ → ε → σ → Prop) : σ → List ε → σ → Prop
  | nil (s : σ) : Walk step s [] s
  | cons {s t u : σ} {e : ε} {es : List ε} (head : step s e t) (tail : Walk step t es u) :
      Walk step s (e :: es) u

namespace Walk

variable {σ : Type u} {ε : Type v} {step : σ → ε → σ → Prop} {s t u : σ} {e : ε} {es fs : List ε}

theorem one (h : step s e t) : Walk step s [e] t := .cons h (.nil t)

theorem append (hst : Walk step s es t) (htu : Walk step t fs u) : Walk step s (es ++ fs) u := by
  induction hst with
  | nil => exact htu
  | cons head _ ih => exact .cons head (ih htu)

theorem split (h : Walk step s (es ++ fs) u) : ∃ t, Walk step s es t ∧ Walk step t fs u := by
  induction es generalizing s with
  | nil => exact ⟨s, .nil s, h⟩
  | cons e es ih =>
    cases h with
    | cons head tail =>
      obtain ⟨t, hes, hfs⟩ := ih tail
      exact ⟨t, .cons head hes, hfs⟩

/-- Without a label that makes ready, a walk ends ready only if it starts so. -/
theorem ready_back {ready : σ → Prop} {makes : ε → Prop}
    (hback : ∀ s e t, step s e t → ¬ makes e → ready t → ready s)
    (h : Walk step s es t) (hnone : ∀ e ∈ es, ¬ makes e) (ht : ready t) : ready s := by
  induction h with
  | nil => exact ht
  | cons head _ ih =>
    refine hback _ _ _ head (hnone _ (List.mem_cons_self ..)) ?_
    exact ih (fun e he => hnone e (List.mem_cons_of_mem _ he)) ht

/-- **Alternation.**  Between two labels that use up readiness stands one that makes ready. -/
theorem between {ready : σ → Prop} {uses makes : ε → Prop}
    (hback : ∀ s e t, step s e t → ¬ makes e → ready t → ready s)
    (huse : ∀ s e t, step s e t → uses e → ready s ∧ ¬ ready t)
    {a b c : List ε} {f g : ε} (h : Walk step s (a ++ f :: b ++ g :: c) u) (hf : uses f)
    (hg : uses g) : ∃ e ∈ b, makes e := by
  obtain ⟨t, hab, hc⟩ := h.split
  obtain ⟨r, -, hb⟩ := hab.split
  cases hb with
  | cons hfirst hb =>
    cases hc with
    | cons hsecond _ =>
      refine Classical.byContradiction fun hne => (huse _ _ _ hfirst hf).2 ?_
      have hnone : ∀ e ∈ b, ¬ makes e := fun e he hmakes => hne ⟨e, he, hmakes⟩
      exact hb.ready_back hback hnone (huse _ _ _ hsecond hg).1

end Walk
