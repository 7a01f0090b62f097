/-!
# Lawful traces

A trace of what a system does, in which every entry is lawful after the entries
before it.

Proved here: a trace grows lawfully by one entry (`Lawful.snoc`) and by many
(`Lawful.append`); and where entries read a counter that falls at marked entries
only, readings rise from mark to mark (`Climbs`).
-/

namespace Trace

universe u

variable {ε : Type u}

/-- Every entry is lawful after those before it. -/
def Lawful (law : List ε → ε → Prop) (log : List ε) : Prop :=
  ∀ pre e post, log = pre ++ e :: post → law pre e

variable {law : List ε → ε → Prop} {log : List ε}

theorem lawful_nil : Lawful law [] := by
  intro pre e post h
  cases pre <;> cases h

theorem Lawful.snoc (h : Lawful law log) {e : ε} (he : law log e) : Lawful law (log ++ [e]) := by
  intro pre x post hlog
  obtain rfl | ⟨post', last, rfl⟩ := List.eq_nil_or_concat post
  · obtain ⟨rfl, hlast⟩ := List.append_inj' hlog rfl
    cases hlast
    exact he
  · rw [List.concat_eq_append, ← List.cons_append, ← List.append_assoc] at hlog
    obtain ⟨hinit, -⟩ := List.append_inj' hlog rfl
    exact h pre x post' hinit

/-- Entries that are each lawful after those before them. -/
theorem Lawful.append (h : Lawful law log) {es : List ε}
    (hes : ∀ pre e post, es = pre ++ e :: post → law (log ++ pre) e) : Lawful law (log ++ es) := by
  induction es generalizing log with
  | nil => rwa [List.append_nil]
  | cons e es ih =>
    have hhead : law log e := by simpa using hes [] e es rfl
    rw [← List.singleton_append, ← List.append_assoc]
    refine ih (h.snoc hhead) ?_
    intro pre x post hpost
    have := hes (e :: pre) x post (by rw [hpost]; rfl)
    rwa [List.append_assoc]

/-! ## Readings of a counter -/

section
variable (reading : ε → Option Nat) (mark : ε → Bool)

/-- No entry since the last mark reads more than `k`. -/
def Below (log : List ε) (k : Nat) : Prop :=
  ∀ pre e post, log = pre ++ e :: post → (∀ x ∈ post, mark x = false) → ∀ r ∈ reading e, r ≤ k

/-- From mark to mark the readings rise. -/
def Climbs (log : List ε) : Prop :=
  Lawful (fun pre e => ∀ r ∈ reading e, Below reading mark pre r) log

variable {reading mark}

theorem Below.mono {k k' : Nat} (h : Below reading mark log k) (hk : k ≤ k') :
    Below reading mark log k' :=
  fun pre e post hlog hpost r hr => Nat.le_trans (h pre e post hlog hpost r hr) hk

theorem Below.append {k : Nat} (h : Below reading mark log k) {es : List ε}
    (hes : ∀ e ∈ es, ∀ r ∈ reading e, r ≤ k) : Below reading mark (log ++ es) k := by
  intro pre e post hlog hpost r hr
  rcases List.append_eq_append_iff.mp hlog with ⟨a, rfl, hsplit⟩ | ⟨a, rfl, hsplit⟩
  · exact hes e (by rw [hsplit]; simp) r hr
  · cases a with
    | nil => exact hes e (by rw [← List.nil_append es, ← hsplit]; simp) r hr
    | cons x a =>
      obtain ⟨rfl, rfl⟩ := List.cons_eq_cons.mp hsplit
      exact h pre e a rfl (fun y hy => hpost y (List.mem_append_left _ hy)) r hr

/-- After a mark the counter is free. -/
theorem below_of_mark {es : List ε} (hread : ∀ e ∈ es, reading e = none)
    (hmark : ∃ e ∈ es, mark e = true) (k : Nat) : Below reading mark (log ++ es) k := by
  intro pre e post hlog hpost r hr
  have hold : e ∉ es := by
    intro hmem
    rw [hread e hmem] at hr
    cases hr
  rcases List.append_eq_append_iff.mp hlog with ⟨a, rfl, hsplit⟩ | ⟨a, rfl, hsplit⟩
  · exact absurd (by rw [hsplit]; simp) hold
  · cases a with
    | nil => exact absurd (by rw [← List.nil_append es, ← hsplit]; simp) hold
    | cons x a =>
      obtain ⟨rfl, rfl⟩ := List.cons_eq_cons.mp hsplit
      obtain ⟨y, hy, hyes⟩ := hmark
      rw [hpost y (List.mem_append_right _ hy)] at hyes
      cases hyes

/-- Entries that all read `k`. -/
theorem Climbs.append {k : Nat} (h : Climbs reading mark log) (hk : Below reading mark log k)
    {es : List ε} (hes : ∀ e ∈ es, ∀ r ∈ reading e, r = k) : Climbs reading mark (log ++ es) := by
  refine Lawful.append h ?_
  rintro pre e post rfl r hr
  rw [hes e (by simp) r hr]
  exact hk.append fun x hx r hr => Nat.le_of_eq (hes x (List.mem_append_left _ hx) r hr)

end

end Trace
