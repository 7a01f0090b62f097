import Mathlib.Tactic

/-!
# Actions that may raise

An action on a state returns a value, or it raises and what it has written so far stays
(`EStateM`, with nothing that catches).

Proved here: the rules by which an action is seen to return, with the state it leaves and
an invariant of that state; `Returns.bind` and, for a loop, `Returns.forM`.
-/

namespace Raise

variable {ε σ α β : Type}

/-- The state that the action leaves, whether it returns or raises. -/
def left (m : EStateM ε σ α) (s : σ) : σ :=
  match m s with
  | .ok _ s' => s'
  | .error _ s' => s'

/-- The action raises. -/
def raises (m : EStateM ε σ α) (s : σ) : Bool :=
  match m s with
  | .ok _ _ => false
  | .error _ _ => true

/-- The action, if the condition holds. -/
def doIf (c : Prop) [Decidable c] (m : EStateM ε σ Unit) : EStateM ε σ Unit :=
  if c then m else pure ()

/-- The action returns `a` and leaves the state `s'`, of which `I` holds. -/
structure Returns (I : σ → Prop) (m : EStateM ε σ α) (s : σ) (a : α) (s' : σ) : Prop where
  runs : m s = .ok a s'
  keeps : I s'

section
variable {I : σ → Prop} {m : EStateM ε σ α} {s s' s'' : σ} {a : α} {b : β}

theorem Returns.left_eq (h : Returns I m s a s') : left m s = s' := by
  rw [left, h.runs]

theorem Returns.raises_eq (h : Returns I m s a s') : raises m s = false := by
  rw [raises, h.runs]

theorem Returns.pure (hs : I s) (a : α) : Returns I (pure a : EStateM ε σ α) s a s := ⟨rfl, hs⟩

theorem Returns.bind {k : α → EStateM ε σ β} (hm : Returns I m s a s')
    (hk : I s' → Returns I (k a) s' b s'') : Returns I (m >>= k) s b s'' := by
  have hrest := hk hm.keeps
  refine ⟨?_, hrest.keeps⟩
  show EStateM.bind m k s = _
  rw [EStateM.bind, hm.runs]
  exact hrest.runs

/-- The state is read. -/
theorem Returns.get {k : σ → EStateM ε σ β} (hk : Returns I (k s) s b s') :
    Returns I (MonadState.get >>= k) s b s' := ⟨hk.runs, hk.keeps⟩

/-- A write that cannot fail. -/
theorem Returns.modify {g : σ → σ} (hs : I (g s)) :
    Returns I (modify g : EStateM ε σ Unit) s () (g s) := ⟨rfl, hs⟩

theorem Returns.write {g : σ → σ} {k : PUnit → EStateM ε σ β} (hs : I (g s))
    (hk : I (g s) → Returns I (k ⟨⟩) (g s) b s') :
    Returns I (MonadState.modifyGet (fun t => (⟨⟩, g t)) >>= k) s b s' :=
  (Returns.modify hs).bind hk

theorem Returns.ite {c : Prop} [Decidable c] {m' : EStateM ε σ α} (hthen : c → Returns I m s a s')
    (helse : ¬c → Returns I m' s a s'') :
    Returns I (if c then m else m') s a (if c then s' else s'') := by
  split
  · next hc => exact hthen hc
  · next hc => exact helse hc

theorem Returns.doIf {c : Prop} [Decidable c] {m : EStateM ε σ Unit} (hs : I s)
    (hm : c → Returns I m s () s') : Returns I (doIf c m) s () (if c then s' else s) :=
  Returns.ite hm fun _ => Returns.pure hs ()

theorem Returns.unless {c : Bool} {m : EStateM ε σ Unit} (hs : I s)
    (hm : c = false → Returns I m s () s') :
    Returns I (Raise.doIf (c = false) m) s () (if c then s else s') := by
  cases c with
  | true => exact Returns.pure hs ()
  | false => exact hm rfl

/-- A loop whose rounds return is a fold. -/
theorem Returns.forM {m : α → EStateM ε σ Unit} {g : σ → α → σ} {xs : List α} (hs : I s)
    (hround : ∀ x ∈ xs, ∀ t, I t → Returns I (m x) t () (g t x)) :
    Returns I (xs.forM m) s () (xs.foldl g s) := by
  induction xs generalizing s with
  | nil => exact .pure hs ()
  | cons x xs ih =>
    have hx := hround x (List.mem_cons_self ..) s hs
    exact hx.bind fun ht => ih ht fun y hy => hround y (List.mem_cons_of_mem x hy)

end

end Raise
