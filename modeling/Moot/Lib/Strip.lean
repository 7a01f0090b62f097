import Moot.Lib.Text
import Mathlib.Data.List.DropRight

/-!
# White space at the ends of a string

`str.lstrip`, `str.rstrip`, `str.strip` and `str.partition` on a one-character
separator.

Proved here: how they act on a concatenation, and that what is left is a part of
the string.
-/

namespace Py

/-- `s.lstrip()` -/
def lstrip (s : Str) : Str := s.dropWhile isSpace

/-- `s.rstrip()` -/
def rstrip (s : Str) : Str := s.rdropWhile isSpace

/-- `s.strip()` -/
def strip (s : Str) : Str := lstrip (rstrip s)

/-- `s.partition(sep)`: the part before the separator and the part after it. -/
def partition (sep : CodePoint) (s : Str) : Str × Str :=
  (s.takeWhile (· ≠ sep), (s.dropWhile (· ≠ sep)).tail)

/-- The white space at the front of a string. -/
def lead (s : Str) : Str := s.takeWhile isSpace

theorem lead_append_lstrip (s : Str) : lead s ++ lstrip s = s := List.takeWhile_append_dropWhile

theorem isSpace_of_mem_lead {s : Str} {p : CodePoint} (hp : p ∈ lead s) : isSpace p = true :=
  List.mem_takeWhile_imp hp

theorem lead_append {s : Str} (hs : lstrip s ≠ []) (t : Str) : lead (s ++ t) = lead s := by
  induction s with
  | nil => exact absurd rfl hs
  | cons p s ih =>
    by_cases hp : isSpace p = true
    · rw [lstrip, List.dropWhile_cons_of_pos hp] at hs
      rw [lead, lead, List.cons_append, List.takeWhile_cons_of_pos hp, List.takeWhile_cons_of_pos hp]
      exact congrArg _ (ih hs)
    · rw [lead, lead, List.cons_append, List.takeWhile_cons_of_neg hp, List.takeWhile_cons_of_neg hp]

/-- Stripping a string at its end leaves its front as it is. -/
theorem lead_rstrip {s : Str} (hs : strip s ≠ []) : lead (rstrip s) = lead s := by
  obtain ⟨t, ht⟩ := List.rdropWhile_prefix isSpace s
  rw [← lead_append hs t]
  exact congrArg lead ht

theorem rstrip_ne_nil {s : Str} (hs : strip s ≠ []) : rstrip s ≠ [] := fun h => by
  rw [strip, h] at hs
  exact hs rfl

@[simp] theorem rstrip_rstrip (s : Str) : rstrip (rstrip s) = rstrip s :=
  List.rdropWhile_idempotent ..

theorem lstrip_suffix (s : Str) : lstrip s <:+ s := List.dropWhile_suffix _

theorem lstrip_append {w : Str} (hw : ∀ p ∈ w, isSpace p = true) (s : Str) :
    lstrip (w ++ s) = lstrip s := by
  rw [lstrip, List.dropWhile_append_of_pos hw]
  rfl

theorem lstrip_cons {p : CodePoint} (hp : isSpace p = false) (s : Str) :
    lstrip (p :: s) = p :: s := by
  rw [lstrip, List.dropWhile_cons_of_neg (by simp [hp])]

@[simp] theorem lstrip_lstrip (s : Str) : lstrip (lstrip s) = lstrip s :=
  List.dropWhile_idempotent ..

/-- The end of a string that ends in no white space is not stripped. -/
theorem rstrip_of_suffix {s t : Str} (h : t <:+ rstrip s) : rstrip t = t := by
  refine List.rdropWhile_eq_self_iff.mpr fun hne => ?_
  obtain ⟨u, hu⟩ := h
  have hne' : rstrip s ≠ [] := by
    rw [← hu]
    simp [hne]
  have hlast := List.rdropWhile_last_not isSpace s hne'
  have heq : (rstrip s).getLast hne' = t.getLast hne := by
    simp only [← hu, List.getLast_append_of_ne_nil _ hne]
  rw [← heq]
  exact hlast

/-- A suffix of a stripped line is stripped at its front alone. -/
theorem strip_of_suffix {s t : Str} (h : t <:+ rstrip s) : strip t = lstrip t := by
  rw [strip, rstrip_of_suffix h]

theorem rstrip_append {s : Str} (hs : rstrip s ≠ []) (t : Str) : rstrip (t ++ s) = t ++ rstrip s := by
  induction s using List.reverseRecOn with
  | nil => exact absurd rfl hs
  | append_singleton s p ih =>
    rw [← List.append_assoc]
    by_cases hp : isSpace p = true
    · rw [rstrip, rstrip, List.rdropWhile_concat_pos _ _ _ hp, List.rdropWhile_concat_pos _ _ _ hp]
      refine ih ?_
      rwa [rstrip, List.rdropWhile_concat_pos _ _ _ hp] at hs
    · rw [rstrip, rstrip, List.rdropWhile_concat_neg _ _ _ hp, List.rdropWhile_concat_neg _ _ _ hp,
        List.append_assoc]

/-- What comes before the separator has none. -/
theorem partition_append {sep : CodePoint} {w : Str} (hw : sep ∉ w) (s : Str) :
    partition sep (w ++ s) = (w ++ (partition sep s).1, (partition sep s).2) := by
  have hall : ∀ p ∈ w, decide (p ≠ sep) = true := by
    intro p hp
    simp only [ne_eq, decide_not, Bool.not_eq_true', decide_eq_false_iff_not]
    rintro rfl
    exact hw hp
  rw [partition, partition, List.takeWhile_append_of_pos hall, List.dropWhile_append_of_pos hall]

theorem partition_cons_self (sep : CodePoint) (s : Str) : partition sep (sep :: s) = ([], s) := by
  simp [partition]

/-- The first separator tells where the parts are. -/
theorem append_sep_inj {sep : CodePoint} {v w s t : Str} (hv : sep ∉ v) (hw : sep ∉ w)
    (h : v ++ sep :: s = w ++ sep :: t) : v = w ∧ s = t := by
  have hparts := congrArg (partition sep) h
  rw [partition_append hv, partition_append hw, partition_cons_self, partition_cons_self,
    List.append_nil, List.append_nil, Prod.mk.injEq] at hparts
  exact hparts

/-- Parts that do not hold the separator can be read back from what they are joined to. -/
theorem join_inj {sep : CodePoint} {xs ys : List Str} (hxs : ∀ s ∈ xs, sep ∉ s)
    (hys : ∀ s ∈ ys, sep ∉ s) (hx : xs ≠ []) (hy : ys ≠ []) (h : join [sep] xs = join [sep] ys) :
    xs = ys := by
  induction xs generalizing ys with
  | nil => exact absurd rfl hx
  | cons x xs ih =>
    obtain ⟨y, ys, rfl⟩ := List.exists_cons_of_ne_nil hy
    have hx₀ := hxs x (List.mem_cons_self ..)
    have hy₀ := hys y (List.mem_cons_self ..)
    cases xs with
    | nil =>
      cases ys with
      | nil => rw [show x = y from h]
      | cons y' ys =>
        refine absurd ?_ hx₀
        rw [show x = y ++ [sep] ++ join [sep] (y' :: ys) from h]
        simp
    | cons x' xs =>
      cases ys with
      | nil =>
        refine absurd ?_ hy₀
        rw [show y = x ++ [sep] ++ join [sep] (x' :: xs) from h.symm]
        simp
      | cons y' ys =>
        have hcut : x ++ sep :: join [sep] (x' :: xs) = y ++ sep :: join [sep] (y' :: ys) := by
          simpa [join] using h
        obtain ⟨rfl, hrest⟩ := append_sep_inj hx₀ hy₀ hcut
        rw [ih (fun s hs => hxs s (List.mem_cons_of_mem _ hs))
          (fun s hs => hys s (List.mem_cons_of_mem _ hs)) (by simp) (by simp) hrest]

theorem partition_cons {sep p : CodePoint} (hp : p ≠ sep) (s : Str) :
    (partition sep (p :: s)).2 = (partition sep s).2 := by
  have hone : sep ∉ [p] := fun hmem => hp (List.mem_singleton.mp hmem).symm
  rw [← List.singleton_append, partition_append hone]

theorem partition_shorter (sep : CodePoint) {s : Str} (hs : s ≠ []) :
    (partition sep s).2.length < s.length := by
  have hlen := (List.dropWhile_suffix (l := s) (fun p => decide (p ≠ sep))).length_le
  have hpos := List.length_pos_of_ne_nil hs
  simp only [partition, List.length_tail]
  omega

/-- The second part is the end of the string. -/
theorem partition_suffix (sep : CodePoint) (s : Str) : (partition sep s).2 <:+ s :=
  (List.tail_suffix _).trans (List.dropWhile_suffix _)

end Py
