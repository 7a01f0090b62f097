import Mathlib.Tactic

/-!
# Insertion-ordered dictionaries

Python's `dict`: keys are distinct, iteration is in the order of first
insertion, storing under a present key keeps its place, and a deleted key that
comes back goes to the end.

The laws are about `get?`; order enters through `keys` and `values` only.
-/

universe u v w

variable {κ : Type u} {α : Type v} {β : Type w}

/-- A `dict`. -/
structure Dict (κ : Type u) (α : Type v) where
  entries : List (κ × α)
  nodup : (entries.map Prod.fst).Nodup

namespace Dict

theorem ext {d d' : Dict κ α} (h : d.entries = d'.entries) : d = d' := by
  cases d
  cases d'
  simpa using h

def empty : Dict κ α := ⟨[], List.nodup_nil⟩

instance : Inhabited (Dict κ α) := ⟨empty⟩

def keys (d : Dict κ α) : List κ := d.entries.map Prod.fst

def values (d : Dict κ α) : List α := d.entries.map Prod.snd

/-- The values with a function applied to each. -/
def map (d : Dict κ α) (f : α → β) : Dict κ β where
  entries := d.entries.map fun e => (e.1, f e.2)
  nodup := by simpa [List.map_map, Function.comp_def] using d.nodup

variable [DecidableEq κ]

/-- `d.get(k)` -/
def get? (d : Dict κ α) (k : κ) : Option α := d.entries.lookup k

/-- `k in d` -/
def contains (d : Dict κ α) (k : κ) : Bool := (d.get? k).isSome

/-- The value under `k` with a function applied to it. -/
def modify (d : Dict κ α) (k : κ) (f : α → α) : Dict κ α where
  entries := d.entries.map fun e => if e.1 = k then (e.1, f e.2) else e
  nodup := by
    have hkeys : (d.entries.map fun e => if e.1 = k then (e.1, f e.2) else e).map Prod.fst =
        d.entries.map Prod.fst := by
      rw [List.map_map]
      refine List.map_congr_left fun e _ => ?_
      simp only [Function.comp_apply]
      split <;> rfl
    rw [hkeys]
    exact d.nodup

theorem lookup_cons_eq (k a : κ) (b : α) (l : List (κ × α)) :
    List.lookup k ((a, b) :: l) = if k = a then some b else l.lookup k := by
  by_cases h : k = a
  · simp [h]
  · have hb : (k == a) = false := by simpa using h
    simp [List.lookup_cons, hb, h]

theorem lookup_eq_none_iff {l : List (κ × α)} {k : κ} :
    l.lookup k = none ↔ k ∉ l.map Prod.fst := by
  induction l with
  | nil => simp
  | cons e l ih =>
    rw [lookup_cons_eq, List.map_cons, List.mem_cons, not_or]
    split
    · next hk => simp [hk]
    · next hk => exact ih.trans ⟨fun h => ⟨hk, h⟩, fun h => h.2⟩

/-- `d[k] = v` -/
def insert (d : Dict κ α) (k : κ) (v : α) : Dict κ α :=
  if h : d.contains k then d.modify k fun _ => v
  else
    { entries := d.entries ++ [(k, v)]
      nodup := by
        have hk : k ∉ d.entries.map Prod.fst := by
          rw [← lookup_eq_none_iff]
          exact Option.not_isSome_iff_eq_none.mp h
        rw [List.map_append, List.nodup_append]
        exact ⟨d.nodup, List.nodup_singleton _, by
          rintro a ha b hb rfl
          simp only [List.map_cons, List.map_nil, List.mem_singleton] at hb
          exact hk (hb ▸ ha)⟩ }

/-- `d.pop(k, None)` -/
def erase (d : Dict κ α) (k : κ) : Dict κ α where
  entries := d.entries.filter fun e => e.1 ≠ k
  nodup := d.nodup.sublist (List.filter_sublist.map _)

/-- The entries whose value satisfies `p`. -/
def filter (d : Dict κ α) (p : α → Bool) : Dict κ α where
  entries := d.entries.filter fun e => p e.2
  nodup := d.nodup.sublist (List.filter_sublist.map _)

/-! ## Lookup -/

@[simp] theorem get?_empty (k : κ) : (empty : Dict κ α).get? k = none := rfl

theorem mem_keys_iff {d : Dict κ α} {k : κ} : k ∈ d.keys ↔ ∃ v, d.get? k = some v := by
  rw [← Option.ne_none_iff_exists', get?, Ne, lookup_eq_none_iff, not_not, keys]

theorem get?_eq_some_iff {d : Dict κ α} {k : κ} {v : α} :
    d.get? k = some v ↔ (k, v) ∈ d.entries := by
  obtain ⟨l, hl⟩ := d
  simp only [get?]
  induction l with
  | nil => simp
  | cons e l ih =>
    obtain ⟨k', v'⟩ := e
    rw [List.map_cons, List.nodup_cons] at hl
    rw [lookup_cons_eq, List.mem_cons, Prod.mk.injEq]
    split
    · next hk =>
      subst hk
      have hnot : (k, v) ∉ l := fun hmem => hl.1 (List.mem_map.mpr ⟨(k, v), hmem, rfl⟩)
      simp only [Option.some.injEq, true_and, hnot, or_false]
      exact eq_comm
    · next hk => simp [ih hl.2, hk]

theorem mem_values_iff {d : Dict κ α} {v : α} : v ∈ d.values ↔ ∃ k, d.get? k = some v := by
  simp only [values, List.mem_map, get?_eq_some_iff, Prod.exists, exists_eq_right]

/-- Values are counted by their keys. -/
theorem length_filter_values (d : Dict κ α) (p : α → Bool) :
    (d.values.filter p).length = (d.keys.filter fun k => (d.get? k).any p).length := by
  rw [values, keys, List.filter_map, List.filter_map, List.length_map, List.length_map]
  congr 1
  apply List.filter_congr
  intro e he
  simp only [Function.comp_apply, get?_eq_some_iff.mpr he, Option.any_some]

/-- What a function picks from the entry under `k`. -/
theorem filterMap_entries (d : Dict κ α) (k : κ) (f : α → Option β) :
    d.entries.filterMap (fun e => if e.1 = k then f e.2 else none) =
      ((d.get? k).bind f).toList := by
  obtain ⟨l, hl⟩ := d
  simp only [get?]
  induction l with
  | nil => rfl
  | cons e l ih =>
    obtain ⟨k', v⟩ := e
    rw [List.map_cons, List.nodup_cons] at hl
    rw [lookup_cons_eq]
    by_cases hk : k' = k
    · subst hk
      have hnone : l.lookup k' = none := lookup_eq_none_iff.mpr hl.1
      have hrest := ih hl.2
      rw [hnone] at hrest
      simp only [List.filterMap_cons, if_true, hrest, Option.bind_some, Option.bind_none,
        Option.toList_none]
      cases f v <;> rfl
    · rw [if_neg (Ne.symm hk)]
      simp only [List.filterMap_cons, hk, if_false]
      exact ih hl.2

theorem contains_iff {d : Dict κ α} {k : κ} : d.contains k = true ↔ ∃ v, d.get? k = some v := by
  rw [contains, Option.isSome_iff_exists]

@[simp] theorem get?_map (d : Dict κ α) (f : α → β) (k : κ) :
    (d.map f).get? k = (d.get? k).map f := by
  obtain ⟨l, hl⟩ := d
  simp only [get?, map]
  clear hl
  induction l with
  | nil => rfl
  | cons e l ih =>
    rw [List.map_cons, lookup_cons_eq, lookup_cons_eq, ih]
    split <;> rfl

omit [DecidableEq κ] in
@[simp] theorem keys_map (d : Dict κ α) (f : α → β) : (d.map f).keys = d.keys := by
  simp [keys, map, Function.comp_def]

theorem get?_modify (d : Dict κ α) (k k' : κ) (f : α → α) :
    (d.modify k f).get? k' = if k' = k then (d.get? k').map f else d.get? k' := by
  obtain ⟨l, hl⟩ := d
  simp only [get?, modify]
  clear hl
  induction l with
  | nil => simp
  | cons e l ih =>
    obtain ⟨a, b⟩ := e
    have hhead : (if a = k then (a, f b) else (a, b)) = (a, if a = k then f b else b) := by
      split <;> rfl
    simp only [List.map_cons]
    rw [hhead, lookup_cons_eq, lookup_cons_eq, ih]
    by_cases hk : k' = a
    · subst hk
      by_cases ha : k' = k <;> simp [ha]
    · simp [hk]

@[simp] theorem get?_modify_self (d : Dict κ α) (k : κ) (f : α → α) :
    (d.modify k f).get? k = (d.get? k).map f := by
  rw [get?_modify, if_pos rfl]

@[simp] theorem get?_modify_of_ne (d : Dict κ α) {k k' : κ} (h : k' ≠ k) (f : α → α) :
    (d.modify k f).get? k' = d.get? k' := by
  rw [get?_modify, if_neg h]

@[simp] theorem keys_modify (d : Dict κ α) (k : κ) (f : α → α) : (d.modify k f).keys = d.keys := by
  simp only [keys, modify, List.map_map]
  refine List.map_congr_left fun e _ => ?_
  simp only [Function.comp_apply]
  split <;> rfl

/-- Two functions that agree on the value under `k` modify alike. -/
theorem modify_congr {d : Dict κ α} {k : κ} {f g : α → α}
    (h : ∀ v, d.get? k = some v → f v = g v) : d.modify k f = d.modify k g := by
  have hentries : (d.modify k f).entries = (d.modify k g).entries := by
    refine List.map_congr_left fun e he => ?_
    split
    · next hk => rw [h e.2 (get?_eq_some_iff.mpr (hk ▸ he))]
    · rfl
  exact Dict.ext hentries

/-- To change the value under `k` into itself changes nothing. -/
theorem modify_self {d : Dict κ α} {k : κ} {f : α → α} (h : ∀ v, d.get? k = some v → f v = v) :
    d.modify k f = d := by
  rw [modify_congr (g := id) h]
  refine Dict.ext ?_
  simp [modify]

theorem modify_modify (d : Dict κ α) (k : κ) (f g : α → α) :
    (d.modify k f).modify k g = d.modify k (g ∘ f) := by
  refine Dict.ext ?_
  simp only [modify, List.map_map]
  refine List.map_congr_left fun e _ => ?_
  by_cases hk : e.1 = k <;> simp [hk]

theorem get?_insert (d : Dict κ α) (k k' : κ) (v : α) :
    (d.insert k v).get? k' = if k' = k then some v else d.get? k' := by
  unfold insert
  split
  · next h =>
    rw [get?_modify]
    split
    · next hk =>
      subst hk
      obtain ⟨w, hw⟩ := contains_iff.mp h
      rw [hw]
      rfl
    · rfl
  · next h =>
    simp only [get?, List.lookup_append]
    by_cases hk : k' = k
    · subst hk
      have hnone : d.entries.lookup k' = none := Option.not_isSome_iff_eq_none.mp h
      simp [hnone]
    · simp [lookup_cons_eq, hk]

@[simp] theorem get?_insert_self (d : Dict κ α) (k : κ) (v : α) :
    (d.insert k v).get? k = some v := by
  rw [get?_insert, if_pos rfl]

@[simp] theorem get?_insert_of_ne (d : Dict κ α) {k k' : κ} (h : k' ≠ k) (v : α) :
    (d.insert k v).get? k' = d.get? k' := by
  rw [get?_insert, if_neg h]

theorem get?_erase (d : Dict κ α) (k k' : κ) :
    (d.erase k).get? k' = if k' = k then none else d.get? k' := by
  split
  · next h =>
    subst h
    rw [get?, lookup_eq_none_iff]
    simp [erase]
  · next h =>
    cases hv : d.get? k' with
    | none =>
      rw [get?, lookup_eq_none_iff] at hv ⊢
      intro hmem
      simp only [erase, List.mem_map, List.mem_filter] at hmem hv
      obtain ⟨e, ⟨he, -⟩, rfl⟩ := hmem
      exact hv ⟨e, he, rfl⟩
    | some v =>
      rw [get?_eq_some_iff] at hv ⊢
      simp [erase, hv, h]

@[simp] theorem get?_erase_self (d : Dict κ α) (k : κ) : (d.erase k).get? k = none := by
  rw [get?_erase, if_pos rfl]

@[simp] theorem get?_erase_of_ne (d : Dict κ α) {k k' : κ} (h : k' ≠ k) :
    (d.erase k).get? k' = d.get? k' := by
  rw [get?_erase, if_neg h]

theorem get?_filter_eq_some_iff {d : Dict κ α} {p : α → Bool} {k : κ} {v : α} :
    (d.filter p).get? k = some v ↔ d.get? k = some v ∧ p v = true := by
  simp only [get?_eq_some_iff, filter, List.mem_filter]

omit [DecidableEq κ] in
theorem nodup_keys (d : Dict κ α) : d.keys.Nodup := d.nodup

/-! ## Comprehensions -/

/-- `{k: v for k, v in kvs}` -/
def ofList (kvs : List (κ × α)) : Dict κ α := kvs.foldl (fun d e => d.insert e.1 e.2) empty

theorem get?_foldl_insert {kvs : List (κ × α)} (hnodup : (kvs.map Prod.fst).Nodup) (d : Dict κ α)
    (k : κ) : (kvs.foldl (fun d e => d.insert e.1 e.2) d).get? k =
      ((⟨kvs, hnodup⟩ : Dict κ α).get? k).or (d.get? k) := by
  induction kvs generalizing d with
  | nil => rfl
  | cons e kvs ih =>
    obtain ⟨a, v⟩ := e
    have htail := List.nodup_cons.mp hnodup
    have hcons : (⟨(a, v) :: kvs, hnodup⟩ : Dict κ α).get? k =
        if k = a then some v else (⟨kvs, htail.2⟩ : Dict κ α).get? k := lookup_cons_eq k a v kvs
    rw [List.foldl_cons, ih htail.2, hcons]
    by_cases hk : k = a
    · subst hk
      have hnone : (⟨kvs, htail.2⟩ : Dict κ α).get? k = none := lookup_eq_none_iff.mpr htail.1
      rw [if_pos rfl, get?_insert_self, hnone]
      rfl
    · rw [if_neg hk, get?_insert_of_ne _ hk]

/-- Where no key comes twice, the comprehension has the pairs as its entries. -/
theorem get?_ofList {kvs : List (κ × α)} (hnodup : (kvs.map Prod.fst).Nodup) (k : κ) :
    (ofList kvs).get? k = (⟨kvs, hnodup⟩ : Dict κ α).get? k := by
  rw [ofList, get?_foldl_insert hnodup, get?_empty, Option.or_none]

/-- A comprehension that leaves one key out. -/
theorem get?_ofList_filter (kvs : List (κ × α)) (a k : κ) :
    (ofList (kvs.filter fun e => e.1 ≠ a)).get? k =
      if k = a then none else (ofList kvs).get? k := by
  have hfold : ∀ d d' : Dict κ α, d.get? k = (if k = a then none else d'.get? k) →
      ((kvs.filter fun e => e.1 ≠ a).foldl (fun d e => d.insert e.1 e.2) d).get? k =
        if k = a then none else (kvs.foldl (fun d e => d.insert e.1 e.2) d').get? k := by
    induction kvs with
    | nil => exact fun d d' h => h
    | cons e kvs ih =>
      intro d d' h
      by_cases he : e.1 = a
      · rw [List.filter_cons_of_neg (by simpa using he), List.foldl_cons]
        apply ih
        rw [h, get?_insert, he]
        by_cases hk : k = a
        · rw [if_pos hk, if_pos hk]
        · rw [if_neg hk, if_neg hk, if_neg hk]
      · rw [List.filter_cons_of_pos (by simpa using he), List.foldl_cons, List.foldl_cons]
        apply ih
        rw [get?_insert, get?_insert, h]
        by_cases hk : k = e.1
        · rw [if_pos hk, if_pos hk, if_neg (by rw [hk]; exact he)]
        · rw [if_neg hk, if_neg hk]
  apply hfold
  rw [get?_empty, ite_self]

end Dict
