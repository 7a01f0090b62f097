import Moot.Hub.Names
import Moot.Hub.Handover
import Moot.Lib.Strip

/-!
# The suggested name

A hello under a name that is taken is answered with a suggestion: the name, cut to
make room, with a dash and a number.  The loop of `suggest_name` has no bound of its
own; different numbers give different candidates, so that one of `used + 1` of them
is free.

Proved here: `suggestion_follows`, the suggestion is found, is a free protocol name,
and a hello that follows it is registered.
-/

namespace Moot
open Py Proto

/-! ## Candidates -/

/-- The number of a candidate. -/
def suffixOf (n : Nat) : Str := str "-" ++ natStr n

theorem dash_not_mem_natStr (n : Nat) : CodePoint.scalar '-' ∉ natStr n := by
  intro hmem
  obtain ⟨c, hc, hdigit⟩ := digit_of_mem_natStr hmem
  cases hc
  exact absurd hdigit (by decide)

theorem candidate_eq (taken : Str) (n : Nat) : ∃ stem, candidate taken n = stem ++ suffixOf n :=
  ⟨_, rfl⟩

/-- **Different numbers give different candidates.**  What comes after the last dash is the number. -/
theorem candidate_inj (taken : Str) {m n : Nat} (h : candidate taken m = candidate taken n) :
    m = n := by
  obtain ⟨v, hv⟩ := candidate_eq taken m
  obtain ⟨w, hw⟩ := candidate_eq taken n
  rw [hv, hw] at h
  have hrev : (natStr m).reverse ++ .scalar '-' :: v.reverse =
      (natStr n).reverse ++ .scalar '-' :: w.reverse := by
    simpa [suffixOf, str, ofChars] using congrArg List.reverse h
  have hnone : ∀ k, CodePoint.scalar '-' ∉ (natStr k).reverse := fun k hmem =>
    dash_not_mem_natStr k (List.mem_reverse.mp hmem)
  obtain ⟨hnum, -⟩ := append_sep_inj (hnone m) (hnone n) hrev
  exact natStr_inj (List.reverse_injective hnum)

/-- The suffix of a number below `10 ^ 30` leaves room for a character of the stem. -/
theorem length_suffixOf_le {n : Nat} (hn : n < 10 ^ 30) : (suffixOf n).length ≤ 31 := by
  have hlen : (natStr n).length ≤ 30 := (length_natStr_le_iff (by omega)).mpr hn
  have hdash : (suffixOf n).length = 1 + (natStr n).length := by
    rw [suffixOf, List.length_append]
    rfl
  omega

theorem candidate_take {taken : Str} {n : Nat} (hn : n < 10 ^ 30) :
    candidate taken n = taken.take (32 - (suffixOf n).length) ++ suffixOf n := by
  have hlen := length_suffixOf_le hn
  have hroom : (0 : Int) ≤ (maxNameLen : Int) - (suffixOf n).length := by
    rw [maxNameLen]
    omega
  have hcut : ((maxNameLen : Int) - (suffixOf n).length).toNat = 32 - (suffixOf n).length := by
    rw [maxNameLen]
    omega
  show sliceTo taken (maxNameLen - (suffixOf n).length) ++ suffixOf n = _
  rw [sliceTo, if_pos hroom, hcut]

theorem nameChar_suffixOf (n : Nat) : ∀ p ∈ suffixOf n, isNameChar p = true := by
  intro p hp
  rcases List.mem_append.mp hp with hp | hp
  · rw [show p = .scalar '-' by simpa [str, ofChars] using hp]
    decide
  · obtain ⟨c, rfl, hdigit⟩ := digit_of_mem_natStr hp
    have halnum : c.isAlphanum = true := by
      rw [Char.isAlphanum, hdigit, Bool.or_true]
    simp [isNameChar, isAlnum, halnum]

/-- A candidate keeps to the grammar. -/
theorem isProtocolName_candidate {taken : Str} (hname : isProtocolName taken = true) {n : Nat}
    (hn : n < 10 ^ 30) : isProtocolName (candidate taken n) = true := by
  have hlen := length_suffixOf_le hn
  rw [candidate_take hn]
  cases taken with
  | nil => cases hname
  | cons p s =>
    simp only [isProtocolName, Bool.and_eq_true, decide_eq_true_eq, List.all_eq_true] at hname
    obtain ⟨⟨hhead, hchars⟩, hshort⟩ := hname
    obtain ⟨k, hk⟩ : ∃ k, 32 - (suffixOf n).length = k + 1 := ⟨31 - (suffixOf n).length, by omega⟩
    rw [hk, List.take_succ_cons, List.cons_append]
    simp only [isProtocolName, Bool.and_eq_true, decide_eq_true_eq, List.all_eq_true,
      List.length_append, List.length_take]
    refine ⟨⟨hhead, fun q hq => ?_⟩, by omega⟩
    rcases List.mem_append.mp hq with hq | hq
    · exact hchars q (List.mem_of_mem_take hq)
    · exact nameChar_suffixOf n q hq

theorem length_le_of_isProtocolName {s : Str} (hs : isProtocolName s = true) :
    s.length ≤ maxNameLen := by
  cases s with
  | nil => exact Nat.zero_le _
  | cons p s =>
    simp only [isProtocolName, Bool.and_eq_true, decide_eq_true_eq] at hs
    exact Nat.succ_le_succ hs.2

/-- No reserved name has a dash. -/
theorem candidate_not_reserved (taken : Str) (n : Nat) :
    casefold (candidate taken n) ∉ reservedNames := by
  have hnone : ∀ r ∈ reservedNames, CodePoint.scalar '-' ∉ r := by decide
  intro hmem
  refine hnone _ hmem (List.mem_map.mpr ⟨.scalar '-', ?_, by decide⟩)
  obtain ⟨stem, heq⟩ := candidate_eq taken n
  rw [heq]
  simp [suffixOf, str, ofChars]

/-! ## The loop -/

/-- The loop stops at the first candidate that is free, if it may try as many. -/
theorem suggestFrom_eq {taken : Str} {isFree : Str → Bool} {n j fuel : Nat}
    (hfree : isFree (candidate taken (n + j)) = true)
    (hbusy : ∀ i < j, isFree (candidate taken (n + i)) = false) (hfuel : j < fuel) :
    suggestFrom taken isFree fuel n = some (candidate taken (n + j)) := by
  induction j generalizing n fuel with
  | zero =>
    obtain ⟨fuel, rfl⟩ := Nat.exists_eq_succ_of_ne_zero (Nat.ne_of_gt hfuel)
    rw [Nat.add_zero] at hfree
    rw [suggestFrom, if_pos hfree, Nat.add_zero]
  | succ j ih =>
    obtain ⟨fuel, rfl⟩ := Nat.exists_eq_succ_of_ne_zero (Nat.ne_of_gt (Nat.zero_lt_of_lt hfuel))
    have hfirst : isFree (candidate taken n) = false := hbusy 0 (Nat.succ_pos j)
    have hshift : ∀ i, n + 1 + i = n + (i + 1) := fun i => by omega
    rw [suggestFrom, hfirst, ← hshift j]
    refine ih (by rw [hshift]; exact hfree) (fun i hi => ?_) (by omega)
    rw [hshift]
    exact hbusy (i + 1) (by omega)

/-- **Pigeonhole.**  Of one candidate more than there are names in use, one is free. -/
theorem exists_free (taken : Str) (U : Finset Str) (n : Nat) :
    ∃ j ≤ U.card, candidate taken (n + j) ∉ U := by
  by_contra hall
  simp only [not_exists, not_and, not_not] at hall
  have hsub : (Finset.range (U.card + 1)).image (fun j => candidate taken (n + j)) ⊆ U := by
    intro s hs
    obtain ⟨j, hj, rfl⟩ := Finset.mem_image.mp hs
    exact hall j (Nat.lt_succ_iff.mp (Finset.mem_range.mp hj))
  have hinj : Function.Injective fun j => candidate taken (n + j) := fun i j h =>
    Nat.add_left_cancel (candidate_inj taken h)
  have hcard := Finset.card_le_card hsub
  rw [Finset.card_image_of_injective _ hinj, Finset.card_range] at hcard
  omega

/-- What `suggest_name` finds. -/
theorem suggestFrom_found (taken : Str) (U : Finset Str) (n : Nat) :
    ∃ j ≤ U.card, candidate taken (n + j) ∉ U ∧ ∀ fuel, U.card + 1 ≤ fuel →
      suggestFrom taken (fun m => m ∉ U) fuel n = some (candidate taken (n + j)) := by
  classical
  obtain ⟨k, hk, hfree⟩ := exists_free taken U n
  have hex : ∃ j, candidate taken (n + j) ∉ U := ⟨k, hfree⟩
  refine ⟨Nat.find hex, (Nat.find_min' hex hfree).trans hk, Nat.find_spec hex, fun fuel hfuel => ?_⟩
  refine suggestFrom_eq (by simpa using Nat.find_spec hex) (fun i hi => ?_) ?_
  · simpa using Nat.find_min hex hi
  · exact Nat.lt_of_le_of_lt ((Nat.find_min' hex hfree).trans hk) hfuel

/-! ## The hello that follows -/

section
variable {F : Type} [PyJson.PyFloat F]

/-- The frame is `frame`, under another name. -/
def Renamed (frame frame' : Obj F) (s : Str) : Prop :=
  field frame' "name" = some (.str s) ∧ ∀ key, key ≠ "name" → field frame' key = field frame key

theorem ok_bind {α β : Type} {x : Checked α} {g : α → Checked β} {a : α} (hx : x = .ok a) :
    (x >>= g) = g a := by
  rw [hx]
  rfl

/-- A hello under another good name is a hello. -/
theorem validateHello_renamed {isPrintable : Char → Bool} {frame frame' : Obj F} {s : Str} {f : Hello}
    (hv : validateHello isPrintable frame = .ok f) (hr : Renamed frame frame' s)
    (hs : casefold s ∉ reservedNames ∧ nameRe s = true) :
    ∃ g, validateHello isPrintable frame' = .ok g ∧ g.name = s := by
  have hgood : ¬(casefold s ∈ reservedNames ∨ nameRe s = false) := by
    rw [not_or, Bool.not_eq_false]
    exact hs
  unfold validateHello at hv ⊢
  obtain ⟨proto, hproto, hv⟩ := bind_ok hv
  split at hv
  · cases hv
  next hversion =>
  obtain ⟨name, -, hv⟩ := bind_ok hv
  split at hv
  · cases hv
  obtain ⟨kind, hkind, hv⟩ := bind_ok hv
  split at hv
  · cases hv
  next hkindok =>
  obtain ⟨room, hroom, hv⟩ := bind_ok hv
  obtain ⟨caps, hcaps, hv⟩ := bind_ok hv
  obtain ⟨role, hrole, -⟩ := bind_ok hv
  refine ⟨⟨s, kind, room.val, caps, role.val, hs, Bool.not_eq_false _ ▸ hkindok, room.property,
    role.property⟩, ?_, rfl⟩
  -- the same fields, one after the other
  refine (ok_bind (a := proto) ?_).trans ((if_neg hversion).trans ?_)
  · rw [reqInt, hr.2 _ (by decide)]
    exact hproto
  refine (ok_bind (a := s) ?_).trans ((dif_neg hgood).trans ?_)
  · rw [reqStr, hr.1]
  refine (ok_bind (a := kind) ?_).trans ((dif_neg hkindok).trans ?_)
  · rw [reqStr, hr.2 _ (by decide)]
    exact hkind
  refine (ok_bind (a := room) ?_).trans ((ok_bind (a := caps) ?_).trans ((ok_bind (a := role) ?_).trans rfl))
  · rw [hr.2 _ (by decide)]
    exact hroom
  · rw [hr.2 _ (by decide)]
    exact hcaps
  · rw [optStr, hr.2 _ (by decide)]
    exact hrole

theorem validate_renamed {isPrintable : Char → Bool} {frame frame' : Obj F} {s : Str} {f : Hello}
    (hv : validate isPrintable frame = .ok (.hello f)) (hr : Renamed frame frame' s)
    (hs : casefold s ∉ reservedNames ∧ nameRe s = true) :
    ∃ g, validate isPrintable frame' = .ok (.hello g) ∧ g.name = s := by
  rw [validate_hello_iff] at hv
  obtain ⟨ht, hv⟩ := hv
  obtain ⟨g, hg, hname⟩ := validateHello_renamed hv hr hs
  exact ⟨g, validate_hello_iff.mpr ⟨by rw [hr.2 _ (by decide)]; exact ht, hg⟩, hname⟩

end

namespace Hub

section
variable {env : Env} {h : Hub}

/-- The names that are taken: those on the roster, and those of the dead. -/
def NamesAre (h : Hub) (U : Finset Str) : Prop :=
  ∀ m, m ∈ U ↔ h.participants.contains m = true ∨ h.dead.contains m = true

theorem NamesAre.card_le {U : Finset Str} (hU : h.NamesAre U) :
    U.card ≤ h.participants.keys.length + h.dead.keys.length := by
  classical
  have hsub : U ⊆ (h.participants.keys ++ h.dead.keys).toFinset := by
    intro m hm
    rw [List.mem_toFinset, List.mem_append]
    rcases (hU m).mp hm with hm | hm
    · exact Or.inl (Dict.mem_keys_iff.mpr (Dict.contains_iff.mp hm))
    · exact Or.inr (Dict.mem_keys_iff.mpr (Dict.contains_iff.mp hm))
  rw [← List.length_append]
  exact (Finset.card_le_card hsub).trans (List.toFinset_card_le _)

/-- The answer to a hello under a name that is taken. -/
theorem turnAway_suggests {U : Finset Str} (hU : h.NamesAre U) {taken s : Str}
    (hs : ∀ fuel, U.card + 1 ≤ fuel → suggestFrom taken (fun m => m ∉ U) fuel 2 = some s)
    (c : ClientId) : h.turnAway env c taken = (h.errRaw env c errNameTaken s none).close c := by
  have hfree : (fun m => !h.participants.contains m && !h.dead.contains m) =
      fun m => decide (m ∉ U) := by
    funext m
    rw [Bool.eq_iff_iff, decide_eq_true_iff, hU m, not_or]
    simp
  have hcard := hU.card_le
  unfold turnAway suggestName
  rw [hfree, hs _ (by omega)]
  rfl

/-- A hello under a name that is free is registered. -/
theorem handleHello_free {U : Finset Str} (hU : h.NamesAre U) {c : ClientId}
    (hc : (h.wire.clients c).name = []) {g : Hello} (hg : g.name ∉ U) :
    h.handleHello env c g = (h.declareRoom g).register env c g := by
  have hnone : h.participants.contains g.name = false := by
    rw [hU, not_or] at hg
    simpa using hg.1
  have hreap : h.reap env g.name = h := by
    have hget : h.get? g.name = none := by
      cases hp : h.get? g.name with
      | none => rfl
      | some p =>
        rw [show h.participants.contains g.name = true from contains_of_get? hp] at hnone
        cases hnone
    rw [reap, hget]
  have hparts : (h.declareRoom g).participants = h.participants := by
    unfold declareRoom
    split <;> rfl
  unfold handleHello
  simp only [hc, ne_eq, not_true_eq_false, if_false, hreap, hparts, hnone, Bool.false_eq_true]

/-- **A free name is suggested.**  Whatever names are in use, fewer than `10 ^ 29`, the loop of
`suggest_name` ends after at most one candidate more, with a protocol name that is free.  It is the
detail of the `name_taken`, and as long as the same names are in use, a hello under that name is
valid and is registered. -/
theorem suggestion_follows {F : Type} [PyJson.PyFloat F] (env : Env) {taken : Str}
    (hname : isProtocolName taken = true) (U : Finset Str) (hU : U.card < 10 ^ 29) :
    ∃ s, (∀ fuel, U.card + 1 ≤ fuel → suggestFrom taken (fun m => m ∉ U) fuel 2 = some s) ∧
      s ∉ U ∧ isProtocolName s = true ∧ s.length ≤ maxNameLen ∧ casefold s ∉ reservedNames ∧
      (∀ h : Hub, h.NamesAre U → ∀ c,
        h.turnAway env c taken = (h.errRaw env c errNameTaken s none).close c) ∧
      (∀ (frame frame' : Obj F) (f : Hello), validate env.isPrintable frame = .ok (.hello f) →
        Renamed frame frame' s → ∃ g, validate env.isPrintable frame' = .ok (.hello g) ∧ g.name = s) ∧
      ∀ h : Hub, h.NamesAre U → ∀ (c : ClientId) (g : Hello), (h.wire.clients c).name = [] →
        g.name = s → h.handleHello env c g = (h.declareRoom g).register env c g := by
  obtain ⟨j, hj, hfree, hfound⟩ := suggestFrom_found taken U 2
  have hsmall : 2 + j < 10 ^ 30 := by omega
  have hgrammar := isProtocolName_candidate hname hsmall
  have hreserved := candidate_not_reserved taken (2 + j)
  refine ⟨candidate taken (2 + j), hfound, hfree, hgrammar, length_le_of_isProtocolName hgrammar,
    hreserved, fun h hh c => turnAway_suggests hh hfound c, fun frame frame' f hv hr => ?_,
    fun h hh c g hc hg => handleHello_free hh hc (by rw [hg]; exact hfree)⟩
  exact validate_renamed hv hr ⟨hreserved, by rw [nameRe, hgrammar, Bool.true_or]⟩

/-- Alpha and its first candidate are taken. -/
def twoAlphas : Finset Str := {str "alpha", str "alpha-2"}

theorem suggestion_follows_twoAlphas :
    ∃ s, suggestFrom (str "alpha") (fun m => m ∉ twoAlphas) 3 2 = some s ∧ s ∉ twoAlphas ∧
      isProtocolName s = true := by
  obtain ⟨s, hfound, hfree, hgrammar, -⟩ := @suggestion_follows PyJson.Token _ .still (str "alpha")
    (by decide) twoAlphas (by decide)
  exact ⟨s, hfound 3 (by decide), hfree, hgrammar⟩

end

end Hub

end Moot
