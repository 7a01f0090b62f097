import Moot.Lib.Json

/-!
# Reading what was written

The round trip of `dumps` and `loads`, and the characters a written value
consists of.  `Ends m v` says that the reader in mode `m` has read the value
`v`, up to a number whose end it has not seen yet.

Proved here: `loads_dumps`, `clean_dumps`, `not_control_dumps`.
-/

namespace PyJson
open Py

variable {F : Type} [PyFloat F]

/-! ## Runs -/

theorem run_append (r : Reader F) (s t : Str) :
    run r (s ++ t) = (run r s).bind fun r => run r t := by
  induction s generalizing r with
  | nil => rfl
  | cons p s ih =>
    simp only [List.cons_append, run]
    cases step r p with
    | none => rfl
    | some r' => exact ih r'

theorem run_append_some {r r' : Reader F} {s : Str} (h : run r s = some r') (t : Str) :
    run r (s ++ t) = run r' t := by
  rw [run_append, h]; rfl

theorem run_cons_some {r q : Reader F} {p : CodePoint} (h : step r p = some q) (t : Str) :
    run r (p :: t) = run q t := by
  simp [run, h]

theorem run_cons_none {r : Reader F} {p : CodePoint} (h : step r p = none) (t : Str) :
    run r (p :: t) = none := by
  simp [run, h]

/-! ## Numbers -/

theorem numRun_bad (tok : List Char) : numRun .bad tok = .bad := by
  induction tok with
  | nil => rfl
  | cons c tok ih => simpa [numRun, numStep] using ih

theorem numStep_ne_bad_of_numRun {s : NumState} {c : Char} {tok : List Char}
    (h : numRun s (c :: tok) ≠ .bad) : numStep s c ≠ .bad := by
  intro hb
  apply h
  simp only [numRun, List.foldl_cons, hb]
  exact numRun_bad tok

/-- A token is read to its end. -/
theorem run_num (s : NumState) (done tok : List Char) (S : List (Open F))
    (h : numRun s tok ≠ .bad) :
    run ⟨.num s done, S⟩ (ofChars tok) = some ⟨.num (numRun s tok) (done ++ tok), S⟩ := by
  induction tok generalizing s done with
  | nil => simp [ofChars, run, numRun]
  | cons c tok ih =>
    have hc := numStep_ne_bad_of_numRun h
    have hI : (decide (s = .minus) && decide (c = 'I')) = false := by
      by_contra hn
      simp only [Bool.not_eq_false, Bool.and_eq_true, decide_eq_true_eq] at hn
      obtain ⟨rfl, rfl⟩ := hn
      exact hc (by decide)
    have hs : step ⟨.num s done, S⟩ (.scalar c) =
        some ⟨.num (numStep s c) (done ++ [c]), S⟩ := by
      simp only [step, stepOut]
      rw [if_neg (by simpa using hI), if_neg hc]
    have hr : numRun (numStep s c) tok ≠ .bad := h
    have := ih (numStep s c) (done ++ [c]) hr
    simp only [ofChars, List.map_cons] at this ⊢
    rw [run_cons_some hs, this]
    simp [numRun]

theorem startValue_num {c : Char} (h : numStep .start c ≠ .bad) (S : List (Open F)) :
    isWs c = false ∧ startValue c S = some ⟨.num (numStep .start c) [c], S⟩ := by
  have hne : ∀ d : Char, numStep .start d = .bad → c ≠ d := by
    rintro d hd rfl
    exact h hd
  constructor
  · simp [isWs, hne ' ' (by decide), hne '\t' (by decide), hne '\n' (by decide),
      hne '\r' (by decide)]
  · simp [startValue, hne '"' (by decide), hne '{' (by decide), hne '[' (by decide),
      hne 'n' (by decide), hne 't' (by decide), hne 'f' (by decide), hne 'N' (by decide),
      hne 'I' (by decide), h]

/-- A whole number token, from where a value starts. -/
theorem run_token {c : Char} {tok : List Char} (h : numRun .start (c :: tok) ≠ .bad)
    (S : List (Open F)) :
    run ⟨.value, S⟩ (ofChars (c :: tok)) =
      some ⟨.num (numRun .start (c :: tok)) (c :: tok), S⟩ := by
  have hc := numStep_ne_bad_of_numRun h
  obtain ⟨hws, hst⟩ := startValue_num (F := F) hc S
  have hs : step (F := F) ⟨.value, S⟩ (.scalar c) = some ⟨.num (numStep .start c) [c], S⟩ := by
    simp [step, stepOut, hws, hst]
  have := run_num (F := F) (numStep .start c) [c] tok S h
  simp only [ofChars, List.map_cons] at this ⊢
  rw [run_cons_some hs, this]
  simp [numRun]

theorem numRun_int_digits {ds : List Char} (h : ∀ c ∈ ds, c.isDigit = true) :
    numRun .int ds = .int := by
  induction ds with
  | nil => rfl
  | cons c ds ih =>
    have hc := h c (List.mem_cons_self ..)
    simp only [numRun, List.foldl_cons, numStep, hc, if_true]
    exact ih fun d hd => h d (List.mem_cons_of_mem _ hd)

/-- A positive numeral does not begin with a zero. -/
theorem toDigits_head (n : Nat) (hn : 0 < n) :
    ∃ c cs, Nat.toDigits 10 n = c :: cs ∧ c ≠ '0' := by
  induction n using Nat.strongRecOn with
  | _ n ih =>
    by_cases hlt : n < 10
    · refine ⟨n.digitChar, [], Nat.toDigits_of_lt_base hlt, ?_⟩
      interval_cases n <;> decide
    · obtain ⟨c, cs, hc, h0⟩ := ih (n / 10) (by omega) (by omega)
      refine ⟨c, cs ++ [(n % 10).digitChar], ?_, h0⟩
      rw [Nat.toDigits_of_base_le (by omega) (by omega), hc]
      rfl

theorem numStep_digit {s : NumState} (hs : s = .start ∨ s = .minus) {c : Char}
    (hd : c.isDigit = true) (h0 : c ≠ '0') : numStep s c = .int := by
  have hm : c ≠ '-' := by rintro rfl; simp at hd
  rcases hs with rfl | rfl <;> simp [numStep, hd, h0, hm]

theorem numRun_toDigits {s : NumState} (hs : s = .start ∨ s = .minus) (n : Nat) :
    (numRun s (Nat.toDigits 10 n)).isInt = true := by
  rcases Nat.eq_zero_or_pos n with rfl | hn
  · rcases hs with rfl | rfl <;> decide
  · obtain ⟨c, cs, hc, h0⟩ := toDigits_head n hn
    have hdig : ∀ d ∈ c :: cs, d.isDigit = true := fun d hd =>
      Nat.isDigit_of_mem_toDigits (b := 10) (n := n) (by omega) (by omega) (by rw [hc]; exact hd)
    rw [hc]
    simp only [numRun, List.foldl_cons, numStep_digit hs (hdig c (List.mem_cons_self ..)) h0]
    have := numRun_int_digits fun d hd => hdig d (List.mem_cons_of_mem _ hd)
    rw [numRun] at this
    rw [this]
    rfl

/-- The characters of `str(z)`. -/
def intToken : Int → List Char
  | .ofNat n => Nat.toDigits 10 n
  | .negSucc n => '-' :: Nat.toDigits 10 (n + 1)

theorem intStr_eq (z : Int) : intStr z = ofChars (intToken z) := by
  cases z <;> rfl

theorem numRun_intToken (z : Int) : (numRun .start (intToken z)).isInt = true := by
  cases z with
  | ofNat n => exact numRun_toDigits (Or.inl rfl) n
  | negSucc n => exact numRun_toDigits (s := .minus) (Or.inr rfl) (n + 1)

theorem intOfToken_intToken (z : Int) : intOfToken (intToken z) = z := by
  cases z with
  | negSucc n =>
    simp only [intToken, intOfToken, Nat.ofDigitChars_ten_toDigits]
    omega
  | ofNat n =>
    have hne : Nat.toDigits 10 n ≠ [] := Nat.toDigits_ne_nil
    cases hd : Nat.toDigits 10 n with
    | nil => exact absurd hd hne
    | cons c cs =>
      have hc : c.isDigit = true :=
        Nat.isDigit_of_mem_toDigits (b := 10) (n := n) (by omega) (by omega) (by simp [hd])
      have hm : c ≠ '-' := by rintro rfl; simp at hc
      have hval : intOfToken (c :: cs) = (Nat.ofDigitChars 10 (c :: cs) 0 : Nat) := by
        unfold intOfToken
        split
        · next heq => simp only [List.cons.injEq] at heq; exact absurd heq.1 hm
        · rfl
      rw [intToken, hd, hval, ← hd, Nat.ofDigitChars_ten_toDigits]
      rfl

theorem isInt_ne_bad {s : NumState} (h : s.isInt = true) : s ≠ .bad := by
  rintro rfl; simp [NumState.isInt] at h

theorem isFloat_ne_bad {s : NumState} (h : s.isFloat = true) : s ≠ .bad := by
  rintro rfl; simp [NumState.isFloat] at h

theorem isFloat_not_isInt {s : NumState} (h : s.isFloat = true) : s.isInt = false := by
  cases s <;> simp_all [NumState.isFloat, NumState.isInt]

/-! ## The end of a value -/

/-- In mode `m` the reader has read `v`. -/
inductive Ends (m : Mode F) (v : Json F) : Prop
  | after : m = .after v → Ends m v
  | num (s : NumState) (tok : List Char) : m = .num s tok → settle s tok = some v → Ends m v

theorem Ends.result {m : Mode F} {v : Json F} (h : Ends m v) :
    (Reader.mk m []).result = some v := by
  cases h with
  | after h => subst h; rfl
  | num s tok h hv => subst h; exact hv

/-- A comma or a bracket ends a number too. -/
theorem Ends.step_close {m : Mode F} {v : Json F} (h : Ends m v) {c : Char}
    (hc : c = ',' ∨ c = ']' ∨ c = '}') (S : List (Open F)) :
    step ⟨m, S⟩ (.scalar c) = closeValue v c S := by
  have hws : isWs c = false := by rcases hc with rfl | rfl | rfl <;> decide
  cases h with
  | after h => subst h; simp [step, stepOut, hws]
  | num s tok h hv =>
    subst h
    have hI : c ≠ 'I' := by rcases hc with rfl | rfl | rfl <;> decide
    have hbad : numStep s c = .bad := by rcases hc with rfl | rfl | rfl <;> cases s <;> decide
    simp [step, stepOut, hI, hbad, hv, hws]

theorem run_lit (rest : List Char) (h : rest ≠ []) (v : Json F) (S : List (Open F)) :
    run ⟨.lit rest v, S⟩ (ofChars rest) = some ⟨.after v, S⟩ := by
  induction rest with
  | nil => exact absurd rfl h
  | cons c rest ih =>
    cases rest with
    | nil => simp [ofChars, run, step, stepOut]
    | cons d rest =>
      have := ih (by simp)
      simp only [ofChars, List.map_cons] at this ⊢
      rw [run_cons_some (q := ⟨.lit (d :: rest) v, S⟩) (by simp [step, stepOut]), this]

/-! ## Strings -/

theorem val_lt_eq_scalar {p : CodePoint} (h : p.val < 0x20) :
    p = .scalar (Char.ofNat p.val) := by
  cases p with
  | surrogate n => simp only [CodePoint.val] at h; omega
  | scalar c => simp [CodePoint.val]

theorem escChar_self {p : CodePoint} (hlt : ¬ p.val < 0x20) (hq : p ≠ .scalar '"')
    (hb : p ≠ .scalar '\\') : escChar p = [p] := by
  have h1 : p ≠ .scalar '\n' := by rintro rfl; exact hlt (by decide)
  have h2 : p ≠ .scalar '\r' := by rintro rfl; exact hlt (by decide)
  have h3 : p ≠ .scalar '\t' := by rintro rfl; exact hlt (by decide)
  have h4 : p.val ≠ 8 := by omega
  have h5 : p.val ≠ 12 := by omega
  simp [escChar, hq, hb, h1, h2, h3, h4, h5, hlt]

theorem run_escChar (isKey : Bool) (acc : Str) (S : List (Open F)) (p : CodePoint) :
    run ⟨.str isKey acc none, S⟩ (escChar p) = some ⟨.str isKey (acc ++ [p]) none, S⟩ := by
  by_cases hlt : p.val < 0x20
  · have hp := val_lt_eq_scalar hlt
    generalize hn : p.val = n at hlt hp
    subst hp
    interval_cases n <;> rfl
  · by_cases hq : p = .scalar '"'
    · subst hq; rfl
    · by_cases hb : p = .scalar '\\'
      · subst hb; rfl
      · simp [escChar_self hlt hq hb, hq, hb, hlt, run, step, flush]

theorem run_escaped (isKey : Bool) (acc s : Str) (S : List (Open F)) :
    run ⟨.str isKey acc none, S⟩ (s.flatMap escChar) =
      some ⟨.str isKey (acc ++ s) none, S⟩ := by
  induction s generalizing acc with
  | nil => simp [run]
  | cons p s ih =>
    rw [List.flatMap_cons, run_append_some (run_escChar isKey acc S p), ih]
    simp

/-- The text after an opening quote. -/
theorem run_quoteTail (isKey : Bool) (s : Str) (S : List (Open F)) :
    run ⟨.str isKey [] none, S⟩ (s.flatMap escChar ++ [.scalar '"']) = closeString isKey s S := by
  rw [run_append_some (run_escaped isKey [] s S)]
  simp only [List.nil_append, run, step, if_true, flush]
  cases closeString isKey s S <;> rfl

omit [PyFloat F] in
theorem closeString_value (s : Str) (S : List (Open F)) :
    closeString false s S = some ⟨.after (.str s), S⟩ := by
  cases S with
  | nil => rfl
  | cons o S => cases o <;> rfl

theorem run_quote (s : Str) (S : List (Open F)) :
    run ⟨.value, S⟩ (quote s) = some ⟨.after (.str s), S⟩ := by
  have hs : step (F := F) ⟨.value, S⟩ (.scalar '"') = some ⟨.str false [] none, S⟩ := by
    simp [step, stepOut, startValue, isWs]
  rw [quote, run_cons_some hs, run_quoteTail, closeString_value]

/-- A key and its colon, from where a key may start. -/
theorem run_key {mode : Mode F} (hm : mode = .key ∨ mode = .firstKey) (spaced : Bool)
    (k k' : Str) (done : List (Str × Json F)) (S : List (Open F)) :
    run ⟨mode, .obj done k' :: S⟩ (quote k ++ keySep spaced) =
      some ⟨.value, .obj done k :: S⟩ := by
  have hs : step (F := F) ⟨mode, .obj done k' :: S⟩ (.scalar '"') =
      some ⟨.str true [] none, .obj done k' :: S⟩ := by
    rcases hm with rfl | rfl <;> simp [step, stepOut, isWs]
  have hq : run (F := F) ⟨mode, .obj done k' :: S⟩ (quote k) =
      some ⟨.colon, .obj done k :: S⟩ := by
    rw [quote, run_cons_some hs, run_quoteTail]
    rfl
  rw [run_append_some hq]
  cases spaced <;> rfl

/-! ## Round trip -/

mutual
/-- Every object in the value has distinct keys, as a `dict` has. -/
def Json.Wf : Json F → Prop
  | .arr xs => WfItems xs
  | .obj kvs => (kvs.map Prod.fst).Nodup ∧ WfFields kvs
  | _ => True

def WfItems : List (Json F) → Prop
  | [] => True
  | x :: xs => x.Wf ∧ WfItems xs

def WfFields : List (Str × Json F) → Prop
  | [] => True
  | (_, v) :: kvs => v.Wf ∧ WfFields kvs
end

omit [PyFloat F] in
theorem setKey_append {k : Str} {v : Json F} {kvs : List (Str × Json F)}
    (h : k ∉ kvs.map Prod.fst) : setKey k v kvs = kvs ++ [(k, v)] := by
  induction kvs with
  | nil => rfl
  | cons kv kvs ih =>
    obtain ⟨k', v'⟩ := kv
    simp only [List.map_cons, List.mem_cons, not_or] at h
    rw [setKey, if_neg (Ne.symm h.1), ih h.2]
    rfl

/-- A value starts with a character that neither is white space nor closes a list. -/
theorem dumps_head (spaced : Bool) (j : Json F) :
    ∃ c t, dumps spaced j = .scalar c :: t ∧ isWs c = false ∧ c ≠ ']' := by
  have htok : ∀ tok : List Char, numRun .start tok ≠ .start → numRun .start tok ≠ .bad →
      ∃ c t, ofChars tok = .scalar c :: t ∧ isWs c = false ∧ c ≠ ']' := by
    intro tok hne hbad
    cases tok with
    | nil => exact absurd rfl hne
    | cons c tok =>
      have hc := numStep_ne_bad_of_numRun hbad
      refine ⟨c, ofChars tok, rfl, (startValue_num (F := F) hc []).1, ?_⟩
      rintro rfl
      exact hc (by decide)
  cases j with
  | null => exact ⟨'n', str "ull", by rw [dumps]; rfl, by decide, by decide⟩
  | bool b => cases b
              · exact ⟨'f', str "alse", by rw [dumps]; rfl, by decide, by decide⟩
              · exact ⟨'t', str "rue", by rw [dumps]; rfl, by decide, by decide⟩
  | int z =>
    have hint := numRun_intToken z
    rw [dumps, intStr_eq]
    exact htok _ (by intro h; rw [h] at hint; simp [NumState.isInt] at hint) (isInt_ne_bad hint)
  | float x =>
    rw [dumps]
    rcases PyFloat.repr_cases x with ⟨h, -⟩ | ⟨h, -⟩ | ⟨h, -⟩ | ⟨h, -⟩
    · rw [h]; exact ⟨'N', _, rfl, by decide, by decide⟩
    · rw [h]; exact ⟨'I', _, rfl, by decide, by decide⟩
    · rw [h]; exact ⟨'-', _, rfl, by decide, by decide⟩
    · exact htok _ (by intro h'; rw [h'] at h; simp [NumState.isFloat] at h) (isFloat_ne_bad h)
  | str s => exact ⟨'"', _, by rw [dumps, quote], by decide, by decide⟩
  | arr xs => exact ⟨'[', _, by rw [dumps], by decide, by decide⟩
  | obj kvs => exact ⟨'{', _, by rw [dumps], by decide, by decide⟩

theorem run_firstItem {c : Char} (hws : isWs c = false) (hc : c ≠ ']') (t : Str)
    (S : List (Open F)) :
    run ⟨.firstItem, S⟩ (.scalar c :: t) = run ⟨.value, S⟩ (.scalar c :: t) := by
  simp [run, step, stepOut, hws, hc]

theorem run_float (x : F) (S : List (Open F)) :
    ∃ m, run ⟨.value, S⟩ (ofChars (PyFloat.repr x)) = some ⟨m, S⟩ ∧ Ends m (.float x) := by
  rcases PyFloat.repr_cases x with ⟨h, hx⟩ | ⟨h, hx⟩ | ⟨h, hx⟩ | ⟨h, hx⟩
  · refine ⟨_, ?_, .after rfl⟩
    rw [h, hx, ofChars, List.map_cons, run_cons_some (q := ⟨.lit ['a', 'N'] (.float PyFloat.nan), S⟩)
      (by simp [step, stepOut, startValue, isWs])]
    exact run_lit _ (by simp) _ _
  · refine ⟨_, ?_, .after rfl⟩
    rw [h, hx, ofChars, List.map_cons,
      run_cons_some (q := ⟨.lit ['n', 'f', 'i', 'n', 'i', 't', 'y'] (.float PyFloat.inf), S⟩)
      (by simp [step, stepOut, startValue, isWs])]
    exact run_lit _ (by simp) _ _
  · refine ⟨_, ?_, .after rfl⟩
    rw [h, hx, ofChars, List.map_cons, run_cons_some (q := ⟨.num .minus ['-'], S⟩)
      (by simp [step, stepOut, startValue, isWs, numStep]), List.map_cons,
      run_cons_some (q := ⟨.lit ['n', 'f', 'i', 'n', 'i', 't', 'y'] (.float PyFloat.negInf), S⟩)
      (by simp [step, stepOut])]
    exact run_lit _ (by simp) _ _
  · cases ht : PyFloat.repr x with
    | nil => rw [ht] at h; simp [numRun, NumState.isFloat] at h
    | cons c tok =>
      rw [ht] at h hx
      refine ⟨_, run_token (isFloat_ne_bad h) S, .num _ _ rfl ?_⟩
      simp [settle, isFloat_not_isInt h, h, hx]

mutual
/-- **Round trip.**  A written value is read back, wherever a value may stand. -/
theorem run_dumps (spaced : Bool) (j : Json F) (hj : j.Wf) (S : List (Open F)) :
    ∃ m, run ⟨.value, S⟩ (dumps spaced j) = some ⟨m, S⟩ ∧ Ends m j := by
  cases j with
  | null =>
    refine ⟨_, ?_, .after rfl⟩
    rw [dumps, show str "null" = ofChars ['n', 'u', 'l', 'l'] from rfl]
    exact (run_cons_some (q := ⟨.lit ['u', 'l', 'l'] .null, S⟩)
      (by simp [step, stepOut, startValue, isWs]) _).trans (run_lit _ (by simp) _ _)
  | bool b =>
    refine ⟨_, ?_, .after rfl⟩
    cases b
    · rw [dumps, show str "false" = ofChars ['f', 'a', 'l', 's', 'e'] from rfl]
      exact (run_cons_some (q := ⟨.lit ['a', 'l', 's', 'e'] (.bool false), S⟩)
        (by simp [step, stepOut, startValue, isWs]) _).trans (run_lit _ (by simp) _ _)
    · rw [dumps, show str "true" = ofChars ['t', 'r', 'u', 'e'] from rfl]
      exact (run_cons_some (q := ⟨.lit ['r', 'u', 'e'] (.bool true), S⟩)
        (by simp [step, stepOut, startValue, isWs]) _).trans (run_lit _ (by simp) _ _)
  | int z =>
    have hint := numRun_intToken z
    rw [dumps, intStr_eq]
    cases ht : intToken z with
    | nil => rw [ht] at hint; simp [numRun, NumState.isInt] at hint
    | cons c tok =>
      rw [ht] at hint
      refine ⟨_, run_token (isInt_ne_bad hint) S, .num _ _ rfl ?_⟩
      rw [settle, if_pos hint, ← ht, intOfToken_intToken]
  | float x => rw [dumps]; exact run_float x S
  | str s => exact ⟨_, by rw [dumps]; exact run_quote s S, .after rfl⟩
  | arr xs =>
    refine ⟨_, ?_, .after rfl⟩
    have hopen : step (F := F) ⟨.value, S⟩ (.scalar '[') = some ⟨.firstItem, .arr [] :: S⟩ := by
      simp [step, stepOut, startValue, isWs]
    rw [dumps, run_cons_some hopen]
    cases xs with
    | nil => simp [dumpsItems, run, step, stepOut, isWs]
    | cons x xs =>
      obtain ⟨m, init, last, hxs, hrun, hend⟩ :=
        run_dumpsItems spaced (x :: xs) (by simp) hj [] S
      obtain ⟨c, t, ht, hws, hc⟩ : ∃ c t, dumpsItems spaced (x :: xs) = .scalar c :: t ∧
          isWs c = false ∧ c ≠ ']' := by
        obtain ⟨c, t, ht, hws, hc⟩ := dumps_head spaced x
        cases xs with
        | nil => exact ⟨c, t, by rw [dumpsItems, ht], hws, hc⟩
        | cons y ys => exact ⟨c, _, by rw [dumpsItems, ht]; rfl, hws, hc⟩
      rw [ht] at hrun
      rw [ht, List.cons_append, run_firstItem hws hc, ← List.cons_append, run_append_some hrun]
      simp [run, hend.step_close, closeValue, hxs]
  | obj kvs =>
    refine ⟨_, ?_, .after rfl⟩
    have hopen : step (F := F) ⟨.value, S⟩ (.scalar '{') =
        some ⟨.firstKey, .obj [] [] :: S⟩ := by
      simp [step, stepOut, startValue, isWs]
    rw [dumps, run_cons_some hopen]
    cases kvs with
    | nil => simp [dumpsFields, run, step, stepOut, isWs]
    | cons kv kvs =>
      obtain ⟨m, init, k, v, hkvs, hrun, hend⟩ :=
        run_dumpsFields spaced (kv :: kvs) (by simp) hj.2 [] (by simpa using hj.1) [] S
          (Or.inr rfl)
      have hk : k ∉ init.map Prod.fst := by
        have hnd := hj.1
        rw [hkvs, List.map_append, List.nodup_append] at hnd
        intro hmem
        exact hnd.2.2 k hmem k (by simp) rfl
      rw [run_append_some hrun]
      simp [run, hend.step_close, closeValue, hkvs, setKey_append hk]
termination_by sizeOf j

/-- The items of a nonempty list: the last one is not closed yet. -/
theorem run_dumpsItems (spaced : Bool) (xs : List (Json F)) (hne : xs ≠ []) (h : WfItems xs)
    (done : List (Json F)) (S : List (Open F)) :
    ∃ m init last, xs = init ++ [last] ∧
      run ⟨.value, .arr done :: S⟩ (dumpsItems spaced xs) =
        some ⟨m, .arr (done ++ init) :: S⟩ ∧ Ends m last := by
  match xs, hne, h with
  | [x], _, h =>
    obtain ⟨m, hrun, hend⟩ := run_dumps spaced x h.1 (.arr done :: S)
    exact ⟨m, [], x, rfl, by rw [dumpsItems, hrun]; simp, hend⟩
  | x :: y :: ys, _, h =>
    obtain ⟨m, hrun, hend⟩ := run_dumps spaced x h.1 (.arr done :: S)
    obtain ⟨m', init, last, hys, hrun', hend'⟩ :=
      run_dumpsItems spaced (y :: ys) (by simp) h.2 (done ++ [x]) S
    refine ⟨m', x :: init, last, by rw [hys]; rfl, ?_, hend'⟩
    have hsep : run (F := F) ⟨m, .arr done :: S⟩ (itemSep spaced) =
        some ⟨.value, .arr (done ++ [x]) :: S⟩ := by
      have hcomma := hend.step_close (c := ',') (Or.inl rfl) (.arr done :: S)
      cases spaced
      · exact (run_cons_some hcomma _).trans rfl
      · exact (run_cons_some hcomma _).trans rfl
    rw [dumpsItems, List.append_assoc, run_append_some hrun, run_append_some hsep, hrun']
    simp
termination_by sizeOf xs

/-- The fields of a nonempty object, likewise. -/
theorem run_dumpsFields (spaced : Bool) (kvs : List (Str × Json F)) (hne : kvs ≠ [])
    (h : WfFields kvs) (done : List (Str × Json F))
    (hnd : ((done ++ kvs).map Prod.fst).Nodup) (k' : Str) (S : List (Open F))
    {mode : Mode F} (hm : mode = .key ∨ mode = .firstKey) :
    ∃ m init k v, kvs = init ++ [(k, v)] ∧
      run ⟨mode, .obj done k' :: S⟩ (dumpsFields spaced kvs) =
        some ⟨m, .obj (done ++ init) k :: S⟩ ∧ Ends m v := by
  match kvs, hne, h, hnd with
  | [(k, v)], _, h, _ =>
    have hkey := run_key hm spaced k k' done S
    obtain ⟨m, hrun, hend⟩ := run_dumps spaced v h.1 (.obj done k :: S)
    refine ⟨m, [], k, v, rfl, ?_, hend⟩
    rw [dumpsFields, run_append_some hkey, hrun]
    simp
  | (k, v) :: kv :: kvs, _, h, hnd =>
    have hkey := run_key hm spaced k k' done S
    obtain ⟨m, hrun, hend⟩ := run_dumps spaced v h.1 (.obj done k :: S)
    have hk : k ∉ done.map Prod.fst := by
      rw [List.map_append, List.nodup_append] at hnd
      intro hmem
      exact hnd.2.2 k hmem k (by simp) rfl
    obtain ⟨m', init, k2, v2, hkvs, hrun', hend'⟩ :=
      run_dumpsFields spaced (kv :: kvs) (by simp) h.2 (done ++ [(k, v)]) (by simpa using hnd)
        [] S (Or.inl rfl)
    refine ⟨m', (k, v) :: init, k2, v2, by rw [hkvs]; rfl, ?_, hend'⟩
    have hsep : run (F := F) ⟨m, .obj done k :: S⟩ (itemSep spaced) =
        some ⟨.key, .obj (done ++ [(k, v)]) [] :: S⟩ := by
      have hcomma := hend.step_close (c := ',') (Or.inl rfl) (.obj done k :: S)
      rw [closeValue, if_pos rfl, setKey_append hk] at hcomma
      cases spaced
      · exact (run_cons_some hcomma _).trans rfl
      · exact (run_cons_some hcomma _).trans rfl
    rw [dumpsFields, List.append_assoc, List.append_assoc, run_append_some hkey,
      run_append_some hrun, run_append_some hsep, hrun']
    simp
termination_by sizeOf kvs
end

/-- `json.loads` inverts `json.dumps`. -/
theorem loads_dumps (spaced : Bool) (j : Json F) (hj : j.Wf) :
    loads (dumps spaced j) = some j := by
  obtain ⟨m, hrun, hend⟩ := run_dumps spaced j hj []
  simp [loads, hrun, hend.result]

/-- A line break after the value is no part of it. -/
theorem loads_line (spaced : Bool) (j : Json F) (hj : j.Wf) :
    loads (dumps spaced j ++ str "\n") = some j := by
  obtain ⟨m, hrun, hend⟩ := run_dumps spaced j hj []
  rw [loads, run_append_some hrun]
  cases hend with
  | after h => subst h; rfl
  | num s tok h hv =>
    subst h
    have hbad : numStep s '\n' = .bad := by cases s <;> decide
    have hstep : step ⟨.num s tok, []⟩ (.scalar '\n') = some ⟨.after j, []⟩ := by
      simp [step, stepOut, hbad, hv, isWs]
    rw [show str "\n" = [.scalar '\n'] from rfl, run, hstep]
    rfl

/-! ## The characters of a written value -/

/-- A printable ASCII character. -/
def Plain (c : Char) : Prop := 0x20 ≤ c.toNat ∧ c.toNat < 0x7f

instance (c : Char) : Decidable (Plain c) := inferInstanceAs (Decidable (_ ∧ _))

theorem plain_of_numStep {s : NumState} {c : Char} (h : numStep s c ≠ .bad) : Plain c := by
  have hdigit : c.isDigit = true → Plain c := by
    intro hd
    simp only [Char.isDigit, Bool.and_eq_true, decide_eq_true_eq, ge_iff_le,
      UInt32.le_iff_toNat_le] at hd
    obtain ⟨h1, h2⟩ := hd
    have hc : c.toNat = c.val.toNat := rfl
    have e1 : ('0').val.toNat = 48 := rfl
    have e2 : ('9').val.toNat = 57 := rfl
    constructor <;> omega
  by_cases hd : c.isDigit = true
  · exact hdigit hd
  · have hcase : c = '-' ∨ c = '0' ∨ c = '.' ∨ c = 'e' ∨ c = 'E' ∨ c = '+' := by
      cases s <;> simp only [numStep, hd] at h <;> grind
    rcases hcase with rfl | rfl | rfl | rfl | rfl | rfl <;> decide

theorem plain_of_numRun {s : NumState} {tok : List Char} (h : numRun s tok ≠ .bad) :
    ∀ c ∈ tok, Plain c := by
  induction tok generalizing s with
  | nil => simp
  | cons d tok ih =>
    intro c hc
    rcases List.mem_cons.mp hc with rfl | hc
    · exact plain_of_numStep (numStep_ne_bad_of_numRun h)
    · exact ih (s := numStep s d) h c hc

mutual
/-- Every string in the value, keys included, satisfies `P`. -/
def Json.All (P : Str → Prop) : Json F → Prop
  | .str s => P s
  | .arr xs => AllItems P xs
  | .obj kvs => AllFields P kvs
  | _ => True

def AllItems (P : Str → Prop) : List (Json F) → Prop
  | [] => True
  | x :: xs => x.All P ∧ AllItems P xs

def AllFields (P : Str → Prop) : List (Str × Json F) → Prop
  | [] => True
  | (k, v) :: kvs => P k ∧ v.All P ∧ AllFields P kvs
end

omit [PyFloat F] in
theorem allItems_cons {P : Str → Prop} (x : Json F) (xs : List (Json F)) :
    AllItems P (x :: xs) ↔ x.All P ∧ AllItems P xs := Iff.rfl

omit [PyFloat F] in
theorem allFields_cons {P : Str → Prop} (k : Str) (v : Json F) (kvs : List (Str × Json F)) :
    AllFields P ((k, v) :: kvs) ↔ P k ∧ v.All P ∧ AllFields P kvs := Iff.rfl

/-- The escapes are ASCII. -/
theorem escChar_plain {p : CodePoint} (h : p.val < 0x20 ∨ p = .scalar '"' ∨ p = .scalar '\\') :
    ∃ cs, escChar p = ofChars cs ∧ ∀ c ∈ cs, Plain c := by
  suffices hcs : escChar p = ofChars ((chars? (escChar p)).getD []) ∧
      ∀ c ∈ (chars? (escChar p)).getD [], Plain c from ⟨_, hcs⟩
  rcases h with hlt | rfl | rfl
  · have hp := val_lt_eq_scalar hlt
    generalize p.val = n at hlt hp
    subst hp
    interval_cases n <;> exact ⟨rfl, forall_of_all (by decide)⟩
  · exact ⟨rfl, forall_of_all (by decide)⟩
  · exact ⟨rfl, forall_of_all (by decide)⟩

section Characters

variable {Q : CodePoint → Prop} (hQ : ∀ c, Plain c → Q (.scalar c))
include hQ

theorem forall_chars {cs : List Char} (h : ∀ c ∈ cs, Plain c) : ∀ p ∈ ofChars cs, Q p := by
  intro p hp
  obtain ⟨c, hc, rfl⟩ := List.mem_map.mp hp
  exact hQ c (h c hc)

theorem forall_str (s : String) (h : ∀ c ∈ s.toList, Plain c) : ∀ p ∈ str s, Q p :=
  forall_chars hQ h

theorem forall_escChar (p : CodePoint) : (∀ q ∈ escChar p, Q q) ↔ (p.val < 0x20 ∨ Q p) := by
  by_cases hesc : p.val < 0x20 ∨ p = .scalar '"' ∨ p = .scalar '\\'
  · obtain ⟨cs, hcs, hplain⟩ := escChar_plain hesc
    have hp : p.val < 0x20 ∨ Q p := by
      rcases hesc with h | rfl | rfl
      · exact Or.inl h
      · exact Or.inr (hQ _ (by decide))
      · exact Or.inr (hQ _ (by decide))
    simp only [hp, iff_true, hcs]
    exact forall_chars hQ hplain
  · simp only [not_or] at hesc
    obtain ⟨hlt, hq, hb⟩ := hesc
    simp [escChar_self hlt hq hb, hlt]

theorem forall_quote (s : Str) : (∀ q ∈ quote s, Q q) ↔ ∀ p ∈ s, p.val < 0x20 ∨ Q p := by
  have hq := hQ '"' (by decide)
  simp only [quote, List.mem_cons, List.mem_append, List.mem_flatMap, List.not_mem_nil, or_false]
  constructor
  · intro h p hp
    exact (forall_escChar hQ p).mp fun q hqp => h q (Or.inr (Or.inl ⟨p, hp, hqp⟩))
  · rintro h q (rfl | ⟨p, hp, hqp⟩ | rfl)
    · exact hq
    · exact (forall_escChar hQ p).mpr (h p hp) q hqp
    · exact hq

theorem forall_keySep (spaced : Bool) : ∀ q ∈ keySep spaced, Q q := by
  cases spaced <;> exact forall_chars hQ (forall_of_all (by decide))

theorem forall_itemSep (spaced : Bool) : ∀ q ∈ itemSep spaced, Q q := by
  cases spaced <;> exact forall_chars hQ (forall_of_all (by decide))

omit hQ in
theorem forall_append_iff (s t : Str) :
    (∀ q ∈ s ++ t, Q q) ↔ (∀ q ∈ s, Q q) ∧ ∀ q ∈ t, Q q := List.forall_mem_append

theorem forall_bracketed {c d : Char} (hc : Plain c) (hd : Plain d) (s : Str) :
    (∀ q ∈ .scalar c :: (s ++ [.scalar d]), Q q) ↔ ∀ q ∈ s, Q q := by
  have hc := hQ c hc
  have hd := hQ d hd
  simp only [List.mem_cons, List.mem_append, List.not_mem_nil, or_false]
  constructor
  · exact fun h q hq => h q (Or.inr (Or.inl hq))
  · rintro h q (rfl | hq | rfl)
    · exact hc
    · exact h q hq
    · exact hd

mutual
/-- What is written consists of the strings of the value, their control
characters escaped, and printable ASCII. -/
theorem forall_dumps (spaced : Bool) (j : Json F) :
    (∀ q ∈ dumps spaced j, Q q) ↔ j.All fun s => ∀ p ∈ s, p.val < 0x20 ∨ Q p := by
  match j with
  | .null => rw [dumps]; exact iff_of_true (forall_str hQ "null" (forall_of_all (by decide))) trivial
  | .bool true => rw [dumps]; exact iff_of_true (forall_str hQ "true" (forall_of_all (by decide))) trivial
  | .bool false => rw [dumps]; exact iff_of_true (forall_str hQ "false" (forall_of_all (by decide))) trivial
  | .int z =>
    simpa [dumps, Json.All, intStr_eq] using
      forall_chars hQ (plain_of_numRun (isInt_ne_bad (numRun_intToken z)))
  | .float x =>
    have hrepr : ∀ c ∈ PyFloat.repr x, Plain c := by
      rcases PyFloat.repr_cases x with ⟨h, -⟩ | ⟨h, -⟩ | ⟨h, -⟩ | ⟨h, -⟩
      · rw [h]; exact forall_of_all (by decide)
      · rw [h]; exact forall_of_all (by decide)
      · rw [h]; exact forall_of_all (by decide)
      · exact plain_of_numRun (isFloat_ne_bad h)
    simpa [dumps, Json.All] using forall_chars hQ hrepr
  | .str s => rw [dumps, forall_quote hQ, Json.All]
  | .arr xs =>
    rw [dumps, forall_bracketed hQ (by decide) (by decide), forall_dumpsItems spaced xs, Json.All]
  | .obj kvs =>
    rw [dumps, forall_bracketed hQ (by decide) (by decide), forall_dumpsFields spaced kvs, Json.All]
termination_by sizeOf j

theorem forall_dumpsItems (spaced : Bool) (xs : List (Json F)) :
    (∀ q ∈ dumpsItems spaced xs, Q q) ↔ AllItems (fun s => ∀ p ∈ s, p.val < 0x20 ∨ Q p) xs := by
  match xs with
  | [] => simp [dumpsItems, AllItems]
  | [x] => simp [dumpsItems, AllItems, forall_dumps spaced x]
  | x :: y :: xs =>
    have hsep := forall_itemSep hQ spaced
    rw [dumpsItems, forall_append_iff, forall_append_iff, forall_dumps spaced x,
      forall_dumpsItems spaced (y :: xs), allItems_cons x]
    tauto
termination_by sizeOf xs

theorem forall_dumpsFields (spaced : Bool) (kvs : List (Str × Json F)) :
    (∀ q ∈ dumpsFields spaced kvs, Q q) ↔
      AllFields (fun s => ∀ p ∈ s, p.val < 0x20 ∨ Q p) kvs := by
  match kvs with
  | [] => simp [dumpsFields, AllFields]
  | [(k, v)] =>
    have hsep := forall_keySep hQ spaced
    rw [dumpsFields, forall_append_iff, forall_append_iff, forall_dumps spaced v,
      forall_quote hQ, AllFields, AllFields]
    tauto
  | (k, v) :: kv :: kvs =>
    have hsep := forall_keySep hQ spaced
    have hitem := forall_itemSep hQ spaced
    rw [dumpsFields, forall_append_iff, forall_append_iff, forall_append_iff, forall_append_iff,
      forall_dumps spaced v, forall_quote hQ, forall_dumpsFields spaced (kv :: kvs),
      allFields_cons k]
    tauto
termination_by sizeOf kvs
end

end Characters

omit [PyFloat F] in
mutual
theorem Json.all_of_forall {P : Str → Prop} (h : ∀ s, P s) (j : Json F) : j.All P := by
  match j with
  | .null | .bool _ | .int _ | .float _ => trivial
  | .str s => exact h s
  | .arr xs => exact allItems_of_forall h xs
  | .obj kvs => exact allFields_of_forall h kvs

theorem allItems_of_forall {P : Str → Prop} (h : ∀ s, P s) (xs : List (Json F)) :
    AllItems P xs := by
  match xs with
  | [] => trivial
  | x :: xs => exact ⟨Json.all_of_forall h x, allItems_of_forall h xs⟩

theorem allFields_of_forall {P : Str → Prop} (h : ∀ s, P s) (kvs : List (Str × Json F)) :
    AllFields P kvs := by
  match kvs with
  | [] => trivial
  | (k, v) :: kvs => exact ⟨h k, Json.all_of_forall h v, allFields_of_forall h kvs⟩
end

/-- No string of the value has a lone surrogate. -/
def Json.Clean (j : Json F) : Prop := j.All Py.Clean

/-- A value can be encoded exactly when its strings can. -/
theorem clean_dumps (spaced : Bool) (j : Json F) : Py.Clean (dumps spaced j) ↔ j.Clean := by
  have hP : (fun s : Str => ∀ p ∈ s, p.val < 0x20 ∨ p.isScalar = true) = Py.Clean := by
    funext s
    refine propext (forall₂_congr fun p _ => ⟨?_, Or.inr⟩)
    rintro (h | h)
    · rw [val_lt_eq_scalar h]; rfl
    · exact h
  have hchars := forall_dumps (Q := fun p => p.isScalar = true) (fun _ _ => rfl) spaced j
  rw [hP] at hchars
  exact hchars

/-- What is written has no control character. -/
theorem not_control_dumps (spaced : Bool) (j : Json F) : ∀ q ∈ dumps spaced j, 0x20 ≤ q.val :=
  (forall_dumps (Q := fun q => 0x20 ≤ q.val) (fun _ hc => hc.1) spaced j).mpr
    (Json.all_of_forall (fun _ (p : CodePoint) _ => Nat.lt_or_ge p.val 0x20) j)

end PyJson
