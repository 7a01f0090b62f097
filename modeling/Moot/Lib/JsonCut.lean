import Moot.Lib.JsonText

/-!
# Cut texts

A written object that was cut off is not JSON, and stays that when another
object follows the cut.  Between the cut and the end of the second object the
reader either waits inside the first one, or has taken the second one's quotes
for the ends of strings: then what was inside strings is outside and the other
way round, and the text ends inside a string (`Flips`).
-/

namespace PyJson
open Py

variable {F : Type} [PyFloat F]

/-! ## Open readers -/

/-- A literal waits for letters only. -/
def LitOk (m : Mode F) : Prop := ∀ rest v, m = .lit rest v → ∀ c ∈ rest, c.isAlpha = true

/-- A reader with a container open, or done. -/
structure Alive (r : Reader F) : Prop where
  open_or_done : r.stack ≠ [] ∨ ∃ v, r.mode = .after v
  lit : LitOk r.mode

omit [PyFloat F] in
theorem alive_of_open {m : Mode F} {S : List (Open F)} (hS : S ≠ []) (hm : LitOk m) :
    Alive ⟨m, S⟩ := ⟨Or.inl hS, hm⟩

omit [PyFloat F] in
theorem alive_after (v : Json F) (S : List (Open F)) : Alive ⟨.after v, S⟩ :=
  ⟨Or.inr ⟨v, rfl⟩, by simp [LitOk]⟩

omit [PyFloat F] in
theorem alive_closeValue {v : Json F} {c : Char} {S : List (Open F)} {r : Reader F}
    (h : closeValue v c S = some r) : Alive r := by
  cases S with
  | nil => simp [closeValue] at h
  | cons o S =>
    cases o <;>
    · simp only [closeValue] at h
      split_ifs at h <;> cases h
      · exact alive_of_open (by simp) (by simp [LitOk])
      · exact alive_after _ _

theorem alive_startValue {c : Char} {S : List (Open F)} (hS : S ≠ []) {r : Reader F}
    (h : startValue c S = some r) : Alive r := by
  unfold startValue at h
  split_ifs at h <;> cases h <;> exact alive_of_open (by simp [hS]) (by simp [LitOk])

omit [PyFloat F] in
theorem alive_closeString {isKey : Bool} {s : Str} {S : List (Open F)} (hS : S ≠ [])
    {r : Reader F} (h : closeString isKey s S = some r) : Alive r := by
  cases S with
  | nil => exact absurd rfl hS
  | cons o S =>
    cases o <;> cases isKey <;> simp [closeString] at h <;> subst h <;>
      exact alive_of_open (by simp) (by simp [LitOk])

theorem Alive.stepOut {mode : Mode F} {S : List (Open F)} (hr : Alive ⟨mode, S⟩) {c : Char}
    {r' : Reader F} (h : stepOut mode S c = some r') : Alive r' := by
  obtain ⟨hopen, hlit⟩ := hr
  have hS : (∀ v, mode ≠ .after v) → S ≠ [] := by
    intro hne
    rcases hopen with h | ⟨v, hv⟩
    · exact h
    · exact absurd hv (hne v)
  cases mode with
  | after v =>
    simp only [PyJson.stepOut] at h
    split_ifs at h
    · cases h; exact alive_after _ _
    · exact alive_closeValue h
  | value =>
    simp only [PyJson.stepOut] at h
    split_ifs at h
    · cases h; exact alive_of_open (hS (by simp)) (by simp [LitOk])
    · exact alive_startValue (hS (by simp)) h
  | firstItem =>
    simp only [PyJson.stepOut] at h
    split_ifs at h
    · cases h; exact alive_of_open (hS (by simp)) (by simp [LitOk])
    · cases h; exact alive_after _ _
    · exact alive_startValue (hS (by simp)) h
  | firstKey =>
    simp only [PyJson.stepOut] at h
    split_ifs at h
    · cases h; exact alive_of_open (hS (by simp)) (by simp [LitOk])
    · cases h; exact alive_after _ _
    · cases h; exact alive_of_open (hS (by simp)) (by simp [LitOk])
  | key =>
    simp only [PyJson.stepOut] at h
    split_ifs at h <;> cases h <;> exact alive_of_open (hS (by simp)) (by simp [LitOk])
  | colon =>
    simp only [PyJson.stepOut] at h
    split_ifs at h <;> cases h <;> exact alive_of_open (hS (by simp)) (by simp [LitOk])
  | num s tok =>
    simp only [PyJson.stepOut] at h
    split_ifs at h with h1 h2 h3
    · cases h; exact alive_of_open (hS (by simp)) (by simp [LitOk])
    · split at h
      · cases h; exact alive_after _ _
      · cases h
    · split at h
      · exact alive_closeValue h
      · cases h
    · cases h; exact alive_of_open (hS (by simp)) (by simp [LitOk])
  | lit rest v =>
    cases rest with
    | nil => simp [PyJson.stepOut] at h
    | cons d rest =>
      cases rest with
      | nil =>
        simp only [PyJson.stepOut] at h
        split_ifs at h
        cases h; exact alive_after _ _
      | cons e rest =>
        simp only [PyJson.stepOut] at h
        split_ifs at h
        cases h
        refine alive_of_open (hS (by simp)) fun rest' v' h' => ?_
        cases h'
        exact fun c hc => hlit _ _ rfl c (List.mem_cons_of_mem _ hc)
  | str | esc | hex => simp [PyJson.stepOut] at h

theorem Alive.step {r r' : Reader F} (hr : Alive r) {p : CodePoint} (h : step r p = some r') :
    Alive r' := by
  obtain ⟨mode, S⟩ := r
  have hS : (∀ v, mode ≠ .after v) → S ≠ [] := by
    intro hne
    rcases hr.open_or_done with h | ⟨v, hv⟩
    · exact h
    · exact absurd hv (hne v)
  cases mode with
  | str isKey acc hi =>
    simp only [PyJson.step] at h
    split_ifs at h
    · exact alive_closeString (hS (by simp)) h
    · cases h; exact alive_of_open (hS (by simp)) (by simp [LitOk])
    · cases h; exact alive_of_open (hS (by simp)) (by simp [LitOk])
  | esc isKey acc hi =>
    cases p with
    | surrogate n => simp [PyJson.step] at h
    | scalar c =>
      simp only [PyJson.step] at h
      split_ifs at h
      · cases h; exact alive_of_open (hS (by simp)) (by simp [LitOk])
      · simp only [Option.map_eq_some_iff] at h
        obtain ⟨d, -, rfl⟩ := h
        exact alive_of_open (hS (by simp)) (by simp [LitOk])
  | hex isKey acc hi count value =>
    cases p with
    | surrogate n => simp [PyJson.step] at h
    | scalar c =>
      simp only [PyJson.step, Option.map_eq_some_iff] at h
      obtain ⟨d, -, rfl⟩ := h
      split_ifs
      · refine alive_of_open (hS (by simp)) ?_
        unfold closeHex
        split <;> split_ifs <;> simp [LitOk]
      · exact alive_of_open (hS (by simp)) (by simp [LitOk])
  | value | firstItem | key | firstKey | colon | after v | num s tok | lit rest v =>
    cases p with
    | surrogate n => simp [PyJson.step] at h
    | scalar c => exact Alive.stepOut hr h

theorem Alive.run {r r' : Reader F} (hr : Alive r) {s : Str} (h : run r s = some r') :
    Alive r' := by
  induction s generalizing r with
  | nil => simp only [PyJson.run, Option.some.injEq] at h; exact h ▸ hr
  | cons p s ih =>
    simp only [PyJson.run] at h
    cases hp : PyJson.step r p with
    | none => rw [hp] at h; cases h
    | some r1 => rw [hp] at h; exact ih (hr.step hp) h

/-- A value that is done takes no bracket. -/
theorem run_done_bracket (v : Json F) (s : Str) :
    run ⟨.after v, []⟩ (s ++ [.scalar '}']) = none := by
  induction s with
  | nil => simp [run, step, stepOut, isWs, closeValue]
  | cons p s ih =>
    rw [List.cons_append]
    cases hp : step (F := F) ⟨.after v, []⟩ p with
    | none => exact run_cons_none hp _
    | some r =>
      have hr : r = ⟨.after v, []⟩ := by
        cases p with
        | surrogate n => simp [step] at hp
        | scalar c =>
          simp only [step, stepOut, closeValue] at hp
          split_ifs at hp
          cases hp; rfl
      rw [run_cons_some hp, hr, ih]

/-! ## Quotes taken the wrong way round -/

/-- The reader is in a string. -/
def InString (r : Reader F) : Prop := ∃ isKey acc hi, r.mode = .str isKey acc hi

/-- The reader is between strings. -/
structure Outside (r : Reader F) : Prop where
  str : ∀ isKey acc hi, r.mode ≠ .str isKey acc hi
  esc : ∀ isKey acc hi, r.mode ≠ .esc isKey acc hi
  hex : ∀ isKey acc hi n v, r.mode ≠ .hex isKey acc hi n v
  lit : LitOk r.mode

/-- Read from inside a string, the text ends inside a string if it is read at all. -/
def Flips (F : Type) [PyFloat F] (t : Str) : Prop :=
  ∀ r r' : Reader F, InString r → run r t = some r' → InString r'

theorem Flips.nil : Flips F [] := by
  intro r r' hr h
  simp only [run, Option.some.injEq] at h
  exact h ▸ hr

theorem Flips.append {s t : Str} (hs : Flips F s) (ht : Flips F t) : Flips F (s ++ t) := by
  intro r r' hr h
  rw [run_append] at h
  cases h1 : run r s with
  | none => rw [h1] at h; cases h
  | some r1 => rw [h1] at h; exact ht r1 r' (hs r r1 hr h1) h

theorem Flips.plain {t : Str} (h : ∀ p ∈ t, p ≠ .scalar '"' ∧ p ≠ .scalar '\\') : Flips F t := by
  induction t with
  | nil => exact Flips.nil
  | cons p t ih =>
    have hp := h p (List.mem_cons_self ..)
    rintro ⟨mode, S⟩ r' ⟨isKey, acc, hi, rfl⟩ hrun
    cases hs : step (F := F) ⟨.str isKey acc hi, S⟩ p with
    | none => rw [run_cons_none hs] at hrun; cases hrun
    | some r1 =>
      rw [run_cons_some hs] at hrun
      refine ih (fun q hq => h q (List.mem_cons_of_mem _ hq)) r1 r' ?_ hrun
      simp only [step, if_neg hp.1, if_neg hp.2] at hs
      split_ifs at hs
      cases hs
      exact ⟨_, _, _, rfl⟩

omit [PyFloat F] in
theorem outside_after (v : Json F) (S : List (Open F)) : Outside ⟨.after v, S⟩ := by
  constructor <;> simp [LitOk]

omit [PyFloat F] in
theorem outside_closeValue {v : Json F} {c : Char} {S : List (Open F)} {r : Reader F}
    (h : closeValue v c S = some r) : c ≠ '"' ∧ c ≠ '\\' ∧ Outside r := by
  cases S with
  | nil => simp [closeValue] at h
  | cons o S =>
    cases o <;>
    · simp only [closeValue] at h
      split_ifs at h with h1 h2
      · subst h1; cases h
        exact ⟨by decide, by decide, by constructor <;> simp [LitOk]⟩
      · subst h2; cases h
        exact ⟨by decide, by decide, by constructor <;> simp [LitOk]⟩

omit [PyFloat F] in
theorem outside_closeString {isKey : Bool} {s : Str} {S : List (Open F)} {r : Reader F}
    (h : closeString isKey s S = some r) : Outside r := by
  cases S with
  | nil =>
    cases isKey <;> simp [closeString] at h
    subst h; exact outside_after _ _
  | cons o S =>
    cases o <;> cases isKey <;> simp [closeString] at h <;> subst h <;>
      constructor <;> simp [LitOk]

/-- What a character does outside strings: a quote opens one, a backslash is an
error, the others stay outside. -/
def OutStep (c : Char) (r : Reader F) : Prop :=
  (c = '"' ∧ InString r) ∨ (c ≠ '"' ∧ c ≠ '\\' ∧ Outside r)

omit [PyFloat F] in
theorem ws_plain {c : Char} (h : isWs c = true) : c ≠ '"' ∧ c ≠ '\\' := by
  constructor <;> · rintro rfl; exact absurd h (by decide)

theorem outStep_startValue {c : Char} {S : List (Open F)} {r : Reader F}
    (h : startValue c S = some r) : OutStep c r := by
  by_cases hq : c = '"'
  · subst hq
    simp only [startValue, if_true, Option.some.injEq] at h
    subst h
    exact Or.inl ⟨rfl, _, _, _, rfl⟩
  · have hb : c ≠ '\\' := by
      rintro rfl
      simp [startValue, numStep] at h
    unfold startValue at h
    refine Or.inr ⟨hq, hb, ?_⟩
    split_ifs at h <;> cases h <;> constructor <;> simp [LitOk]

theorem Outside.stepOut {mode : Mode F} {S : List (Open F)} (hr : Outside ⟨mode, S⟩) {c : Char}
    {r' : Reader F} (h : stepOut mode S c = some r') : OutStep c r' := by
  cases mode with
  | after v =>
    simp only [PyJson.stepOut] at h
    split_ifs at h with hws
    · cases h
      exact Or.inr ⟨(ws_plain hws).1, (ws_plain hws).2, outside_after _ _⟩
    · exact Or.inr (outside_closeValue h)
  | value =>
    simp only [PyJson.stepOut] at h
    split_ifs at h with hws
    · cases h
      exact Or.inr ⟨(ws_plain hws).1, (ws_plain hws).2, hr⟩
    · exact outStep_startValue h
  | firstItem =>
    simp only [PyJson.stepOut] at h
    split_ifs at h with hws hc
    · cases h
      exact Or.inr ⟨(ws_plain hws).1, (ws_plain hws).2, hr⟩
    · cases h
      subst hc
      exact Or.inr ⟨by decide, by decide, outside_after _ _⟩
    · exact outStep_startValue h
  | firstKey =>
    simp only [PyJson.stepOut] at h
    split_ifs at h with hws hc hq
    · cases h
      exact Or.inr ⟨(ws_plain hws).1, (ws_plain hws).2, hr⟩
    · cases h
      subst hc
      exact Or.inr ⟨by decide, by decide, outside_after _ _⟩
    · cases h
      exact Or.inl ⟨hq, _, _, _, rfl⟩
  | key =>
    simp only [PyJson.stepOut] at h
    split_ifs at h with hws hq
    · cases h
      exact Or.inr ⟨(ws_plain hws).1, (ws_plain hws).2, hr⟩
    · cases h
      exact Or.inl ⟨hq, _, _, _, rfl⟩
  | colon =>
    simp only [PyJson.stepOut] at h
    split_ifs at h with hws hc
    · cases h
      exact Or.inr ⟨(ws_plain hws).1, (ws_plain hws).2, hr⟩
    · cases h
      subst hc
      exact Or.inr ⟨by decide, by decide, by constructor <;> simp [LitOk]⟩
  | num s tok =>
    simp only [PyJson.stepOut] at h
    split_ifs at h with hI hbad hws
    · cases h
      simp only [Bool.and_eq_true, decide_eq_true_eq] at hI
      obtain ⟨-, rfl⟩ := hI
      exact Or.inr ⟨by decide, by decide, by constructor <;> simp [LitOk]⟩
    · split at h
      · cases h
        exact Or.inr ⟨(ws_plain hws).1, (ws_plain hws).2, outside_after _ _⟩
      · cases h
    · split at h
      · exact Or.inr (outside_closeValue h)
      · cases h
    · cases h
      have hne : ∀ d : Char, numStep s d = .bad → c ≠ d := by
        rintro d hd rfl
        exact hbad hd
      exact Or.inr ⟨hne _ (by cases s <;> decide), hne _ (by cases s <;> decide),
        by constructor <;> simp [LitOk]⟩
  | lit rest v =>
    have halpha := hr.lit _ _ rfl
    have hplain : ∀ d ∈ rest, d ≠ '"' ∧ d ≠ '\\' := fun d hd => by
      have := halpha d hd
      constructor <;> · rintro rfl; exact absurd this (by decide)
    cases rest with
    | nil => simp [PyJson.stepOut] at h
    | cons d rest =>
      have hd := hplain d (List.mem_cons_self ..)
      cases rest with
      | nil =>
        simp only [PyJson.stepOut] at h
        split_ifs at h with hc
        cases h
        exact Or.inr ⟨hc ▸ hd.1, hc ▸ hd.2, outside_after _ _⟩
      | cons e rest =>
        simp only [PyJson.stepOut] at h
        split_ifs at h with hc
        cases h
        refine Or.inr ⟨hc ▸ hd.1, hc ▸ hd.2, by simp, by simp, by simp, fun rest' v' h' => ?_⟩
        cases h'
        exact fun x hx => halpha x (List.mem_cons_of_mem _ hx)
  | str | esc | hex => simp [PyJson.stepOut] at h

theorem Outside.step {r r' : Reader F} (hr : Outside r) {p : CodePoint}
    (h : step r p = some r') :
    (p = .scalar '"' ∧ InString r') ∨ (p ≠ .scalar '"' ∧ p ≠ .scalar '\\' ∧ Outside r') := by
  obtain ⟨mode, S⟩ := r
  have hout : ∀ c, p = .scalar c → PyJson.step ⟨mode, S⟩ p = PyJson.stepOut mode S c := by
    rintro c rfl
    cases mode with
    | str isKey acc hi => exact absurd rfl (hr.str isKey acc hi)
    | esc isKey acc hi => exact absurd rfl (hr.esc isKey acc hi)
    | hex isKey acc hi n v => exact absurd rfl (hr.hex isKey acc hi n v)
    | _ => rfl
  cases p with
  | surrogate n =>
    exfalso
    cases mode with
    | str isKey acc hi => exact hr.str isKey acc hi rfl
    | esc isKey acc hi => exact hr.esc isKey acc hi rfl
    | hex isKey acc hi n v => exact hr.hex isKey acc hi n v rfl
    | _ => simp [PyJson.step] at h
  | scalar c =>
    rw [hout c rfl] at h
    rcases hr.stepOut h with ⟨rfl, hin⟩ | ⟨h1, h2, h3⟩
    · exact Or.inl ⟨rfl, hin⟩
    · exact Or.inr ⟨by simpa using h1, by simpa using h2, h3⟩

/-- A character in quotes is itself, or an escape. -/
theorem escChar_cases (p : CodePoint) :
    escChar p = [p] ∧ p ≠ .scalar '"' ∨ ∃ t, escChar p = .scalar '\\' :: t := by
  unfold escChar
  split_ifs with hquote
  · exact Or.inr ⟨_, rfl⟩
  · exact Or.inr ⟨_, rfl⟩
  · exact Or.inr ⟨_, rfl⟩
  · exact Or.inr ⟨_, rfl⟩
  · exact Or.inr ⟨_, rfl⟩
  · exact Or.inr ⟨_, rfl⟩
  · exact Or.inr ⟨_, rfl⟩
  · exact Or.inr ⟨_, rfl⟩
  · exact Or.inl ⟨rfl, hquote⟩

/-- From outside strings, the inside of a string followed by its quote ends
inside a string: an escape would have been an error. -/
theorem Outside.run_quoteTail {r r' : Reader F} (hr : Outside r) (s : Str)
    (h : run r (s.flatMap escChar ++ [.scalar '"']) = some r') : InString r' := by
  induction s generalizing r with
  | nil =>
    simp only [List.flatMap_nil, List.nil_append, run] at h
    cases hs : PyJson.step r (.scalar '"') with
    | none => rw [hs] at h; cases h
    | some r1 =>
      rw [hs] at h
      cases h
      rcases hr.step hs with ⟨-, hin⟩ | ⟨hne, -⟩
      · exact hin
      · exact absurd rfl hne
  | cons p s ih =>
    rw [List.flatMap_cons, List.append_assoc] at h
    rcases escChar_cases p with ⟨he, hne⟩ | ⟨t, he⟩
    · rw [he] at h
      cases hs : PyJson.step r p with
      | none => rw [List.singleton_append, run_cons_none hs] at h; cases h
      | some r1 =>
        rw [List.singleton_append, run_cons_some hs] at h
        rcases hr.step hs with ⟨heq, -⟩ | ⟨-, -, hout⟩
        · exact absurd heq hne
        · exact ih hout h
    · rw [he, List.cons_append] at h
      cases hs : PyJson.step r (.scalar '\\') with
      | none => rw [run_cons_none hs] at h; cases h
      | some r1 =>
        rcases hr.step hs with ⟨heq, -⟩ | ⟨-, hne, -⟩
        · exact absurd heq (by decide)
        · exact absurd rfl hne

theorem Flips.quote (s : Str) : Flips F (quote s) := by
  rintro ⟨mode, S⟩ r' ⟨isKey, acc, hi, rfl⟩ h
  rw [PyJson.quote] at h
  cases hs : step (F := F) ⟨.str isKey acc hi, S⟩ (.scalar '"') with
  | none => rw [run_cons_none hs] at h; cases h
  | some r1 =>
    rw [run_cons_some hs] at h
    simp only [step, if_true] at hs
    exact (outside_closeString hs).run_quoteTail s h

theorem Flips.chars {cs : List Char} (h : ∀ c ∈ cs, c ≠ '"' ∧ c ≠ '\\') :
    Flips F (ofChars cs) := by
  apply Flips.plain
  intro p hp
  obtain ⟨c, hc, rfl⟩ := List.mem_map.mp hp
  simpa using h c hc

theorem token_plain {s : NumState} {tok : List Char} (h : numRun s tok ≠ .bad) :
    ∀ c ∈ tok, c ≠ '"' ∧ c ≠ '\\' := by
  induction tok generalizing s with
  | nil => simp
  | cons d tok ih =>
    have hd := numStep_ne_bad_of_numRun h
    intro c hc
    rcases List.mem_cons.mp hc with rfl | hc
    · constructor <;> · rintro rfl; exact hd (by cases s <;> decide)
    · exact ih (s := numStep s d) h c hc

theorem Flips.itemSep (spaced : Bool) : Flips F (itemSep spaced) := by
  cases spaced <;> exact Flips.chars (forall_of_all (by decide))

theorem Flips.keySep (spaced : Bool) : Flips F (keySep spaced) := by
  cases spaced <;> exact Flips.chars (forall_of_all (by decide))

theorem Flips.bracket {c : Char} (h : c ≠ '"' ∧ c ≠ '\\') : Flips F [.scalar c] :=
  Flips.plain (by simpa using h)

theorem Flips.scalar (spaced : Bool) {j : Json F} (harr : ∀ xs, j ≠ .arr xs)
    (hobj : ∀ kvs, j ≠ .obj kvs) : Flips F (dumps spaced j) := by
  cases j with
  | null => rw [dumps]; exact Flips.chars (forall_of_all (by decide))
  | bool b =>
    cases b <;> rw [dumps] <;> exact Flips.chars (forall_of_all (by decide))
  | int z =>
    rw [dumps, intStr_eq]
    exact Flips.chars (token_plain (isInt_ne_bad (numRun_intToken z)))
  | float x =>
    rw [dumps]
    refine Flips.chars ?_
    rcases PyFloat.repr_cases x with ⟨h, -⟩ | ⟨h, -⟩ | ⟨h, -⟩ | ⟨h, -⟩
    · rw [h]; exact forall_of_all (by decide)
    · rw [h]; exact forall_of_all (by decide)
    · rw [h]; exact forall_of_all (by decide)
    · exact token_plain (isFloat_ne_bad h)
  | str s => rw [dumps]; exact Flips.quote s
  | arr xs => exact absurd rfl (harr xs)
  | obj kvs => exact absurd rfl (hobj kvs)

mutual
/-- **Parity.**  A written value has its quotes in pairs. -/
theorem Flips.dumps (spaced : Bool) (j : Json F) : Flips F (dumps spaced j) := by
  match j with
  | .arr xs =>
    rw [PyJson.dumps, ← List.singleton_append]
    exact (Flips.bracket (by decide)).append
      ((Flips.dumpsItems spaced xs).append (Flips.bracket (by decide)))
  | .obj kvs =>
    rw [PyJson.dumps, ← List.singleton_append]
    exact (Flips.bracket (by decide)).append
      ((Flips.dumpsFields spaced kvs).append (Flips.bracket (by decide)))
  | .null | .bool _ | .int _ | .float _ | .str _ => exact Flips.scalar spaced (by simp) (by simp)
termination_by sizeOf j

theorem Flips.dumpsItems (spaced : Bool) (xs : List (Json F)) :
    Flips F (dumpsItems spaced xs) := by
  match xs with
  | [] => rw [PyJson.dumpsItems]; exact Flips.nil
  | [x] => rw [PyJson.dumpsItems]; exact Flips.dumps spaced x
  | x :: y :: ys =>
    rw [PyJson.dumpsItems]
    exact ((Flips.dumps spaced x).append (Flips.itemSep spaced)).append
      (Flips.dumpsItems spaced (y :: ys))
termination_by sizeOf xs

theorem Flips.dumpsFields (spaced : Bool) (kvs : List (Str × Json F)) :
    Flips F (dumpsFields spaced kvs) := by
  match kvs with
  | [] => rw [PyJson.dumpsFields]; exact Flips.nil
  | [(k, v)] =>
    rw [PyJson.dumpsFields]
    exact ((Flips.quote k).append (Flips.keySep spaced)).append (Flips.dumps spaced v)
  | (k, v) :: kv :: kvs =>
    rw [PyJson.dumpsFields]
    exact ((((Flips.quote k).append (Flips.keySep spaced)).append
      (Flips.dumps spaced v)).append (Flips.itemSep spaced)).append
      (Flips.dumpsFields spaced (kv :: kvs))
termination_by sizeOf kvs
end

/-! ## Cuts -/

theorem dumps_obj_eq (spaced : Bool) (kvs : List (Str × Json F)) :
    dumps spaced (.obj kvs) = .scalar '{' :: (dumpsFields spaced kvs ++ [.scalar '}']) := by
  rw [dumps]

/-- The state of the reader at a cut of a written object. -/
theorem run_cut (spaced : Bool) (kvs : List (Str × Json F)) (h : (Json.obj kvs).Wf)
    {s t : Str} (hcut : dumps spaced (.obj kvs) = s ++ t) (hs : s ≠ []) :
    ∃ r : Reader F, run ⟨.value, []⟩ s = some r ∧ Alive r ∧
      (run r t).bind Reader.result = some (.obj kvs) := by
  have hall := loads_dumps spaced (.obj kvs) h
  rw [loads, hcut, run_append] at hall
  cases hr : run (F := F) ⟨.value, []⟩ s with
  | none => rw [hr] at hall; cases hall
  | some r =>
    refine ⟨r, rfl, ?_, by rw [hr] at hall; exact hall⟩
    cases s with
    | nil => exact absurd rfl hs
    | cons p s =>
      rw [dumps_obj_eq] at hcut
      simp only [List.cons_append, List.cons.injEq] at hcut
      obtain ⟨rfl, -⟩ := hcut
      have hopen : step (F := F) ⟨.value, []⟩ (.scalar '{') =
          some ⟨.firstKey, [.obj [] []]⟩ := by simp [step, stepOut, startValue, isWs]
      rw [run_cons_some hopen] at hr
      exact (alive_of_open (by simp) (by simp [LitOk])).run hr

/-- **Torn.**  No proper prefix of a written object is JSON. -/
theorem loads_torn (spaced : Bool) (kvs : List (Str × Json F)) (h : (Json.obj kvs).Wf)
    {s t : Str} (hcut : dumps spaced (.obj kvs) = s ++ t) (ht : t ≠ []) :
    loads (F := F) s = none := by
  by_cases hs : s = []
  · subst hs; rfl
  obtain ⟨r, hrun, halive, hrest⟩ := run_cut spaced kvs h hcut hs
  rw [loads, hrun, Option.bind_some]
  obtain ⟨u, rfl⟩ : ∃ u, t = u ++ [.scalar '}'] := by
    rw [dumps_obj_eq, ← List.cons_append] at hcut
    obtain ⟨u, x, rfl⟩ := (List.eq_nil_or_concat t).resolve_left ht
    rw [List.concat_eq_append, ← List.append_assoc] at hcut
    obtain ⟨-, hx⟩ := List.append_inj' hcut rfl
    obtain rfl : CodePoint.scalar '}' = x := by simpa using hx
    exact ⟨u, List.concat_eq_append⟩
  obtain ⟨mode, S⟩ := r
  cases S with
  | cons o S => cases mode <;> rfl
  | nil =>
    rcases halive.open_or_done with hS | ⟨v, hv⟩
    · exact absurd rfl hS
    · simp only at hv
      subst hv
      rw [run_done_bracket] at hrest
      cases hrest

/-- **Glued.**  A written object or a nonempty part of one, followed by a
written object, is not JSON. -/
theorem loads_glued (spaced : Bool) (kvs : List (Str × Json F)) (h : (Json.obj kvs).Wf)
    {s t : Str} (hcut : dumps spaced (.obj kvs) = s ++ t) (hs : s ≠ [])
    (kvs' : List (Str × Json F)) (h' : (Json.obj kvs').Wf) :
    loads (F := F) (s ++ dumps spaced (.obj kvs')) = none := by
  obtain ⟨⟨mode, S⟩, hrun, halive, -⟩ := run_cut spaced kvs h hcut hs
  rw [loads, run_append_some hrun]
  -- a reader that takes no bracket here
  have hdead : step (F := F) ⟨mode, S⟩ (.scalar '{') = none →
      (run ⟨mode, S⟩ (dumps spaced (.obj kvs'))).bind Reader.result = none := by
    intro hstep
    rw [dumps_obj_eq, run_cons_none hstep]
    rfl
  have hclose : ∀ (v : Json F), closeValue v '{' S = none := by
    intro v
    cases S with
    | nil => rfl
    | cons o S => cases o <;> simp [closeValue]
  -- a reader that reads the second object as a value of the first
  have hinside : mode = .value → S ≠ [] →
      (run ⟨mode, S⟩ (dumps spaced (.obj kvs'))).bind Reader.result = none := by
    rintro rfl hS
    obtain ⟨m, hm, -⟩ := run_dumps spaced (.obj kvs') h' S
    rw [hm, Option.bind_some]
    cases S with
    | nil => exact absurd rfl hS
    | cons o S => cases m <;> rfl
  have hS : (∀ v, mode ≠ .after v) → S ≠ [] := by
    intro hne
    rcases halive.open_or_done with hS | ⟨v, hv⟩
    · exact hS
    · exact absurd hv (hne v)
  cases mode with
  | value => exact hinside rfl (hS (by simp))
  | firstItem =>
    obtain ⟨m, hm, -⟩ := run_dumps spaced (.obj kvs') h' S
    rw [dumps_obj_eq, run_firstItem (by decide) (by decide), ← dumps_obj_eq, hm,
      Option.bind_some]
    cases S with
    | nil => exact absurd rfl (hS (by simp))
    | cons o S => cases m <;> rfl
  | str isKey acc hi =>
    cases hr : run (F := F) ⟨.str isKey acc hi, S⟩ (dumps spaced (.obj kvs')) with
    | none => rfl
    | some r =>
      obtain ⟨isKey', acc', hi', hmode⟩ :=
        Flips.dumps spaced (.obj kvs') _ r ⟨_, _, _, rfl⟩ hr
      obtain ⟨mode, S'⟩ := r
      simp only at hmode
      subst hmode
      rfl
  | after v => exact hdead (by simp [step, stepOut, isWs, hclose])
  | num st tok =>
    apply hdead
    have hbad : numStep st '{' = .bad := by cases st <;> decide
    cases hset : settle (F := F) st tok <;> simp [step, stepOut, hbad, hset, isWs, hclose]
  | lit rest v =>
    apply hdead
    have halpha := halive.lit _ _ rfl
    cases rest with
    | nil => rfl
    | cons d rest =>
      have hd : '{' ≠ d := by
        rintro rfl
        exact absurd (halpha _ (List.mem_cons_self ..)) (by decide)
      cases rest <;> simp [step, stepOut, hd]
  | key | firstKey | colon => exact hdead (by simp [step, stepOut, isWs])
  | esc isKey acc hi => exact hdead (by simp [step, escape?])
  | hex isKey acc hi n v => exact hdead (by simp [step, hexDigit?])

end PyJson
