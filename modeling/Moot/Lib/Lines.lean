import Moot.Lib.JsonCut

/-!
# Strings written one a line

`str.splitlines` ends a line at more characters than a line feed.  A written JSON
string holds no control character, so of these it can only hold a next line
(U+0085), a line separator (U+2028) and a paragraph separator (U+2029).

Proved here: `strings_line`, a string without them is read back from its line;
`strings_broken`, with one of them nothing is read back.
-/

namespace Py

/-- `str.splitlines` ends a line here. -/
def isLineEnd (p : CodePoint) : Bool :=
  [10, 11, 12, 13, 28, 29, 30, 0x85, 0x2028, 0x2029].contains p.val

/-- The loop of `splitlines`, in the middle of a line; `cr` says that the character before was a
`CR`. -/
def splitlinesFrom : Bool → Str → Str → List Str
  | _, line, [] => if line.isEmpty then [] else [line]
  | cr, line, p :: s =>
    if cr && p = .scalar '\n' then splitlinesFrom false line s
    else if isLineEnd p then line :: splitlinesFrom (p = .scalar '\r') [] s
    else splitlinesFrom false (line ++ [p]) s

/-- `s.splitlines()` -/
def splitlines (s : Str) : List Str := splitlinesFrom false [] s

/-- None of the line ends that are no control characters is in the string. -/
def Unbroken (s : Str) : Prop := ∀ p ∈ s, p.val < 0x20 ∨ isLineEnd p = false

instance (s : Str) : Decidable (Unbroken s) := inferInstanceAs (Decidable (∀ p ∈ s, _))

theorem unbroken_iff (s : Str) :
    Unbroken s ↔ ∀ p ∈ s, p.val ≠ 0x85 ∧ p.val ≠ 0x2028 ∧ p.val ≠ 0x2029 := by
  unfold Unbroken
  refine forall₂_congr fun p _ => ?_
  simp only [isLineEnd, List.contains_eq_mem, List.mem_cons, List.not_mem_nil, or_false,
    decide_eq_false_iff_not]
  omega

theorem splitlinesFrom_append {s : Str} (hs : ∀ p ∈ s, isLineEnd p = false) (line t : Str) :
    splitlinesFrom false line (s ++ t) = splitlinesFrom false (line ++ s) t := by
  induction s generalizing line with
  | nil => rw [List.nil_append, List.append_nil]
  | cons p s ih =>
    have hp := hs p (List.mem_cons_self ..)
    rw [List.cons_append, splitlinesFrom, hp, Bool.false_and, if_neg Bool.false_ne_true,
      if_neg Bool.false_ne_true, ih fun q hq => hs q (List.mem_cons_of_mem _ hq)]
    simp

theorem splitlinesFrom_end {p : CodePoint} (hp : isLineEnd p = true) (hcr : p ≠ .scalar '\r')
    (line t : Str) : splitlinesFrom false line (p :: t) = line :: splitlines t := by
  rw [splitlinesFrom, Bool.false_and, if_neg Bool.false_ne_true, if_pos hp, splitlines,
    decide_eq_false hcr]

theorem splitlinesFrom_newline (line t : Str) :
    splitlinesFrom false line (str "\n" ++ t) = line :: splitlines t :=
  splitlinesFrom_end rfl (by decide) line t

/-- The lines of a text are pieces of it without line ends. -/
theorem mem_splitlinesFrom {cr : Bool} {line s l : Str} (hl : l ∈ splitlinesFrom cr line s)
    (hline : ∀ p ∈ line, isLineEnd p = false) :
    ∀ p ∈ l, (p ∈ line ∨ p ∈ s) ∧ isLineEnd p = false := by
  induction s generalizing cr line with
  | nil =>
    rw [splitlinesFrom] at hl
    split at hl
    · cases hl
    · rw [List.mem_singleton.mp hl]
      exact fun p hp => ⟨Or.inl hp, hline p hp⟩
  | cons q s ih =>
    rw [splitlinesFrom] at hl
    split at hl
    · intro p hp
      obtain ⟨hmem, hend⟩ := ih hl hline p hp
      exact ⟨hmem.imp_right (List.mem_cons_of_mem q), hend⟩
    · split at hl
      · rcases List.mem_cons.mp hl with rfl | hl
        · exact fun p hp => ⟨Or.inl hp, hline p hp⟩
        · intro p hp
          obtain ⟨hmem, hend⟩ := ih hl (by simp) p hp
          exact ⟨Or.inr (List.mem_cons_of_mem q (hmem.resolve_left List.not_mem_nil)), hend⟩
      · next hq =>
        rw [Bool.not_eq_true] at hq
        intro p hp
        obtain ⟨hmem, hend⟩ := ih hl (by simpa [or_imp, forall_and, hq] using hline) p hp
        refine ⟨?_, hend⟩
        rw [List.mem_append, List.mem_singleton, or_assoc] at hmem
        rw [List.mem_cons]
        exact hmem

theorem mem_splitlines {s l : Str} (hl : l ∈ splitlines s) :
    ∀ p ∈ l, p ∈ s ∧ isLineEnd p = false := by
  intro p hp
  obtain ⟨hmem, hend⟩ := mem_splitlinesFrom hl (by simp) p hp
  exact ⟨hmem.resolve_left List.not_mem_nil, hend⟩

/-- Lines that are written with a newline each are read as they are. -/
theorem splitlines_flatMap {ls : List Str} (hls : ∀ l ∈ ls, ∀ p ∈ l, isLineEnd p = false) (t : Str) :
    splitlines (ls.flatMap (· ++ str "\n") ++ t) = ls ++ splitlines t := by
  induction ls with
  | nil => rfl
  | cons l ls ih =>
    rw [List.flatMap_cons, List.append_assoc, List.append_assoc, splitlines,
      splitlinesFrom_append (hls l (List.mem_cons_self ..)), splitlinesFrom_newline,
      ih fun m hm => hls m (List.mem_cons_of_mem _ hm)]
    rfl

theorem join_newline {ls : List Str} (hls : ls ≠ []) :
    join (str "\n") ls ++ str "\n" = ls.flatMap (· ++ str "\n") := by
  induction ls with
  | nil => exact absurd rfl hls
  | cons l ls ih =>
    cases ls with
    | nil => simp [join]
    | cons m ls =>
      rw [List.flatMap_cons, ← ih (by simp), join]
      simp

end Py

namespace PyJson
open Py

variable {F : Type} [PyFloat F]

variable (F) in
/-- The string that a line holds, if it is one. -/
def stringOf (line : Str) : Option Str :=
  match loads (F := F) line with
  | some (.str s) => some s
  | _ => none

variable (F) in
/-- The strings that the lines of a text hold. -/
def strings (text : Str) : List Str := (splitlines text).filterMap (stringOf F)

/-- A string, written on a line. -/
def lineOf (s : Str) : Str := dumps true (.str s : Json F) ++ str "\n"

/-! ## Unbroken strings -/

theorem isLineEnd_plain {c : Char} (hc : Plain c) : isLineEnd (.scalar c) = false := by
  obtain ⟨hlow, hhigh⟩ := hc
  have hval : (CodePoint.scalar c).val = c.toNat := rfl
  simp only [isLineEnd, hval, List.contains_eq_mem, List.mem_cons, List.not_mem_nil, or_false,
    decide_eq_false_iff_not]
  omega

theorem quote_unbroken {s : Str} (hs : Unbroken s) : ∀ q ∈ quote s, isLineEnd q = false :=
  (forall_quote (Q := fun q => isLineEnd q = false) (fun _ => isLineEnd_plain) s).mpr hs

theorem stringOf_quote (s : Str) : stringOf F (quote s) = some s := by
  have hload : loads (F := F) (quote s) = some (.str s) := loads_dumps true (.str s) trivial
  rw [stringOf, hload]

theorem splitlines_line {s : Str} (hs : Unbroken s) (t : Str) :
    splitlines (lineOf (F := F) s ++ t) = quote s :: splitlines t := by
  show splitlinesFrom false [] (quote s ++ str "\n" ++ t) = _
  rw [List.append_assoc, splitlinesFrom_append (quote_unbroken hs), splitlinesFrom_newline]
  rfl

/-- **An unbroken string is read back.** -/
theorem strings_line {s : Str} (hs : Unbroken s) (t : Str) :
    strings F (lineOf (F := F) s ++ t) = s :: strings F t := by
  rw [strings, splitlines_line hs, List.filterMap_cons, stringOf_quote, strings]

/-! ## Broken strings -/

/-- No string has been read as a value. -/
def NoString (m : Mode F) : Prop := (∀ s, m ≠ .after (.str s)) ∧ ∀ rest s, m ≠ .lit rest (.str s)

theorem settle_not_string {s : NumState} {tok : List Char} {v : Json F} (h : settle s tok = some v)
    (t : Str) : v ≠ .str t := by
  unfold settle at h
  split at h
  · cases h
    simp
  · split at h
    · cases h
      simp
    · cases h

omit [PyFloat F] in
theorem noString_closeValue {v : Json F} {c : Char} {S : List (Open F)} {r : Reader F}
    (h : closeValue v c S = some r) : NoString r.mode := by
  cases S with
  | nil => cases h
  | cons o S =>
    cases o <;>
    · simp only [closeValue] at h
      split_ifs at h <;> cases h <;> simp [NoString]

theorem noString_startValue {c : Char} {S : List (Open F)} {r : Reader F}
    (h : startValue c S = some r) : NoString r.mode := by
  unfold startValue at h
  split_ifs at h <;> cases h <;> simp [NoString]

theorem noString_stepOut {m : Mode F} {S : List (Open F)} (hm : NoString m) {c : Char}
    {r : Reader F} (h : stepOut m S c = some r) : NoString r.mode := by
  cases m with
  | after v =>
    simp only [stepOut] at h
    split_ifs at h
    · cases h
      exact hm
    · exact noString_closeValue h
  | value =>
    simp only [stepOut] at h
    split_ifs at h
    · cases h
      exact hm
    · exact noString_startValue h
  | firstItem =>
    simp only [stepOut] at h
    split_ifs at h
    · cases h
      exact hm
    · cases h
      simp [NoString]
    · exact noString_startValue h
  | firstKey | key | colon =>
    simp only [stepOut] at h
    split_ifs at h <;> cases h <;> simp [NoString]
  | num s tok =>
    simp only [stepOut] at h
    split_ifs at h
    · cases h
      simp [NoString]
    · split at h
      · next hv =>
        cases h
        simpa [NoString] using settle_not_string hv
      · cases h
    · split at h
      · exact noString_closeValue h
      · cases h
    · cases h
      simp [NoString]
  | lit rest v =>
    have hv : ∀ t, v ≠ .str t := by
      rintro t rfl
      exact hm.2 rest t rfl
    cases rest with
    | nil => cases h
    | cons d rest =>
      cases rest with
      | nil =>
        simp only [stepOut] at h
        split_ifs at h
        cases h
        simpa [NoString] using hv
      | cons e rest =>
        simp only [stepOut] at h
        split_ifs at h
        cases h
        exact ⟨by simp, fun rest' t heq => hv t (by cases heq; rfl)⟩
  | str | esc | hex => cases h

/-- Outside strings, a character that opens none is read without reading a string. -/
theorem noString_step {r r' : Reader F} (hr : Outside r) (hm : NoString r.mode) {p : CodePoint}
    (h : step r p = some r') : NoString r'.mode := by
  obtain ⟨mode, S⟩ := r
  cases p with
  | surrogate n =>
    cases mode with
    | str isKey acc hi => exact absurd rfl (hr.str isKey acc hi)
    | esc isKey acc hi => exact absurd rfl (hr.esc isKey acc hi)
    | hex isKey acc hi n v => exact absurd rfl (hr.hex isKey acc hi n v)
    | _ => cases h
  | scalar c =>
    cases mode with
    | str isKey acc hi => exact absurd rfl (hr.str isKey acc hi)
    | esc isKey acc hi => exact absurd rfl (hr.esc isKey acc hi)
    | hex isKey acc hi n v => exact absurd rfl (hr.hex isKey acc hi n v)
    | _ => exact noString_stepOut hm h

/-- A line on which no string has been begun: the inside of a string, read from its middle on. -/
def Unopened (line : Str) : Prop :=
  ∀ r : Reader F, run ⟨.value, []⟩ line = some r → Outside r ∧ NoString r.mode

theorem unopened_nil : Unopened (F := F) [] := by
  intro r hr
  cases hr
  exact ⟨by constructor <;> simp [LitOk], by simp [NoString]⟩

theorem Unopened.escChar {line : Str} (hl : Unopened (F := F) line) (p : CodePoint) :
    Unopened (F := F) (line ++ escChar p) := by
  intro r' hr'
  rw [run_append] at hr'
  cases hr : run (F := F) ⟨.value, []⟩ line with
  | none =>
    rw [hr] at hr'
    cases hr'
  | some r =>
    obtain ⟨hout, hno⟩ := hl r hr
    rw [hr, Option.bind_some] at hr'
    rcases escChar_cases p with ⟨hself, hquote⟩ | ⟨t, hesc⟩
    · rw [hself] at hr'
      cases hs : step r p with
      | none =>
        rw [run_cons_none hs] at hr'
        cases hr'
      | some q =>
        rw [run_cons_some hs] at hr'
        cases hr'
        rcases hout.step hs with ⟨heq, -⟩ | ⟨-, -, hq⟩
        · exact absurd heq hquote
        · exact ⟨hq, noString_step hout hno hs⟩
    · -- a backslash outside strings is an error
      rw [hesc] at hr'
      cases hs : step r (.scalar '\\') with
      | none =>
        rw [run_cons_none hs] at hr'
        cases hr'
      | some q =>
        rcases hout.step hs with ⟨heq, -⟩ | ⟨-, hne, -⟩
        · exact absurd heq (by decide)
        · exact absurd rfl hne

/-- Such a line holds no string. -/
theorem Unopened.stringOf {line : Str} (hl : Unopened (F := F) line) : stringOf F line = none := by
  unfold PyJson.stringOf
  split
  · next s hs =>
    unfold loads at hs
    obtain ⟨⟨mode, S⟩, hr, hresult⟩ := Option.bind_eq_some_iff.mp hs
    obtain ⟨-, hno⟩ := hl _ hr
    unfold Reader.result at hresult
    split at hresult
    · next hmode _ =>
      rw [Option.some.injEq] at hresult
      exact absurd (hmode.trans (by rw [hresult])) (hno.1 s)
    · exact absurd rfl (settle_not_string hresult s)
    · cases hresult
  · rfl

/-- Nor does it with the closing quote. -/
theorem Unopened.stringOf_quote {line : Str} (hl : Unopened (F := F) line) :
    PyJson.stringOf F (line ++ [.scalar '"']) = none := by
  unfold PyJson.stringOf
  split
  · next s hs =>
    unfold loads at hs
    obtain ⟨q, hq, hresult⟩ := Option.bind_eq_some_iff.mp hs
    rw [run_append] at hq
    obtain ⟨r, hr, hq⟩ := Option.bind_eq_some_iff.mp hq
    obtain ⟨hout, -⟩ := hl r hr
    obtain ⟨isKey, acc, hi, hmode⟩ := hout.run_quoteTail [] hq
    rw [Reader.result, hmode] at hresult
    cases hresult
  · rfl

/-- A line in the middle of a string holds no string. -/
theorem stringOf_open {line acc : Str} (hl : run (F := F) ⟨.value, []⟩ line = some ⟨.str false acc none, []⟩) :
    stringOf F line = none := by
  have hload : loads (F := F) line = none := by
    rw [loads, hl]
    rfl
  rw [stringOf, hload]

/-- One character of a string in quotes either ends the line or is added to it. -/
theorem splitlinesFrom_escChar (p : CodePoint) (line t : Str) :
    splitlinesFrom false line (escChar p ++ t) =
      if p.val < 0x20 ∨ isLineEnd p = false then splitlinesFrom false (line ++ escChar p) t
      else line :: splitlines t := by
  split
  · next hp =>
    exact splitlinesFrom_append
      ((forall_escChar (Q := fun q => isLineEnd q = false) (fun _ => isLineEnd_plain) p).mpr hp) line t
  · next hp =>
    rw [not_or, Bool.not_eq_false] at hp
    have hself : escChar p = [p] := by
      apply escChar_self hp.1
      · rintro rfl
        exact absurd hp.2 (by decide)
      · rintro rfl
        exact absurd hp.2 (by decide)
    rw [hself, List.singleton_append, splitlinesFrom_end hp.2]
    rintro rfl
    exact absurd hp.1 (by decide)

/-- Behind a line end nothing is read back. -/
theorem strings_unopened {line : Str} (hl : Unopened (F := F) line) (s t : Str) :
    (splitlinesFrom false line (s.flatMap escChar ++ (.scalar '"' :: (str "\n" ++ t)))).filterMap
      (stringOf F) = strings F t := by
  induction s generalizing line with
  | nil =>
    rw [List.flatMap_nil, List.nil_append, splitlinesFrom, Bool.false_and,
      if_neg Bool.false_ne_true, if_neg (by decide), splitlinesFrom_newline, List.filterMap_cons,
      hl.stringOf_quote, strings]
  | cons p s ih =>
    rw [List.flatMap_cons, List.append_assoc, splitlinesFrom_escChar]
    split
    · exact ih (hl.escChar p)
    · rw [List.filterMap_cons, hl.stringOf]
      exact ih unopened_nil

/-- Before the first line end the string is not closed. -/
theorem strings_open {s : Str} (hs : ¬Unbroken s) (t : Str) {line acc : Str}
    (hl : run (F := F) ⟨.value, []⟩ line = some ⟨.str false acc none, []⟩) :
    (splitlinesFrom false line (s.flatMap escChar ++ (.scalar '"' :: (str "\n" ++ t)))).filterMap
      (stringOf F) = strings F t := by
  induction s generalizing line acc with
  | nil => exact absurd (fun p hp => nomatch hp) hs
  | cons p s ih =>
    rw [List.flatMap_cons, List.append_assoc, splitlinesFrom_escChar]
    split
    · next hp =>
      refine ih (fun hrest => hs ?_) ((run_append_some hl _).trans (run_escChar false acc [] p))
      exact List.forall_mem_cons.mpr ⟨hp, hrest⟩
    · rw [List.filterMap_cons, stringOf_open hl]
      exact strings_unopened unopened_nil s t

/-- **A broken string is not read back**, and nothing else is in its place. -/
theorem strings_broken {s : Str} (hs : ¬Unbroken s) (t : Str) :
    strings F (lineOf (F := F) s ++ t) = strings F t := by
  have htext : lineOf (F := F) s ++ t =
      .scalar '"' :: (s.flatMap escChar ++ (.scalar '"' :: (str "\n" ++ t))) := by
    show quote s ++ str "\n" ++ t = _
    rw [quote]
    simp
  have hopen : run (F := F) ⟨.value, []⟩ [.scalar '"'] = some ⟨.str false [] none, []⟩ := rfl
  rw [htext, strings, splitlines, splitlinesFrom, Bool.false_and, if_neg Bool.false_ne_true,
    if_neg (by decide)]
  exact strings_open hs t hopen

end PyJson
