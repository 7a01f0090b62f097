import Mathlib.Data.List.Sort
import Mathlib.Tactic

/-!
# Python text

A Python `str` is a sequence of code points.  `json.loads` can put a lone
surrogate into one (the escape `\ud800` alone), and such a string has no UTF-8
encoding; every other string has.  This module has the strings, their
encoding, the order `sorted` puts them in, decimal numerals and the handful of
`str` methods a text protocol needs.

Proved here: `encode?_isSome_iff` (a string encodes exactly when it is clean)
and the closure of clean strings under the operations below.
-/

namespace Py

/-- A code point: a Unicode scalar value, or the surrogate `U+D800 + n`. -/
inductive CodePoint
  | scalar (c : Char)
  | surrogate (n : Fin 2048)
  deriving DecidableEq, Repr

/-- A Python `str`. -/
abbrev Str := List CodePoint

instance : LawfulBEq Str := List.instLawfulBEq

def CodePoint.val : CodePoint → Nat
  | .scalar c => c.toNat
  | .surrogate n => 0xD800 + n.val

/-- The string of a list of characters, which has no surrogate. -/
def ofChars (cs : List Char) : Str := cs.map .scalar

/-- A literal. -/
def str (s : String) : Str := ofChars s.toList

/-! ## Encoding -/

def CodePoint.isScalar : CodePoint → Bool
  | .scalar _ => true
  | .surrogate _ => false

/-- No lone surrogate in the string. -/
def Clean (s : Str) : Prop := ∀ p ∈ s, p.isScalar = true

instance (s : Str) : Decidable (Clean s) := inferInstanceAs (Decidable (∀ p ∈ s, _))

/-- The characters of a string without surrogates. -/
def chars? : Str → Option (List Char)
  | [] => some []
  | .scalar c :: s => (chars? s).map (c :: ·)
  | .surrogate _ :: _ => none

/-- `s.encode("utf-8")`; `none` is the `UnicodeEncodeError`. -/
def encode? (s : Str) : Option ByteArray :=
  (chars? s).map fun cs => (String.ofList cs).toByteArray

/-- `len(s.encode("utf-8"))` where it is defined. -/
def byteLen (s : Str) : Nat :=
  (s.map fun p => match p with | .scalar c => c.utf8Size | .surrogate _ => 3).sum

@[simp] theorem clean_nil : Clean [] := by simp [Clean]

@[simp] theorem clean_cons (p : CodePoint) (s : Str) :
    Clean (p :: s) ↔ p.isScalar = true ∧ Clean s := by simp [Clean]

@[simp] theorem clean_append (s t : Str) : Clean (s ++ t) ↔ Clean s ∧ Clean t := by
  simp only [Clean, List.mem_append]
  constructor
  · intro h
    exact ⟨fun p hp => h p (Or.inl hp), fun p hp => h p (Or.inr hp)⟩
  · rintro ⟨hs, ht⟩ p (hp | hp)
    · exact hs p hp
    · exact ht p hp

@[simp] theorem clean_ofChars (cs : List Char) : Clean (ofChars cs) := by
  intro p hp
  obtain ⟨c, _, rfl⟩ := List.mem_map.mp hp
  rfl

@[simp] theorem clean_str (s : String) : Clean (str s) := clean_ofChars _

/-- What a computation finds of every character. -/
theorem forall_of_all {P : Char → Prop} [DecidablePred P] {cs : List Char}
    (h : cs.all (fun c => P c) = true) : ∀ c ∈ cs, P c :=
  fun c hc => of_decide_eq_true (List.all_eq_true.mp h c hc)

theorem Clean.of_mem_subset {s t : Str} (h : Clean t) (hst : ∀ p ∈ s, p ∈ t) : Clean s :=
  fun p hp => h p (hst p hp)

@[simp] theorem chars?_ofChars (cs : List Char) : chars? (ofChars cs) = some cs := by
  induction cs with
  | nil => rfl
  | cons c cs ih =>
    simp only [ofChars] at ih
    simp [ofChars, chars?, ih]

theorem chars?_eq_some_iff (s : Str) (cs : List Char) : chars? s = some cs ↔ s = ofChars cs := by
  constructor
  · induction s generalizing cs with
    | nil => intro h; simp [chars?] at h; subst h; rfl
    | cons p s ih =>
      intro h
      cases p with
      | surrogate n => simp [chars?] at h
      | scalar c =>
        simp only [chars?, Option.map_eq_some_iff] at h
        obtain ⟨ds, hds, rfl⟩ := h
        rw [ih ds hds]
        rfl
  · rintro rfl
    exact chars?_ofChars cs

theorem clean_iff_ofChars (s : Str) : Clean s ↔ ∃ cs, s = ofChars cs := by
  constructor
  · intro h
    induction s with
    | nil => exact ⟨[], rfl⟩
    | cons p s ih =>
      rw [clean_cons] at h
      obtain ⟨cs, rfl⟩ := ih h.2
      cases p with
      | scalar c => exact ⟨c :: cs, rfl⟩
      | surrogate n => simp [CodePoint.isScalar] at h
  · rintro ⟨cs, rfl⟩
    exact clean_ofChars cs

/-- A string encodes exactly when it has no lone surrogate. -/
theorem encode?_isSome_iff (s : Str) : (encode? s).isSome ↔ Clean s := by
  rw [clean_iff_ofChars, encode?, Option.isSome_map, Option.isSome_iff_exists]
  simp only [chars?_eq_some_iff]

/-! ## Order and numerals -/

/-- `s <= t` on strings: lexicographic in the code points. -/
def strLe : Str → Str → Bool
  | [], _ => true
  | _ :: _, [] => false
  | a :: s, b :: t => a.val < b.val || (a.val == b.val && strLe s t)

/-- `sorted(xs)` on strings. -/
def sortedStrs (xs : List Str) : List Str := xs.insertionSort fun a b => strLe a b = true

theorem mem_sortedStrs (xs : List Str) (s : Str) : s ∈ sortedStrs xs ↔ s ∈ xs :=
  List.mem_insertionSort _

/-- `str(n)` of a natural number. -/
def natStr (n : Nat) : Str := ofChars (Nat.toDigits 10 n)

/-- `str(z)` of an integer. -/
def intStr : Int → Str
  | .ofNat n => natStr n
  | .negSucc n => .scalar '-' :: natStr (n + 1)

theorem natStr_inj {m n : Nat} (h : natStr m = natStr n) : m = n := by
  have hdigits : Nat.toDigits 10 m = Nat.toDigits 10 n :=
    List.map_injective_iff.mpr (fun _ _ hc => by cases hc; rfl) h
  rw [← Nat.ofDigitChars_toDigits (b := 10) (n := m) (by omega) (by omega), hdigits,
    Nat.ofDigitChars_toDigits (by omega) (by omega)]

theorem digit_of_mem_natStr {n : Nat} {p : CodePoint} (h : p ∈ natStr n) :
    ∃ c : Char, p = .scalar c ∧ c.isDigit = true := by
  obtain ⟨c, hc, rfl⟩ := List.mem_map.mp h
  exact ⟨c, rfl, Nat.isDigit_of_mem_toDigits (by omega) (by omega) hc⟩

theorem length_natStr_le_iff {n k : Nat} (hk : 0 < k) : (natStr n).length ≤ k ↔ n < 10 ^ k := by
  rw [natStr, ofChars, List.length_map]
  exact Nat.length_toDigits_le_iff (by omega) hk

@[simp] theorem clean_natStr (n : Nat) : Clean (natStr n) := clean_ofChars _

@[simp] theorem clean_intStr (z : Int) : Clean (intStr z) := by
  cases z with
  | ofNat n => exact clean_natStr n
  | negSucc n => simp [intStr, CodePoint.isScalar]

/-! ## Methods of `str` -/

/-- `sep.join(xs)` -/
def join (sep : Str) : List Str → Str
  | [] => []
  | [s] => s
  | s :: t :: xs => s ++ sep ++ join sep (t :: xs)

theorem clean_join {sep : Str} (hsep : Clean sep) {xs : List Str} (h : ∀ s ∈ xs, Clean s) :
    Clean (join sep xs) := by
  induction xs with
  | nil => simp [join]
  | cons s xs ih =>
    have hs := h s (List.mem_cons_self ..)
    have hxs := ih fun t ht => h t (List.mem_cons_of_mem _ ht)
    cases xs with
    | nil => exact hs
    | cons t xs => simp only [join, clean_append]; exact ⟨⟨hs, hsep⟩, hxs⟩

/-- `c.isspace()`: what `split()` and `strip()` treat as white space. -/
def isSpace (p : CodePoint) : Bool :=
  let v := p.val
  (9 ≤ v && v ≤ 13) || (0x1c ≤ v && v ≤ 0x20) || v == 0x85 || v == 0xa0 || v == 0x1680 ||
    (0x2000 ≤ v && v ≤ 0x200a) || v == 0x2028 || v == 0x2029 || v == 0x202f || v == 0x205f ||
    v == 0x3000

/-- `s.strip() == ""` -/
def isBlank (s : Str) : Bool := s.all isSpace

/-- The words of `s.split()`, with the word being read. -/
def splitGo : Str → Str → List Str
  | w, [] => if w.isEmpty then [] else [w]
  | w, p :: s =>
    if isSpace p then (if w.isEmpty then splitGo [] s else w :: splitGo [] s)
    else splitGo (w ++ [p]) s

/-- `s.split()` -/
def split (s : Str) : List Str := splitGo [] s

/-- One character of `repr(s)`, inside quotes of kind `q`.  What is not
printable is escaped, a surrogate always. -/
def reprChar (isPrintable : Char → Bool) (q : Char) : CodePoint → Str
  | .surrogate n => str "\\u" ++ ofChars (Nat.toDigits 16 (0xD800 + n.val))
  | .scalar c =>
    if c = q || c = '\\' then ofChars ['\\', c]
    else if c = '\n' then str "\\n"
    else if c = '\r' then str "\\r"
    else if c = '\t' then str "\\t"
    else if isPrintable c then [.scalar c]
    else
      let v := c.toNat
      let hex := Nat.toDigits 16 v
      if v < 0x100 then str "\\x" ++ ofChars (List.replicate (2 - hex.length) '0' ++ hex)
      else if v < 0x10000 then str "\\u" ++ ofChars (List.replicate (4 - hex.length) '0' ++ hex)
      else str "\\U" ++ ofChars (List.replicate (8 - hex.length) '0' ++ hex)

/-- `repr(s)`, given which characters the Unicode database calls printable. -/
def reprStr (isPrintable : Char → Bool) (s : Str) : Str :=
  let q := if s.contains (.scalar '\'') && !s.contains (.scalar '"') then '"' else '\''
  [.scalar q] ++ s.flatMap (reprChar isPrintable q) ++ [.scalar q]

theorem clean_reprChar (isPrintable : Char → Bool) (q : Char) (p : CodePoint) :
    Clean (reprChar isPrintable q p) := by
  cases p with
  | surrogate n => simp [reprChar]
  | scalar c =>
    simp only [reprChar]
    split_ifs <;> simp [CodePoint.isScalar]

/-- `repr` never yields a lone surrogate. -/
@[simp] theorem clean_reprStr (isPrintable : Char → Bool) (s : Str) :
    Clean (reprStr isPrintable s) := by
  simp only [reprStr, clean_append, clean_cons, CodePoint.isScalar, clean_nil, and_true, true_and]
  intro p hp
  obtain ⟨x, _, hx⟩ := List.mem_flatMap.mp hp
  exact clean_reprChar _ _ x p hx

end Py
