import Moot.Lib.JsonText

/-!
# JavaScript values

What `JSON.parse` makes of a JSON text, and what `String` and `Object.entries` make
of that.  A JavaScript string without lone surrogates is taken as its code points.
The number type is a parameter: an `Engine` says how it holds integers and Python's
floats and how it writes them.

Proved here: `parse_eq`, parsing what was written gives the image of the value;
`prop_ofJson`, a field of an image is the image of the field; and `string_int`,
`string_fraction`, `string_whole`, when `String` writes what Python's `repr` writes.
-/

namespace Js
open Py PyJson

inductive Value (N : Type)
  | null
  | bool (b : Bool)
  | num (x : N)
  | str (s : Str)
  | arr (xs : List (Value N))
  | obj (kvs : List (Str × Value N))

/-- How a JavaScript engine holds and writes numbers.  `value` is the number that a float is, unless
it is a NaN or an infinity.  Both languages write the shortest decimal that reads back; `repr` shows
a whole float as `10.0` or `1e+16` where `String` shows digits alone below `1e21`, and neither uses
an exponent for a fraction from `1e-4` on. -/
structure Engine (F N : Type) [PyFloat F] where
  ofInt : Int → N
  ofFloat : F → N
  text : N → List Char
  positive : N → Bool
  value : F → Option Rat
  text_ofInt : ∀ z : Int, z.natAbs < 2 ^ 53 → text (ofInt z) = intToken z
  positive_ofInt : ∀ z : Int, z.natAbs < 2 ^ 53 → positive (ofInt z) = decide (0 < z)
  repr_finite : ∀ x v, value x = some v → (numRun .start (PyFloat.repr x)).isFloat = true
  text_fraction : ∀ x v, value x = some v → v.den ≠ 1 → 1 / 10000 ≤ |v| →
    text (ofFloat x) = PyFloat.repr x
  text_whole : ∀ x v, value x = some v → v.den = 1 → |v| < 10 ^ 21 →
    ∀ c ∈ text (ofFloat x), c = '-' ∨ c.isDigit = true
  text_huge : ∀ x v, value x = some v → 10 ^ 21 ≤ |v| → text (ofFloat x) = PyFloat.repr x

/-! ## The numbers of a value -/

section
variable {F : Type} (p : Int → Bool) (q : F → Bool)

mutual
/-- Every integer of a value satisfies `p` and every float `q`. -/
def numbers : Json F → Bool
  | .int z => p z
  | .float x => q x
  | .arr xs => numbersItems xs
  | .obj kvs => numbersFields kvs
  | _ => true

def numbersItems : List (Json F) → Bool
  | [] => true
  | x :: xs => numbers x && numbersItems xs

def numbersFields : List (Str × Json F) → Bool
  | [] => true
  | (_, v) :: kvs => numbers v && numbersFields kvs
end

theorem numbersItems_eq_true (xs : List (Json F)) :
    numbersItems p q xs = true ↔ ∀ x ∈ xs, numbers p q x = true := by
  induction xs with
  | nil => simp [numbersItems]
  | cons x xs ih => simp [numbersItems, ih]

theorem numbersFields_eq_true (kvs : List (Str × Json F)) :
    numbersFields p q kvs = true ↔ ∀ kv ∈ kvs, numbers p q kv.2 = true := by
  induction kvs with
  | nil => simp [numbersFields]
  | cons kv kvs ih => simp [numbersFields, ih]

end

/-! ## `JSON.parse` -/

section
variable {F N : Type} [PyFloat F] (js : Engine F N)

/-- The integers of a value are below `2 ^ 53`. -/
def SmallInts (j : Json F) : Bool := numbers (fun z => z.natAbs < 2 ^ 53) (fun _ => true) j

/-- No float of a value is a NaN or an infinity. -/
def Finite (j : Json F) : Bool := numbers (fun _ => true) (fun x => (js.value x).isSome) j

mutual
/-- The JavaScript value of a JSON value. -/
def ofJson : Json F → Value N
  | .null => .null
  | .bool b => .bool b
  | .int z => .num (js.ofInt z)
  | .float x => .num (js.ofFloat x)
  | .str s => .str s
  | .arr xs => .arr (ofItems xs)
  | .obj kvs => .obj (ofFields kvs)

def ofItems : List (Json F) → List (Value N)
  | [] => []
  | x :: xs => ofJson x :: ofItems xs

def ofFields : List (Str × Json F) → List (Str × Value N)
  | [] => []
  | (k, v) :: kvs => (k, ofJson v) :: ofFields kvs
end

/-- `JSON.parse(s)`; `none` is the `SyntaxError`.  It reads what `json.loads` reads, less the three
constants that are no JSON. -/
def parse (s : Str) : Option (Value N) :=
  (loads s).bind fun j => if Finite js j then some (ofJson js j) else none

/-- `obj[key]`; `none` is `undefined`. -/
def prop (kvs : List (Str × Value N)) (key : String) : Option (Value N) := kvs.lookup (Py.str key)

/-- `obj[key] = v` -/
def setProp (k : Str) (v : Value N) : List (Str × Value N) → List (Str × Value N)
  | [] => [(k, v)]
  | (k', v') :: kvs => if k' = k then (k, v) :: kvs else (k', v') :: setProp k v kvs

theorem ofItems_eq (xs : List (Json F)) : ofItems js xs = xs.map (ofJson js) := by
  induction xs with
  | nil => rfl
  | cons x xs ih => rw [ofItems, ih, List.map_cons]

theorem ofFields_eq (kvs : List (Str × Json F)) :
    ofFields js kvs = kvs.map fun kv => (kv.1, ofJson js kv.2) := by
  induction kvs with
  | nil => rfl
  | cons kv kvs ih => rw [ofFields, ih, List.map_cons]

theorem prop_ofJson (kvs : List (Str × Json F)) (key : String) :
    prop (ofFields js kvs) key = (kvs.lookup (Py.str key)).map (ofJson js) := by
  unfold prop
  induction kvs with
  | nil => rfl
  | cons kv kvs ih =>
    obtain ⟨k, v⟩ := kv
    rw [ofFields, List.lookup_cons, List.lookup_cons]
    cases Py.str key == k with
    | true => rfl
    | false => exact ih

theorem setProp_ofJson (k : Str) (v : Json F) (kvs : List (Str × Json F)) :
    setProp k (ofJson js v) (ofFields js kvs) = ofFields js (setKey k v kvs) := by
  induction kvs with
  | nil => rfl
  | cons kv kvs ih =>
    obtain ⟨k', v'⟩ := kv
    rw [setKey, ofFields, setProp]
    split
    · rw [ofFields]
    · rw [ofFields, ih]

theorem parse_eq {s : Str} {j : Json F} (h : loads s = some j) (hfin : Finite js j = true) :
    parse js s = some (ofJson js j) := by
  rw [parse, h, Option.bind_some, if_pos hfin]

/-! ## `String` -/

mutual
/-- `String(value)` -/
def string : Value N → Str
  | .null => Py.str "null"
  | .bool true => Py.str "true"
  | .bool false => Py.str "false"
  | .num x => ofChars (js.text x)
  | .str s => s
  | .arr xs => stringItems xs
  | .obj _ => Py.str "[object Object]"

/-- `xs.join(",")`, which writes nothing for `null`. -/
def stringItems : List (Value N) → Str
  | [] => []
  | [x] => stringItem x
  | x :: y :: xs => stringItem x ++ Py.str "," ++ stringItems (y :: xs)

def stringItem : Value N → Str
  | .null => []
  | .bool true => Py.str "true"
  | .bool false => Py.str "false"
  | .num x => ofChars (js.text x)
  | .str s => s
  | .arr xs => stringItems xs
  | .obj _ => Py.str "[object Object]"
end

/-- `String(value)` of what may be `undefined`. -/
def stringOf : Option (Value N) → Str
  | none => Py.str "undefined"
  | some v => string js v

theorem string_int {z : Int} (h : z.natAbs < 2 ^ 53) : string js (ofJson js (.int z)) = intStr z := by
  rw [ofJson, string, js.text_ofInt z h, intStr_eq]

theorem string_fraction {x : F} {v : Rat} (h : js.value x = some v) (hsmall : 1 / 10000 ≤ |v|)
    (hshown : v.den = 1 → 10 ^ 21 ≤ |v|) :
    string js (ofJson js (.float x)) = ofChars (PyFloat.repr x) := by
  rw [ofJson, string]
  by_cases hden : v.den = 1
  · rw [js.text_huge x v h (hshown hden)]
  · rw [js.text_fraction x v h hden hsmall]

/-- A float token has a point or an exponent in it. -/
theorem numRun_digits {tok : List Char} (h : ∀ c ∈ tok, c = '-' ∨ c.isDigit = true) (s : NumState)
    (hs : s.isFloat = false) (hdot : s ≠ .dot) (hexp : s ≠ .exp) (hsign : s ≠ .expSign) :
    (numRun s tok).isFloat = false := by
  induction tok generalizing s with
  | nil => exact hs
  | cons c tok ih =>
    have hc := h c (List.mem_cons_self ..)
    have hrest := fun d hd => h d (List.mem_cons_of_mem c hd)
    have hpoint : c ≠ '.' ∧ c ≠ 'e' ∧ c ≠ 'E' := by
      rcases hc with rfl | hc
      · decide
      · refine ⟨?_, ?_, ?_⟩ <;> rintro rfl <;> exact absurd hc (by decide)
    show (numRun (numStep s c) tok).isFloat = false
    have hstep : (numStep s c).isFloat = false ∧ numStep s c ≠ .dot ∧ numStep s c ≠ .exp ∧
        numStep s c ≠ .expSign := by
      obtain ⟨h1, h2, h3⟩ := hpoint
      cases s with
      | start =>
        simp only [numStep]
        split
        · decide
        · split
          · decide
          · split <;> decide
      | minus =>
        simp only [numStep]
        split
        · decide
        · split <;> decide
      | zero => simp [numStep, h1, h2, h3, NumState.isFloat]
      | int =>
        simp only [numStep, h1, h2, h3]
        split <;> simp [NumState.isFloat]
      | dot => exact absurd rfl hdot
      | exp => exact absurd rfl hexp
      | expSign => exact absurd rfl hsign
      | frac => cases hs
      | expDigits => cases hs
      | bad => simp [numStep, NumState.isFloat]
    exact ih hrest _ hstep.1 hstep.2.1 hstep.2.2.1 hstep.2.2.2

theorem string_whole {x : F} {v : Rat} (h : js.value x = some v) (hden : v.den = 1)
    (hsmall : |v| < 10 ^ 21) : string js (ofJson js (.float x)) ≠ ofChars (PyFloat.repr x) := by
  intro heq
  rw [ofJson, string] at heq
  have htext : js.text (js.ofFloat x) = PyFloat.repr x :=
    List.map_injective_iff.mpr (fun a b h => CodePoint.scalar.inj h) heq
  have hfloat := js.repr_finite x v h
  rw [← htext, numRun_digits (js.text_whole x v h hden hsmall) .start rfl (by decide) (by decide)
    (by decide)] at hfloat
  cases hfloat

/-! ## `Object.entries` -/

/-- The array index that a key is. -/
def index? (key : Str) : Option Nat :=
  (chars? key).bind fun cs =>
    let n := Nat.ofDigitChars 10 cs 0
    if key = natStr n && n < 2 ^ 32 - 1 then some n else none

/-- `Object.entries(obj)`: array indices first, in their order, then the other keys as they came. -/
def entries (kvs : List (Str × Value N)) : List (Str × Value N) :=
  (kvs.filter fun kv => (index? kv.1).isSome).insertionSort
    (fun a b => (index? a.1).getD 0 ≤ (index? b.1).getD 0) ++
  kvs.filter fun kv => (index? kv.1).isNone

theorem entries_eq {kvs : List (Str × Value N)} (h : ∀ kv ∈ kvs, index? kv.1 = none) :
    entries kvs = kvs := by
  have hindex : (kvs.filter fun kv => (index? kv.1).isSome) = [] := by
    apply List.filter_eq_nil_iff.mpr
    intro kv hkv
    simp [h kv hkv]
  have hother : (kvs.filter fun kv => (index? kv.1).isNone) = kvs := by
    apply List.filter_eq_self.mpr
    intro kv hkv
    simp [h kv hkv]
  rw [entries, hindex, hother]
  rfl

end

end Js
