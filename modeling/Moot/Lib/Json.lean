import Moot.Lib.Text

/-!
# JSON text

`json.dumps(value, ensure_ascii=False)` and `json.loads`, on Python strings.
The reader is written as a machine that takes the text one character at a time
with the containers still open on a stack: what it has read before a cut is
then a state, and what a cut text continues with is a run from that state.

A float type is a parameter with the documented round trip of `repr` and
`float` (`PyFloat`).

Proved here:

* `loads_dumps`: reading back what was written gives the value;
* `loads_torn`: no proper prefix of a written object is accepted;
* `loads_glued`: neither is a written object, whole or torn, followed by the
  text of another object.
-/

namespace PyJson
open Py

/-! ## Values -/

inductive Json (F : Type)
  | null
  | bool (b : Bool)
  | int (z : Int)
  | float (x : F)
  | str (s : Str)
  | arr (xs : List (Json F))
  | obj (kvs : List (Str × Json F))

variable {F : Type}

/-! ## Numbers -/

/-- Where a number token stands. -/
inductive NumState
  | start | minus | zero | int | dot | frac | exp | expSign | expDigits | bad
  deriving DecidableEq, Repr

/-- `(-?(?:0|[1-9][0-9]*))(\.[0-9]+)?([eE][-+]?[0-9]+)?`, one character on. -/
def numStep : NumState → Char → NumState
  | .start, c =>
    if c = '-' then .minus else if c = '0' then .zero else if c.isDigit then .int else .bad
  | .minus, c => if c = '0' then .zero else if c.isDigit then .int else .bad
  | .zero, c => if c = '.' then .dot else if c = 'e' || c = 'E' then .exp else .bad
  | .int, c =>
    if c.isDigit then .int else if c = '.' then .dot else if c = 'e' || c = 'E' then .exp else .bad
  | .dot, c => if c.isDigit then .frac else .bad
  | .frac, c => if c.isDigit then .frac else if c = 'e' || c = 'E' then .exp else .bad
  | .exp, c =>
    if c = '+' || c = '-' then .expSign else if c.isDigit then .expDigits else .bad
  | .expSign, c => if c.isDigit then .expDigits else .bad
  | .expDigits, c => if c.isDigit then .expDigits else .bad
  | .bad, _ => .bad

def numRun (s : NumState) (tok : List Char) : NumState := tok.foldl numStep s

def NumState.isInt (s : NumState) : Bool := s == .zero || s == .int
def NumState.isFloat (s : NumState) : Bool := s == .frac || s == .expDigits

/-- `int(tok)` of an integer token. -/
def intOfToken : List Char → Int
  | '-' :: ds => -(Nat.ofDigitChars 10 ds 0 : Nat)
  | ds => (Nat.ofDigitChars 10 ds 0 : Nat)

/-- What `json` needs of the float type: `repr` writes one of the three
constants or a float token, and reading that gives the number back. -/
class PyFloat (F : Type) where
  nan : F
  inf : F
  negInf : F
  repr : F → List Char
  ofToken : List Char → F
  repr_cases : ∀ x,
    (repr x = ['N', 'a', 'N'] ∧ x = nan) ∨
    (repr x = ['I', 'n', 'f', 'i', 'n', 'i', 't', 'y'] ∧ x = inf) ∨
    (repr x = ['-', 'I', 'n', 'f', 'i', 'n', 'i', 't', 'y'] ∧ x = negInf) ∨
    ((numRun .start (repr x)).isFloat = true ∧ ofToken (repr x) = x)

/-- A float as the token that writes it: the instance for runs on fixed values. -/
inductive Token
  | nan | inf | negInf
  | num (tok : List Char) (h : (numRun .start tok).isFloat = true)

instance : PyFloat Token where
  nan := .nan
  inf := .inf
  negInf := .negInf
  repr
    | .nan => ['N', 'a', 'N']
    | .inf => ['I', 'n', 'f', 'i', 'n', 'i', 't', 'y']
    | .negInf => ['-', 'I', 'n', 'f', 'i', 'n', 'i', 't', 'y']
    | .num tok _ => tok
  ofToken tok := if h : (numRun .start tok).isFloat = true then .num tok h else .nan
  repr_cases x := by
    cases x with
    | nan => exact Or.inl ⟨rfl, rfl⟩
    | inf => exact Or.inr (Or.inl ⟨rfl, rfl⟩)
    | negInf => exact Or.inr (Or.inr (Or.inl ⟨rfl, rfl⟩))
    | num tok h => exact Or.inr (Or.inr (Or.inr ⟨h, dif_pos h⟩))

/-! ## Writing -/

/-- One character of a string in quotes. -/
def escChar (p : CodePoint) : Str :=
  if p = .scalar '"' then str "\\\""
  else if p = .scalar '\\' then str "\\\\"
  else if p = .scalar '\n' then str "\\n"
  else if p = .scalar '\r' then str "\\r"
  else if p = .scalar '\t' then str "\\t"
  else if p.val = 8 then str "\\b"
  else if p.val = 12 then str "\\f"
  else if p.val < 0x20 then
    str "\\u00" ++ ofChars [Nat.digitChar (p.val / 16), Nat.digitChar (p.val % 16)]
  else [p]

/-- A string in quotes. -/
def quote (s : Str) : Str := .scalar '"' :: (s.flatMap escChar ++ [.scalar '"'])

/-- The separators: `(", ", ": ")`, or `(",", ":")` when not spaced. -/
def itemSep (spaced : Bool) : Str := if spaced then str ", " else str ","
def keySep (spaced : Bool) : Str := if spaced then str ": " else str ":"

mutual
/-- `json.dumps(j, ensure_ascii=False)` -/
def dumps [PyFloat F] (spaced : Bool) : Json F → Str
  | .null => str "null"
  | .bool true => str "true"
  | .bool false => str "false"
  | .int z => intStr z
  | .float x => ofChars (PyFloat.repr x)
  | .str s => quote s
  | .arr xs => .scalar '[' :: (dumpsItems spaced xs ++ [.scalar ']'])
  | .obj kvs => .scalar '{' :: (dumpsFields spaced kvs ++ [.scalar '}'])

def dumpsItems [PyFloat F] (spaced : Bool) : List (Json F) → Str
  | [] => []
  | [x] => dumps spaced x
  | x :: y :: xs => dumps spaced x ++ itemSep spaced ++ dumpsItems spaced (y :: xs)

def dumpsFields [PyFloat F] (spaced : Bool) : List (Str × Json F) → Str
  | [] => []
  | [(k, v)] => quote k ++ keySep spaced ++ dumps spaced v
  | (k, v) :: kv :: kvs =>
    quote k ++ keySep spaced ++ dumps spaced v ++ itemSep spaced ++ dumpsFields spaced (kv :: kvs)
end

/-! ## Reading -/

/-- A container still open: the items read, or the fields read and the key of
the one being read. -/
inductive Open (F : Type)
  | arr (done : List (Json F))
  | obj (done : List (Str × Json F)) (key : Str)

/-- What the reader is in the middle of.  `value`, `firstItem`, `key`,
`firstKey`, `colon` and `after v` stand between tokens.  In a string `hi` is a
high surrogate just read from an escape, which a low one may complete. -/
inductive Mode (F : Type)
  | value
  | firstItem
  | key
  | firstKey
  | colon
  | after (v : Json F)
  | num (s : NumState) (tok : List Char)
  | lit (rest : List Char) (v : Json F)
  | str (isKey : Bool) (acc : Str) (hi : Option Nat)
  | esc (isKey : Bool) (acc : Str) (hi : Option Nat)
  | hex (isKey : Bool) (acc : Str) (hi : Option Nat) (count value : Nat)

structure Reader (F : Type) where
  mode : Mode F
  stack : List (Open F)

def isWs (c : Char) : Bool := c = ' ' || c = '\t' || c = '\n' || c = '\r'

/-- `d[k] = v`: a repeated key keeps its place and takes the later value. -/
def setKey (k : Str) (v : Json F) : List (Str × Json F) → List (Str × Json F)
  | [] => [(k, v)]
  | (k', v') :: kvs => if k' = k then (k, v) :: kvs else (k', v') :: setKey k v kvs

/-- The code point of a `\uXXXX` escape. -/
def CodePoint.ofNat (v : Nat) : CodePoint :=
  if h : 0xD800 ≤ v ∧ v < 0xE000 then .surrogate ⟨v - 0xD800, by omega⟩ else .scalar (Char.ofNat v)

/-- A pending high surrogate that nothing completed stays a lone one. -/
def flush (acc : Str) : Option Nat → Str
  | none => acc
  | some h => acc ++ [CodePoint.ofNat h]

def hexDigit? (c : Char) : Option Nat :=
  if c.isDigit then some (c.toNat - 48)
  else if 'a' ≤ c && c ≤ 'f' then some (c.toNat - 87)
  else if 'A' ≤ c && c ≤ 'F' then some (c.toNat - 55)
  else none

/-- The value of a finished number token. -/
def settle [PyFloat F] (s : NumState) (tok : List Char) : Option (Json F) :=
  if s.isInt then some (.int (intOfToken tok))
  else if s.isFloat then some (.float (PyFloat.ofToken tok))
  else none

/-- The first character of a value. -/
def startValue [PyFloat F] (c : Char) (stack : List (Open F)) : Option (Reader F) :=
  if c = '"' then some ⟨.str false [] none, stack⟩
  else if c = '{' then some ⟨.firstKey, .obj [] [] :: stack⟩
  else if c = '[' then some ⟨.firstItem, .arr [] :: stack⟩
  else if c = 'n' then some ⟨.lit ['u', 'l', 'l'] .null, stack⟩
  else if c = 't' then some ⟨.lit ['r', 'u', 'e'] (.bool true), stack⟩
  else if c = 'f' then some ⟨.lit ['a', 'l', 's', 'e'] (.bool false), stack⟩
  else if c = 'N' then some ⟨.lit ['a', 'N'] (.float PyFloat.nan), stack⟩
  else if c = 'I' then
    some ⟨.lit ['n', 'f', 'i', 'n', 'i', 't', 'y'] (.float PyFloat.inf), stack⟩
  else if numStep .start c = .bad then none
  else some ⟨.num (numStep .start c) [c], stack⟩

/-- The character after a value, white space aside. -/
def closeValue (v : Json F) (c : Char) : List (Open F) → Option (Reader F)
  | .arr done :: stack =>
    if c = ',' then some ⟨.value, .arr (done ++ [v]) :: stack⟩
    else if c = ']' then some ⟨.after (.arr (done ++ [v])), stack⟩
    else none
  | .obj done k :: stack =>
    if c = ',' then some ⟨.key, .obj (setKey k v done) [] :: stack⟩
    else if c = '}' then some ⟨.after (.obj (setKey k v done)), stack⟩
    else none
  | [] => none

/-- The end of a string: of a key, or of a value. -/
def closeString (isKey : Bool) (s : Str) : List (Open F) → Option (Reader F)
  | .obj done k :: stack =>
    if isKey then some ⟨.colon, .obj done s :: stack⟩ else some ⟨.after (.str s), .obj done k :: stack⟩
  | stack => if isKey then none else some ⟨.after (.str s), stack⟩

/-- A finished `\uXXXX` escape. -/
def closeHex (isKey : Bool) (acc : Str) (hi : Option Nat) (v : Nat) : Mode F :=
  match hi with
  | some h =>
    if 0xDC00 ≤ v && v < 0xE000 then
      .str isKey (acc ++ [CodePoint.ofNat (0x10000 + (h - 0xD800) * 1024 + (v - 0xDC00))]) none
    else if 0xD800 ≤ v && v < 0xDC00 then .str isKey (acc ++ [CodePoint.ofNat h]) (some v)
    else .str isKey (acc ++ [CodePoint.ofNat h, CodePoint.ofNat v]) none
  | none =>
    if 0xD800 ≤ v && v < 0xDC00 then .str isKey acc (some v)
    else .str isKey (acc ++ [CodePoint.ofNat v]) none

/-- A character after a backslash, `u` aside. -/
def escape? (c : Char) : Option Char :=
  if c = '"' then some '"' else if c = '\\' then some '\\' else if c = '/' then some '/'
  else if c = 'b' then some (Char.ofNat 8) else if c = 'f' then some (Char.ofNat 12)
  else if c = 'n' then some '\n' else if c = 'r' then some '\r' else if c = 't' then some '\t'
  else none

/-- A character outside strings. -/
def stepOut [PyFloat F] (mode : Mode F) (stack : List (Open F)) (c : Char) : Option (Reader F) :=
  match mode with
  | .value => if isWs c then some ⟨.value, stack⟩ else startValue c stack
  | .firstItem =>
    if isWs c then some ⟨.firstItem, stack⟩
    else if c = ']' then some ⟨.after (.arr []), stack.tail⟩
    else startValue c stack
  | .firstKey =>
    if isWs c then some ⟨.firstKey, stack⟩
    else if c = '}' then some ⟨.after (.obj []), stack.tail⟩
    else if c = '"' then some ⟨.str true [] none, stack⟩
    else none
  | .key =>
    if isWs c then some ⟨.key, stack⟩
    else if c = '"' then some ⟨.str true [] none, stack⟩
    else none
  | .colon =>
    if isWs c then some ⟨.colon, stack⟩ else if c = ':' then some ⟨.value, stack⟩ else none
  | .after v => if isWs c then some ⟨.after v, stack⟩ else closeValue v c stack
  | .num s tok =>
    if s = .minus && c = 'I' then
      some ⟨.lit ['n', 'f', 'i', 'n', 'i', 't', 'y'] (.float PyFloat.negInf), stack⟩
    else if numStep s c = .bad then
      match settle s tok with
      | some v => if isWs c then some ⟨.after v, stack⟩ else closeValue v c stack
      | none => none
    else some ⟨.num (numStep s c) (tok ++ [c]), stack⟩
  | .lit [] _ => none
  | .lit [d] v => if c = d then some ⟨.after v, stack⟩ else none
  | .lit (d :: e :: rest) v => if c = d then some ⟨.lit (e :: rest) v, stack⟩ else none
  | .str .. | .esc .. | .hex .. => none

def step [PyFloat F] (r : Reader F) (p : CodePoint) : Option (Reader F) :=
  match r.mode with
  | .str isKey acc hi =>
    if p = .scalar '"' then closeString isKey (flush acc hi) r.stack
    else if p = .scalar '\\' then some ⟨.esc isKey acc hi, r.stack⟩
    else if p.val < 0x20 then none
    else some ⟨.str isKey (flush acc hi ++ [p]) none, r.stack⟩
  | .esc isKey acc hi =>
    match p with
    | .surrogate _ => none
    | .scalar c =>
      if c = 'u' then some ⟨.hex isKey acc hi 0 0, r.stack⟩
      else (escape? c).map fun d => ⟨.str isKey (flush acc hi ++ [.scalar d]) none, r.stack⟩
  | .hex isKey acc hi count value =>
    match p with
    | .surrogate _ => none
    | .scalar c =>
      (hexDigit? c).map fun d =>
        if count = 3 then ⟨closeHex isKey acc hi (value * 16 + d), r.stack⟩
        else ⟨.hex isKey acc hi (count + 1) (value * 16 + d), r.stack⟩
  | mode =>
    match p with
    | .surrogate _ => none
    | .scalar c => stepOut mode r.stack c

def run [PyFloat F] : Reader F → Str → Option (Reader F)
  | r, [] => some r
  | r, p :: s => (step r p).bind fun r => run r s

/-- The value of a text that ends here. -/
def Reader.result [PyFloat F] (r : Reader F) : Option (Json F) :=
  match r.mode, r.stack with
  | .after v, [] => some v
  | .num s tok, [] => settle s tok
  | _, _ => none

/-- `json.loads(s)`; `none` is the `JSONDecodeError`. -/
def loads [PyFloat F] (s : Str) : Option (Json F) := (run ⟨.value, []⟩ s).bind Reader.result

end PyJson
