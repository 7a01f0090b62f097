import Moot.Lib.Text

/-!
# UTF-8 with replacement

Decoding of UTF-8 that never fails: what cannot begin or go on with a character
becomes U+FFFD, once for each longest piece that could have.  The decoder takes the
bytes one by one and keeps what may still become a character
(`codecs.getincrementaldecoder("utf-8")("replace")`); at the end of the input a piece
that is kept is replaced too (`bytes.decode("utf-8", errors="replace")`).

Proved here: `decodeOpen_utf8Bytes`, an encoded text comes out as it was, and nothing of
it is kept.
-/

namespace Py

def replacement : CodePoint := .scalar '\uFFFD'

/-- How many bytes a character has that begins with this byte, and the range of its second byte. -/
def utf8Lead (b : UInt8) : Option (Nat × UInt8 × UInt8) :=
  if b < 0xC2 then none
  else if b < 0xE0 then some (2, 0x80, 0xBF)
  else if b = 0xE0 then some (3, 0xA0, 0xBF)
  else if b < 0xF0 then some (3, 0x80, 0xBF)
  else if b = 0xF0 then some (4, 0x90, 0xBF)
  else if b < 0xF4 then some (4, 0x80, 0xBF)
  else if b = 0xF4 then some (4, 0x80, 0x8F)
  else none

/-- The six bits of a byte that goes on with a character. -/
def utf8Tail (b : UInt8) : Nat := b.toNat % 64

/-- The character of its bytes. -/
def utf8Char : List UInt8 → CodePoint
  | [a, b] => .scalar (Char.ofNat (a.toNat % 32 * 64 + utf8Tail b))
  | [a, b, c] => .scalar (Char.ofNat ((a.toNat % 16 * 64 + utf8Tail b) * 64 + utf8Tail c))
  | [a, b, c, d] =>
    .scalar (Char.ofNat (((a.toNat % 8 * 64 + utf8Tail b) * 64 + utf8Tail c) * 64 + utf8Tail d))
  | _ => replacement

/-- A byte that begins a character, or none. -/
def utf8Begin (b : UInt8) : Str × List UInt8 :=
  if b < 0x80 then ([.scalar (Char.ofNat b.toNat)], [])
  else if (utf8Lead b).isSome then ([], [b])
  else ([replacement], [])

/-- The beginning of a surrogate: the decoder keeps it, and no byte makes a character of it. -/
def startsSurrogate : List UInt8 → Bool
  | [a, b] => a = 0xED && 0xA0 ≤ b
  | _ => false

/-- What is kept, given up. -/
def utf8Drop (kept : List UInt8) : Str :=
  if kept.isEmpty then []
  else if startsSurrogate kept then [replacement, replacement]
  else [replacement]

/-- One byte, after the bytes that are kept: what is decoded, and what is kept. -/
def utf8Step : List UInt8 → UInt8 → Str × List UInt8
  | [], b => utf8Begin b
  | lead :: rest, b =>
    let (size, lo, hi) := (utf8Lead lead).getD (0, 0, 0)
    let goesOn := if rest.isEmpty then lo ≤ b && b ≤ hi else 0x80 ≤ b && b ≤ 0xBF
    if startsSurrogate (lead :: rest) || !goesOn then
      let (s, kept) := utf8Begin b
      (utf8Drop (lead :: rest) ++ s, kept)
    else
      let bytes := lead :: rest ++ [b]
      if bytes.length = size then ([utf8Char bytes], []) else ([], bytes)

/-- The bytes of a whole text, after those that are kept. -/
def decodeFrom : List UInt8 → List UInt8 → Str
  | kept, [] => utf8Drop kept
  | kept, b :: bytes => (utf8Step kept b).1 ++ decodeFrom (utf8Step kept b).2 bytes

/-- `bytes.decode("utf-8", errors="replace")` -/
def decodeReplace (bytes : List UInt8) : Str := decodeFrom [] bytes

/-- A text, a piece of a character at the end, and bytes that a surrogate would have. -/
example : decodeReplace [0x61, 0xE2, 0x82, 0xAC, 0xF0, 0x9F, 0x98, 0x80] = str "a€😀" ∧
    decodeReplace [0xE2, 0x82] = str "\uFFFD" ∧
    decodeReplace [0xED, 0xA0, 0x80] = str "\uFFFD\uFFFD\uFFFD" := by
  decide

/-! ## What was encoded -/

/-- The bytes of a text with the decoder left open: what is decoded, and what is kept. -/
def decodeOpen : List UInt8 → List UInt8 → Str × List UInt8
  | kept, [] => ([], kept)
  | kept, b :: bytes =>
    ((utf8Step kept b).1 ++ (decodeOpen (utf8Step kept b).2 bytes).1,
      (decodeOpen (utf8Step kept b).2 bytes).2)

theorem decodeOpen_append (kept a b : List UInt8) : decodeOpen kept (a ++ b) =
    ((decodeOpen kept a).1 ++ (decodeOpen (decodeOpen kept a).2 b).1,
      (decodeOpen (decodeOpen kept a).2 b).2) := by
  induction a generalizing kept with
  | nil => rfl
  | cons x a ih =>
    rw [List.cons_append, decodeOpen, ih, decodeOpen]
    simp only [List.append_assoc]

theorem decodeFrom_eq (kept bytes : List UInt8) : decodeFrom kept bytes =
    (decodeOpen kept bytes).1 ++ utf8Drop (decodeOpen kept bytes).2 := by
  induction bytes generalizing kept with
  | nil => rfl
  | cons b bytes ih => rw [decodeFrom, ih, decodeOpen, List.append_assoc]

theorem toNat_byte {n : Nat} (hn : n < 256) : (UInt8.ofNat n).toNat = n := by
  rw [UInt8.toNat_ofNat']
  omega

theorem byte_lt {n m : Nat} (hn : n < 256) (hm : m < 256) : UInt8.ofNat n < UInt8.ofNat m ↔ n < m := by
  rw [UInt8.lt_iff_toNat_lt, toNat_byte hn, toNat_byte hm]

theorem byte_le {n m : Nat} (hn : n < 256) (hm : m < 256) : UInt8.ofNat n ≤ UInt8.ofNat m ↔ n ≤ m := by
  rw [UInt8.le_iff_toNat_le, toNat_byte hn, toNat_byte hm]

theorem byte_eq {n m : Nat} (hn : n < 256) (hm : m < 256) : UInt8.ofNat n = UInt8.ofNat m ↔ n = m := by
  rw [← UInt8.toNat_inj, toNat_byte hn, toNat_byte hm]

/-- A byte that begins a longer character is kept. -/
theorem utf8Step_begin {b : UInt8} {range : Nat × UInt8 × UInt8} (hb : ¬b < 0x80)
    (hlead : utf8Lead b = some range) : utf8Step [] b = ([], [b]) := by
  rw [utf8Step, utf8Begin, if_neg hb, hlead]
  rfl

/-- A byte that goes on with what is kept. -/
theorem utf8Step_on {lead b : UInt8} {r : List UInt8} {size : Nat} {lo hi : UInt8}
    (hlead : utf8Lead lead = some (size, lo, hi)) (hplain : startsSurrogate (lead :: r) = false)
    (hon : (if r.isEmpty then lo ≤ b && b ≤ hi else 0x80 ≤ b && b ≤ 0xBF) = true) :
    utf8Step (lead :: r) b = if (lead :: r ++ [b]).length = size
      then ([utf8Char (lead :: r ++ [b])], []) else ([], lead :: r ++ [b]) := by
  rw [utf8Step, hlead]
  simp only [Option.getD_some, hplain, hon, Bool.not_true, Bool.or_false, Bool.false_eq_true, if_false]

theorem tail_range {n : Nat} (hn : n < 64) : 0x80 ≤ UInt8.ofNat (n + 0x80) ∧ UInt8.ofNat (n + 0x80) ≤ 0xBF := by
  rw [show (0x80 : UInt8) = .ofNat 0x80 from rfl, show (0xBF : UInt8) = .ofNat 0xBF from rfl,
    byte_le (by omega) (by omega), byte_le (by omega) (by omega)]
  omega

theorem utf8Tail_byte {n : Nat} (hn : n < 64) : utf8Tail (.ofNat (n + 0x80)) = n := by
  rw [utf8Tail, toNat_byte (by omega)]
  omega

/-- How a leading byte is read. -/
theorem utf8Lead_two {n : Nat} (hlo : 0xC2 ≤ n) (hhi : n < 0xE0) :
    utf8Lead (.ofNat n) = some (2, 0x80, 0xBF) := by
  have hbelow : ¬UInt8.ofNat n < 0xC2 := fun h => by
    have h := (byte_lt (m := 0xC2) (by omega) (by omega)).mp h
    omega
  have habove : UInt8.ofNat n < 0xE0 := (byte_lt (m := 0xE0) (by omega) (by omega)).mpr hhi
  rw [utf8Lead, if_neg hbelow, if_pos habove]

theorem utf8Lead_three {n : Nat} (hn : n < 16) : utf8Lead (.ofNat (n + 0xE0)) =
    some (3, if n = 0 then 0xA0 else 0x80, 0xBF) := by
  have hbelow : ¬UInt8.ofNat (n + 0xE0) < 0xC2 := fun h => by
    have h := (byte_lt (m := 0xC2) (by omega) (by omega)).mp h
    omega
  have hbelow' : ¬UInt8.ofNat (n + 0xE0) < 0xE0 := fun h => by
    have h := (byte_lt (m := 0xE0) (by omega) (by omega)).mp h
    omega
  have habove : UInt8.ofNat (n + 0xE0) < 0xF0 := (byte_lt (m := 0xF0) (by omega) (by omega)).mpr (by omega)
  rw [utf8Lead, if_neg hbelow, if_neg hbelow']
  by_cases hzero : n = 0
  · rw [if_pos hzero, hzero]
    rfl
  · have hne : UInt8.ofNat (n + 0xE0) ≠ 0xE0 := fun h => by
      have h := (byte_eq (m := 0xE0) (by omega) (by omega)).mp h
      omega
    rw [if_neg hne, if_pos habove, if_neg hzero]

theorem utf8Lead_four {n : Nat} (hn : n < 5) : utf8Lead (.ofNat (n + 0xF0)) =
    some (4, if n = 0 then 0x90 else 0x80, if n = 4 then 0x8F else 0xBF) := by
  interval_cases n <;> rfl

theorem high_byte {n : Nat} (hlo : 0x80 ≤ n) (hhi : n < 256) : ¬UInt8.ofNat n < 0x80 := fun h => by
  have h := (byte_lt (m := 0x80) hhi (by omega)).mp h
  omega

theorem decodeOpen_two {x y lo hi : UInt8} (hx : ¬x < 0x80) (hlead : utf8Lead x = some (2, lo, hi))
    (hlo : lo ≤ y) (hhi : y ≤ hi) : decodeOpen [] [x, y] = ([utf8Char [x, y]], []) := by
  have hsecond := utf8Step_on (b := y) (r := []) hlead rfl (by simp [hlo, hhi])
  rw [decodeOpen, utf8Step_begin hx hlead, decodeOpen, hsecond]
  rfl

theorem decodeOpen_three {x y z lo hi : UInt8} (hx : ¬x < 0x80)
    (hlead : utf8Lead x = some (3, lo, hi)) (hlo : lo ≤ y) (hhi : y ≤ hi)
    (hplain : startsSurrogate [x, y] = false) (hz : 0x80 ≤ z ∧ z ≤ 0xBF) :
    decodeOpen [] [x, y, z] = ([utf8Char [x, y, z]], []) := by
  have hsecond := utf8Step_on (b := y) (r := []) hlead rfl (by simp [hlo, hhi])
  have hthird := utf8Step_on (b := z) (r := [y]) hlead hplain (by simp [hz])
  rw [decodeOpen, utf8Step_begin hx hlead, decodeOpen, hsecond]
  simp only [List.cons_append, List.nil_append, List.length_cons, List.length_nil, Nat.reduceAdd,
    Nat.reduceEqDiff, if_false]
  rw [decodeOpen, hthird]
  rfl

theorem decodeOpen_four {x y z w lo hi : UInt8} (hx : ¬x < 0x80)
    (hlead : utf8Lead x = some (4, lo, hi)) (hlo : lo ≤ y) (hhi : y ≤ hi)
    (hplain : startsSurrogate [x, y] = false) (hz : 0x80 ≤ z ∧ z ≤ 0xBF) (hw : 0x80 ≤ w ∧ w ≤ 0xBF) :
    decodeOpen [] [x, y, z, w] = ([utf8Char [x, y, z, w]], []) := by
  have hsecond := utf8Step_on (b := y) (r := []) hlead rfl (by simp [hlo, hhi])
  have hthird := utf8Step_on (b := z) (r := [y]) hlead hplain (by simp [hz])
  have hfourth := utf8Step_on (b := w) (r := [y, z]) hlead rfl (by simp [hw])
  rw [decodeOpen, utf8Step_begin hx hlead, decodeOpen, hsecond]
  simp only [List.cons_append, List.nil_append, List.length_cons, List.length_nil, Nat.reduceAdd,
    Nat.reduceEqDiff, if_false]
  rw [decodeOpen, hthird]
  simp only [List.cons_append, List.nil_append, List.length_cons, List.length_nil, Nat.reduceAdd,
    Nat.reduceEqDiff, if_false]
  rw [decodeOpen, hfourth]
  rfl

/-- **A character** of its bytes. -/
theorem decodeOpen_encodeChar (c : Char) :
    decodeOpen [] (String.utf8EncodeChar c) = ([.scalar c], []) := by
  have hvalid : c.toNat < 0xD800 ∨ 0xDFFF < c.toNat ∧ c.toNat < 0x110000 := c.valid
  have hback : Char.ofNat c.toNat = c := Char.ofNat_toNat c
  unfold String.utf8EncodeChar
  show decodeOpen [] (if c.toNat ≤ 0x7F then [UInt8.ofNat c.toNat]
    else if c.toNat ≤ 0x7FF then [.ofNat (c.toNat / 64 % 0x20 + 0xC0), .ofNat (c.toNat % 0x40 + 0x80)]
    else if c.toNat ≤ 0xFFFF then [.ofNat (c.toNat / 4096 % 0x10 + 0xE0),
      .ofNat (c.toNat / 64 % 0x40 + 0x80), .ofNat (c.toNat % 0x40 + 0x80)]
    else [.ofNat (c.toNat / 262144 % 0x08 + 0xF0), .ofNat (c.toNat / 4096 % 0x40 + 0x80),
      .ofNat (c.toNat / 64 % 0x40 + 0x80), .ofNat (c.toNat % 0x40 + 0x80)]) = _
  generalize c.toNat = n at hvalid hback
  split
  · next hone =>
    have hb : UInt8.ofNat n < 0x80 := (byte_lt (m := 0x80) (by omega) (by omega)).mpr (by omega)
    rw [decodeOpen, decodeOpen, utf8Step, utf8Begin, if_pos hb, toNat_byte (by omega), hback]
    rfl
  split
  · next htwo =>
    obtain ⟨hlo, hhi⟩ := tail_range (n := n % 64) (by omega)
    have hchar : (UInt8.ofNat (n / 64 % 32 + 0xC0)).toNat % 32 * 64 +
        utf8Tail (.ofNat (n % 64 + 0x80)) = n := by
      rw [utf8Tail_byte (by omega), toNat_byte (by omega)]
      omega
    rw [decodeOpen_two (high_byte (by omega) (by omega)) (utf8Lead_two (by omega) (by omega)) hlo hhi,
      utf8Char, hchar, hback]
  split
  · next hthree =>
    obtain ⟨hlo, hhi⟩ := tail_range (n := n / 64 % 64) (by omega)
    have hlow : (if n / 4096 % 16 = 0 then 0xA0 else 0x80) ≤ UInt8.ofNat (n / 64 % 64 + 0x80) := by
      split
      · exact (byte_le (n := 0xA0) (by omega) (by omega)).mpr (by omega)
      · exact hlo
    have hplain : startsSurrogate [.ofNat (n / 4096 % 16 + 0xE0), .ofNat (n / 64 % 64 + 0x80)] = false := by
      rw [startsSurrogate, Bool.and_eq_false_iff, decide_eq_false_iff_not, decide_eq_false_iff_not]
      by_cases h13 : n / 4096 % 16 = 13
      · right
        intro h
        have h := (byte_le (n := 0xA0) (m := n / 64 % 64 + 0x80) (by omega) (by omega)).mp h
        omega
      · left
        intro h
        have h := (byte_eq (n := n / 4096 % 16 + 0xE0) (m := 0xED) (by omega) (by omega)).mp h
        omega
    have hchar : ((UInt8.ofNat (n / 4096 % 16 + 0xE0)).toNat % 16 * 64 +
        utf8Tail (.ofNat (n / 64 % 64 + 0x80))) * 64 + utf8Tail (.ofNat (n % 64 + 0x80)) = n := by
      rw [utf8Tail_byte (by omega), utf8Tail_byte (by omega), toNat_byte (by omega)]
      omega
    rw [decodeOpen_three (high_byte (by omega) (by omega)) (utf8Lead_three (by omega)) hlow hhi hplain
      (tail_range (by omega)), utf8Char, hchar, hback]
  · next hfour =>
    obtain ⟨hlo, hhi⟩ := tail_range (n := n / 4096 % 64) (by omega)
    have hlow : (if n / 262144 % 8 = 0 then 0x90 else 0x80) ≤ UInt8.ofNat (n / 4096 % 64 + 0x80) := by
      split
      · exact (byte_le (n := 0x90) (by omega) (by omega)).mpr (by omega)
      · exact hlo
    have hhigh : UInt8.ofNat (n / 4096 % 64 + 0x80) ≤ if n / 262144 % 8 = 4 then 0x8F else 0xBF := by
      split
      · exact (byte_le (m := 0x8F) (by omega) (by omega)).mpr (by omega)
      · exact hhi
    have hplain : startsSurrogate [.ofNat (n / 262144 % 8 + 0xF0), .ofNat (n / 4096 % 64 + 0x80)] = false := by
      rw [startsSurrogate, Bool.and_eq_false_iff, decide_eq_false_iff_not]
      left
      intro h
      have h := (byte_eq (n := n / 262144 % 8 + 0xF0) (m := 0xED) (by omega) (by omega)).mp h
      omega
    have hchar : (((UInt8.ofNat (n / 262144 % 8 + 0xF0)).toNat % 8 * 64 +
        utf8Tail (.ofNat (n / 4096 % 64 + 0x80))) * 64 + utf8Tail (.ofNat (n / 64 % 64 + 0x80))) * 64 +
          utf8Tail (.ofNat (n % 64 + 0x80)) = n := by
      rw [utf8Tail_byte (by omega), utf8Tail_byte (by omega), utf8Tail_byte (by omega),
        toNat_byte (by omega)]
      omega
    rw [decodeOpen_four (high_byte (by omega) (by omega)) (utf8Lead_four (by omega)) hlow hhigh hplain
      (tail_range (by omega)) (tail_range (by omega)), utf8Char, hchar, hback]

theorem utf8EncodeChar_low {c : Char} (hc : c.toNat < 0x80) :
    String.utf8EncodeChar c = [UInt8.ofNat c.toNat] := by
  unfold String.utf8EncodeChar
  show (if c.toNat ≤ 0x7F then [UInt8.ofNat c.toNat] else _) = _
  rw [if_pos (by omega)]

theorem utf8EncodeChar_high {c : Char} (hc : ¬c.toNat < 0x80) :
    ∀ b ∈ String.utf8EncodeChar c, ¬b < 0x80 := by
  unfold String.utf8EncodeChar
  show ∀ b ∈ (if c.toNat ≤ 0x7F then [UInt8.ofNat c.toNat]
    else if c.toNat ≤ 0x7FF then [.ofNat (c.toNat / 64 % 0x20 + 0xC0), .ofNat (c.toNat % 0x40 + 0x80)]
    else if c.toNat ≤ 0xFFFF then [.ofNat (c.toNat / 4096 % 0x10 + 0xE0),
      .ofNat (c.toNat / 64 % 0x40 + 0x80), .ofNat (c.toNat % 0x40 + 0x80)]
    else [.ofNat (c.toNat / 262144 % 0x08 + 0xF0), .ofNat (c.toNat / 4096 % 0x40 + 0x80),
      .ofNat (c.toNat / 64 % 0x40 + 0x80), .ofNat (c.toNat % 0x40 + 0x80)]), ¬b < 0x80
  rw [if_neg (by omega)]
  generalize c.toNat = n
  intro b hb
  split_ifs at hb
  · simp only [List.mem_cons, List.not_mem_nil, or_false] at hb
    rcases hb with rfl | rfl <;> exact high_byte (by omega) (by omega)
  · simp only [List.mem_cons, List.not_mem_nil, or_false] at hb
    rcases hb with rfl | rfl | rfl <;> exact high_byte (by omega) (by omega)
  · simp only [List.mem_cons, List.not_mem_nil, or_false] at hb
    rcases hb with rfl | rfl | rfl | rfl <;> exact high_byte (by omega) (by omega)

/-- The bytes of a text. -/
def utf8Bytes (cs : List Char) : List UInt8 := cs.flatMap String.utf8EncodeChar

theorem utf8Bytes_append (cs ds : List Char) : utf8Bytes (cs ++ ds) = utf8Bytes cs ++ utf8Bytes ds :=
  List.flatMap_append

/-- **A text** of its bytes. -/
theorem decodeOpen_utf8Bytes (cs : List Char) : decodeOpen [] (utf8Bytes cs) = (ofChars cs, []) := by
  induction cs with
  | nil => rfl
  | cons c cs ih =>
    rw [utf8Bytes, List.flatMap_cons, decodeOpen_append, decodeOpen_encodeChar]
    simp only
    rw [show cs.flatMap String.utf8EncodeChar = utf8Bytes cs from rfl, ih]
    rfl

theorem decodeReplace_utf8Bytes (cs : List Char) : decodeReplace (utf8Bytes cs) = ofChars cs := by
  rw [decodeReplace, decodeFrom_eq, decodeOpen_utf8Bytes]
  exact List.append_nil _

end Py
