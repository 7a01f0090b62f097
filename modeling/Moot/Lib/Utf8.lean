import Mathlib.Tactic

/-!
# Text files

What Python's text layer does to the bytes of a file opened with
`encoding="utf-8"`: strict decoding, and on reading the translation of `CRLF`
and `CR` to `LF`.  The encoding itself is core's `List.utf8Encode`.

Proved here:

* `decode?_eq_some_iff`: decoding inverts encoding and accepts nothing else;
* `utf8Len_universalNewlines`: the translation shortens a text by exactly its
  number of `CRLF` pairs, so a length taken after it is the length in the file
  only when there is none;
* `cut_cases`, `decode?_torn`: a byte prefix of an encoded text is an encoded
  prefix, or ends inside a character and then decodes with no continuation.
-/

namespace Py

/-- The UTF-8 bytes of a text. -/
def utf8 (cs : List Char) : ByteArray := (String.ofList cs).toByteArray

/-- Number of bytes of a text in UTF-8. -/
def utf8Len (cs : List Char) : Nat := (cs.map Char.utf8Size).sum

/-- `bytes.decode("utf-8")`; `none` is the `UnicodeDecodeError`. -/
def decode? (b : ByteArray) : Option (List Char) := b.utf8Decode?.map Array.toList

@[simp] theorem utf8_nil : utf8 [] = ByteArray.empty := by simp [utf8]

@[simp] theorem utf8_append (cs ds : List Char) : utf8 (cs ++ ds) = utf8 cs ++ utf8 ds := by
  simp [utf8]

theorem utf8_cons (c : Char) (cs : List Char) : utf8 (c :: cs) = utf8 [c] ++ utf8 cs := by
  rw [← utf8_append, List.singleton_append]

theorem size_utf8_singleton (c : Char) : (utf8 [c]).size = c.utf8Size := by
  simp [utf8, List.utf8Encode_singleton]

@[simp] theorem utf8Len_nil : utf8Len [] = 0 := rfl

@[simp] theorem utf8Len_cons (c : Char) (cs : List Char) :
    utf8Len (c :: cs) = c.utf8Size + utf8Len cs := by simp [utf8Len]

@[simp] theorem utf8Len_append (cs ds : List Char) :
    utf8Len (cs ++ ds) = utf8Len cs + utf8Len ds := by simp [utf8Len]

@[simp] theorem size_utf8 (cs : List Char) : (utf8 cs).size = utf8Len cs := by
  induction cs with
  | nil => simp
  | cons c cs ih => rw [utf8_cons, ByteArray.size_append, size_utf8_singleton, ih, utf8Len_cons]

theorem utf8Len_pos {cs : List Char} (h : cs ≠ []) : 0 < utf8Len cs := by
  cases cs with
  | nil => exact absurd rfl h
  | cons c cs =>
    have := c.utf8Size_pos
    simp only [utf8Len_cons]
    omega

/-! ## Decoding -/

@[simp] theorem decode?_utf8 (cs : List Char) : decode? (utf8 cs) = some cs := by
  simp [decode?, utf8, List.utf8Decode?_utf8Encode]

theorem decode?_eq_some_iff (b : ByteArray) (cs : List Char) :
    decode? b = some cs ↔ b = utf8 cs := by
  constructor
  · intro h
    simp only [decode?, Option.map_eq_some_iff] at h
    obtain ⟨a, ha, rfl⟩ := h
    have hs : b.utf8Decode?.isSome := by simp [ha]
    have := ByteArray.utf8Encode_get_utf8Decode? (b := b) (h := hs)
    simpa [ha, utf8] using this.symm
  · rintro rfl
    exact decode?_utf8 cs

theorem decode?_utf8_append (cs : List Char) (b : ByteArray) :
    decode? (utf8 cs ++ b) = (decode? b).map (cs ++ ·) := by
  induction cs with
  | nil => simp
  | cons c cs ih =>
    rw [utf8_cons, ByteArray.append_assoc]
    have h := ByteArray.utf8Decode?_utf8Encode_singleton_append (l := utf8 cs ++ b) (c := c)
    have hc : utf8 [c] = [c].utf8Encode := by simp [utf8]
    rw [decode?, hc, h, Option.map_map]
    rw [decode?] at ih
    cases hd : (utf8 cs ++ b).utf8Decode? with
    | none =>
      rw [hd] at ih
      cases hb : decode? b with
      | none => rfl
      | some ds => rw [hb] at ih; simp at ih
    | some a =>
      rw [hd] at ih
      cases hb : decode? b with
      | none => rw [hb] at ih; simp at ih
      | some ds =>
        rw [hb] at ih
        simp only [Option.map_some, Option.some.injEq] at ih
        simp [ih]

/-! ## Byte prefixes -/

theorem extract_append_of_le (a b : ByteArray) {k : Nat} (h : k ≤ a.size) :
    (a ++ b).extract 0 k = a.extract 0 k := by
  have hz : k - a.size = 0 := by omega
  rw [ByteArray.extract_append, hz, Nat.zero_sub, ByteArray.extract_same, ByteArray.append_empty]

theorem extract_of_size_le (a : ByteArray) {k : Nat} (h : a.size ≤ k) : a.extract 0 k = a := by
  rw [← Nat.max_eq_left h, ByteArray.extract_zero_max_size]

theorem extract_append_of_ge (a b : ByteArray) {k : Nat} (h : a.size ≤ k) :
    (a ++ b).extract 0 k = a ++ b.extract 0 (k - a.size) := by
  rw [ByteArray.extract_append, Nat.zero_sub, extract_of_size_le a h]

/-- A cut between two characters. -/
theorem extract_utf8_append (ds es : List Char) :
    (utf8 (ds ++ es)).extract 0 (utf8Len ds) = utf8 ds := by
  rw [utf8_append, extract_append_of_le _ _ (by simp), extract_of_size_le _ (by simp)]

/-- A prefix of the bytes is a whole number of characters, or a whole number
of characters and a proper part of the next one. -/
theorem cut_cases (cs : List Char) (k : Nat) (hk : k ≤ utf8Len cs) :
    (∃ ds es, cs = ds ++ es ∧ utf8Len ds = k ∧ (utf8 cs).extract 0 k = utf8 ds) ∨
    (∃ ds c es j, cs = ds ++ c :: es ∧ 0 < j ∧ j < c.utf8Size ∧ utf8Len ds + j = k ∧
      (utf8 cs).extract 0 k = utf8 ds ++ (utf8 [c]).extract 0 j) := by
  induction cs generalizing k with
  | nil =>
    have hk0 : k = 0 := by simpa using hk
    exact Or.inl ⟨[], [], rfl, by simp [hk0], by simp [hk0]⟩
  | cons c cs ih =>
    have hsz := size_utf8_singleton c
    by_cases hkc : k < c.utf8Size
    · by_cases hk0 : k = 0
      · exact Or.inl ⟨[], c :: cs, rfl, by simp [hk0], by simp [hk0]⟩
      · refine Or.inr ⟨[], c, cs, k, rfl, by omega, hkc, by simp, ?_⟩
        rw [utf8_cons c cs, extract_append_of_le _ _ (by omega), utf8_nil, ByteArray.empty_append]
    · have hkl : k - c.utf8Size ≤ utf8Len cs := by
        simp only [utf8Len_cons] at hk; omega
      have hcut : (utf8 (c :: cs)).extract 0 k =
          utf8 [c] ++ (utf8 cs).extract 0 (k - c.utf8Size) := by
        rw [utf8_cons c cs, extract_append_of_ge _ _ (by omega), hsz]
      rcases ih _ hkl with ⟨ds, es, rfl, hl, he⟩ | ⟨ds, d, es, j, rfl, hj, hjd, hl, he⟩
      · refine Or.inl ⟨c :: ds, es, rfl, by simp only [utf8Len_cons]; omega, ?_⟩
        rw [hcut, he, ← utf8_cons]
      · refine Or.inr ⟨c :: ds, d, es, j, rfl, hj, hjd, by simp only [utf8Len_cons]; omega, ?_⟩
        rw [hcut, he, ← ByteArray.append_assoc, ← utf8_cons]

/-- No character's bytes begin with another's, all of them. -/
theorem utf8_singleton_prefix {c d : Char} {b : ByteArray} (h : utf8 [d] ++ b = utf8 [c]) :
    d = c := by
  have h' : [d].utf8Encode ++ b = [c].utf8Encode := by simpa [utf8] using h
  simpa using List.isPrefix_of_utf8Encode_append_eq_utf8Encode b h'

/-- Of a character's bytes only the first one can start a character. -/
theorem isFirstByte_utf8_singleton (c : Char) (i : Nat) (hi : i < (utf8 [c]).size) :
    UInt8.IsUTF8FirstByte (utf8 [c])[i] ↔ i = 0 := by
  have hc : utf8 [c] = [c].utf8Encode := by simp [utf8]
  simp only [hc]
  exact List.isUTF8FirstByte_getElem_utf8Encode_singleton

/-- A character broken off in the middle does not decode, whatever text follows. -/
theorem decode?_torn (c : Char) (j : Nat) (h0 : 0 < j) (hj : j < c.utf8Size) (es : List Char) :
    decode? ((utf8 [c]).extract 0 j ++ utf8 es) = none := by
  cases h : decode? ((utf8 [c]).extract 0 j ++ utf8 es) with
  | none => rfl
  | some l =>
    exfalso
    rw [decode?_eq_some_iff] at h
    have hc := size_utf8_singleton c
    have hp : ((utf8 [c]).extract 0 j).size = j := by rw [ByteArray.size_extract]; omega
    have hsize := congrArg ByteArray.size h
    rw [ByteArray.size_append, hp, size_utf8, size_utf8] at hsize
    cases l with
    | nil => simp only [utf8Len_nil] at hsize; omega
    | cons d l =>
      have hd := size_utf8_singleton d
      rw [utf8_cons d l] at h
      by_cases hdj : d.utf8Size ≤ j
      · -- `d` would be a proper prefix of the bytes of `c`
        have hx : (utf8 [c]).extract 0 d.utf8Size = utf8 [d] := by
          have hcut := congrArg (ByteArray.extract · 0 d.utf8Size) h
          rw [extract_append_of_le _ _ (by omega), ByteArray.extract_append_eq_left hd.symm,
            ByteArray.extract_extract] at hcut
          have hm : min (0 + d.utf8Size) j = d.utf8Size := by omega
          rwa [hm] at hcut
        have hdc : d = c := by
          apply utf8_singleton_prefix (b := (utf8 [c]).extract d.utf8Size (utf8 [c]).size)
          rw [← hx, ← ByteArray.extract_eq_extract_append_extract _ (by omega) (by omega),
            ByteArray.extract_zero_size]
        subst hdc
        omega
      · -- the byte after the broken part starts a character on the left only
        cases es with
        | nil => simp only [utf8Len_nil, utf8Len_cons] at hsize; omega
        | cons e es =>
          have hjd : j < (utf8 [d]).size := by omega
          have he := size_utf8_singleton e
          have hel := e.utf8Size_pos
          have hlt : j < ((utf8 [c]).extract 0 j ++ utf8 (e :: es)).size := by
            rw [ByteArray.size_append, hp, size_utf8, utf8Len_cons]; omega
          have hright : (utf8 [d])[j] =
              ((utf8 [c]).extract 0 j ++ utf8 (e :: es))[j] := by
            simp only [h]
            exact (ByteArray.getElem_append_left hjd).symm
          have he0 : 0 < (utf8 [e]).size := by omega
          have hleft : ((utf8 [c]).extract 0 j ++ utf8 (e :: es))[j] =
              (utf8 [e])[0] := by
            rw [ByteArray.getElem_append_right (by omega)]
            simp only [hp, Nat.sub_self, utf8_cons e es]
            exact ByteArray.getElem_append_left (by omega)
          have hfirst := (isFirstByte_utf8_singleton e 0 (by omega)).mpr rfl
          rw [← hleft, ← hright, isFirstByte_utf8_singleton] at hfirst
          omega

/-! ## Newlines -/

/-- What text mode reads for a text: `CRLF` and a lone `CR` become `LF`.  The
flag says that the character before was a `CR`. -/
def universalNewlines : Bool → List Char → List Char
  | _, [] => []
  | cr, c :: cs =>
    if c = '\r' then '\n' :: universalNewlines true cs
    else if c = '\n' ∧ cr = true then universalNewlines false cs
    else c :: universalNewlines false cs

/-- Number of `CRLF` pairs, with the flag as above. -/
def crlfs : Bool → List Char → Nat
  | _, [] => 0
  | cr, c :: cs =>
    if c = '\r' then crlfs true cs
    else if c = '\n' ∧ cr = true then crlfs false cs + 1
    else crlfs false cs

/-- The flag after a text. -/
def crAfter : Bool → List Char → Bool
  | cr, [] => cr
  | _, c :: cs => crAfter (decide (c = '\r')) cs

theorem utf8Len_universalNewlines (cr : Bool) (cs : List Char) :
    utf8Len (universalNewlines cr cs) + crlfs cr cs = utf8Len cs := by
  induction cs generalizing cr with
  | nil => rfl
  | cons c cs ih =>
    have hr : ('\r').utf8Size = 1 := by decide
    have hn : ('\n').utf8Size = 1 := by decide
    have := ih true
    have := ih false
    simp only [universalNewlines, crlfs]
    split_ifs with h1 h2
    · subst h1; simp only [utf8Len_cons]; omega
    · obtain ⟨rfl, -⟩ := h2
      simp only [utf8Len_cons]; omega
    · simp only [utf8Len_cons]; omega

theorem universalNewlines_append (cr : Bool) (cs ds : List Char) :
    universalNewlines cr (cs ++ ds) =
      universalNewlines cr cs ++ universalNewlines (crAfter cr cs) ds := by
  induction cs generalizing cr with
  | nil => rfl
  | cons c cs ih =>
    simp only [List.cons_append, universalNewlines, crAfter]
    split_ifs with h1 h2 <;> simp [ih, h1]

/-- A text without `CR` is read as it is. -/
theorem universalNewlines_of_notMem {cs : List Char} (h : '\r' ∉ cs) :
    universalNewlines false cs = cs := by
  induction cs with
  | nil => rfl
  | cons c cs ih =>
    rw [List.mem_cons, not_or] at h
    simp [universalNewlines, Ne.symm h.1, ih h.2]

theorem crlfs_append (cr : Bool) (cs ds : List Char) :
    crlfs cr (cs ++ ds) = crlfs cr cs + crlfs (crAfter cr cs) ds := by
  induction cs generalizing cr with
  | nil => simp [crlfs, crAfter]
  | cons c cs ih =>
    simp only [List.cons_append, crlfs, crAfter]
    split_ifs with h1 h2
    · simp [ih, h1]
    · simp [ih, h1]; omega
    · simp [ih, h1]

@[simp] theorem crAfter_append_singleton (cr : Bool) (cs : List Char) (c : Char) :
    crAfter cr (cs ++ [c]) = decide (c = '\r') := by
  induction cs generalizing cr with
  | nil => rfl
  | cons d cs ih => simp only [List.cons_append, crAfter, ih]

/-- Counting no pair is having no `CR` right before an `LF`. -/
theorem crlfs_eq_zero_iff (cs : List Char) : crlfs false cs = 0 ↔ ¬ ['\r', '\n'] <:+: cs := by
  have hgen : ∀ cr, crlfs cr cs = 0 ↔
      (¬ ['\r', '\n'] <:+: cs) ∧ (cr = true → cs.head? ≠ some '\n') := by
    induction cs with
    | nil => intro cr; simp [crlfs]
    | cons c cs ih =>
      intro cr
      rw [List.infix_cons_iff, List.cons_prefix_cons]
      simp only [crlfs]
      split_ifs with h1 h2
      · rw [ih true]
        subst h1
        cases cs with
        | nil => simp
        | cons d cs => simp [eq_comm]; tauto
      · simp [h2]
      · rw [ih false]
        have hc : ¬ '\r' = c := fun h => h1 h.symm
        simp only [hc, false_and, false_or, List.head?_cons, ne_eq, Option.some.injEq]
        tauto
  simpa using hgen false

/-- `open(path, encoding="utf-8").read()` on these bytes. -/
def readText? (b : ByteArray) : Option (List Char) := (decode? b).map (universalNewlines false)

end Py
