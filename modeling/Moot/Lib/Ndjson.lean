import Moot.Lib.Framing
import Moot.Lib.JsonCut
import Moot.Lib.Utf8
import Moot.Lib.Utf8Stream

/-!
# Lines of JSON

One JSON object a line, in UTF-8.  A line feed ends the line and is nowhere else in
it, so a reader of the bytes finds the lines, however they are cut into chunks, and a
line that is cut off is no object.

Proved here: `loadsBytes_line`, `loadsBytes_torn`.
-/

namespace PyJson
open Py

section
variable {F : Type} [PyFloat F] {kvs : List (Str × Json F)} {line : List UInt8}

def lineFeed : UInt8 := 0x0A

/-- The line of an object, without its end; `none` is the `UnicodeEncodeError`. -/
def objLine (kvs : List (Str × Json F)) : Option (List UInt8) :=
  (chars? (dumps false (.obj kvs))).map utf8Bytes

/-- `json.loads` of bytes in UTF-8; `none` is a `ValueError`. -/
def loadsBytes (line : List UInt8) : Option (Json F) :=
  (decode? line.toByteArray).bind fun cs => loads (ofChars cs)

theorem utf8_eq (cs : List Char) : utf8 cs = (utf8Bytes cs).toByteArray := by
  rw [utf8, String.toByteArray_ofList]
  rfl

theorem objLine_eq_some (h : objLine kvs = some line) :
    ∃ cs, dumps false (.obj kvs) = ofChars cs ∧ line = utf8Bytes cs := by
  obtain ⟨cs, hcs, rfl⟩ := Option.map_eq_some_iff.mp h
  exact ⟨cs, (chars?_eq_some_iff _ _).mp hcs, rfl⟩

/-- The bytes that `proto.encode` makes of the object. -/
theorem encode?_obj (kvs : List (Str × Json F)) :
    encode? (dumps false (.obj kvs) ++ str "\n") =
      (objLine kvs).map fun line => (line ++ [lineFeed]).toByteArray := by
  rw [encode?, objLine]
  cases hcs : chars? (dumps false (.obj kvs)) with
  | some cs =>
    rw [(chars?_eq_some_iff _ _).mp hcs, show ofChars cs ++ str "\n" = ofChars (cs ++ ['\n']) from
      (List.map_append).symm, chars?_ofChars]
    show some (utf8 (cs ++ ['\n'])) = _
    rw [utf8_eq, utf8Bytes_append]
    rfl
  | none =>
    cases hds : chars? (dumps false (.obj kvs) ++ str "\n") with
    | none => rfl
    | some ds =>
      -- what encodes the line encodes the value
      obtain ⟨cs, es, -, hcs', -⟩ := List.map_eq_append_iff.mp ((chars?_eq_some_iff _ _).mp hds).symm
      rw [← hcs', show cs.map CodePoint.scalar = ofChars cs from rfl, chars?_ofChars] at hcs
      cases hcs

theorem lineFeed_mem_utf8Bytes {cs : List Char} : lineFeed ∈ utf8Bytes cs ↔ '\n' ∈ cs := by
  have hchar : ∀ c : Char, lineFeed ∈ String.utf8EncodeChar c ↔ c = '\n' := by
    intro c
    by_cases hlow : c.toNat < 0x80
    · rw [utf8EncodeChar_low hlow, List.mem_singleton]
      refine ⟨fun heq => Char.toNat_inj.mp ((byte_eq (n := 0x0A) (by omega) (by omega)).mp heq).symm, ?_⟩
      rintro rfl
      rfl
    · refine ⟨fun hmem => absurd ?_ (utf8EncodeChar_high hlow _ hmem), ?_⟩
      · decide
      · rintro rfl
        exact absurd (by decide) hlow
  rw [utf8Bytes, List.mem_flatMap]
  constructor
  · rintro ⟨c, hc, hmem⟩
    rwa [← (hchar c).mp hmem]
  · exact fun hmem => ⟨_, hmem, (hchar _).mpr rfl⟩

theorem lineFeed_notMem (h : objLine kvs = some line) : lineFeed ∉ line := by
  obtain ⟨cs, hcs, rfl⟩ := objLine_eq_some h
  rw [lineFeed_mem_utf8Bytes]
  intro hmem
  have hctrl := not_control_dumps false (.obj kvs) (.scalar '\n') (by
    rw [hcs]
    exact List.mem_map_of_mem hmem)
  exact absurd hctrl (by decide)

/-- **A line** is its object, ended or not. -/
theorem loadsBytes_line (hwf : (Json.obj kvs).Wf) (h : objLine kvs = some line) :
    loadsBytes line = some (Json.obj kvs) ∧ loadsBytes (line ++ [lineFeed]) = some (Json.obj kvs) := by
  obtain ⟨cs, hcs, rfl⟩ := objLine_eq_some h
  have hline : utf8Bytes cs ++ [lineFeed] = utf8Bytes (cs ++ ['\n']) := by
    rw [utf8Bytes_append]
    rfl
  constructor
  · rw [loadsBytes, ← utf8_eq, decode?_utf8, Option.bind_some, ← hcs]
    exact loads_dumps false _ hwf
  · rw [hline, loadsBytes, ← utf8_eq, decode?_utf8, Option.bind_some,
      show ofChars (cs ++ ['\n']) = ofChars cs ++ str "\n" from List.map_append, ← hcs]
    exact loads_line false _ hwf

/-- **A line that is cut off** is nothing. -/
theorem loadsBytes_torn (hwf : (Json.obj kvs).Wf) (h : objLine kvs = some line) {p : List UInt8}
    (hp : p <+: line) (hne : p ≠ line) : loadsBytes (F := F) p = none := by
  obtain ⟨cs, hcs, rfl⟩ := objLine_eq_some h
  obtain ⟨r, hr⟩ := hp
  rw [loadsBytes]
  cases hds : decode? p.toByteArray with
  | none => rfl
  | some ds =>
    -- whole characters: the text is cut off too
    have hbytes : p.toByteArray = utf8 ds := (decode?_eq_some_iff _ _).mp hds
    have hall := decode?_utf8 cs
    rw [utf8_eq, ← hr, List.toByteArray_append, hbytes, decode?_utf8_append] at hall
    obtain ⟨es, -, hes⟩ := Option.map_eq_some_iff.mp hall
    have hcut : dumps false (.obj kvs) = ofChars ds ++ ofChars es := by
      rw [hcs, ← hes]
      exact List.map_append
    refine loads_torn false kvs hwf hcut fun hnil => hne ?_
    obtain rfl : es = [] := List.map_eq_nil_iff.mp hnil
    rw [List.append_nil] at hes
    rw [utf8_eq, hes] at hbytes
    have hlist := congrArg (fun b : ByteArray => b.data.toList) hbytes
    simpa only [List.toList_data_toByteArray] using hlist

end

end PyJson
