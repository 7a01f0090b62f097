import Moot.Lib.JsonCut
import Moot.Lib.Utf8

/-!
# The transcript file

`Transcript.append` writes one JSON line per record, `read_day` reads a day's
file back and skips what is not JSON (`core/transcript.py`).  A crash leaves a
byte prefix of the line being written at the end of the file, and a restarted
hub appends from there.

Proved here: `recovers_iff`.  The file is read back whole if and only if the
cut line is not there at all, or is there with its newline, or nothing was
appended after it and the cut is between two characters.  Everywhere else a
record is lost or the read fails: the next record lands on the cut line
(`loads_glued`), and a character cut in two does not decode (`decode?_torn`).
-/

namespace Moot.Transcript
open Py PyJson

variable {F : Type} [PyFloat F]

/-- The text of one record. -/
def line (r : Json F) : Str := dumps true r ++ str "\n"

/-- `append`; `none` is the `UnicodeEncodeError`, raised before anything is
written. -/
def append (file : ByteArray) (r : Json F) : Option ByteArray := (encode? (line r)).map (file ++ ·)

/-- What `read_day` logs about a line that is not JSON. -/
structure Warning where
  lineno : Nat
  torn : Bool
  deriving DecidableEq, Repr

/-- The loop of `read_day`, from line `lineno` on. -/
def readLines : Nat → List Str → List (Json F) × List Warning
  | _, [] => ([], [])
  | lineno, l :: rest =>
    let (records, warnings) := readLines (lineno + 1) rest
    if isBlank l then (records, warnings)
    else
      match loads l with
      | some r => (r :: records, warnings)
      | none => (records, ⟨lineno, rest.all isBlank⟩ :: warnings)

/-- `f.read().split("\n")` -/
def lines (text : List Char) : List Str := (text.splitOn '\n').map ofChars

/-- `read_day`, of a file that may not exist; `none` is the `UnicodeDecodeError`. -/
def readDay : Option ByteArray → Option (List (Json F) × List Warning)
  | none => some ([], [])
  | some bytes => (readText? bytes).map fun text => readLines 1 (lines text)

/-! ## Records -/

/-- A record as the hub appends it: an object that can be encoded. -/
structure Record (F : Type) where
  fields : List (Str × Json F)
  wf : (Json.obj fields).Wf
  clean : (Json.obj fields).Clean

def Record.json (r : Record F) : Json F := .obj r.fields

/-- The characters of a record's line, without the newline. -/
def Record.body (r : Record F) : List Char := (chars? (dumps true r.json)).getD []

/-- The characters of a record's line. -/
def Record.text (r : Record F) : List Char := r.body ++ ['\n']

theorem Record.ofChars_body (r : Record F) : ofChars r.body = dumps true r.json := by
  obtain ⟨cs, hcs⟩ := (clean_iff_ofChars _).mp ((clean_dumps true r.json).mpr r.clean)
  rw [Record.body, hcs, chars?_ofChars]
  rfl

theorem Record.line_eq (r : Record F) : line r.json = ofChars r.text := by
  rw [line, ← r.ofChars_body]
  simp [Record.text, ofChars, str]

/-- Appending a record never fails. -/
theorem append_record (file : ByteArray) (r : Record F) :
    append file r.json = some (file ++ utf8 r.text) := by
  rw [append, r.line_eq, encode?, chars?_ofChars]
  rfl

theorem Record.not_control (r : Record F) : ∀ c ∈ r.body, 0x20 ≤ c.toNat := by
  intro c hc
  have hmem : CodePoint.scalar c ∈ dumps true r.json := by
    rw [← r.ofChars_body]
    exact List.mem_map_of_mem hc
  exact not_control_dumps true r.json _ hmem

theorem Record.newline_notMem (r : Record F) : '\n' ∉ r.body := fun h =>
  absurd (r.not_control _ h) (by decide)

theorem Record.return_notMem (r : Record F) : '\r' ∉ r.text := by
  intro h
  rcases List.mem_append.mp h with h | h
  · exact absurd (r.not_control _ h) (by decide)
  · simp at h

/-! ## Reading whole lines -/

/-- What one line contributes. -/
def readLine (l : Str) : Option (Json F) := if isBlank l then none else loads l

/-- The records of a text. -/
def records (text : List Char) : List (Json F) := (lines text).filterMap readLine

theorem readLines_fst (n : Nat) (ls : List Str) :
    (readLines (F := F) n ls).1 = ls.filterMap readLine := by
  induction ls generalizing n with
  | nil => rfl
  | cons l ls ih =>
    simp only [readLines, List.filterMap_cons, readLine]
    split_ifs with hblank
    · exact ih (n + 1)
    · cases loads (F := F) l with
      | none => exact ih (n + 1)
      | some r => simp [ih (n + 1), readLine]

theorem readDay_eq (bytes : ByteArray) :
    (readDay (F := F) (some bytes)).map Prod.fst = (readText? bytes).map records := by
  rw [readDay, Option.map_map]
  congr 1
  funext text
  exact readLines_fst 1 (lines text)

theorem records_line {l : List Char} (h : '\n' ∉ l) (rest : List Char) :
    records (F := F) (l ++ '\n' :: rest) = (readLine (ofChars l)).toList ++ records rest := by
  rw [records, lines, List.splitOn_append_cons_self_of_not_mem h]
  simp only [List.map_cons, List.filterMap_cons, records, lines]
  cases readLine (F := F) (ofChars l) <;> rfl

theorem records_last {l : List Char} (h : '\n' ∉ l) :
    records (F := F) l = (readLine (ofChars l)).toList := by
  rw [records, lines, List.splitOn_eq_singleton h]
  simp only [List.map_cons, List.map_nil, List.filterMap_cons, List.filterMap_nil]
  cases readLine (F := F) (ofChars l) <;> rfl

theorem dumps_not_blank (kvs : List (Str × Json F)) (t : Str) :
    isBlank (dumps true (.obj kvs) ++ t) = false := by
  rw [dumps_obj_eq]
  rfl

theorem Record.readLine_body (r : Record F) : readLine (ofChars r.body) = some r.json := by
  have hblank := dumps_not_blank r.fields []
  rw [List.append_nil] at hblank
  rw [r.ofChars_body, readLine, Record.json, hblank, loads_dumps true _ r.wf]
  rfl

theorem records_text (r : Record F) (rest : List Char) :
    records (r.text ++ rest) = r.json :: records rest := by
  rw [Record.text, List.append_assoc, List.singleton_append, records_line r.newline_notMem,
    r.readLine_body]
  rfl

/-- **Whole lines.**  The records of a sequence of lines come back in order. -/
theorem records_texts (rs : List (Record F)) (rest : List Char) :
    records (rs.flatMap Record.text ++ rest) = rs.map Record.json ++ records rest := by
  induction rs with
  | nil => rfl
  | cons r rs ih => rw [List.flatMap_cons, List.append_assoc, records_text, ih]; rfl

theorem records_nil : records (F := F) [] = [] := by
  rw [records_last (List.not_mem_nil)]
  rfl

/-! ## The crash -/

/-- The appends of one hub. -/
def appendAll (file : ByteArray) (rs : List (Record F)) : Option ByteArray :=
  rs.foldlM (fun file r => append file r.json) file

/-- The file after the appends of `rs`, a crash `k` bytes into the append of
`r`, and the appends of `rs'` by the next hub. -/
def crashed (rs : List (Record F)) (r : Record F) (k : Nat) (rs' : List (Record F)) :
    Option ByteArray := do
  let file ← appendAll ByteArray.empty rs
  let bytes ← encode? (line r.json)
  appendAll (file ++ bytes.extract 0 k) rs'

/-- The record the crash cut, if its JSON text is there whole. -/
def completed (r : Record F) (k : Nat) : List (Record F) :=
  if utf8Len r.body ≤ k then [r] else []

/-- `read_day` returns the records written before the crash and after it. -/
def Recovers (rs : List (Record F)) (r : Record F) (k : Nat) (rs' : List (Record F)) : Prop :=
  ∃ file, crashed rs r k rs' = some file ∧
    (readDay (some file)).map Prod.fst = some ((rs ++ completed r k ++ rs').map Record.json)

/-- The cut is between two characters of the line. -/
def OnBoundary (r : Record F) (k : Nat) : Prop := ∃ ds, ds <+: r.text ∧ utf8Len ds = k

theorem appendAll_eq (file : ByteArray) (rs : List (Record F)) :
    appendAll file rs = some (file ++ utf8 (rs.flatMap Record.text)) := by
  induction rs generalizing file with
  | nil => simp [appendAll]
  | cons r rs ih =>
    rw [appendAll, List.foldlM_cons, append_record]
    simp only [Option.bind_eq_bind, Option.bind_some]
    rw [← appendAll, ih, List.flatMap_cons, utf8_append, ByteArray.append_assoc]

theorem crashed_eq (rs : List (Record F)) (r : Record F) (k : Nat) (rs' : List (Record F)) :
    crashed rs r k rs' = some (utf8 (rs.flatMap Record.text) ++
      ((utf8 r.text).extract 0 k ++ utf8 (rs'.flatMap Record.text))) := by
  rw [crashed, appendAll_eq, r.line_eq, encode?, chars?_ofChars]
  simp only [Option.map_some, Option.bind_eq_bind, Option.bind_some]
  rw [appendAll_eq, ByteArray.empty_append, ByteArray.append_assoc]
  rfl

theorem recovers_iff_records {rs : List (Record F)} {r : Record F} {k : Nat}
    {rs' : List (Record F)} {ds : List Char} (hds : ds <+: r.text)
    (hcut : (utf8 r.text).extract 0 k = utf8 ds) :
    Recovers rs r k rs' ↔ records (F := F) (ds ++ rs'.flatMap Record.text) =
      (completed r k ++ rs').map Record.json := by
  have hret : '\r' ∉ rs.flatMap Record.text ++ (ds ++ rs'.flatMap Record.text) := by
    simp only [List.mem_append, List.mem_flatMap, not_or, not_exists, not_and]
    exact ⟨fun x _ => x.return_notMem, fun h => r.return_notMem (hds.subset h),
      fun x _ => x.return_notMem⟩
  simp only [Recovers, crashed_eq, Option.some.injEq, exists_eq_left']
  rw [hcut, ← utf8_append, ← utf8_append, readDay_eq, readText?, decode?_utf8, Option.map_some,
    universalNewlines_of_notMem hret, Option.map_some, Option.some.injEq, records_texts,
    List.append_assoc, List.map_append, List.append_cancel_left_eq]

/-- A cut before or after the whole line is no cut. -/
theorem recovers_outside (rs : List (Record F)) (r : Record F) {k : Nat}
    (hk : k = 0 ∨ utf8Len r.text ≤ k) (rs' : List (Record F)) : Recovers rs r k rs' := by
  have hrest := records_texts rs' []
  rw [List.append_nil, records_nil, List.append_nil] at hrest
  have hnl : utf8Len r.text = utf8Len r.body + 1 := by simp [Record.text]; decide
  rcases hk with rfl | hk
  · have hcut : (utf8 r.text).extract 0 0 = utf8 [] := by simp
    have hbody : ¬ utf8Len r.body ≤ 0 := by
      intro h
      have hne : r.body ≠ [] := by
        intro hnil
        have := r.ofChars_body
        rw [hnil, Record.json, dumps_obj_eq] at this
        cases this
      exact absurd (utf8Len_pos hne) (by omega)
    rw [recovers_iff_records (List.nil_prefix) hcut, completed, if_neg hbody]
    exact hrest
  · have hcut : (utf8 r.text).extract 0 k = utf8 r.text :=
      extract_of_size_le _ (by simpa using hk)
    rw [recovers_iff_records (List.prefix_refl _) hcut, completed, if_pos (by omega),
      records_text, hrest]
    rfl

/-- A cut in a character cannot be read. -/
theorem not_recovers_torn (rs : List (Record F)) (r : Record F) {k : Nat}
    (hk : k ≤ utf8Len r.text) (hb : ¬ OnBoundary r k) (rs' : List (Record F)) :
    ¬ Recovers rs r k rs' := by
  rcases cut_cases r.text k hk with ⟨ds, es, heq, hl, -⟩ | ⟨ds, c, es, j, -, hj, hjc, -, hcut⟩
  · exact absurd ⟨ds, ⟨es, heq.symm⟩, hl⟩ hb
  · simp only [Recovers, crashed_eq, Option.some.injEq, exists_eq_left']
    rw [hcut, ByteArray.append_assoc, readDay_eq, readText?, decode?_utf8_append,
      decode?_utf8_append, decode?_torn c j hj hjc]
    simp

/-- The text before a cut inside the line. -/
theorem body_of_cut {r : Record F} {ds es : List Char} (heq : r.text = ds ++ es) (hes : es ≠ []) :
    ∃ t, r.body = ds ++ t ∧ (utf8Len r.body ≤ utf8Len ds ↔ t = []) := by
  obtain ⟨t, x, rfl⟩ := (List.eq_nil_or_concat es).resolve_left hes
  rw [List.concat_eq_append, ← List.append_assoc, Record.text] at heq
  obtain ⟨hbody, -⟩ := List.append_inj' heq rfl
  refine ⟨t, hbody, ?_⟩
  rw [hbody, utf8Len_append]
  constructor
  · intro h
    by_contra hne
    have := utf8Len_pos hne
    omega
  · rintro rfl
    simp

theorem Record.dumps_cut {r : Record F} {ds t : List Char} (h : r.body = ds ++ t) :
    dumps true (.obj r.fields) = ofChars ds ++ ofChars t := by
  have := r.ofChars_body
  rw [h] at this
  rw [← Record.json, ← this]
  simp [ofChars]

/-- A cut between characters is read, if nothing follows. -/
theorem recovers_last (rs : List (Record F)) (r : Record F) {k : Nat} (hb : OnBoundary r k) :
    Recovers rs r k [] := by
  obtain ⟨ds, ⟨es, heq⟩, rfl⟩ := hb
  by_cases hes : es = []
  · subst hes
    rw [List.append_nil] at heq
    exact recovers_outside rs r (Or.inr (by rw [heq])) []
  · obtain ⟨t, hbody, hlen⟩ := body_of_cut heq.symm hes
    have hcut : (utf8 r.text).extract 0 (utf8Len ds) = utf8 ds := by
      rw [← heq, extract_utf8_append]
    have hnl : '\n' ∉ ds := fun h => r.newline_notMem (by rw [hbody]; exact List.mem_append_left _ h)
    rw [recovers_iff_records ⟨es, heq⟩ hcut, List.flatMap_nil, List.append_nil, records_last hnl,
      completed, List.append_nil]
    by_cases ht : t = []
    · subst ht
      rw [List.append_nil] at hbody
      rw [if_pos (hlen.mpr rfl), ← hbody, r.readLine_body]
      rfl
    · have htorn := loads_torn true r.fields r.wf (Record.dumps_cut hbody)
        (by simpa [ofChars] using ht)
      rw [if_neg (mt hlen.mp ht), readLine, htorn]
      simp

/-- After a cut inside the line the next record is lost with it. -/
theorem not_recovers_glued (rs : List (Record F)) (r : Record F) {k : Nat} (hk : 0 < k)
    (hlt : k < utf8Len r.text) (hb : OnBoundary r k) (r' : Record F) (rs' : List (Record F)) :
    ¬ Recovers rs r k (r' :: rs') := by
  obtain ⟨ds, ⟨es, heq⟩, rfl⟩ := hb
  have hes : es ≠ [] := by
    rintro rfl
    rw [List.append_nil] at heq
    rw [heq] at hlt
    omega
  have hds : ds ≠ [] := by
    rintro rfl
    simp at hk
  obtain ⟨t, hbody, -⟩ := body_of_cut heq.symm hes
  have hcut : (utf8 r.text).extract 0 (utf8Len ds) = utf8 ds := by
    rw [← heq, extract_utf8_append]
  have hnl : '\n' ∉ ds ++ r'.body := by
    rw [List.mem_append, not_or]
    exact ⟨fun h => r.newline_notMem (by rw [hbody]; exact List.mem_append_left _ h),
      r'.newline_notMem⟩
  have hglued := loads_glued true r.fields r.wf (Record.dumps_cut hbody)
    (by simpa [ofChars] using hds) r'.fields r'.wf
  have hline : readLine (F := F) (ofChars (ds ++ r'.body)) = none := by
    have hsplit : ofChars (ds ++ r'.body) = ofChars ds ++ dumps true (.obj r'.fields) := by
      rw [← Record.json, ← r'.ofChars_body]
      simp [ofChars]
    rw [readLine, hsplit, hglued]
    simp
  have hrest := records_texts rs' []
  rw [List.append_nil, records_nil, List.append_nil] at hrest
  have htext : ds ++ (r' :: rs').flatMap Record.text =
      (ds ++ r'.body) ++ '\n' :: rs'.flatMap Record.text := by
    simp [Record.text]
  rw [recovers_iff_records ⟨es, heq⟩ hcut, htext, records_line hnl, hline, hrest]
  -- one record too few
  intro h
  have := congrArg List.length h
  simp at this
  omega

/-- **Recovery.**  What `read_day` returns after a crash and a restart is
exactly what was written if and only if the cut is before or after the whole
line, or between two of its characters with nothing appended after it. -/
theorem recovers_iff (rs : List (Record F)) (r : Record F) (k : Nat) (rs' : List (Record F)) :
    Recovers rs r k rs' ↔
      k = 0 ∨ utf8Len r.text ≤ k ∨ (rs' = [] ∧ OnBoundary r k) := by
  constructor
  · intro h
    by_contra hno
    simp only [not_or, not_and] at hno
    obtain ⟨h0, hlen, hlast⟩ := hno
    by_cases hb : OnBoundary r k
    · cases rs' with
      | nil => exact hlast rfl hb
      | cons r' rs' => exact not_recovers_glued rs r (by omega) (by omega) hb r' rs' h
    · exact not_recovers_torn rs r (by omega) hb rs' h
  · rintro (h | h | ⟨rfl, hb⟩)
    · exact recovers_outside rs r (Or.inl h) rs'
    · exact recovers_outside rs r (Or.inr h) rs'
    · exact recovers_last rs r hb

/-- The empty record, `{}`. -/
def emptyRecord : Record Token where
  fields := []
  wf := ⟨List.nodup_nil, trivial⟩
  clean := trivial

/-- The hub dies after the first byte of `{}`; the record its successor appends
is lost. -/
theorem restart_loses_a_record : ¬ Recovers [] emptyRecord 1 [emptyRecord] := by
  have htext : emptyRecord.text = ['{', '}', '\n'] := rfl
  refine not_recovers_glued [] emptyRecord Nat.one_pos ?_ ⟨['{'], ?_, rfl⟩ emptyRecord []
  · rw [htext]; decide
  · rw [htext]; exact ⟨['}', '\n'], rfl⟩

end Moot.Transcript
