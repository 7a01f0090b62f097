import Moot.Lib.Lines
import Moot.Lib.Utf8
import Moot.Primitives

/-!
# The input history

`History` of `spoke/tui.py`: one JSON string per line, appended to a file that is
cut back now and then, by one instance after another.

Proved here: `history_survives_iff`.  The file keeps the history as long as no
text holds a line end that JSON leaves as it is (`strings_broken`).
-/

namespace Moot.Spoke
open Py PyJson

/-! ## The history -/

def historyKeep : Nat := 500
def historyCap : Nat := 2000
def trimSlack : Nat := 200

theorem historyKeep_pos : 0 < historyKeep := Nat.zero_lt_succ _

theorem historyKeep_le : historyKeep ≤ historyCap := by decide

/-- `History`, but for its path. -/
structure History where
  loaded : Bool := false
  last : Option Str := none
  count : Nat := 0

/-- `read_text`, of a file that may not exist; `none` is the `UnicodeDecodeError`. -/
def contents : Option ByteArray → Option Str
  | none => some []
  | some bytes => (readText? bytes).map ofChars

section
variable (F : Type) [PyFloat F]

namespace History

/-- `load` -/
def load (file : Option ByteArray) : Option (List Str × History) := do
  let entries := strings F (← contents file)
  return (lastN historyKeep entries, ⟨true, entries.getLast?, entries.length⟩)

/-- `_trim`: the new file, and the new count. -/
def trim (file : Option ByteArray) : Option (ByteArray × Nat) := do
  let lines := (splitlines (← contents file)).filter fun line => (stringOf F line).isSome
  let kept := lastN historyCap lines
  let bytes ← encode? (if kept.isEmpty then [] else join (str "\n") kept ++ str "\n")
  return (bytes, kept.length)

/-- `if not self._loaded: self.load()` -/
def primed (h : History) (file : Option ByteArray) : Option History :=
  if h.loaded then some h else (load F file).map Prod.snd

/-- `append`; `none` is an exception. -/
def append (h : History) (file : Option ByteArray) (entry : Str) :
    Option (History × Option ByteArray) := do
  let h ← primed F h file
  if some entry = h.last then return (h, file)
  let line ← encode? (lineOf (F := F) entry)
  let file := some (file.getD ByteArray.empty ++ line)
  let h := { h with last := some entry, count := h.count + 1 }
  if historyCap + trimSlack < h.count then
    let (bytes, count) ← trim F file
    return ({ h with count := count }, some bytes)
  else return (h, file)

end History

/-- What happens to the file: a new instance, a `load` of the one there is, an `append`. -/
inductive HistoryOp
  | start
  | load
  | append (text : Str)

namespace History

/-- One operation on the instance and the file. -/
def step : History × Option ByteArray → HistoryOp → Option (History × Option ByteArray)
  | (_, file), .start => some ({}, file)
  | (_, file), .load => (load F file).map fun r => (r.2, file)
  | (h, file), .append text => append F h file text

/-- A run, from where there is no file. -/
def run (ops : List HistoryOp) : Option (History × Option ByteArray) := ops.foldlM (step F) ({}, none)

end History

end

/-! ## What the file is to hold -/

/-- The texts that are appended. -/
def texts (ops : List HistoryOp) : List Str :=
  ops.filterMap fun
    | .append text => some text
    | _ => none

/-- A text after the others, unless it repeats the last. -/
def note (L : List Str) (text : Str) : List Str := if L.getLast? = some text then L else L ++ [text]

/-- The texts, with consecutive equal ones collapsed. -/
def collapse (ts : List Str) : List Str := ts.foldl note []

/-- The file has the end of `L`, and a new instance loads the end of `L`. -/
structure Survives (F : Type) [PyFloat F] (L : List Str) (file : Option ByteArray) : Prop where
  entries : ∃ text, contents file = some text ∧ strings F text <:+ L ∧
    min L.length historyCap ≤ (strings F text).length ∧
    (strings F text).length ≤ historyCap + trimSlack
  load : (History.load F file).map Prod.fst = some (L.drop (L.length - historyKeep))

theorem texts_append (ops : List HistoryOp) (op : HistoryOp) :
    texts (ops ++ [op]) = texts ops ++ texts [op] := List.filterMap_append

theorem collapse_append (ts : List Str) (t : Str) : collapse (ts ++ [t]) = note (collapse ts) t :=
  List.foldl_concat ..

theorem mem_collapse {ts : List Str} {s : Str} (hs : s ∈ collapse ts) : s ∈ ts := by
  induction ts using List.reverseRecOn with
  | nil => cases hs
  | append_singleton ts t ih =>
    rw [collapse_append, note] at hs
    rw [List.mem_append, List.mem_singleton]
    split at hs
    · exact Or.inl (ih hs)
    · rw [List.mem_append, List.mem_singleton] at hs
      exact hs.imp_left ih

/-! ## The file -/

section
variable {F : Type} [PyFloat F]

/-- The bytes of the file are those of the text, which is read as it is. -/
def Holds (text : Str) : Option ByteArray → Prop
  | none => text = []
  | some bytes => ∃ cs, bytes = utf8 cs ∧ '\r' ∉ cs ∧ text = ofChars cs

variable (F) in
/-- The lines of the text are all ended. -/
def Whole (text : Str) : Prop := ∀ t, strings F (text ++ t) = strings F text ++ strings F t

variable (F) in
/-- The file has the entries. -/
def Stored (entries : List Str) (file : Option ByteArray) : Prop :=
  ∃ text, Holds text file ∧ Whole F text ∧ strings F text = entries

theorem Holds.contents {text : Str} {file : Option ByteArray} (hf : Holds text file) :
    contents file = some text := by
  cases file with
  | none =>
    rw [Spoke.contents, hf]
  | some bytes =>
    obtain ⟨cs, rfl, hcr, rfl⟩ := hf
    rw [Spoke.contents, readText?, decode?_utf8, Option.map_some, universalNewlines_of_notMem hcr]
    rfl

/-- A string without surrogates and carriage returns is written to the file. -/
theorem holds_encode {s : Str} (hclean : Clean s) (hcr : .scalar '\r' ∉ s) :
    ∃ cs, encode? s = some (utf8 cs) ∧ '\r' ∉ cs ∧ s = ofChars cs := by
  obtain ⟨cs, rfl⟩ := (clean_iff_ofChars s).mp hclean
  refine ⟨cs, ?_, fun hmem => hcr (List.mem_map_of_mem hmem), rfl⟩
  rw [encode?, chars?_ofChars]
  rfl

theorem Holds.append {text s : Str} {file : Option ByteArray} (hf : Holds text file)
    (hclean : Clean s) (hcr : .scalar '\r' ∉ s) :
    ∃ bytes, encode? s = some bytes ∧
      Holds (text ++ s) (some (file.getD ByteArray.empty ++ bytes)) := by
  obtain ⟨cs, hbytes, hcs, rfl⟩ := holds_encode hclean hcr
  refine ⟨utf8 cs, hbytes, ?_⟩
  cases file with
  | none =>
    refine ⟨cs, ByteArray.empty_append, hcs, ?_⟩
    rw [show text = [] from hf, List.nil_append]
  | some old =>
    obtain ⟨ds, rfl, hds, rfl⟩ := hf
    refine ⟨ds ++ cs, (utf8_append ds cs).symm, ?_, List.map_append.symm⟩
    rw [List.mem_append, not_or]
    exact ⟨hds, hcs⟩

/-! ## Lines -/

theorem strings_nil : strings F [] = [] := rfl

/-- What a line adds. -/
theorem strings_lineOf (s t : Str) :
    strings F (lineOf (F := F) s ++ t) = (if Unbroken s then [s] else []) ++ strings F t := by
  split
  · next hs => exact strings_line hs t
  · next hs => exact strings_broken hs t

theorem Whole.line {text : Str} (hw : Whole F text) (s : Str) :
    Whole F (text ++ lineOf (F := F) s) := by
  intro t
  have hself := strings_lineOf (F := F) s []
  rw [List.append_nil, strings_nil, List.append_nil] at hself
  rw [List.append_assoc, hw, hw, strings_lineOf, hself, List.append_assoc]

theorem strings_append_line {text : Str} (hw : Whole F text) (s : Str) :
    strings F (text ++ lineOf (F := F) s) =
      strings F text ++ if Unbroken s then [s] else [] := by
  have hself := strings_lineOf (F := F) s []
  rw [List.append_nil, strings_nil, List.append_nil] at hself
  rw [hw, hself]

theorem strings_flatMap {ls : List Str} (hls : ∀ l ∈ ls, ∀ p ∈ l, isLineEnd p = false) (t : Str) :
    strings F (ls.flatMap (· ++ str "\n") ++ t) = ls.filterMap (stringOf F) ++ strings F t := by
  rw [strings, splitlines_flatMap hls, List.filterMap_append, strings]

theorem clean_lineOf {s : Str} (hs : Clean s) : Clean (lineOf (F := F) s) :=
  (clean_append _ _).mpr ⟨(clean_dumps true (.str s : Json F)).mpr hs, clean_str _⟩

theorem return_notMem_lineOf (s : Str) : .scalar '\r' ∉ lineOf (F := F) s := by
  intro hmem
  rcases List.mem_append.mp hmem with hmem | hmem
  · exact absurd (not_control_dumps true (.str s : Json F) _ hmem) (by decide)
  · exact absurd hmem (by decide)

theorem Stored.append {es : List Str} {file : Option ByteArray} (hf : Stored F es file) {s : Str}
    (hs : Clean s) : ∃ bytes, encode? (lineOf (F := F) s) = some bytes ∧
      Stored F (es ++ if Unbroken s then [s] else []) (some (file.getD ByteArray.empty ++ bytes)) := by
  obtain ⟨text, hholds, hwhole, rfl⟩ := hf
  obtain ⟨bytes, hbytes, hholds'⟩ := hholds.append (clean_lineOf (F := F) hs)
    (return_notMem_lineOf s)
  exact ⟨bytes, hbytes, _, hholds', hwhole.line s, strings_append_line hwhole s⟩

/-! ## The trim -/

theorem filterMap_eq_map_filter {α β : Type} (f : α → Option β) (d : β) (xs : List α) :
    xs.filterMap f = (xs.filter fun x => (f x).isSome).map fun x => (f x).getD d := by
  induction xs with
  | nil => rfl
  | cons x xs ih =>
    cases hx : f x with
    | none => rw [List.filterMap_cons_none hx, List.filter_cons_of_neg (by simp [hx]), ih]
    | some y =>
      rw [List.filterMap_cons_some hx, List.filter_cons_of_pos (by simp [hx]), List.map_cons, hx, ih]
      rfl

/-- The lines that `_trim` keeps hold the last entries. -/
theorem filterMap_lastN {α β : Type} (f : α → Option β) (n : Nat) (xs : List α) :
    (lastN n (xs.filter fun x => (f x).isSome)).filterMap f = lastN n (xs.filterMap f) := by
  cases hxs : xs.filterMap f with
  | nil =>
    have hnone : xs.filter (fun x => (f x).isSome) = [] := by
      rw [List.filterMap_eq_nil_iff] at hxs
      rw [List.filter_eq_nil_iff]
      intro x hx
      rw [hxs x hx]
      exact Bool.false_ne_true
    rw [hnone]
    unfold lastN
    simp
  | cons d ds =>
    have hall : (lastN n (xs.filter fun x => (f x).isSome)).filter (fun x => (f x).isSome) =
        lastN n (xs.filter fun x => (f x).isSome) := by
      rw [List.filter_eq_self]
      intro x hx
      exact (List.mem_filter.mp ((lastN_suffix _ _).subset hx)).2
    rw [← hxs, filterMap_eq_map_filter f d, hall, filterMap_eq_map_filter f d xs, lastN_map]

theorem Stored.trim {es : List Str} {file : Option ByteArray} (hf : Stored F es file) :
    ∃ bytes, History.trim F file = some (bytes, (lastN historyCap es).length) ∧
      Stored F (lastN historyCap es) (some bytes) := by
  obtain ⟨text, hholds, -, rfl⟩ := hf
  have hclean : Clean text := by
    cases file with
    | none => rw [show text = [] from hholds]; exact clean_nil
    | some bytes =>
      obtain ⟨cs, -, -, rfl⟩ := hholds
      exact clean_ofChars cs
  obtain ⟨kept, hkept⟩ : ∃ kept, kept = lastN historyCap
      ((splitlines text).filter fun line => (stringOf F line).isSome) := ⟨_, rfl⟩
  have hsub : ∀ l ∈ kept, l ∈ splitlines text ∧ (stringOf F l).isSome = true := by
    rw [hkept]
    exact fun l hl => List.mem_filter.mp ((lastN_suffix _ _).subset hl)
  have hends : ∀ l ∈ kept, ∀ p ∈ l, isLineEnd p = false := fun l hl p hp =>
    (mem_splitlines (hsub l hl).1 p hp).2
  have hentries : kept.filterMap (stringOf F) = lastN historyCap (strings F text) := by
    rw [hkept]
    exact filterMap_lastN _ _ _
  have hlen : kept.length = (lastN historyCap (strings F text)).length := by
    have hall : kept.filter (fun line => (stringOf F line).isSome) = kept :=
      List.filter_eq_self.mpr fun l hl => (hsub l hl).2
    rw [← hentries, filterMap_eq_map_filter (stringOf F) [], List.length_map, hall]
  have hjoin : (if kept.isEmpty then [] else join (str "\n") kept ++ str "\n") =
      kept.flatMap (· ++ str "\n") := by
    by_cases hnil : kept = []
    · rw [hnil]
      rfl
    · rw [if_neg (by simpa using hnil), join_newline hnil]
  have hmem : ∀ p ∈ kept.flatMap (· ++ str "\n"), p ∈ text ∧ isLineEnd p = false ∨ p = .scalar '\n' := by
    intro p hp
    obtain ⟨l, hl, hp⟩ := List.mem_flatMap.mp hp
    rcases List.mem_append.mp hp with hp | hp
    · exact Or.inl (mem_splitlines (hsub l hl).1 p hp)
    · exact Or.inr (List.mem_singleton.mp hp)
  have hnew : Clean (kept.flatMap (· ++ str "\n")) := by
    intro p hp
    rcases hmem p hp with ⟨hp, -⟩ | rfl
    · exact hclean p hp
    · rfl
  have hcr : .scalar '\r' ∉ kept.flatMap (· ++ str "\n") := by
    intro hp
    rcases hmem _ hp with ⟨-, hp⟩ | hp
    · exact absurd hp (by decide)
    · exact absurd hp (by decide)
  obtain ⟨cs, hbytes, hcs, htext⟩ := holds_encode hnew hcr
  refine ⟨utf8 cs, ?_, kept.flatMap (· ++ str "\n"), ⟨cs, rfl, hcs, htext⟩, ?_, ?_⟩
  · rw [History.trim, hholds.contents]
    simp only [Option.bind_eq_bind, Option.bind_some, ← hkept, hjoin, hbytes, hlen]
    rfl
  · intro t
    have hself := strings_flatMap (F := F) hends []
    rw [List.append_nil, strings_nil, List.append_nil] at hself
    rw [strings_flatMap hends, hself]
  · have hself := strings_flatMap (F := F) hends []
    rw [List.append_nil, strings_nil, List.append_nil] at hself
    rw [hself, hentries]

/-! ## One append -/

/-- What an instance remembers of the file. -/
def History.Loaded (h : History) (es : List Str) : Prop :=
  h.loaded = true → h.last = es.getLast? ∧ h.count = es.length

theorem Stored.load {es : List Str} {file : Option ByteArray} (hf : Stored F es file) :
    History.load F file = some (lastN historyKeep es, ⟨true, es.getLast?, es.length⟩) := by
  obtain ⟨text, hholds, -, rfl⟩ := hf
  rw [History.load, hholds.contents]
  rfl

/-- The entries after the append of a text that does not repeat the last. -/
def appended (es : List Str) (text : Str) : List Str :=
  let es' := es ++ if Unbroken text then [text] else []
  if historyCap + trimSlack < es.length + 1 then lastN historyCap es' else es'

theorem primed_spec {h : History} {es : List Str} {file : Option ByteArray} (hf : Stored F es file)
    (hh : h.Loaded es) :
    ∃ h' : History, History.primed F h file = some h' ∧ h'.last = es.getLast? ∧
      h'.count = es.length := by
  unfold History.primed
  split
  · next hl => exact ⟨h, rfl, hh hl⟩
  · exact ⟨_, by rw [hf.load]; rfl, rfl, rfl⟩

theorem append_repeated {h : History} {es : List Str} {file : Option ByteArray}
    (hf : Stored F es file) (hh : h.Loaded es) {text : Str} (hlast : es.getLast? = some text) :
    ∃ h', History.append F h file text = some (h', file) ∧ h'.Loaded es := by
  obtain ⟨h', hh', hlast', hcount'⟩ := primed_spec hf hh
  refine ⟨h', ?_, fun _ => ⟨hlast', hcount'⟩⟩
  rw [History.append, hh', Option.bind_eq_bind, Option.bind_some, if_pos (by rw [hlast', hlast])]
  rfl

theorem getLast?_lastN {α : Type} {n : Nat} (hn : 0 < n) (xs : List α) (x : α) :
    (lastN n (xs ++ [x])).getLast? = some x := by
  unfold lastN
  rw [if_neg (by omega), List.getLast?_drop, if_neg, List.getLast?_concat]
  rw [List.length_append, List.length_singleton]
  omega

theorem append_new {h : History} {es : List Str} {file : Option ByteArray}
    (hf : Stored F es file) (hh : h.Loaded es) {text : Str} (hclean : Clean text)
    (hlast : es.getLast? ≠ some text) :
    ∃ h' file', History.append F h file text = some (h', file') ∧
      Stored F (appended es text) file' ∧ (Unbroken text → h'.Loaded (appended es text)) := by
  obtain ⟨bytes, hbytes, hnew⟩ := hf.append hclean
  obtain ⟨h₀, hh₀, hlast₀, hcount₀⟩ := primed_spec hf hh
  have hne : ¬some text = h₀.last := by
    rw [hlast₀]
    exact fun heq => hlast heq.symm
  unfold History.append
  rw [hh₀, Option.bind_eq_bind, Option.bind_some, if_neg hne, hbytes, Option.bind_eq_bind,
    Option.bind_some]
  simp only [hcount₀]
  by_cases hlong : historyCap + trimSlack < es.length + 1
  · obtain ⟨trimmed, htrim, hstored⟩ := hnew.trim
    have happended : appended es text = lastN historyCap (es ++ if Unbroken text then [text] else []) :=
      if_pos hlong
    rw [if_pos hlong, htrim, happended]
    refine ⟨_, _, rfl, hstored, fun hu _ => ⟨?_, by dsimp only⟩⟩
    rw [if_pos hu]
    exact (getLast?_lastN (Nat.zero_lt_succ _) es text).symm
  · have happended : appended es text = es ++ if Unbroken text then [text] else [] := if_neg hlong
    rw [if_neg hlong, happended]
    refine ⟨_, _, rfl, hnew, fun hu _ => ⟨?_, ?_⟩⟩
    · rw [if_pos hu, List.getLast?_concat]
    · rw [if_pos hu, List.length_append]
      rfl

/-! ## Runs -/

/-- The file has a long enough end of `L`, of texts without line ends. -/
structure Tails (L : List Str) (es : List Str) : Prop where
  suffix : es <:+ L
  long : min L.length historyCap ≤ es.length
  short : es.length ≤ historyCap + trimSlack

theorem Tails.getLast? {L es : List Str} (ht : Tails L es) : es.getLast? = L.getLast? := by
  obtain ⟨old, rfl⟩ := ht.suffix
  cases hes : es with
  | nil =>
    have hlong := ht.long
    rw [hes, List.append_nil, List.length_nil] at hlong
    have hold : old = [] := List.eq_nil_of_length_eq_zero (by
      have : historyCap = 2000 := rfl
      omega)
    rw [hold, List.append_nil]
  | cons e es => rw [List.getLast?_append_of_ne_nil _ (by simp)]

theorem length_lastN {α : Type} {n : Nat} (hn : 0 < n) (xs : List α) :
    (lastN n xs).length = min xs.length n := by
  unfold lastN
  rw [if_neg (by omega), List.length_drop]
  omega

theorem Tails.note {L es : List Str} (ht : Tails L es) {text : Str} (hu : Unbroken text)
    (hlast : L.getLast? ≠ some text) : Tails (note L text) (appended es text) := by
  have hnote : Spoke.note L text = L ++ [text] := if_neg hlast
  have hsuffix : es ++ [text] <:+ L ++ [text] := by
    obtain ⟨old, rfl⟩ := ht.suffix
    exact ⟨old, (List.append_assoc ..).symm⟩
  have hcap : 0 < historyCap := Nat.zero_lt_succ _
  have hlong := ht.long
  have hshort := ht.short
  have hlength : (es ++ [text]).length = es.length + 1 := List.length_append
  rw [hnote, appended, if_pos hu]
  split
  · next hover =>
    refine ⟨(lastN_suffix _ _).trans hsuffix, ?_, ?_⟩
    · rw [length_lastN hcap, hlength]
      omega
    · rw [length_lastN hcap, hlength]
      omega
  · next hroom =>
    refine ⟨hsuffix, ?_, ?_⟩
    · rw [hlength, List.length_append, List.length_singleton]
      omega
    · rw [hlength]
      omega

/-- The end of a long enough end. -/
theorem drop_suffix {α : Type} {k n : Nat} (hk : 0 < k) (hkn : k ≤ n) {xs ys : List α}
    (hlong : min (xs ++ ys).length n ≤ ys.length) :
    (xs ++ ys).drop ((xs ++ ys).length - k) = lastN k ys := by
  rw [List.length_append] at hlong ⊢
  unfold lastN
  rw [if_neg (by omega)]
  by_cases hle : k ≤ ys.length
  · have hat : xs.length + ys.length - k = xs.length + (ys.length - k) := by omega
    rw [hat, List.drop_length_add_append]
  · have hxs : xs = [] := List.eq_nil_of_length_eq_zero (by omega)
    rw [hxs, List.nil_append, List.length_nil, Nat.zero_add]

/-- What a run of unbroken texts keeps. -/
def Kept (F : Type) [PyFloat F] (L : List Str) (s : History × Option ByteArray) : Prop :=
  ∃ es, Stored F es s.2 ∧ s.1.Loaded es ∧ Tails L es

theorem stored_start : Stored F [] none := ⟨[], rfl, fun _ => rfl, rfl⟩

theorem Kept.step {L : List Str} {s : History × Option ByteArray} (hk : Kept F L s) {op : HistoryOp}
    (hop : ∀ t ∈ texts [op], Clean t ∧ Unbroken t) :
    ∃ s', History.step F s op = some s' ∧ Kept F ((texts [op]).foldl note L) s' := by
  obtain ⟨h, file⟩ := s
  obtain ⟨es, hstored, hloaded, ht⟩ := hk
  cases op with
  | start => exact ⟨_, rfl, es, hstored, nofun, ht⟩
  | load =>
    refine ⟨(⟨true, es.getLast?, es.length⟩, file), ?_, es, hstored, fun _ => ⟨rfl, rfl⟩, ht⟩
    rw [History.step, hstored.load]
    rfl
  | append text =>
    obtain ⟨hclean, hu⟩ := hop text (List.mem_singleton_self _)
    by_cases hlast : es.getLast? = some text
    · obtain ⟨h', heq, hloaded'⟩ := append_repeated hstored hloaded hlast
      have hnote : note L text = L := if_pos (ht.getLast?.symm.trans hlast)
      refine ⟨_, heq, es, hstored, hloaded', ?_⟩
      show Tails (note L text) es
      rw [hnote]
      exact ht
    · obtain ⟨h', file', heq, hstored', hloaded'⟩ := append_new hstored hloaded hclean hlast
      refine ⟨_, heq, _, hstored', hloaded' hu, ht.note hu ?_⟩
      rw [← ht.getLast?]
      exact hlast

theorem run_append (ops : List HistoryOp) (op : HistoryOp) :
    History.run F (ops ++ [op]) = (History.run F ops).bind fun s => History.step F s op := by
  have hone : ∀ s, [op].foldlM (History.step F) s = History.step F s op := by
    intro s
    rw [List.foldlM_cons]
    exact bind_pure _
  rw [History.run, List.foldlM_append]
  exact congrArg _ (funext hone)

theorem collapse_texts (ops : List HistoryOp) (op : HistoryOp) :
    collapse (texts (ops ++ [op])) = (texts [op]).foldl note (collapse (texts ops)) := by
  rw [texts_append, collapse, List.foldl_append, collapse]

/-- **Run lemma.** -/
theorem run_kept {ops : List HistoryOp} (hops : ∀ t ∈ texts ops, Clean t ∧ Unbroken t) :
    ∃ s, History.run F ops = some s ∧ Kept F (collapse (texts ops)) s := by
  induction ops using List.reverseRecOn with
  | nil =>
    refine ⟨_, rfl, [], stored_start, nofun, List.suffix_refl _, Nat.zero_le _, Nat.zero_le _⟩
  | append_singleton ops op ih =>
    rw [texts_append] at hops
    obtain ⟨s, hs, hk⟩ := ih fun t ht => hops t (List.mem_append_left _ ht)
    obtain ⟨s', hs', hk'⟩ := hk.step fun t ht => hops t (List.mem_append_right _ ht)
    refine ⟨s', ?_, ?_⟩
    · rw [run_append, hs, Option.bind_some, hs']
    · rw [collapse_texts]
      exact hk'

theorem Kept.survives {L : List Str} {s : History × Option ByteArray} (hk : Kept F L s) :
    Survives F L s.2 := by
  obtain ⟨es, hstored, -, ht⟩ := hk
  have hload := hstored.load
  obtain ⟨text, hholds, -, hes⟩ := hstored
  refine ⟨⟨text, hholds.contents, ?_⟩, ?_⟩
  · rw [hes]
    exact ⟨ht.suffix, ht.long, ht.short⟩
  rw [hload, Option.map_some, Option.some.injEq]
  dsimp only
  obtain ⟨old, hold⟩ := ht.suffix
  rw [← hold]
  have hlong : min (old ++ es).length historyCap ≤ es.length := by
    rw [hold]
    exact ht.long
  exact (drop_suffix historyKeep_pos historyKeep_le hlong).symm

/-- What a broken text loses. -/
theorem not_survives {L es : List Str} {file : Option ByteArray} (hf : Stored F es file) {text : Str}
    (hmem : text ∉ es) : ¬Survives F (L ++ [text]) file := by
  intro hs
  have hload := hs.load
  rw [hf.load, Option.map_some, Option.some.injEq] at hload
  dsimp only at hload
  have hlast : text ∈ (L ++ [text]).drop ((L ++ [text]).length - historyKeep) := by
    apply List.mem_of_getLast?
    rw [List.getLast?_drop, if_neg, List.getLast?_concat]
    have hpos := historyKeep_pos
    rw [List.length_append, List.length_singleton]
    omega
  rw [← hload] at hlast
  exact hmem ((lastN_suffix _ _).subset hlast)

theorem mem_appended {es : List Str} {text s : Str} (hu : ¬Unbroken text)
    (hs : s ∈ appended es text) : s ∈ es := by
  rw [appended, if_neg hu, List.append_nil] at hs
  split at hs
  · exact (lastN_suffix _ _).subset hs
  · exact hs

/-- **The history survives** exactly as long as no text has one of the three line ends in it. -/
theorem history_survives_iff (ops : List HistoryOp) (hclean : ∀ t ∈ texts ops, Clean t) :
    (∀ pre, pre <+: ops → ∃ s, History.run F pre = some s ∧
      Survives F (collapse (texts pre)) s.2) ↔
    ∀ t ∈ texts ops, ∀ p ∈ t, p.val ≠ 0x85 ∧ p.val ≠ 0x2028 ∧ p.val ≠ 0x2029 := by
  simp only [← unbroken_iff]
  constructor
  · intro hall
    induction ops using List.reverseRecOn with
    | nil => nofun
    | append_singleton ops op ih =>
      rw [texts_append] at hclean ⊢
      have hold : ∀ t ∈ texts ops, Unbroken t := ih (fun t ht => hclean t (List.mem_append_left _ ht))
        fun pre hpre => hall pre (hpre.trans (List.prefix_append _ _))
      obtain ⟨⟨h, file⟩, hrun, es, hstored, hloaded, ht⟩ := @run_kept F _ ops fun t ht =>
        ⟨hclean t (List.mem_append_left _ ht), hold t ht⟩
      intro t hmem
      rcases List.mem_append.mp hmem with hmem | hmem
      · exact hold t hmem
      · cases op with
        | start => cases hmem
        | load => cases hmem
        | append text =>
          rw [List.mem_singleton.mp hmem]
          by_contra hbroken
          -- the text is not among the entries, which are unbroken
          have hes : text ∉ es := fun hin => hbroken (hold _ (mem_collapse (ht.suffix.subset hin)))
          have hlast : es.getLast? ≠ some text := fun heq => hes (List.mem_of_getLast? heq)
          obtain ⟨h', file', heq, hstored', -⟩ := append_new hstored hloaded
            (hclean text (List.mem_append_right _ (List.mem_singleton_self _))) hlast
          obtain ⟨s, hs, hsurvives⟩ := hall _ (List.prefix_refl _)
          rw [run_append, hrun, Option.bind_some, History.step, heq, Option.some.injEq] at hs
          have hnote : collapse (texts (ops ++ [.append text])) = collapse (texts ops) ++ [text] := by
            rw [texts_append]
            exact (collapse_append _ _).trans (if_neg (by rw [← ht.getLast?]; exact hlast))
          rw [← hs, hnote] at hsurvives
          exact not_survives hstored' (fun hin => hes (mem_appended hbroken hin)) hsurvives
  · intro hu pre hpre
    have hsub : ∀ t ∈ texts pre, t ∈ texts ops := fun t ht => (hpre.filterMap _).subset ht
    obtain ⟨s, hs, hk⟩ := @run_kept F _ pre fun t ht =>
      ⟨hclean t (hsub t ht), hu t (hsub t ht)⟩
    exact ⟨s, hs, hk.survives⟩

end

/-- A text of two lines, as a word processor writes it. -/
def twoLines : Str := str "a\u2028b"

theorem history_lost : ¬∀ ops : List HistoryOp, (∀ t ∈ texts ops, Clean t) →
    ∀ pre, pre <+: ops → ∃ s, History.run Token pre = some s ∧
      Survives Token (collapse (texts pre)) s.2 := by
  intro hall
  have hbroken : ¬Unbroken twoLines := by decide
  obtain ⟨s, hs, hsurvives⟩ := hall [.append twoLines] (by decide) _ (List.prefix_refl _)
  have hclean : Clean twoLines := by decide
  obtain ⟨h', file', heq, hstored, -⟩ := append_new (F := Token) (h := {}) stored_start nofun hclean
    nofun
  have hrun : History.run Token [.append twoLines] = some (h', file') := by
    rw [← List.nil_append [HistoryOp.append twoLines], run_append]
    exact heq
  rw [hrun, Option.some.injEq] at hs
  rw [← hs] at hsurvives
  exact not_survives (L := []) hstored (fun hmem => nomatch mem_appended hbroken hmem) hsurvives

/-- Three texts over two instances, with one repeated. -/
def twoSeats : List HistoryOp :=
  [.append (str "first"), .append (str "first"), .start, .load, .append (str "second")]

theorem history_survives_twoSeats :
    (∀ pre, pre <+: twoSeats → ∃ s, History.run Token pre = some s ∧
      Survives Token (collapse (texts pre)) s.2) ↔
    ∀ t ∈ texts twoSeats, ∀ p ∈ t, p.val ≠ 0x85 ∧ p.val ≠ 0x2028 ∧ p.val ≠ 0x2029 :=
  history_survives_iff twoSeats (by decide)

end Moot.Spoke
