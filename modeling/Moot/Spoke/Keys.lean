import Moot.Lib.Framing
import Moot.Lib.Utf8Stream

/-!
# Keys

`KeyParser` of `spoke/tui.py`: the bytes of the terminal, as they are read, become
keys.  A paste in brackets is one key, however the reads cut it.

Proved here: `paste_is_one_key`.
-/

namespace Moot.Spoke
open Py

/-- `KEY_NAMES` -/
inductive KeyName
  | up | down | left | right | home | «end» | delete | backspace
  | ctrlA | ctrlC | ctrlD | ctrlE | ctrlK | ctrlL | ctrlU | ctrlW
  | altB | altF
  deriving DecidableEq

/-- `Key` -/
inductive Key
  | char (s : Str)
  | paste (s : Str)
  | enter
  | altEnter
  | key (name : KeyName)
  deriving DecidableEq

/-- `_CTRL_KEYS` -/
def ctrlKeys : List (UInt8 × KeyName) :=
  [(0x01, .ctrlA), (0x03, .ctrlC), (0x04, .ctrlD), (0x05, .ctrlE), (0x0B, .ctrlK), (0x0C, .ctrlL),
    (0x15, .ctrlU), (0x17, .ctrlW)]

/-- `_CSI_FINALS` -/
def csiFinals : List (UInt8 × KeyName) :=
  [(0x41, .up), (0x42, .down), (0x43, .right), (0x44, .left), (0x48, .home), (0x46, .end)]

/-- `_CSI_TILDE` -/
def csiTilde : List (List UInt8 × KeyName) :=
  [([0x31], .home), ([0x33], .delete), ([0x34], .end), ([0x37], .home), ([0x38], .end)]

/-- What begins a paste: `\x1b[200~`. -/
def pasteStart : List UInt8 := [0x1B, 0x5B, 0x32, 0x30, 0x30, 0x7E]

/-- `_PASTE_END` -/
def pasteEnd : List UInt8 := [0x1B, 0x5B, 0x32, 0x30, 0x31, 0x7E]

def pasteLimit : Nat := 256 * 1024

/-- `_state` -/
inductive Mode
  | ground | esc | csi | ss3 | paste
  deriving DecidableEq

/-- `KeyParser`; the decoder is the bytes it keeps. -/
structure KeyParser where
  state : Mode := .ground
  csi : List UInt8 := []
  paste : List UInt8 := []
  decoder : List UInt8 := []

/-- `text.replace("\r\n", "\n")` -/
def replaceCrlf : Str → Str
  | [] => []
  | p :: s =>
    if p = .scalar '\r' ∧ s.head? = some (.scalar '\n') then replaceCrlf s else p :: replaceCrlf s

/-- The text of a paste: decoded, with `CRLF` and `CR` turned into `LF`. -/
def pasteText (raw : List UInt8) : Str :=
  (replaceCrlf (decodeReplace raw)).map fun p => if p = .scalar '\r' then .scalar '\n' else p

namespace KeyParser

/-- `_end_paste` -/
def endPaste (p : KeyParser) (raw : List UInt8) : Key × KeyParser :=
  (.paste (pasteText raw), { p with paste := [], state := .ground })

/-- The key of a name that a table may have. -/
def named (name : Option KeyName) : List Key := (name.map Key.key).toList

/-- A byte of a paste. -/
def stepPaste (p : KeyParser) (b : UInt8) : List Key × KeyParser :=
  let p := { p with paste := p.paste ++ [b] }
  if pasteEnd.isSuffixOf p.paste then
    let (key, p) := p.endPaste (p.paste.take (p.paste.length - pasteEnd.length))
    ([key], p)
  else if pasteLimit ≤ p.paste.length then
    let (key, p) := p.endPaste p.paste
    ([key], p)
  else ([], p)

/-- The byte after an escape. -/
def stepEsc (p : KeyParser) (b : UInt8) : List Key × KeyParser :=
  if b = 0x5B then ([], { p with state := .csi, csi := [] })
  else if b = 0x4F then ([], { p with state := .ss3 })
  else if b = 0x0A ∨ b = 0x0D then ([.altEnter], { p with state := .ground })
  else if b = 0x62 then ([.key .altB], { p with state := .ground })
  else if b = 0x66 then ([.key .altF], { p with state := .ground })
  else ([], { p with state := .ground })

/-- A byte of a control sequence. -/
def stepCsi (p : KeyParser) (b : UInt8) : List Key × KeyParser :=
  if 0x40 ≤ b ∧ b ≤ 0x7E then
    if b = 0x7E then
      if p.csi = [0x32, 0x30, 0x30] then ([], { p with state := .paste, paste := [], csi := [] })
      else (named (csiTilde.lookup p.csi), { p with state := .ground, csi := [] })
    else if b ≠ 0x5A then (named (csiFinals.lookup b), { p with state := .ground, csi := [] })
    else ([], { p with state := .ground, csi := [] })
  else ([], { p with csi := p.csi ++ [b] })

/-- A byte outside of sequences. -/
def stepGround (p : KeyParser) (b : UInt8) : List Key × KeyParser :=
  if b = 0x1B then ([], { p with state := .esc })
  else if b = 0x0A ∨ b = 0x0D then ([.enter], p)
  else if b = 0x7F ∨ b = 0x08 then ([.key .backspace], p)
  else if b = 0x09 then ([.char (str "\t")], p)
  else
    match ctrlKeys.lookup b with
    | some name => ([.key name], p)
    | none =>
      if b < 0x20 then ([], p)
      else if b < 0x80 then ([.char [.scalar (Char.ofNat b.toNat)]], p)
      else
        let (out, kept) := utf8Step p.decoder b
        (if out.isEmpty then [] else [.char out], { p with decoder := kept })

/-- One round of the loop of `feed`. -/
def step (p : KeyParser) (b : UInt8) : List Key × KeyParser :=
  match p.state with
  | .paste => p.stepPaste b
  | .esc => p.stepEsc b
  | .ss3 => (named (csiFinals.lookup b), { p with state := .ground })
  | .csi => p.stepCsi b
  | .ground => p.stepGround b

/-- `feed` -/
def feed (p : KeyParser) : List UInt8 → List Key × KeyParser
  | [] => ([], p)
  | b :: data => ((p.step b).1 ++ ((p.step b).2.feed data).1, ((p.step b).2.feed data).2)

/-- `flush_timeout` -/
def flushTimeout (p : KeyParser) : List Key × KeyParser :=
  match p.state with
  | .esc | .csi | .ss3 => ([], { p with state := .ground, csi := [] })
  | .paste =>
    let (key, p) := p.endPaste p.paste
    ([key], p)
  | .ground => ([], p)

/-- The reads, one after the other. -/
def feedAll (p : KeyParser) : List (List UInt8) → List Key × KeyParser
  | [] => ([], p)
  | data :: reads =>
    ((p.feed data).1 ++ ((p.feed data).2.feedAll reads).1, ((p.feed data).2.feedAll reads).2)

end KeyParser

/-- What the read loop does to the parser. -/
inductive KeyOp
  | feed (data : List UInt8)
  | timeout

def KeyParser.after (p : KeyParser) : KeyOp → KeyParser
  | .feed data => (p.feed data).2
  | .timeout => p.flushTimeout.2

namespace KeyParser

/-! ## Reads -/

variable {p : KeyParser}

theorem feed_append (p : KeyParser) (a b : List UInt8) :
    p.feed (a ++ b) = ((p.feed a).1 ++ ((p.feed a).2.feed b).1, ((p.feed a).2.feed b).2) := by
  induction a generalizing p with
  | nil => rfl
  | cons x a ih =>
    rw [List.cons_append, feed, ih, feed]
    simp only [List.append_assoc]

/-- **The cut into reads does not matter.** -/
theorem feedAll_eq (p : KeyParser) (reads : List (List UInt8)) :
    p.feedAll reads = p.feed reads.flatten := by
  induction reads generalizing p with
  | nil => rfl
  | cons data reads ih => rw [feedAll, ih, List.flatten_cons, feed_append]

/-! ## What is open -/

/-- What the parser has read of a sequence or of a paste is there only while it is open. -/
structure Tidy (p : KeyParser) : Prop where
  csi : p.state ≠ .csi → p.csi = []
  paste : p.state ≠ .paste → p.paste = []

theorem Tidy.stepPaste (ht : p.Tidy) (hp : p.state = .paste) (b : UInt8) : (p.stepPaste b).2.Tidy := by
  have hcsi : p.csi = [] := ht.csi (by rw [hp]; decide)
  unfold KeyParser.stepPaste
  simp only
  split
  · exact ⟨fun _ => hcsi, fun _ => rfl⟩
  · split
    · exact ⟨fun _ => hcsi, fun _ => rfl⟩
    · exact ⟨fun _ => hcsi, fun hne => absurd hp hne⟩

theorem Tidy.stepEsc (ht : p.Tidy) (hp : p.state = .esc) (b : UInt8) : (p.stepEsc b).2.Tidy := by
  have hcsi : p.csi = [] := ht.csi (by rw [hp]; decide)
  have hpaste : p.paste = [] := ht.paste (by rw [hp]; decide)
  unfold KeyParser.stepEsc
  split_ifs <;> exact ⟨fun _ => by first | rfl | exact hcsi, fun _ => hpaste⟩

theorem Tidy.stepCsi (ht : p.Tidy) (hp : p.state = .csi) (b : UInt8) : (p.stepCsi b).2.Tidy := by
  have hpaste : p.paste = [] := ht.paste (by rw [hp]; decide)
  unfold KeyParser.stepCsi
  split
  · split_ifs
    · exact ⟨fun _ => rfl, fun _ => rfl⟩
    · exact ⟨fun _ => rfl, fun _ => hpaste⟩
    · exact ⟨fun _ => rfl, fun _ => hpaste⟩
    · exact ⟨fun _ => rfl, fun _ => hpaste⟩
  · exact ⟨fun hne => absurd hp hne, fun _ => hpaste⟩

theorem Tidy.stepGround (ht : p.Tidy) (b : UInt8) (hp : p.state = .ground) : (p.stepGround b).2.Tidy := by
  have hcsi : p.csi = [] := ht.csi (by rw [hp]; decide)
  have hpaste : p.paste = [] := ht.paste (by rw [hp]; decide)
  have hsame : (p.stepGround b).2.csi = p.csi ∧ (p.stepGround b).2.paste = p.paste := by
    unfold KeyParser.stepGround
    split
    · exact ⟨rfl, rfl⟩
    split
    · exact ⟨rfl, rfl⟩
    split
    · exact ⟨rfl, rfl⟩
    split
    · exact ⟨rfl, rfl⟩
    split
    · exact ⟨rfl, rfl⟩
    · split_ifs <;> exact ⟨rfl, rfl⟩
  exact ⟨fun _ => hsame.1.trans hcsi, fun _ => hsame.2.trans hpaste⟩

theorem Tidy.step (ht : p.Tidy) (b : UInt8) : (p.step b).2.Tidy := by
  unfold KeyParser.step
  split
  · next hp => exact ht.stepPaste hp b
  · next hp => exact ht.stepEsc hp b
  · next hp =>
    exact ⟨fun _ => ht.csi (by rw [hp]; decide), fun _ => ht.paste (by rw [hp]; decide)⟩
  · next hp => exact ht.stepCsi hp b
  · next hp => exact ht.stepGround b hp

theorem Tidy.after (ht : p.Tidy) (op : KeyOp) : (p.after op).Tidy := by
  cases op with
  | feed data =>
    show (p.feed data).2.Tidy
    induction data generalizing p with
    | nil => exact ht
    | cons b data ih => exact ih (ht.step b)
  | timeout =>
    show p.flushTimeout.2.Tidy
    unfold flushTimeout
    split
    · next hp => exact ⟨fun _ => rfl, fun _ => ht.paste (by rw [hp]; decide)⟩
    · next hp => exact ⟨fun _ => rfl, fun _ => ht.paste (by rw [hp]; decide)⟩
    · next hp => exact ⟨fun _ => rfl, fun _ => ht.paste (by rw [hp]; decide)⟩
    · next hp => exact ⟨fun _ => ht.csi (by rw [hp]; decide), fun _ => rfl⟩
    · exact ht

/-- In every state that earlier input leads to. -/
theorem tidy_run (ops : List KeyOp) : (ops.foldl KeyParser.after {}).Tidy := by
  have hall : ∀ {p : KeyParser}, p.Tidy → (ops.foldl KeyParser.after p).Tidy := by
    induction ops with
    | nil => exact id
    | cons op ops ih => exact fun ht => ih (ht.after op)
  exact hall ⟨fun _ => rfl, fun _ => rfl⟩

/-! ## A paste -/

theorem borderless_pasteEnd : Framing.Borderless pasteEnd := by
  have hall : ∀ k < 6, 0 < k → ¬pasteEnd.take k <:+ pasteEnd := by decide
  exact fun k hpos hlt => hall k hlt hpos

/-- A parser in the middle of a paste. -/
def pasting (decoder read : List UInt8) : KeyParser :=
  { state := .paste, paste := read, decoder := decoder }

/-- The bytes of a paste are kept, as long as they do not end in the marker and are not too many. -/
theorem feed_pasting (decoder : List UInt8) {read data : List UInt8}
    (hopen : ∀ k, 0 < k → k ≤ data.length → ¬pasteEnd <:+ read ++ data.take k)
    (hroom : read.length + data.length < pasteLimit) :
    (pasting decoder read).feed data = ([], pasting decoder (read ++ data)) := by
  induction data generalizing read with
  | nil => rw [List.append_nil]; rfl
  | cons b data ih =>
    rw [List.length_cons] at hroom
    have hstep : (pasting decoder read).step b = ([], pasting decoder (read ++ [b])) := by
      have hmark : pasteEnd.isSuffixOf (read ++ [b]) = false := by
        rw [Bool.eq_false_iff]
        intro hend
        exact hopen 1 Nat.one_pos (by simp) (by simpa using List.isSuffixOf_iff_suffix.mp hend)
      have hlen : ¬pasteLimit ≤ (read ++ [b]).length := by
        rw [List.length_append, List.length_singleton]
        omega
      show (pasting decoder read).stepPaste b = _
      unfold KeyParser.stepPaste pasting
      simp only [hmark, hlen, Bool.false_eq_true, if_false]
    rw [feed, hstep]
    simp only [List.nil_append]
    rw [ih (fun k hpos hle => ?_) (by rw [List.length_append, List.length_singleton]; omega)]
    · rw [List.append_assoc]
      rfl
    · have hmore := hopen (k + 1) (Nat.succ_pos k) (by rw [List.length_cons]; omega)
      rwa [List.take_succ_cons, List.append_cons] at hmore

/-- The brackets open a paste. -/
theorem feed_pasteStart (decoder : List UInt8) :
    ({ decoder := decoder } : KeyParser).feed pasteStart = ([], pasting decoder []) := rfl

/-- **A paste that has been begun** is one key, at the end of the marker. -/
theorem feed_paste (decoder : List UInt8) {text : List UInt8} (htext : ¬pasteEnd <:+: text)
    (hroom : text.length + 6 ≤ pasteLimit) :
    (pasting decoder []).feed (text ++ pasteEnd) =
      ([.paste (pasteText text)], { decoder := decoder }) := by
  have hsplit : text ++ pasteEnd = (text ++ pasteEnd.take 5) ++ [0x7E] := by
    rw [List.append_assoc]
    rfl
  have hmost : (pasting decoder []).feed (text ++ pasteEnd.take 5) =
      ([], pasting decoder (text ++ pasteEnd.take 5)) := by
    refine feed_pasting decoder (fun k _ hle => ?_) ?_
    · rw [List.nil_append]
      refine Framing.not_suffix_of_lt borderless_pasteEnd htext ?_ ?_
      · rw [hsplit]
        exact (List.take_prefix _ _).trans (List.prefix_append _ _)
      · rw [List.length_take]
        have hfive : (text ++ pasteEnd.take 5).length = text.length + 5 := List.length_append ..
        have hsix : pasteEnd.length = 6 := rfl
        omega
    · have hfive : (text ++ pasteEnd.take 5).length = text.length + 5 := List.length_append ..
      rw [hfive, List.length_nil]
      omega
  have hlast : (pasting decoder (text ++ pasteEnd.take 5)).step 0x7E =
      ([.paste (pasteText text)], { decoder := decoder }) := by
    have hend : pasteEnd.isSuffixOf (text ++ pasteEnd.take 5 ++ [0x7E]) = true := by
      rw [← hsplit]
      exact List.isSuffixOf_iff_suffix.mpr (List.suffix_append _ _)
    have hraw : (text ++ pasteEnd).take ((text ++ pasteEnd).length - pasteEnd.length) = text := by
      rw [List.length_append, Nat.add_sub_cancel]
      exact List.take_left
    show (pasting decoder _).stepPaste 0x7E = _
    unfold KeyParser.stepPaste pasting
    simp only [hend, if_true]
    rw [← hsplit, hraw]
    rfl
  rw [hsplit, feed_append, hmost]
  show ([] ++ ((pasting decoder (text ++ pasteEnd.take 5)).step 0x7E).1 ++ [],
    ((pasting decoder (text ++ pasteEnd.take 5)).step 0x7E).2) = _
  rw [hlast]
  rfl

end KeyParser

/-- **A paste is one key.**  In every state that earlier input leads to, with no sequence and no
paste open: a text without the end marker, in brackets, is one key, however it is cut into reads
together with the bytes after it, and those give the keys they would have given without it. -/
theorem paste_is_one_key (ops : List KeyOp) (text rest : List UInt8) (reads : List (List UInt8))
    (hground : (ops.foldl KeyParser.after {}).state = .ground) (htext : ¬pasteEnd <:+: text)
    (hroom : text.length ≤ pasteLimit - 6)
    (hreads : reads.flatten = pasteStart ++ text ++ pasteEnd ++ rest) :
    (ops.foldl KeyParser.after {}).feedAll reads =
      (.paste (pasteText text) :: ((ops.foldl KeyParser.after {}).feed rest).1,
        ((ops.foldl KeyParser.after {}).feed rest).2) := by
  have htidy := KeyParser.tidy_run ops
  generalize ops.foldl KeyParser.after {} = p at *
  obtain ⟨state, csi, paste, decoder⟩ := p
  obtain rfl : state = .ground := hground
  obtain rfl : csi = [] := htidy.csi nofun
  obtain rfl : paste = [] := htidy.paste nofun
  have hroom' : text.length + 6 ≤ pasteLimit := by
    have hlimit : 6 ≤ pasteLimit := by decide
    omega
  rw [KeyParser.feedAll_eq, hreads, List.append_assoc, List.append_assoc, KeyParser.feed_append,
    KeyParser.feed_pasteStart]
  simp only [List.nil_append]
  rw [← List.append_assoc, KeyParser.feed_append, KeyParser.feed_paste decoder htext hroom']
  rfl

/-- The end marker, and the text before it, are cut in two. -/
theorem paste_is_one_key_cut :
    (({} : KeyParser).feedAll [pasteStart ++ [0x61, 0x1B, 0x5B], [0x32, 0x0D, 0x1B, 0x5B],
        [0x32, 0x30, 0x31, 0x7E, 0x0D]]).1 = [.paste (str "a\x1b[2\n"), .enter] := by
  have hone := paste_is_one_key [] [0x61, 0x1B, 0x5B, 0x32, 0x0D] [0x0D]
    [pasteStart ++ [0x61, 0x1B, 0x5B], [0x32, 0x0D, 0x1B, 0x5B], [0x32, 0x30, 0x31, 0x7E, 0x0D]]
    rfl (by decide) (by decide) rfl
  have htext : pasteText [0x61, 0x1B, 0x5B, 0x32, 0x0D] = str "a\x1b[2\n" := by decide
  rw [show ({} : KeyParser) = [].foldl KeyParser.after {} from rfl, hone, htext]
  rfl

end Moot.Spoke
