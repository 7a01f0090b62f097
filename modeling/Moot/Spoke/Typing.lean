import Moot.Spoke.Editor
import Moot.Lib.Utf8

/-!
# From the terminal to the submitted text

The bytes of the terminal through `KeyParser` and `Editor`: what is typed and pasted
is submitted as it was meant, however the reads cut it.

Proved here: `composed_is_submitted`.
-/

namespace Moot.Spoke
open Py

/-- A piece of what is entered. -/
inductive Piece
  | typed (cs : List Char)
  | newline
  | pasted (cs : List Char)

namespace Piece

/-- What the terminal sends for it. -/
def bytes : Piece → List UInt8
  | .typed cs => utf8Bytes cs
  | .newline => [0x1B, 0x0D]
  | .pasted cs => pasteStart ++ utf8Bytes cs ++ pasteEnd

/-- What is meant by it; a paste has the line ends of the seat. -/
def text : Piece → Str
  | .typed cs => ofChars cs
  | .newline => str "\n"
  | .pasted cs => ofChars (universalNewlines false cs)

/-- Characters that no control key sends, and pastes that their end marker ends. -/
def Enterable : Piece → Prop
  | .typed cs => ∀ c ∈ cs, c = '\t' ∨ ' ' ≤ c ∧ c ≠ '\x7f'
  | .newline => True
  | .pasted cs => ¬pasteEnd <:+: utf8Bytes cs ∧ (utf8Bytes cs).length + 6 ≤ pasteLimit

end Piece

/-! ## Keys that put text at the cursor -/

/-- The text that a key puts at the cursor. -/
def Key.text? : Key → Option Str
  | .char s | .paste s => some s
  | .altEnter => some (str "\n")
  | .enter | .key _ => none

/-- The keys put the text at the cursor. -/
inductive Puts : List Key → Str → Prop
  | nil : Puts [] []
  | cons {key : Key} {s : Str} {keys : List Key} {t : Str} (hkey : key.text? = some s) (ht : Puts keys t) :
    Puts (key :: keys) (s ++ t)

theorem Puts.one {key : Key} {s : Str} (hkey : key.text? = some s) : Puts [key] s := by
  have h := Puts.cons hkey .nil
  rwa [List.append_nil] at h

theorem Puts.append {keys keys' : List Key} {s t : Str} (hs : Puts keys s) (ht : Puts keys' t) :
    Puts (keys ++ keys') (s ++ t) := by
  induction hs with
  | nil => exact ht
  | cons hkey _ ih =>
    rw [List.cons_append, List.append_assoc]
    exact .cons hkey ih

theorem press_of_text? {key : Key} {s : Str} (e : Editor) (hkey : key.text? = some s) :
    e.press false key = ⟨e.insert s, none, false⟩ := by
  cases key with
  | enter => cases hkey
  | key name => cases hkey
  | _ =>
    obtain rfl := Option.some.inj hkey
    rfl

/-- What is put at the cursor is there, and the history is as it was. -/
theorem Puts.run {keys : List Key} {t : Str} (hputs : Puts keys t) {e : Editor}
    (hpos : e.pos ≤ e.buf.length) (more : List (Bool × Key)) : ∃ e' : Editor,
      e.run (keys.map (Prod.mk false) ++ more) = e'.run more ∧
        e'.buf = e.buf.take e.pos ++ t ++ e.buf.drop e.pos ∧ e'.history = e.history := by
  induction hputs generalizing e with
  | nil => exact ⟨e, rfl, by rw [List.append_nil, List.take_append_drop], rfl⟩
  | @cons key s keys t hkey _ ih =>
    have hlen : (e.buf.take e.pos ++ s).length = e.pos + s.length := by
      rw [List.length_append, List.length_take, Nat.min_eq_left hpos]
    have htake : (e.insert s).buf.take (e.insert s).pos = e.buf.take e.pos ++ s := List.take_left' hlen
    have hdrop : (e.insert s).buf.drop (e.insert s).pos = e.buf.drop e.pos := List.drop_left' hlen
    have hpos' : (e.insert s).pos ≤ (e.insert s).buf.length := by
      show e.pos + s.length ≤ (e.buf.take e.pos ++ s ++ e.buf.drop e.pos).length
      rw [List.length_append, hlen]
      exact Nat.le_add_right ..
    obtain ⟨e', hrun, hbuf, hhistory⟩ := ih hpos'
    refine ⟨e', ?_, ?_, hhistory⟩
    · rw [List.map_cons, List.cons_append, Editor.run, press_of_text? e hkey]
      simp only [Bool.false_eq_true, if_false]
      rw [hrun]
      rfl
    · rw [hbuf, htake, hdrop, List.append_assoc, List.append_assoc, List.append_assoc,
        List.append_assoc]

/-! ## Characters -/

theorem lookup_ctrlKeys {b : UInt8} (hb : ¬b < 0x20) : ctrlKeys.lookup b = none := by
  rw [List.lookup_eq_none_iff]
  intro entry hentry
  have hlow : ∀ entry ∈ ctrlKeys, entry.1 < 0x20 := by decide
  rw [bne_iff_ne]
  rintro rfl
  exact hb (hlow entry hentry)

/-- A byte that is no control byte is one of a character. -/
theorem step_text {b : UInt8} (hb : ¬b < 0x20) (hdel : b ≠ 0x7F) (kept : List UInt8) :
    ({ decoder := kept } : KeyParser).step b =
      if b < 0x80 then ([.char [.scalar (Char.ofNat b.toNat)]], { decoder := kept })
      else (if (utf8Step kept b).1.isEmpty then [] else [.char (utf8Step kept b).1],
        { decoder := (utf8Step kept b).2 }) := by
  have hne : ∀ {k : UInt8}, k < 0x20 → b ≠ k := by
    rintro k hk rfl
    exact hb hk
  show KeyParser.stepGround _ b = _
  unfold KeyParser.stepGround
  rw [if_neg (hne (by decide)), if_neg (not_or.mpr ⟨hne (by decide), hne (by decide)⟩),
    if_neg (not_or.mpr ⟨hdel, hne (by decide)⟩), if_neg (hne (by decide)), lookup_ctrlKeys hb]
  simp only
  rw [if_neg hb]

/-- Bytes of longer characters go through the decoder. -/
theorem feed_high {bytes : List UInt8} (hbytes : ∀ b ∈ bytes, ¬b < 0x80) (kept : List UInt8) :
    ∃ keys, ({ decoder := kept } : KeyParser).feed bytes =
        (keys, { decoder := (decodeOpen kept bytes).2 }) ∧
      Puts keys (decodeOpen kept bytes).1 := by
  induction bytes generalizing kept with
  | nil => exact ⟨[], rfl, .nil⟩
  | cons b bytes ih =>
    have hb : ¬b < 0x80 := hbytes b (.head _)
    obtain ⟨keys, hfeed, hputs⟩ := ih (fun b' hb' => hbytes b' (.tail _ hb')) (utf8Step kept b).2
    have hstep := step_text (fun hlt => hb (UInt8.lt_trans hlt (by decide)))
      (by rintro rfl; exact hb (by decide)) kept
    rw [if_neg hb] at hstep
    refine ⟨_, by rw [KeyParser.feed, hstep, hfeed]; rfl, ?_⟩
    rw [decodeOpen]
    refine Puts.append ?_ hputs
    cases hout : (utf8Step kept b).1 with
    | nil => exact .nil
    | cons c out => exact .one rfl

/-- **A typed character** is put at the cursor. -/
theorem feed_char {c : Char} (hc : c = '\t' ∨ ' ' ≤ c ∧ c ≠ '\x7f') :
    ∃ keys, ({} : KeyParser).feed (String.utf8EncodeChar c) = (keys, {}) ∧ Puts keys [.scalar c] := by
  by_cases hlow : c.toNat < 0x80
  · rw [utf8EncodeChar_low hlow]
    rcases hc with rfl | ⟨hspace, hdel⟩
    · exact ⟨[.char (str "\t")], rfl, .one rfl⟩
    · have hspace : 0x20 ≤ c.toNat := hspace
      have hdel : c.toNat ≠ 0x7F := fun heq => hdel (Char.toNat_inj.mp heq)
      have hctrl : ¬UInt8.ofNat c.toNat < 0x20 := fun hlt => by
        have hlt := (byte_lt (m := 0x20) (by omega) (by omega)).mp hlt
        omega
      have hstep := step_text hctrl (fun heq => hdel ((byte_eq (m := 0x7F) (by omega) (by omega)).mp heq)) []
      have hone : UInt8.ofNat c.toNat < 0x80 := (byte_lt (m := 0x80) (by omega) (by omega)).mpr hlow
      rw [if_pos hone, toNat_byte (by omega), Char.ofNat_toNat] at hstep
      exact ⟨[.char [.scalar c]], by rw [KeyParser.feed, hstep]; rfl, .one rfl⟩
  · obtain ⟨keys, hfeed, hputs⟩ := feed_high (utf8EncodeChar_high hlow) []
    rw [decodeOpen_encodeChar] at hfeed hputs
    exact ⟨keys, hfeed, hputs⟩

theorem feed_typed {cs : List Char} (hcs : ∀ c ∈ cs, c = '\t' ∨ ' ' ≤ c ∧ c ≠ '\x7f') :
    ∃ keys, ({} : KeyParser).feed (utf8Bytes cs) = (keys, {}) ∧ Puts keys (ofChars cs) := by
  induction cs with
  | nil => exact ⟨[], rfl, .nil⟩
  | cons c cs ih =>
    obtain ⟨keys, hfeed, hputs⟩ := feed_char (hcs c (.head _))
    obtain ⟨keys', hfeed', hputs'⟩ := ih fun c' hc' => hcs c' (.tail _ hc')
    refine ⟨keys ++ keys', ?_, hputs.append hputs'⟩
    rw [utf8Bytes, List.flatMap_cons, KeyParser.feed_append, hfeed]
    simp only
    rw [show cs.flatMap String.utf8EncodeChar = utf8Bytes cs from rfl, hfeed']

/-! ## Pastes -/

theorem universalNewlines_true {cs : List Char} (hcs : cs.head? ≠ some '\n') :
    universalNewlines true cs = universalNewlines false cs := by
  cases cs with
  | nil => rfl
  | cons c cs =>
    have hc : c ≠ '\n' := fun heq => hcs (by rw [heq]; rfl)
    have hno : ∀ cr : Bool, ¬(c = '\n' ∧ cr = true) := fun _ hboth => hc hboth.1
    rw [universalNewlines, universalNewlines, if_neg (hno true), if_neg (hno false)]

/-- What text mode makes of the line ends, a paste does too. -/
theorem lineEnds_eq (cs : List Char) :
    ((replaceCrlf (ofChars cs)).map fun p => if p = .scalar '\r' then .scalar '\n' else p) =
      ofChars (universalNewlines false cs) := by
  induction cs with
  | nil => rfl
  | cons c cs ih =>
    rw [show ofChars (c :: cs) = .scalar c :: ofChars cs from rfl, replaceCrlf, universalNewlines]
    by_cases hcr : c = '\r'
    · subst hcr
      rw [if_pos rfl]
      cases cs with
      | nil => rfl
      | cons d ds =>
        by_cases hlf : d = '\n'
        · -- `CRLF` is one line end
          subst hlf
          rw [if_pos ⟨rfl, rfl⟩, ih]
          rfl
        · have hhead : (d :: ds).head? ≠ some '\n' := fun heq => hlf (Option.some.inj heq)
          rw [if_neg (by rintro ⟨-, heq⟩; exact hlf (CodePoint.scalar.inj (Option.some.inj heq))),
            List.map_cons, ih, if_pos rfl, universalNewlines_true hhead]
          rfl
    · have hcr' : ¬CodePoint.scalar c = .scalar '\r' := fun heq => hcr (CodePoint.scalar.inj heq)
      have hlf : ¬(c = '\n' ∧ false = true) := fun hboth => Bool.false_ne_true hboth.2
      rw [if_neg hcr, if_neg hlf, if_neg fun hboth => hcr' hboth.1, List.map_cons, ih, if_neg hcr']
      rfl

theorem pasteText_utf8Bytes (cs : List Char) :
    pasteText (utf8Bytes cs) = ofChars (universalNewlines false cs) := by
  rw [pasteText, decodeReplace_utf8Bytes, lineEnds_eq]

/-- **A piece** is put at the cursor, and the parser is as before. -/
theorem feed_piece {piece : Piece} (hpiece : piece.Enterable) :
    ∃ keys, ({} : KeyParser).feed piece.bytes = (keys, {}) ∧ Puts keys piece.text := by
  cases piece with
  | typed cs => exact feed_typed hpiece
  | newline => exact ⟨[.altEnter], rfl, .one rfl⟩
  | pasted cs =>
    refine ⟨[.paste (pasteText (utf8Bytes cs))], ?_, .one ?_⟩
    · rw [Piece.bytes, List.append_assoc, KeyParser.feed_append, KeyParser.feed_pasteStart]
      simp only [List.nil_append]
      rw [KeyParser.feed_paste [] hpiece.1 hpiece.2]
    · rw [Key.text?, pasteText_utf8Bytes, Piece.text]

theorem feed_pieces {pieces : List Piece} (hpieces : ∀ piece ∈ pieces, piece.Enterable) :
    ∃ keys, ({} : KeyParser).feed (pieces.flatMap Piece.bytes) = (keys, {}) ∧
      Puts keys (pieces.flatMap Piece.text) := by
  induction pieces with
  | nil => exact ⟨[], rfl, .nil⟩
  | cons piece pieces ih =>
    obtain ⟨keys, hfeed, hputs⟩ := feed_piece (hpieces piece (.head _))
    obtain ⟨keys', hfeed', hputs'⟩ := ih fun piece' hmem => hpieces piece' (.tail _ hmem)
    refine ⟨keys ++ keys', ?_, hputs.append hputs'⟩
    rw [List.flatMap_cons, KeyParser.feed_append, hfeed]
    simp only
    rw [hfeed']

/-- A parser that has nothing open. -/
theorem eq_ready {p : KeyParser} (ht : p.Tidy) (hground : p.state = .ground) (hdecoder : p.decoder = []) :
    p = {} := by
  obtain ⟨state, csi, paste, decoder⟩ := p
  obtain rfl : state = .ground := hground
  obtain rfl : decoder = [] := hdecoder
  obtain rfl : csi = [] := ht.csi (show Mode.ground ≠ .csi by decide)
  obtain rfl : paste = [] := ht.paste (show Mode.ground ≠ .paste by decide)
  rfl

/-- **What is composed is submitted.**  After any earlier input that leaves the parser with nothing
open, and any earlier keys in the editor: pieces that are typed without control characters and pasted
within the limit, then a return that the seat does not refuse, submit one text, which is the line with
the text of the pieces at the cursor.  The text is noted, the line is empty again, and the parser is
ready for the next one, however the bytes are cut into reads, as long as the parser does not time out
between two of them. -/
theorem composed_is_submitted (ops : List KeyOp) (history : List Str) (earlier : List (Bool × Key))
    (pieces : List Piece) (ret : UInt8) (reads : List (List UInt8))
    (hready : (ops.foldl KeyParser.after {}).state = .ground ∧ (ops.foldl KeyParser.after {}).decoder = [])
    (hpieces : ∀ piece ∈ pieces, piece.Enterable) (hret : ret = 0x0A ∨ ret = 0x0D)
    (hreads : reads.flatten = pieces.flatMap Piece.bytes ++ [ret]) :
    let fed := (ops.foldl KeyParser.after {}).feedAll reads
    let e := (Editor.run { history := history } earlier).2
    let text := e.buf.take e.pos ++ pieces.flatMap Piece.text ++ e.buf.drop e.pos
    fed.2 = {} ∧ e.run (fed.1.map (Prod.mk false)) = ([text], { history := Sheet.noted e.history text }) := by
  intro fed e text
  have hp := eq_ready (KeyParser.tidy_run ops) hready.1 hready.2
  obtain ⟨keys, hfeed, hputs⟩ := feed_pieces hpieces
  have hlast : ({} : KeyParser).feed [ret] = ([.enter], {}) := by
    rcases hret with rfl | rfl <;> rfl
  have hfed : fed = (keys ++ [.enter], {}) := by
    show (ops.foldl KeyParser.after {}).feedAll reads = _
    rw [hp, KeyParser.feedAll_eq, hreads, KeyParser.feed_append, hfeed]
    simp only
    rw [hlast]
  have hpos : e.pos ≤ e.buf.length := by
    have hf := ((follows_fresh history).run earlier).1
    rw [hf.pos, hf.buf]
    exact Zipper.pos_le _
  obtain ⟨e', hrun, hbuf, hhistory⟩ := hputs.run hpos [(false, .enter)]
  rw [hfed]
  refine ⟨rfl, ?_⟩
  rw [List.map_append, List.map_singleton, hrun, Editor.run]
  show ([e'.submit.1], e'.submit.2) = _
  rw [submit_history, hbuf, hhistory]
  rw [show e'.submit.1 = e'.buf from rfl, hbuf]

/-- A line is typed, cut inside a character and inside the end marker of a paste, after an older text
was called back and changed. -/
theorem composed_is_submitted_cut :
    let reads : List (List UInt8) := [[0x61, 0xC3],
      [0xA4] ++ pasteStart ++ [0x0D, 0x0A, 0x63] ++ pasteEnd.take 3, pasteEnd.drop 3 ++ [0x0D]]
    let fed := ({} : KeyParser).feedAll reads
    let e := (Editor.run { history := [str "b"] } [(false, .key .up), (false, .key .left)]).2
    e.run (fed.1.map (Prod.mk false)) = ([str "aä\ncb"], { history := [str "b", str "aä\ncb"] }) := by
  have htyped : (Piece.typed ['a', 'ä']).Enterable := by
    rintro c (_ | ⟨_, _ | ⟨_, ⟨⟩⟩⟩)
    · exact .inr ⟨by decide, by decide⟩
    · exact .inr ⟨by decide, by decide⟩
  have hpasted : (Piece.pasted ['\r', '\n', 'c']).Enterable := by
    rw [Piece.Enterable]
    decide
  have hone := composed_is_submitted [] [str "b"] [(false, .key .up), (false, .key .left)]
    [.typed ['a', 'ä'], .pasted ['\r', '\n', 'c']] 0x0D
    [[0x61, 0xC3], [0xA4] ++ pasteStart ++ [0x0D, 0x0A, 0x63] ++ pasteEnd.take 3,
      pasteEnd.drop 3 ++ [0x0D]] ⟨rfl, rfl⟩
    (List.forall_mem_cons.mpr ⟨htyped, List.forall_mem_cons.mpr ⟨hpasted, by simp⟩⟩) (.inr rfl)
    (by decide)
  exact hone.2

end Moot.Spoke
