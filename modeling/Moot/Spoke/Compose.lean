import Moot.Lib.Digits
import Moot.Spoke.Outgoing
import Moot.Spoke.Recent

/-!
# What a typed line becomes

`build_outgoing` of `spoke/observer.py`: a typed line becomes frames to send, with
the echo they are answered by, rows to print, or a refusal.  The commands of the
seat take numbers, a regular expression and names out of the line.

Proved here: `outgoing_proper_iff`, which lines raise no exception, and that all of
these keep the sequence numbers in order.
-/

namespace Moot.Spoke
open Py PyJson Proto

/-! ## The seat -/

/-- `re.compile`: a pattern with its `search`, a `re.error`, or any other exception. -/
inductive Regex
  | pattern (search : Str → Bool)
  | error (detail : Str)
  | raised

/-- What a seat is run with. -/
structure Desk where
  isPrintable : Char → Bool
  compile : Str → Regex

/-- `Seat`, with its sequence numbers and what `read_today` returns. -/
structure Console (F : Type) where
  seat : Seat F
  seq : Int := 0
  today : List (Obj F) := []

/-- What is printed locally, before it is drawn. -/
inductive Shown (F : Type)
  | help
  | nothing
  | noMatch
  | replay (records : List (RingEntry F)) (full : Bool)

/-- An echo: `to`, `kind`, `text`, `private`. -/
abbrev Echo := Str × Str × Str × Bool

/-- `Outgoing` -/
structure Outgoing (F : Type) where
  frames : List (Obj F) := []
  echo : Dict Int Echo := Dict.empty
  shown : Option (Shown F) := none
  error : Option Str := none
  ignored : Bool := false

section
variable {F : Type} (desk : Desk)

/-- `next_seq` -/
def Console.next (c : Console F) : Console F := { c with seq := c.seq + 1 }

/-- `known_peer` -/
def Seat.knownPeer (s : Seat F) (name : Str) : Bool :=
  name = str "*" || name = s.me || s.peers.contains name

/-- `peer_names` -/
def Seat.peerNames (s : Seat F) : List Str := sortedStrs s.peers.keys

/-- `lookup`; `none` outside is a `KeyError`. -/
def Console.lookup (c : Console F) (id : Int) : Option (Option (RingEntry F)) :=
  match c.seat.ring.reverse.find? (·.id = id) with
  | some e => some (some e)
  | none => (transcriptMsgs c.today).map (·.find? (·.id = id))

/-- `search`; `none` is a `TypeError`. -/
def Seat.search (s : Seat F) (rx : Str → Bool) (limit : Nat) : Option (List (RingEntry F)) := do
  let hits ← s.ring.mapM fun e =>
    match e.text with
    | .str text => some (if rx text then some e else none)
    | _ => none
  return lastN limit (hits.filterMap id)

/-- `str(value)` -/
def pyStr [PyFloat F] : Json F → Str
  | .str s => s
  | j => reprJson desk.isPrintable j

/-! ## Frames -/

/-- A `say` frame. -/
def sayFrame (addressee kind text : Str) (seq : Int) (priv : Bool) : Obj F :=
  [(str "t", .str (str "say")), (str "to", .str addressee), (str "kind", .str kind),
    (str "text", .str text), (str "seq", .int seq)] ++
    if priv then [(str "private", .bool true)] else []

/-- A `state` frame. -/
def stateOut (state : Str) (detail : Option Str) : Obj F :=
  [(str "t", .str (str "state")), (str "state", .str state)] ++
    match detail with
    | some d => [(str "detail", .str d)]
    | none => []

/-- A `cmd` frame. -/
def cmdFrame (cmd : Str) (seq : Int) (args : Option (Obj F)) : Obj F :=
  [(str "t", .str (str "cmd")), (str "cmd", .str cmd), (str "seq", .int seq)] ++
    match args with
    | some a => [(str "args", .obj a)]
    | none => []

/-- The roster query. -/
def rosterQuery (seq : Int) : Obj F := [(str "t", .str (str "roster")), (str "seq", .int seq)]

/-! ## Composing -/

/-- A line that is not sent. -/
def refusal (detail : Str) : Outgoing F := { error := some detail }

/-- `display_form`, of one character. -/
def displayChar (p : CodePoint) : Str :=
  if p = .scalar '\n' then [p]
  else if p.val < 0x20 then [.scalar '^', .scalar (Char.ofNat (p.val + 0x40))]
  else if p.val = 0x7f then str "^?"
  else if 0x80 ≤ p.val ∧ p.val ≤ 0x9f then str "\uFFFD"
  else [p]

/-- `display_pos` -/
def displayPos (text : Str) (pos : Nat) : Nat := ((text.take pos).flatMap displayChar).length

/-- `_no_peer` -/
def noPeer (name : Str) (s : Seat F) : Str :=
  str "[no peer " ++ reprStr desk.isPrintable name ++ str " — " ++ join (str ", ") s.peerNames ++
    str "]"

/-- `_unknown_command` -/
def unknownCommand (cmd : Str) : Str :=
  str "[unknown command '/" ++ cmd ++
    str "' — /freeze /resume /reset /mute /unmute /goal /roster /show /last /find /q /close /help]"

/-- A say that is sent, with its echo. -/
def sent (c : Console F) (addressee kind text : Str) (priv : Bool) : Outgoing F × Console F :=
  ({ frames := [sayFrame addressee kind text (c.seq + 1) priv]
     echo := Dict.empty.insert (c.seq + 1) (addressee, kind, text, priv) }, c.next)

/-- `_say` -/
def composeSay (c : Console F) (addressee kind text : Str) (priv : Bool) :
    Outgoing F × Console F :=
  if text = [] then (refusal (str "[empty message — not sent]"), c)
  else if priv = true ∧ addressee = str "*" then (refusal (str "[private needs @name]"), c)
  else if c.seat.knownPeer addressee = false then (refusal (noPeer desk addressee c.seat), c)
  else sent c addressee kind text priv

/-- `_msg_id_arg`; `none` outside is the `ValueError`. -/
def msgIdArg (arg : Str) : Option (Option Nat) :=
  let digits := if (str "#").isPrefixOf arg then arg.drop 1 else arg
  if allDigits digits then (int? digits).map some else some none

/-- `_show` -/
def composeShow (c : Console F) (arg : Str) : Option (Outgoing F × Console F) := do
  match ← msgIdArg arg with
  | none => return (refusal (str "[/show takes a message id]"), c)
  | some id =>
    match ← c.lookup id with
    | none =>
      return (refusal (str "[no message #" ++ natStr id ++
        str " — not in this seat's buffer or today's transcript]"), c)
    | some rec => return ({ shown := some (.replay [rec] true) }, c)

/-- `_last` -/
def composeLast (c : Console F) (arg : Str) : Option (Outgoing F × Console F) :=
  if arg ≠ [] ∧ allDigits arg = false then some (refusal (str "[/last takes a count]"), c)
  else do
    let n ← if arg = [] then some 3 else int? arg
    let records ← c.seat.recent c.today n
    if records.isEmpty then return ({ shown := some .nothing }, c)
    else return ({ shown := some (.replay records false) }, c)

/-- `_find` -/
def composeFind (c : Console F) (arg : Str) (maxRows : Nat) : Option (Outgoing F × Console F) :=
  if arg = [] then some (refusal (str "[/find needs a regex]"), c)
  else
    match desk.compile arg with
    | .raised => none
    | .error detail => some (refusal (str "[bad regex: " ++ detail ++ str "]"), c)
    | .pattern rx => do
      let records ← c.seat.search rx maxRows
      if records.isEmpty then return ({ shown := some .noMatch }, c)
      else return ({ shown := some (.replay records false) }, c)

def quoteExcerpt : Nat := 500

/-- The text of a quote. -/
def quoteText [PyFloat F] (rec : RingEntry F) (human : Str) : Str :=
  let quoted := pyStr desk rec.text
  let excerpt := if quoted.length ≤ quoteExcerpt then quoted
    else quoted.take quoteExcerpt ++ str "…"
  pyStr desk rec.sender ++ str " wrote (#" ++ intStr rec.id ++ str "): \"" ++ excerpt ++
    str "\"\n" ++ human

/-- `_quote` -/
def composeQuote [PyFloat F] (c : Console F) (arg : Str) : Option (Outgoing F × Console F) := do
  let (ident, rest) := partition space arg
  match ← msgIdArg ident with
  | none => return (refusal (str "[/q takes a message id, then @name and a question]"), c)
  | some id =>
    match ← c.lookup id with
    | none => return (refusal (str "[no message #" ++ natStr id ++ str "]"), c)
    | some rec =>
      let (word, human) := partition space (strip rest)
      let name := if (str "@").isPrefixOf word then word.drop 1 else word
      if c.seat.knownPeer name = false then return (refusal (noPeer desk name c.seat), c)
      else if strip human = [] then
        return (refusal (str "[/q needs a question after @name]"), c)
      else if rec.priv = true ∧ name = str "*" then
        return (refusal (str "[private needs @name — a private #N cannot be broadcast]"), c)
      else return sent c name (str "question") (quoteText desk rec (strip human)) rec.priv

/-- `_close` -/
def composeClose (c : Console F) (arg : Str) : Outgoing F × Console F :=
  if arg = [] then (refusal (str "[/close needs a closing statement]"), c)
  else
    ({ frames := [sayFrame (str "*") (str "done") arg (c.seq + 1) false,
         cmdFrame (str "reset") (c.seq + 2) none]
       echo := Dict.empty.insert (c.seq + 1) (str "*", str "done", arg, false) }, c.next.next)

/-- `SEAT_COMMANDS` -/
def seatCommands : List Str :=
  [str "roster", str "show", str "last", str "find", str "q", str "help", str "close"]

/-- The arguments of a command that is passed on; `none` outside is the `ValueError`. -/
def cmdArgs (cmd arg : Str) : Option (Option (Obj F)) :=
  if cmd = str "resume" ∧ allDigits arg = true then
    (int? arg).map fun n => some [(str "n", .int n)]
  else if cmd = str "goal" then some (some [(str "text", .str arg)])
  else some none

/-- `_command` -/
def composeCommand [PyFloat F] (c : Console F) (cmd arg : Str) (maxRows : Nat) :
    Option (Outgoing F × Console F) :=
  if cmd ∉ seatCommands ∧ cmd ∉ commands then some (refusal (unknownCommand cmd), c)
  else if cmd = str "show" then composeShow c arg
  else if cmd = str "last" then composeLast c arg
  else if cmd = str "find" then composeFind desk c arg maxRows
  else if cmd = str "q" then composeQuote desk c arg
  else if cmd = str "help" then some ({ shown := some .help }, c)
  else if cmd = str "close" then some (composeClose c arg)
  else if cmd = str "roster" then some ({ frames := [rosterQuery (c.seq + 1)] }, c.next)
  else if cmd = str "goal" ∧ arg = [] then some (refusal (str "[/goal needs a text]"), c)
  else do
    let args ← cmdArgs cmd arg
    return ({ frames := [cmdFrame cmd (c.seq + 1) args] }, c.next)

/-- `build_outgoing`; `none` is an exception. -/
def buildOutgoing [PyFloat F] (c : Console F) (line : Str) (maxRows : Nat) : Option (Outgoing F × Console F) :=
  match controlCharPos line with
  | some ctrl =>
    some (refusal (str "[control characters at col " ++ natStr (displayPos line ctrl + 1) ++
      str " — not sent]"), c)
  | none =>
    if (str "/").isPrefixOf line then
      let (cmd, arg) := partition space (line.drop 1)
      composeCommand desk c cmd (strip arg) maxRows
    else
      match parseOutgoing line 0 with
      | none => some ({ ignored := true }, c)
      | some (.state state detail) => some ({ frames := [stateOut state detail] }, c)
      | some (.say addressee kind text _ priv) => some (composeSay desk c addressee kind text priv)

/-! ## What a line may do -/

/-- The number of a say, a command or a roster query. -/
def seqOf (frame : Obj F) : Option Int :=
  match field frame "t", field frame "seq" with
  | some (.str t), some (.int seq) =>
    if t = str "say" ∨ t = str "cmd" ∨ t = str "roster" then some seq else none
  | _, _ => none

/-- The number of a say, and the echo it is answered by. -/
def echoOf (frame : Obj F) : Option (Int × Echo) :=
  match field frame "t", field frame "seq", field frame "to", field frame "kind", field frame "text" with
  | some (.str t), some (.int seq), some (.str addressee), some (.str kind), some (.str text) =>
    if t = str "say" then
      some (seq, addressee, kind, text,
        match field frame "private" with
        | some (.bool b) => b
        | _ => false)
    else none
  | _, _, _, _, _ => none

/-- The numbers are the next ones, the echoes those of the says, and the says are valid. -/
structure Proper (c c' : Console F) (out : Outgoing F) : Prop where
  rest : c' = { c with seq := c'.seq }
  seqs : ∃ k : Nat, c'.seq = c.seq + k ∧
    out.frames.filterMap seqOf = (List.range k).map fun i : Nat => c.seq + 1 + i
  quiet : out.error ≠ none ∨ out.ignored = true ∨ out.shown.isSome = true →
    out.frames = [] ∧ c' = c
  echo : ∀ i e, out.echo.get? i = some e ↔ ∃ frame ∈ out.frames, echoOf frame = some (i, e)
  valid : ∀ frame ∈ out.frames, field frame "t" = some (.str (str "say")) →
    ∃ say : Say, validateSay desk.isPrintable frame = .ok say ∧ say.text ≠ [] ∧
      (say.priv = true → say.addressee ≠ str "*")

/-- The digits after a `#`. -/
def afterHash (s : Str) : Str := if (str "#").isPrefixOf s then s.drop 1 else s

/-- What a command reads as a number. -/
def numberIn (cmd arg : Str) : Option Str :=
  if cmd = str "show" then some (afterHash arg)
  else if cmd = str "q" then some (afterHash (partition space arg).1)
  else if cmd = str "last" ∨ cmd = str "resume" then some arg
  else none

/-- What the command gives to `int` are at most 4300 decimal digits, and what it gives to
`re.compile` raises nothing but `re.error`. -/
def Answerable (cmd arg : Str) : Prop :=
  (∀ digits, numberIn cmd arg = some digits → allDigits digits = true →
    (∀ p ∈ digits, (decimal? p).isSome = true) ∧ digits.length ≤ 4300) ∧
  (cmd = str "find" → arg ≠ [] → desk.compile arg ≠ .raised)

/-- The line is no command, or one that can be answered. -/
def Harmless (line : Str) : Prop :=
  controlCharPos line = none → (str "/").isPrefixOf line = true →
    Answerable desk (partition space (line.drop 1)).1 (strip (partition space (line.drop 1)).2)

/-- No character of the text is one that a say may not have. -/
def Printed (s : Str) : Prop := ∀ p ∈ s, isCtrlText p = false

/-- The message is one as the hub writes them. -/
def FromHub (e : RingEntry F) : Prop :=
  ∃ sender text, e.sender = .str sender ∧ e.text = .str text ∧ Printed sender ∧ Printed text

/-- The names are names, the messages as the hub writes them. -/
structure Console.Fed (c : Console F) : Prop where
  me : c.seat.me ≠ []
  peers : ∀ name, c.seat.peers.contains name = true → name ≠ []
  ring : ∀ e ∈ c.seat.ring, FromHub e
  today : ∃ msgs, transcriptMsgs c.today = some msgs ∧ ∀ e ∈ msgs, FromHub e

section
variable {desk} {c : Console F} {addressee kind text : Str} {priv : Bool}

theorem controlCharPos_eq_none {s : Str} : controlCharPos s = none ↔ Printed s := by
  rw [controlCharPos, List.findIdx?_eq_none_iff]
  rfl

theorem validateSay_sayFrame (isPrintable : Char → Bool) (haddr : addressee ≠ [])
    (hkind : kind ∈ sayKinds) (htext : Printed text) (seq : Int)
    (hnamed : ¬(priv = true ∧ addressee = str "*")) :
    ∃ say : Say, validateSay isPrintable (sayFrame (F := F) addressee kind text seq priv) = .ok say ∧
      say.text = text ∧ say.priv = priv ∧ say.addressee = addressee := by
  have hctrl : controlCharPos text = none := controlCharPos_eq_none.mpr htext
  have hto : reqStr (sayFrame (F := F) addressee kind text seq priv) "to" = .ok addressee := rfl
  have hk : reqStr (sayFrame (F := F) addressee kind text seq priv) "kind" = .ok kind := rfl
  have ht : reqStr (sayFrame (F := F) addressee kind text seq priv) "text" = .ok text := rfl
  have hs : reqInt (sayFrame (F := F) addressee kind text seq priv) "seq" = .ok seq := rfl
  refine ⟨⟨addressee, kind, text, seq, priv, haddr, hkind, hctrl, hnamed⟩, ?_, rfl, rfl, rfl⟩
  cases priv with
  | false =>
    have hp : field (sayFrame (F := F) addressee kind text seq false) "private" = none := rfl
    simp only [validateSay, hto, hk, ht, hs, hp, bind, Except.bind, dif_neg haddr, dif_pos hkind,
      dif_pos hctrl, dif_neg hnamed]
  | true =>
    have hp : field (sayFrame (F := F) addressee kind text seq true) "private" = some (.bool true) :=
      rfl
    have hstar : ¬(True ∧ addressee = str "*") := fun h => hnamed ⟨rfl, h.2⟩
    simp only [validateSay, hto, hk, ht, hs, hp, bind, Except.bind, dif_neg haddr, dif_pos hkind,
      dif_pos hctrl, dif_neg hstar]

/-! ## Proper outgoings -/

/-- What sends nothing is proper. -/
theorem proper_quiet {out : Outgoing F} (hframes : out.frames = []) (hecho : out.echo = Dict.empty) :
    Proper desk c c out where
  rest := rfl
  seqs := ⟨0, (Int.add_zero _).symm, by rw [hframes]; rfl⟩
  quiet _ := ⟨hframes, rfl⟩
  echo i e := by
    rw [hframes, hecho]
    simp
  valid frame hframe := by
    rw [hframes] at hframe
    cases hframe

theorem proper_refusal (detail : Str) : Proper desk c c (refusal detail) := proper_quiet rfl rfl

/-- A frame that is no say and has the next number. -/
theorem proper_numbered {frame : Obj F} (hseq : seqOf frame = some (c.seq + 1))
    (hsay : field frame "t" ≠ some (.str (str "say"))) :
    Proper desk c c.next { frames := [frame] } where
  rest := rfl
  seqs := ⟨1, rfl, by simp [hseq]⟩
  quiet h := by simp at h
  echo i e := by
    have hecho : echoOf frame = none := by
      unfold echoOf
      split
      · next t _ _ _ _ ht _ _ _ _ =>
        rw [if_neg]
        rintro rfl
        exact hsay ht
      · rfl
    simp [hecho]
  valid f hf ht := by
    rw [List.mem_singleton.mp hf] at ht
    exact absurd ht hsay

theorem echoOf_sayFrame (seq : Int) : echoOf (sayFrame (F := F) addressee kind text seq priv) =
    some (seq, addressee, kind, text, priv) := by
  cases priv <;> rfl

theorem seqOf_sayFrame (seq : Int) :
    seqOf (sayFrame (F := F) addressee kind text seq priv) = some seq := rfl

/-- The echo of the one say among the frames. -/
theorem echo_one {seq : Int} {e₀ : Echo} {frames : List (Obj F)}
    (hframes : frames.filterMap echoOf = [(seq, e₀)]) (i : Int) (e : Echo) :
    (Dict.empty.insert seq e₀).get? i = some e ↔ ∃ frame ∈ frames, echoOf frame = some (i, e) := by
  rw [← List.mem_filterMap, hframes, List.mem_singleton, Dict.get?_insert, Prod.mk.injEq]
  split
  · next hi => simp [hi, eq_comm]
  · next hi => simp [hi]

theorem proper_sent (haddr : addressee ≠ []) (hkind : kind ∈ sayKinds) (htext : Printed text)
    (hne : text ≠ []) (hnamed : ¬(priv = true ∧ addressee = str "*")) :
    Proper desk c (sent c addressee kind text priv).2 (sent c addressee kind text priv).1 where
  rest := rfl
  seqs := ⟨1, rfl, by simp [sent, seqOf_sayFrame]⟩
  quiet h := by simp [sent] at h
  echo := echo_one (by simp [sent, echoOf_sayFrame])
  valid f hf _ := by
    rw [List.mem_singleton.mp hf]
    obtain ⟨say, hvalid, hsay, hpriv, haddr'⟩ :=
      validateSay_sayFrame (F := F) desk.isPrintable haddr hkind htext (c.seq + 1) hnamed
    refine ⟨say, hvalid, by rw [hsay]; exact hne, fun hp hstar => hnamed ⟨?_, ?_⟩⟩
    · rw [← hpriv]
      exact hp
    · rw [← haddr']
      exact hstar

theorem proper_closing {arg : Str} (htext : Printed arg) :
    Proper desk c (composeClose c arg).2 (composeClose c arg).1 := by
  unfold composeClose
  split
  · exact proper_refusal _
  · next hne =>
    have hseq : seqOf (cmdFrame (F := F) (str "reset") (c.seq + 2) none) = some (c.seq + 2) := rfl
    have hecho : echoOf (cmdFrame (F := F) (str "reset") (c.seq + 2) none) = none := rfl
    constructor
    case rest => rfl
    case seqs =>
      refine ⟨2, by simp only [Console.next]; omega, ?_⟩
      simp only [List.filterMap_cons, seqOf_sayFrame, hseq, List.filterMap_nil]
      simp [List.range_succ]
      omega
    case quiet => exact fun h => by simp at h
    case echo => exact echo_one (by simp [echoOf_sayFrame, hecho])
    case valid =>
      intro f hf ht
      rcases List.mem_cons.mp hf with rfl | hf
      · obtain ⟨say, hvalid, hsay, hpriv, -⟩ := @validateSay_sayFrame F (str "*") (str "done") arg false
          desk.isPrintable (by decide) (by decide) htext (c.seq + 1) (by simp)
        exact ⟨say, hvalid, by rw [hsay]; exact hne, by simp [hpriv]⟩
      · rw [List.mem_singleton.mp hf] at ht
        cases ht

/-! ## Says -/

theorem knownPeer_ne_nil (hc : c.Fed) {name : Str} (hname : c.seat.knownPeer name = true) :
    name ≠ [] := by
  rintro rfl
  simp only [Seat.knownPeer, Bool.or_eq_true, decide_eq_true_eq] at hname
  rcases hname with (hname | hname) | hname
  · cases hname
  · exact hc.me hname.symm
  · exact hc.peers [] hname rfl

theorem proper_composeSay (hc : c.Fed) (hkind : kind ∈ sayKinds) (htext : Printed text) :
    Proper desk c (composeSay desk c addressee kind text priv).2
      (composeSay desk c addressee kind text priv).1 := by
  unfold composeSay
  split
  · exact proper_refusal _
  · next hne =>
    split
    · exact proper_refusal _
    · next hnamed =>
      split
      · exact proper_refusal _
      · next hknown =>
        rw [Bool.not_eq_false] at hknown
        exact proper_sent (knownPeer_ne_nil hc hknown) hkind htext hne hnamed

/-- The loop of the prefixes takes the kind from the protocol and the text from the line. -/
theorem ends_say {r q : Reading} (h : Ends r q) (hkind : r.kind ∈ sayKinds) : q.kind ∈ sayKinds := by
  induction h with
  | stop => exact hkind
  | @step r r' q hnext _ ih =>
    apply ih
    unfold Reading.next at hnext
    split at hnext
    · rw [← Option.some.inj hnext]
      exact hkind
    · split at hnext
      · rw [← Option.some.inj hnext]
        simp only
        split
        · next hword => exact hword
        · exact hkind
      · split at hnext
        · rw [← Option.some.inj hnext]
          exact hkind
        · cases hnext

theorem Printed.subset {s t : Str} (hs : Printed s) (hst : ∀ p ∈ t, p ∈ s) : Printed t :=
  fun p hp => hs p (hst p hp)

theorem mem_of_strip {s : Str} {p : CodePoint} (hp : p ∈ strip s) : p ∈ s :=
  (List.rdropWhile_prefix isSpace s).subset ((lstrip_suffix _).subset hp)

theorem parseOutgoing_say {line : Str} (hline : Printed line) {seq : Int}
    (h : parseOutgoing line 0 = some (.say addressee kind text seq priv)) :
    kind ∈ sayKinds ∧ Printed text := by
  unfold parseOutgoing at h
  simp only at h
  split at h
  · split at h
    · cases h
    · cases h
  · have hends := Reading.read_ends 3 { text := strip line } (Nat.le_refl 3)
    obtain ⟨pre, htext, -⟩ := hends.consumed
    have hnote : str "note" ∈ sayKinds := by decide
    have hkinds := ends_say hends hnote
    rw [Option.some.injEq, Typed.say.injEq] at h
    obtain ⟨-, rfl, rfl, -, -⟩ := h
    refine ⟨hkinds, hline.subset fun p hp => mem_of_strip ?_⟩
    show p ∈ ({ text := strip line } : Reading).text
    rw [htext]
    exact List.mem_append_right _ (mem_of_strip hp)

/-! ## Numbers and messages -/

theorem msgIdArg_isSome (arg : Str) : (msgIdArg arg).isSome = true ↔
    (allDigits (afterHash arg) = true → Py.Readable (afterHash arg)) := by
  rw [← int?_isSome_iff]
  show (if allDigits (afterHash arg) then (int? (afterHash arg)).map some else some none).isSome = true ↔ _
  split
  · next hdigits => simp [hdigits]
  · next hdigits => simp [hdigits]

theorem lookup_spec (hc : c.Fed) (id : Int) :
    ∃ found, c.lookup id = some found ∧ ∀ e ∈ found, FromHub e := by
  unfold Console.lookup
  split
  · next e he =>
    refine ⟨some e, rfl, fun x hx => ?_⟩
    rw [← Option.mem_some_iff.mp hx]
    exact hc.ring e (List.mem_reverse.mp (List.mem_of_find?_eq_some he))
  · obtain ⟨msgs, htoday, hall⟩ := hc.today
    rw [htoday]
    exact ⟨_, rfl, fun x hx => hall x (List.mem_of_find?_eq_some hx)⟩

theorem recent_spec (hc : c.Fed) (n : Nat) : ∃ records, c.seat.recent c.today n = some records := by
  obtain ⟨msgs, htoday, -⟩ := hc.today
  unfold Seat.recent
  simp only
  split
  · exact ⟨_, rfl⟩
  · rw [htoday]
    exact ⟨_, rfl⟩

theorem search_spec (hc : c.Fed) (rx : Str → Bool) (limit : Nat) :
    ∃ records, c.seat.search rx limit = some records := by
  have hring : ∀ es : List (RingEntry F), (∀ e ∈ es, FromHub e) →
      ∃ hits, es.mapM (fun e =>
        match e.text with
        | .str text => some (if rx text then some e else none)
        | _ => none) = some hits := by
    intro es
    induction es with
    | nil => exact fun _ => ⟨[], rfl⟩
    | cons e es ih =>
      intro hes
      obtain ⟨hits, hhits⟩ := ih fun x hx => hes x (List.mem_cons_of_mem _ hx)
      obtain ⟨sender, text, -, htext, -⟩ := hes e (List.mem_cons_self ..)
      rw [List.mapM_cons, hhits, htext]
      exact ⟨_, rfl⟩
  obtain ⟨hits, hhits⟩ := hring c.seat.ring hc.ring
  refine ⟨lastN limit (hits.filterMap id), ?_⟩
  unfold Seat.search
  rw [hhits]
  rfl

/-! ## Commands -/

variable [PyFloat F]

theorem printed_append {s t : Str} : Printed (s ++ t) ↔ Printed s ∧ Printed t :=
  List.forall_mem_append

/-- A literal is looked through. -/
theorem printed_of_any {s : Str} (hs : s.any isCtrlText = false) : Printed s := by
  simpa [Printed] using hs

theorem printed_natStr (n : Nat) : Printed (natStr n) := by
  intro p hp
  obtain ⟨d, hd, rfl⟩ := List.mem_map.mp hp
  have hdigit : d.isDigit = true :=
    Nat.isDigit_of_mem_toDigits (b := 10) (by omega) (by omega) hd
  have hrange : 48 ≤ d.toNat ∧ d.toNat ≤ 57 := Char.isDigit_iff_toNat.mp hdigit
  have hval : (CodePoint.scalar d).val = d.toNat := rfl
  simp [isCtrlText, hval]
  omega

theorem printed_intStr (z : Int) : Printed (intStr z) := by
  unfold intStr
  split
  · exact printed_natStr _
  · exact printed_append.mpr ⟨printed_of_any (s := str "-") rfl, printed_natStr _⟩

/-- The text of a quote can be said. -/
theorem printed_quoteText {e : RingEntry F} (he : FromHub e) {human : Str} (hh : Printed human) :
    Printed (quoteText desk e human) := by
  obtain ⟨sender, text, hsender, htext, hps, hpt⟩ := he
  have hexcerpt : Printed (if text.length ≤ quoteExcerpt then text
      else text.take quoteExcerpt ++ str "…") := by
    split
    · exact hpt
    · exact printed_append.mpr ⟨hpt.subset fun p hp => List.mem_of_mem_take hp,
        printed_of_any rfl⟩
  simp only [quoteText, hsender, htext, pyStr, printed_append]
  exact ⟨⟨⟨⟨⟨⟨hps, printed_of_any rfl⟩, printed_intStr _⟩, printed_of_any rfl⟩, hexcerpt⟩,
    printed_of_any rfl⟩, hh⟩

theorem quoteText_ne_nil (e : RingEntry F) {human : Str} (hh : human ≠ []) :
    quoteText desk e human ≠ [] := by
  intro hnil
  rw [quoteText] at hnil
  exact hh (List.append_eq_nil_iff.mp hnil).2

/-- The outcome is proper. -/
def Composes (desk : Desk) (c : Console F) (r : Option (Outgoing F × Console F)) : Prop :=
  ∃ out c', r = some (out, c') ∧ Proper desk c c' out

omit [PyFloat F] in
theorem composes_quiet {out : Outgoing F} (hframes : out.frames = []) (hecho : out.echo = Dict.empty) :
    Composes desk c (some (out, c)) := ⟨_, _, rfl, proper_quiet hframes hecho⟩

omit [PyFloat F] in
theorem composeShow_spec (hc : c.Fed) (arg : Str) :
    (Composes desk c (composeShow c arg) ∧ (msgIdArg arg).isSome = true) ∨
      (composeShow c arg = none ∧ ¬(msgIdArg arg).isSome = true) := by
  unfold composeShow
  cases hm : msgIdArg arg with
  | none => exact Or.inr ⟨rfl, by simp⟩
  | some m =>
    refine Or.inl ⟨?_, rfl⟩
    cases m with
    | none => exact composes_quiet rfl rfl
    | some id =>
      obtain ⟨found, hfound, -⟩ := lookup_spec hc id
      simp only [Option.bind_eq_bind, Option.bind_some, hfound]
      cases found with
      | none => exact composes_quiet rfl rfl
      | some e => exact composes_quiet rfl rfl

omit [PyFloat F] in
theorem composeLast_spec (hc : c.Fed) (arg : Str) :
    (Composes desk c (composeLast c arg) ∧ (allDigits arg = true → Py.Readable arg)) ∨
      (composeLast c arg = none ∧ ¬(allDigits arg = true → Py.Readable arg)) := by
  have hshow : ∀ n, Composes desk c (do
      let records ← c.seat.recent c.today n
      if records.isEmpty then return ({ shown := some .nothing }, c)
      else return ({ shown := some (.replay records false) }, c)) := by
    intro n
    obtain ⟨records, hrecords⟩ := recent_spec hc n
    rw [hrecords]
    simp only [Option.bind_eq_bind, Option.bind_some]
    split
    · exact composes_quiet rfl rfl
    · exact composes_quiet rfl rfl
  unfold composeLast
  by_cases hnone : arg = []
  · have hno : allDigits arg = false := by rw [hnone]; rfl
    rw [if_neg (fun h => h.1 hnone), if_pos hnone]
    exact Or.inl ⟨hshow 3, fun h => by rw [hno] at h; cases h⟩
  · cases hdigits : allDigits arg with
    | false =>
      rw [if_pos ⟨hnone, rfl⟩]
      exact Or.inl ⟨composes_quiet rfl rfl, nofun⟩
    | true =>
      rw [if_neg (fun h => Bool.noConfusion h.2), if_neg hnone]
      cases hint : int? arg with
      | none =>
        refine Or.inr ⟨rfl, fun h => ?_⟩
        have hsome := (int?_isSome_iff arg).mpr (h rfl)
        rw [hint] at hsome
        cases hsome
      | some n =>
        exact Or.inl ⟨hshow n, fun _ => (int?_isSome_iff arg).mp (by rw [hint]; rfl)⟩

omit [PyFloat F] in
theorem composeFind_spec (hc : c.Fed) (arg : Str) (maxRows : Nat) :
    (Composes desk c (composeFind desk c arg maxRows) ∧
        (arg ≠ [] → desk.compile arg ≠ .raised)) ∨
      (composeFind desk c arg maxRows = none ∧ ¬(arg ≠ [] → desk.compile arg ≠ .raised)) := by
  unfold composeFind
  split
  · next hnone => exact Or.inl ⟨composes_quiet rfl rfl, fun h => absurd hnone h⟩
  · next hne =>
    cases hrx : desk.compile arg with
    | raised => exact Or.inr ⟨rfl, fun h => h hne rfl⟩
    | error detail => exact Or.inl ⟨composes_quiet rfl rfl, fun _ h => by cases h⟩
    | pattern rx =>
      obtain ⟨records, hrecords⟩ := search_spec hc rx maxRows
      refine Or.inl ⟨?_, fun _ h => by cases h⟩
      simp only [hrecords, Option.bind_eq_bind, Option.bind_some]
      split
      · exact composes_quiet rfl rfl
      · exact composes_quiet rfl rfl

theorem composeQuote_spec (hc : c.Fed) {arg : Str} (harg : Printed arg) :
    (Composes desk c (composeQuote desk c arg) ∧
        (msgIdArg (partition space arg).1).isSome = true) ∨
      (composeQuote desk c arg = none ∧ ¬(msgIdArg (partition space arg).1).isSome = true) := by
  unfold composeQuote
  simp only
  cases hm : msgIdArg (partition space arg).1 with
  | none => exact Or.inr ⟨rfl, by simp⟩
  | some m =>
    refine Or.inl ⟨?_, rfl⟩
    cases m with
    | none => exact composes_quiet rfl rfl
    | some id =>
      obtain ⟨found, hfound, hhub⟩ := lookup_spec hc id
      simp only [Option.bind_eq_bind, Option.bind_some, hfound]
      cases found with
      | none => exact composes_quiet rfl rfl
      | some e =>
        simp only
        generalize (if (str "@").isPrefixOf (partition space (strip (partition space arg).2)).1 = true
          then _ else _) = name
        split
        · exact composes_quiet rfl rfl
        · next hknown =>
          split
          · exact composes_quiet rfl rfl
          · next hhuman =>
            split
            · exact composes_quiet rfl rfl
            · next hnamed =>
              rw [Bool.not_eq_false] at hknown
              have hprinted : Printed (strip (partition space (strip (partition space arg).2)).2) :=
                harg.subset fun p hp => (partition_suffix _ _).subset
                  (mem_of_strip ((partition_suffix _ _).subset (mem_of_strip hp)))
              exact ⟨_, _, rfl, proper_sent (knownPeer_ne_nil hc hknown) (by decide)
                (printed_quoteText (hhub e rfl) hprinted) (quoteText_ne_nil e hhuman) hnamed⟩

/-- A command reads a number, or a regular expression, or neither. -/
theorem answerable_of_number {cmd arg digits : Str} (hcmd : cmd ≠ str "find")
    (hnum : numberIn cmd arg = some digits) :
    Answerable desk cmd arg ↔ (allDigits digits = true → Py.Readable digits) := by
  constructor
  · exact fun h => h.1 digits hnum
  · intro h
    refine ⟨fun ds hds => ?_, fun hfind => absurd hfind hcmd⟩
    rw [hnum, Option.some.injEq] at hds
    rw [← hds]
    exact h

theorem answerable_of_none {cmd arg : Str} (hcmd : cmd ≠ str "find") (hnum : numberIn cmd arg = none) :
    Answerable desk cmd arg :=
  ⟨fun ds hds => (by rw [hnum] at hds; cases hds), fun hfind => absurd hfind hcmd⟩

omit [PyFloat F] in
theorem proper_cmd {cmd : Str} (args : Option (Obj F)) :
    Composes desk c (some ({ frames := [cmdFrame cmd (c.seq + 1) args] }, c.next)) :=
  ⟨_, _, rfl, proper_numbered rfl (by
    intro h
    rw [show field (cmdFrame (F := F) cmd (c.seq + 1) args) "t" = some (.str (str "cmd")) from rfl] at h
    cases h)⟩

omit [PyFloat F] in
/-- A command that is passed on. -/
theorem composeHubCommand_spec {cmd : Str} (arg : Str) (hcmd : cmd ≠ str "find")
    (hno : cmd ≠ str "show" ∧ cmd ≠ str "q" ∧ cmd ≠ str "last") :
    (Composes desk c (do
        let args ← cmdArgs (F := F) cmd arg
        return ({ frames := [cmdFrame cmd (c.seq + 1) args] }, c.next)) ∧
        Answerable desk cmd arg) ∨
      ((do
        let args ← cmdArgs (F := F) cmd arg
        return (({ frames := [cmdFrame cmd (c.seq + 1) args] } : Outgoing F), c.next)) = none ∧
        ¬Answerable desk cmd arg) := by
  by_cases hresume : cmd = str "resume"
  · have hnum : numberIn cmd arg = some arg := by
      rw [numberIn, if_neg hno.1, if_neg hno.2.1, if_pos (Or.inr hresume)]
    rw [answerable_of_number hcmd hnum, cmdArgs]
    cases hdigits : allDigits arg with
    | false =>
      have hgoal : cmd ≠ str "goal" := by rw [hresume]; decide
      rw [if_neg (fun h => Bool.noConfusion h.2), if_neg hgoal]
      exact Or.inl ⟨proper_cmd _, nofun⟩
    | true =>
      rw [if_pos ⟨hresume, rfl⟩]
      cases hint : int? arg with
      | none =>
        refine Or.inr ⟨rfl, fun h => ?_⟩
        have hsome := (int?_isSome_iff arg).mpr (h rfl)
        rw [hint] at hsome
        cases hsome
      | some n =>
        exact Or.inl ⟨proper_cmd _, fun _ => (int?_isSome_iff arg).mp (by rw [hint]; rfl)⟩
  · have hnum : numberIn cmd arg = none := by
      rw [numberIn, if_neg hno.1, if_neg hno.2.1, if_neg]
      exact fun h => h.elim hno.2.2 hresume
    refine Or.inl ⟨?_, answerable_of_none hcmd hnum⟩
    rw [cmdArgs, if_neg fun h => hresume h.1]
    split
    · exact proper_cmd _
    · exact proper_cmd _

theorem composeCommand_spec (hc : c.Fed) (cmd : Str) {arg : Str} (harg : Printed arg)
    (maxRows : Nat) :
    (Composes desk c (composeCommand desk c cmd arg maxRows) ∧ Answerable desk cmd arg) ∨
      (composeCommand desk c cmd arg maxRows = none ∧ ¬Answerable desk cmd arg) := by
  unfold composeCommand
  split
  · next hunknown =>
    have hne : ∀ known ∈ seatCommands ++ commands, cmd ≠ known := by
      rintro known hknown rfl
      rcases List.mem_append.mp hknown with hin | hin
      · exact hunknown.1 hin
      · exact hunknown.2 hin
    refine Or.inl ⟨composes_quiet rfl rfl, answerable_of_none (hne _ (by decide)) ?_⟩
    rw [numberIn, if_neg (hne _ (by decide)), if_neg (hne _ (by decide)), if_neg]
    exact fun h => h.elim (hne _ (by decide)) (hne _ (by decide))
  · split
    · next hshow =>
      have hnum : numberIn cmd arg = some (afterHash arg) := if_pos hshow
      rw [answerable_of_number (by rw [hshow]; decide) hnum, ← msgIdArg_isSome]
      exact composeShow_spec hc arg
    · next hshow =>
      split
      · next hlast =>
        have hnum : numberIn cmd arg = some arg := by
          rw [numberIn, if_neg hshow, if_neg (by rw [hlast]; decide), if_pos (Or.inl hlast)]
        rw [answerable_of_number (by rw [hlast]; decide) hnum]
        exact composeLast_spec hc arg
      · next hlast =>
        split
        · next hfind =>
          have hnum : numberIn cmd arg = none := by
            rw [hfind]
            rfl
          have hiff : Answerable desk cmd arg ↔ (arg ≠ [] → desk.compile arg ≠ .raised) :=
            ⟨fun h => h.2 hfind, fun h => ⟨fun ds hds => (by rw [hnum] at hds; cases hds), fun _ => h⟩⟩
          rw [hiff]
          exact composeFind_spec hc arg maxRows
        · next hfind =>
          split
          · next hq =>
            have hnum : numberIn cmd arg = some (afterHash (partition space arg).1) := by
              rw [numberIn, if_neg hshow, if_pos hq]
            rw [answerable_of_number hfind hnum, ← msgIdArg_isSome]
            exact composeQuote_spec hc harg
          · next hq =>
            have hnone : cmd ≠ str "resume" → Answerable desk cmd arg := by
              intro hresume
              apply answerable_of_none hfind
              rw [numberIn, if_neg hshow, if_neg hq, if_neg fun h => h.elim hlast hresume]
            split
            · next hhelp =>
              exact Or.inl ⟨composes_quiet rfl rfl, hnone (by rw [hhelp]; decide)⟩
            · split
              · next hclose =>
                exact Or.inl ⟨⟨_, _, rfl, proper_closing harg⟩, hnone (by rw [hclose]; decide)⟩
              · split
                · next hroster =>
                  refine Or.inl ⟨⟨_, _, rfl, proper_numbered rfl ?_⟩, hnone (by rw [hroster]; decide)⟩
                  intro h
                  rw [show field (rosterQuery (F := F) (c.seq + 1)) "t" = some (.str (str "roster"))
                    from rfl] at h
                  cases h
                · split
                  · next hgoal =>
                    exact Or.inl ⟨composes_quiet rfl rfl, hnone (by rw [hgoal.1]; decide)⟩
                  · exact composeHubCommand_spec arg hfind ⟨hshow, hq, hlast⟩

/-! ## Lines -/

omit [PyFloat F] in
/-- A state frame takes no number. -/
theorem proper_state (state : Str) (detail : Option Str) :
    Composes desk c (some ({ frames := [stateOut state detail] }, c)) := by
  have ht : field (stateOut (F := F) state detail) "t" = some (.str (str "state")) := rfl
  have hseq : seqOf (stateOut (F := F) state detail) = none := by cases detail <;> rfl
  have hecho : echoOf (stateOut (F := F) state detail) = none := by cases detail <;> rfl
  refine ⟨_, _, rfl, rfl, ⟨0, (Int.add_zero _).symm, by simp [hseq]⟩, fun h => by simp at h, ?_, ?_⟩
  · simp [hecho]
  · intro f hf hsay
    rw [List.mem_singleton.mp hf, ht] at hsay
    cases hsay

/-- **No typed line breaks the seat** but those that give `int` or `re.compile` what they do not take,
and whatever is sent has the next numbers, its echoes and valid says. -/
theorem outgoing_proper_iff (desk : Desk) (c : Console F) (hc : c.Fed) (line : Str) (maxRows : Nat) :
    (∃ out c', buildOutgoing desk c line maxRows = some (out, c') ∧ Proper desk c c' out) ↔
      Harmless desk line := by
  unfold buildOutgoing Harmless
  cases hctrl : controlCharPos line with
  | some pos => exact ⟨fun _ => nofun, fun _ => composes_quiet rfl rfl⟩
  | none =>
    have hline : Printed line := controlCharPos_eq_none.mp hctrl
    simp only
    split
    · next hslash =>
      have harg : Printed (strip (partition space (line.drop 1)).2) :=
        hline.subset fun p hp => List.mem_of_mem_drop ((partition_suffix _ _).subset (mem_of_strip hp))
      rcases @composeCommand_spec F desk c _ hc (partition space (line.drop 1)).1 _ harg maxRows with
        ⟨hcomposes, hok⟩ | ⟨hnone, hbad⟩
      · exact ⟨fun _ _ _ => hok, fun _ => hcomposes⟩
      · constructor
        · rintro ⟨out, c', heq, -⟩
          rw [hnone] at heq
          cases heq
        · exact fun h => absurd (h trivial hslash) hbad
    · next hslash =>
      refine ⟨fun _ _ h => absurd h hslash, fun _ => ?_⟩
      split
      · exact composes_quiet rfl rfl
      · exact proper_state _ _
      · next hsay =>
        obtain ⟨hkind, htext⟩ := parseOutgoing_say hline hsay
        exact ⟨_, _, rfl, proper_composeSay hc hkind htext⟩

end

end

/-- A desk whose patterns match nothing. -/
def bareDesk : Desk where
  isPrintable _ := true
  compile _ := .pattern fun _ => false

/-- A seat that has seen nothing yet. -/
def newConsole : Console PyJson.Token := { seat := { me := str "frank" } }

theorem fed_newConsole : newConsole.Fed where
  me := by decide
  peers := nofun
  ring := nofun
  today := ⟨[], rfl, nofun⟩

/-- A superscript two takes the seat down. -/
theorem resume_superscript_raises : ¬∀ (desk : Desk) (c : Console PyJson.Token), c.Fed →
    ∀ (line : Str) (maxRows : Nat), ∃ out c', buildOutgoing desk c line maxRows = some (out, c') ∧
      Proper desk c c' out := by
  intro hall
  obtain ⟨out, c', hbuild, -⟩ := hall bareDesk newConsole fed_newConsole (str "/resume ²") 10
  have hnone : (buildOutgoing bareDesk newConsole (str "/resume ²") 10).isNone = true := by decide
  rw [hbuild] at hnone
  cases hnone

/-- Frank has bob for a peer, the second message in the ring and the first in the transcript. -/
def usedConsole : Console PyJson.Token where
  seat :=
    { me := str "frank", peers := Dict.empty.insert (str "bob") (str "idle"), ring := [msgEntry 2] }
  seq := 4
  today := [1, 2].map msgRecord

theorem fromHub_msgEntry (id : Int) : FromHub (msgEntry id) :=
  ⟨str "bob", str "hi", rfl, rfl, controlCharPos_eq_none.mp rfl, controlCharPos_eq_none.mp rfl⟩

theorem fed_usedConsole : usedConsole.Fed where
  me := by decide
  peers := by
    rintro name hname rfl
    revert hname
    decide
  ring := by
    intro e he
    rw [List.mem_singleton.mp he]
    exact fromHub_msgEntry 2
  today := by
    refine ⟨[1, 2].map msgEntry, rfl, fun e he => ?_⟩
    obtain ⟨id, -, rfl⟩ := List.mem_map.mp he
    exact fromHub_msgEntry id

/-- He quotes the first message to bob: his fifth frame, and the echo that waits for its answer. -/
theorem outgoing_proper_quote :
    ∃ out c', buildOutgoing bareDesk usedConsole (str "/q #1 @bob why") 10 = some (out, c') ∧
      Proper bareDesk usedConsole c' out ∧ out.frames.filterMap seqOf = [5] ∧
      (out.echo.get? 5).map (·.1) = some (str "bob") := by
  have hharmless : Harmless bareDesk (str "/q #1 @bob why") := by
    refine fun _ _ => ⟨?_, fun hfind => absurd hfind (by decide)⟩
    intro digits hdigits _
    have hone : numberIn (str "q") (str "#1 @bob why") = some (str "1") := by decide
    have hsame : digits = str "1" := Option.some.inj (hdigits.symm.trans hone)
    subst hsame
    decide
  obtain ⟨out, c', hbuild, hproper⟩ := (outgoing_proper_iff bareDesk usedConsole fed_usedConsole
    (str "/q #1 @bob why") 10).mpr hharmless
  have hall : (buildOutgoing bareDesk usedConsole (str "/q #1 @bob why") 10).map (fun r =>
      (r.1.frames.filterMap seqOf, (r.1.echo.get? 5).map (·.1))) =
      some ([5], some (str "bob")) := by decide +kernel
  rw [hbuild, Option.map_some, Option.some.injEq, Prod.mk.injEq] at hall
  exact ⟨out, c', hbuild, hproper, hall.1, hall.2⟩

end Moot.Spoke
