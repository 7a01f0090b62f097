import Moot.Lib.Json
import Moot.Primitives

/-!
# Wire protocol

`proto.py`: validation of inbound frames, error codes, name suggestions.  A raw
frame is the JSON object `json.loads` made of a line; `validate` turns it into
an `Inbound` frame, which carries what the validator checked, or into the error
the client is told.
-/

namespace Moot.Proto
open Py PyJson

variable {F : Type}

/-- A JSON object. -/
abbrev Obj (F : Type) := List (Str × Json F)

/-- `frame.get(key)` -/
def field (frame : Obj F) (key : String) : Option (Json F) := frame.lookup (str key)

/-! ## Vocabulary -/

def errProtoMismatch : Str := str "proto_mismatch"
def errNameTaken : Str := str "name_taken"
def errUnknownRecipient : Str := str "unknown_recipient"
def errRateLimited : Str := str "rate_limited"
def errDuplicate : Str := str "duplicate"
def errFrozen : Str := str "frozen"
def errMuted : Str := str "muted"
def errMalformed : Str := str "malformed"
def errForbidden : Str := str "forbidden"

/-- `SAY_KINDS` -/
def sayKinds : List Str :=
  [str "claim", str "question", str "answer", str "result", str "objection", str "done", str "note"]

/-- `RESERVED_NAMES` -/
def reservedNames : List Str := [str "*", str "hub", str "system"]

def maxNameLen : Nat := 32
def maxRoleLen : Nat := 256
def maxDetailLen : Nat := 1024
def maxGoalLen : Nat := 1024

def isAlnum : CodePoint → Bool
  | .scalar c => c.isAlphanum
  | .surrogate _ => false

def isNameChar (p : CodePoint) : Bool := isAlnum p || p = .scalar '_' || p = .scalar '-'

/-- `[A-Za-z0-9][A-Za-z0-9_-]{0,31}` -/
def isProtocolName : Str → Bool
  | [] => false
  | p :: s => isAlnum p && s.all isNameChar && s.length ≤ 31

/-- `NAME_RE.match`: `$` also matches before a final newline. -/
def nameRe (s : Str) : Bool :=
  isProtocolName s || (s.getLast? = some (.scalar '\n') && isProtocolName s.dropLast)

/-- `casefold`, of a name: on what `NAME_RE` admits only ASCII letters change. -/
def casefold (s : Str) : Str :=
  s.map fun p => match p with
    | .scalar c => .scalar c.toLower
    | .surrogate n => .surrogate n

/-- `_CTRL_LABEL` -/
def isCtrlLabel (p : CodePoint) : Bool :=
  let v := p.val
  v ≤ 8 || (0x0a ≤ v && v ≤ 0x1f) || (0x7f ≤ v && v ≤ 0x9f)

/-- `_CTRL_TEXT` -/
def isCtrlText (p : CodePoint) : Bool :=
  let v := p.val
  v ≤ 8 || v = 0x0b || v = 0x0c || (0x0e ≤ v && v ≤ 0x1f) || (0x7f ≤ v && v ≤ 0x9f)

/-- `control_char_pos` -/
def controlCharPos (text : Str) : Option Nat := text.findIdx? isCtrlText

/-! ## Inbound frames -/

/-- A label (role, detail, goal) of at most `max` characters. -/
def isLabel (max : Nat) (s : Str) : Bool := s.length ≤ max && !s.any isCtrlLabel

structure Hello where
  name : Str
  kind : Str
  room : Option Str
  caps : List Str
  role : Option Str
  name_ok : casefold name ∉ reservedNames ∧ nameRe name = true
  kind_ok : nameRe kind = true
  room_ok : ∀ r ∈ room, nameRe r = true
  role_ok : ∀ r ∈ role, isLabel maxRoleLen r = true

structure Say where
  addressee : Str
  kind : Str
  text : Str
  seq : Int
  priv : Bool
  addressee_ne : addressee ≠ []
  kind_ok : kind ∈ sayKinds
  text_ok : controlCharPos text = none
  named : ¬ (priv = true ∧ addressee = str "*")

structure Report where
  state : State
  detail : Option Str
  detail_ok : ∀ d ∈ detail, isLabel maxDetailLen d = true

inductive Command
  | freeze
  | resume (n : Option Nat) (pos : ∀ k ∈ n, 0 < k)
  | reset
  | mute
  | unmute
  | goal (text : Str) (ok : isBlank text = false ∧ isLabel maxGoalLen text = true)

/-- A frame that passed validation, with what the handlers read of it. -/
inductive Inbound
  | hello (f : Hello)
  | say (f : Say)
  | state (f : Report)
  | cmd (c : Command) (seq : Option Int)
  | roster (seq : Option Int)
  | bye
  | pong

/-- `ValidationError` -/
structure ValidationError where
  code : Str
  detail : Str
  seq : Option Int := none
  deriving DecidableEq

/-! ## Validation -/

section
variable [PyFloat F] (isPrintable : Char → Bool)

mutual
/-- `repr(value)` -/
def reprJson : Json F → Str
  | .null => str "None"
  | .bool true => str "True"
  | .bool false => str "False"
  | .int z => intStr z
  | .float x =>
    let tok := PyFloat.repr x
    if tok = "NaN".toList then str "nan"
    else if tok = "Infinity".toList then str "inf"
    else if tok = "-Infinity".toList then str "-inf"
    else ofChars tok
  | .str s => reprStr isPrintable s
  | .arr xs => str "[" ++ reprItems xs ++ str "]"
  | .obj kvs => ofChars ['{'] ++ reprFields kvs ++ ofChars ['}']

def reprItems : List (Json F) → Str
  | [] => []
  | [x] => reprJson x
  | x :: y :: xs => reprJson x ++ str ", " ++ reprItems (y :: xs)

def reprFields : List (Str × Json F) → Str
  | [] => []
  | [(k, v)] => reprStr isPrintable k ++ str ": " ++ reprJson v
  | (k, v) :: kv :: kvs =>
    reprStr isPrintable k ++ str ": " ++ reprJson v ++ str ", " ++ reprFields (kv :: kvs)
end

abbrev Checked := Except ValidationError

def malformed {α : Type} (detail : Str) : Checked α := .error ⟨errMalformed, detail, none⟩

/-- `_req_str` -/
def reqStr (frame : Obj F) (key : String) : Checked Str :=
  match field frame key with
  | some (.str s) => .ok s
  | _ => malformed (str "missing or non-string field: " ++ str key)

/-- `_req_int` -/
def reqInt (frame : Obj F) (key : String) : Checked Int :=
  match field frame key with
  | some (.int z) => .ok z
  | _ => malformed (str "missing or non-int field: " ++ str key)

/-- `_opt_str`, with `_CTRL_LABEL` -/
def optStr (frame : Obj F) (key : String) (max : Nat) :
    Checked { s : Option Str // ∀ r ∈ s, isLabel max r = true } :=
  match field frame key with
  | none | some .null => .ok ⟨none, by simp⟩
  | some (.str s) =>
    if hlen : max < s.length then
      malformed (str key ++ str " exceeds " ++ natStr max ++ str " characters")
    else if hctrl : s.any isCtrlLabel = true then
      malformed (str key ++ str " contains control characters")
    else
      .ok ⟨some s, by
        rintro r hr
        obtain rfl : s = r := Option.some.inj hr
        simp only [isLabel, Bool.and_eq_true, decide_eq_true_eq, Bool.not_eq_true']
        exact ⟨Nat.le_of_not_lt hlen, Bool.not_eq_true _ ▸ hctrl⟩⟩
  | some _ => malformed (str key ++ str " must be a string")

/-- The strings of a list of strings. -/
def strings? : List (Json F) → Option (List Str)
  | [] => some []
  | .str s :: xs => (strings? xs).map (s :: ·)
  | _ :: _ => none

/-- `validate_hello` -/
def validateHello (frame : Obj F) : Checked Hello := do
  let proto ← reqInt frame "proto"
  if proto ≠ 1 then
    .error ⟨errProtoMismatch, str "hub speaks proto=1", none⟩
  else
    let name ← reqStr frame "name"
    if hname : casefold name ∈ reservedNames ∨ nameRe name = false then
      malformed (str "invalid name: " ++ reprStr isPrintable name)
    else
      let kind ← reqStr frame "kind"
      if hkind : nameRe kind = false then
        malformed (str "invalid kind: " ++ reprStr isPrintable kind)
      else
        let room ← (show Checked { r : Option Str // ∀ s ∈ r, nameRe s = true } from
          match field frame "room" with
          | none | some .null => .ok ⟨none, by simp⟩
          | some (.str s) =>
            if h : nameRe s = true then .ok ⟨some s, by rintro r hr; cases hr; exact h⟩
            else malformed (str "invalid room: " ++ reprStr isPrintable s)
          | some v => malformed (str "invalid room: " ++ reprJson isPrintable v))
        let caps ← (show Checked (List Str) from
          match field frame "caps" with
          | none => .ok []
          | some (.arr xs) =>
            match strings? xs with
            | some caps => .ok caps
            | none => malformed (str "caps must be a list of strings")
          | some _ => malformed (str "caps must be a list of strings"))
        let role ← optStr frame "role" maxRoleLen
        .ok
          { name := name
            kind := kind
            room := room.val
            caps := caps
            role := role.val
            name_ok := by
              rw [not_or, Bool.not_eq_false] at hname
              exact hname
            kind_ok := Bool.not_eq_false _ ▸ hkind
            room_ok := room.property
            role_ok := role.property }

/-- `validate_say` -/
def validateSay (frame : Obj F) : Checked Say := do
  let addressee ← reqStr frame "to"
  if haddr : addressee = [] then
    malformed (str "empty recipient")
  else
    let kind ← reqStr frame "kind"
    if hkind : kind ∈ sayKinds then
      let text ← reqStr frame "text"
      if htext : controlCharPos text = none then
        let seq ← reqInt frame "seq"
        let priv ← (show Checked Bool from
          match field frame "private" with
          | none => .ok false
          | some (.bool b) => .ok b
          | some _ => malformed (str "private must be a boolean"))
        if hnamed : priv = true ∧ addressee = str "*" then
          malformed (str "a private say needs a named recipient")
        else
          .ok ⟨addressee, kind, text, seq, priv, haddr, hkind, htext, hnamed⟩
      else
        malformed (str "text contains control characters (only \\t \\n \\r allowed)")
    else
      malformed (str "unknown say kind: " ++ reprStr isPrintable kind)

/-- `validate_state` -/
def validateState (frame : Obj F) : Checked Report := do
  let name ← reqStr frame "state"
  let state ← (show Checked State from
    if name = str "idle" then .ok .idle
    else if name = str "busy" then .ok .busy
    else if name = str "blocked" then .ok .blocked
    else malformed (str "unknown state: " ++ reprStr isPrintable name))
  let detail ← optStr frame "detail" maxDetailLen
  .ok ⟨state, detail.val, detail.property⟩

/-- `opt_seq` -/
def optSeq (frame : Obj F) : Option Int :=
  match field frame "seq" with
  | some (.int z) => some z
  | _ => none

/-- `COMMANDS` -/
def commands : List Str :=
  [str "freeze", str "resume", str "reset", str "mute", str "unmute", str "goal"]

/-- The argument of `resume`, which must be a positive integer if it is there. -/
def resumeArg (args : Obj F) : Checked Command :=
  match field args "n" with
  | none => .ok (.resume none (by simp))
  | some (.int z) =>
    if h : 0 < z then .ok (.resume (some z.toNat) (by rintro k hk; cases hk; omega))
    else malformed (str "args.n must be a positive integer")
  | some _ => malformed (str "args.n must be a positive integer")

/-- The argument of `goal`. -/
def goalArg (args : Obj F) : Checked Command :=
  match field args "text" with
  | some (.str text) =>
    if hblank : isBlank text = true then malformed (str "goal needs a non-empty args.text")
    else if hlen : maxGoalLen < text.length then
      malformed (str "text exceeds " ++ natStr maxGoalLen ++ str " characters")
    else if hctrl : text.any isCtrlLabel = true then
      malformed (str "text contains control characters")
    else
      .ok (.goal text ⟨Bool.not_eq_true _ ▸ hblank, by
        simp only [isLabel, Bool.and_eq_true, decide_eq_true_eq, Bool.not_eq_true']
        exact ⟨Nat.le_of_not_lt hlen, Bool.not_eq_true _ ▸ hctrl⟩⟩)
  | _ => malformed (str "goal needs a non-empty args.text")

/-- `validate_cmd`.  Arguments that are not there are no arguments. -/
def validateCmd (frame : Obj F) : Checked (Command × Option Int) := do
  let cmd ← reqStr frame "cmd"
  if cmd ∉ commands then
    malformed (str "unknown command: " ++ reprStr isPrintable cmd)
  else
    let args ← (show Checked (Obj F) from
      match field frame "args" with
      | none | some .null => .ok []
      | some (.obj args) => .ok args
      | some _ => malformed (str "args must be an object"))
    let command ← (show Checked Command from
      if cmd = str "freeze" then .ok .freeze
      else if cmd = str "resume" then resumeArg args
      else if cmd = str "reset" then .ok .reset
      else if cmd = str "mute" then .ok .mute
      else if cmd = str "unmute" then .ok .unmute
      else goalArg args)
    match field frame "seq" with
    | none | some .null => .ok (command, none)
    | some (.int z) => .ok (command, some z)
    | some _ => malformed (str "seq must be an integer")

/-- `_validate` -/
def validateFrame (frame : Obj F) : Checked Inbound :=
  match field frame "t" with
  | some (.str t) =>
    if t = str "hello" then (validateHello isPrintable frame).map .hello
    else if t = str "say" then (validateSay isPrintable frame).map .say
    else if t = str "state" then (validateState isPrintable frame).map .state
    else if t = str "cmd" then
      (validateCmd isPrintable frame).map fun r => .cmd r.1 r.2
    else if t = str "roster" then .ok (.roster (optSeq frame))
    else if t = str "bye" then .ok .bye
    else if t = str "pong" then .ok .pong
    else malformed (str "unknown frame type: " ++ reprStr isPrintable t)
  | _ => malformed (str "missing or non-string field: t")

/-- `validate` -/
def validate (frame : Obj F) : Checked Inbound :=
  (validateFrame isPrintable frame).mapError fun e => { e with seq := optSeq frame }

/-! ## What a valid frame says -/

theorem bind_ok {α β : Type} {x : Checked α} {g : α → Checked β} {b : β}
    (h : (x >>= g) = .ok b) : ∃ a, x = .ok a ∧ g a = .ok b := by
  cases x with
  | error e => cases h
  | ok a => exact ⟨a, rfl, h⟩

theorem map_ok {α β : Type} {x : Checked α} {g : α → β} {b : β} (h : x.map g = .ok b) :
    ∃ a, x = .ok a ∧ g a = b := by
  cases x with
  | error e => cases h
  | ok a => exact ⟨a, rfl, Except.ok.inj h⟩

theorem mapError_ok {α : Type} {x : Checked α} {g : ValidationError → ValidationError} {a : α}
    (h : x.mapError g = .ok a) : x = .ok a := by
  cases x with
  | error e => cases h
  | ok b => exact h

/-- A frame is a hello only by its `validate_hello`. -/
theorem validate_hello_iff {frame : Obj F} {isPrintable : Char → Bool} {f : Hello} :
    validate isPrintable frame = .ok (.hello f) ↔
      field frame "t" = some (.str (str "hello")) ∧ validateHello isPrintable frame = .ok f := by
  constructor
  · intro hv
    have hv := mapError_ok hv
    unfold validateFrame at hv
    split at hv
    · next t ht =>
      split_ifs at hv with h₁ h₂ h₃ h₄ h₅ h₆ h₇
      · obtain ⟨g, hg, heq⟩ := map_ok hv
        cases heq
        exact ⟨by rw [ht, h₁], hg⟩
      all_goals first | cases hv | (obtain ⟨_, _, heq⟩ := map_ok hv; cases heq)
    · cases hv
  · rintro ⟨ht, hv⟩
    simp only [validate, validateFrame, ht, if_true, hv]
    rfl

theorem validate_of_hello {frame : Obj F} {isPrintable : Char → Bool} {f : Inbound}
    (ht : field frame "t" = some (.str (str "hello"))) (hv : validate isPrintable frame = .ok f) :
    ∃ g, f = .hello g ∧ validateHello isPrintable frame = .ok g := by
  have hv := mapError_ok hv
  simp only [validateFrame, ht, if_true] at hv
  obtain ⟨g, hg, rfl⟩ := map_ok hv
  exact ⟨g, rfl, hg⟩

omit [PyFloat F] in
theorem reqStr_ok {frame : Obj F} {key : String} {s : Str} (hs : reqStr frame key = .ok s) :
    field frame key = some (.str s) := by
  unfold reqStr at hs
  split at hs
  · next t ht =>
    cases hs
    exact ht
  · cases hs

theorem validateHello_fields {frame : Obj F} {isPrintable : Char → Bool} {f : Hello}
    (hv : validateHello isPrintable frame = .ok f) :
    field frame "name" = some (.str f.name) ∧ field frame "kind" = some (.str f.kind) := by
  unfold validateHello at hv
  obtain ⟨proto, -, hv⟩ := bind_ok hv
  split at hv
  · cases hv
  obtain ⟨name, hname, hv⟩ := bind_ok hv
  split at hv
  · cases hv
  obtain ⟨kind, hkind, hv⟩ := bind_ok hv
  split at hv
  · cases hv
  obtain ⟨room, -, hv⟩ := bind_ok hv
  obtain ⟨caps, -, hv⟩ := bind_ok hv
  obtain ⟨role, -, hv⟩ := bind_ok hv
  cases hv
  exact ⟨reqStr_ok hname, reqStr_ok hkind⟩

/-- A frame is a say only by its `validate_say`. -/
theorem validate_of_say {frame : Obj F} {isPrintable : Char → Bool} {f : Say}
    (hv : validate isPrintable frame = .ok (.say f)) : validateSay isPrintable frame = .ok f := by
  have hv := mapError_ok hv
  unfold validateFrame at hv
  split at hv
  · next t ht =>
    split_ifs at hv with h₁ h₂ h₃ h₄ h₅ h₆ h₇
    · obtain ⟨_, _, heq⟩ := map_ok hv
      cases heq
    · obtain ⟨g, hg, heq⟩ := map_ok hv
      cases heq
      exact hg
    all_goals first | cases hv | (obtain ⟨_, _, heq⟩ := map_ok hv; cases heq)
  · cases hv

omit [PyFloat F] in
theorem reqInt_optSeq {frame : Obj F} {z : Int} (hz : reqInt frame "seq" = .ok z) :
    optSeq frame = some z := by
  unfold reqInt at hz
  split at hz
  · next hseq =>
    cases hz
    rw [optSeq, hseq]
  · cases hz

omit [PyFloat F] in
theorem validateSay_fields {frame : Obj F} {isPrintable : Char → Bool} {f : Say}
    (hv : validateSay isPrintable frame = .ok f) :
    field frame "to" = some (.str f.addressee) ∧ field frame "text" = some (.str f.text) ∧
      optSeq frame = some f.seq := by
  unfold validateSay at hv
  obtain ⟨addressee, haddressee, hv⟩ := bind_ok hv
  split at hv
  · cases hv
  obtain ⟨kind, -, hv⟩ := bind_ok hv
  split at hv
  swap
  · cases hv
  obtain ⟨text, htext, hv⟩ := bind_ok hv
  split at hv
  swap
  · cases hv
  obtain ⟨seq, hseq, hv⟩ := bind_ok hv
  obtain ⟨priv, -, hv⟩ := bind_ok hv
  split at hv
  · cases hv
  · cases hv
    exact ⟨reqStr_ok haddressee, reqStr_ok htext, reqInt_optSeq hseq⟩

omit [PyFloat F] in
theorem validateCmd_seq {frame : Obj F} {isPrintable : Char → Bool} {r : Command × Option Int}
    (hv : validateCmd isPrintable frame = .ok r) : r.2 = optSeq frame := by
  unfold validateCmd at hv
  obtain ⟨cmd, -, hv⟩ := bind_ok hv
  split at hv
  · cases hv
  obtain ⟨args, -, hv⟩ := bind_ok hv
  obtain ⟨command, -, hv⟩ := bind_ok hv
  unfold optSeq
  split at hv
  · next hnone =>
    cases hv
    rw [hnone]
  · next hnull =>
    cases hv
    rw [hnull]
  · next hint =>
    cases hv
    rw [hint]
  · cases hv

/-- The number of a command is the one its frame is answered with. -/
theorem validate_of_cmd {frame : Obj F} {isPrintable : Char → Bool} {c : Command} {seq : Option Int}
    (hv : validate isPrintable frame = .ok (.cmd c seq)) : seq = optSeq frame := by
  have hv := mapError_ok hv
  unfold validateFrame at hv
  split at hv
  · next t ht =>
    split_ifs at hv with h₁ h₂ h₃ h₄ h₅ h₆ h₇
    all_goals first | cases hv | (obtain ⟨r, hr, heq⟩ := map_ok hv; cases heq)
    exact validateCmd_seq hr
  · cases hv

theorem validate_of_roster {frame : Obj F} {isPrintable : Char → Bool} {seq : Option Int}
    (hv : validate isPrintable frame = .ok (.roster seq)) : seq = optSeq frame := by
  have hv := mapError_ok hv
  unfold validateFrame at hv
  split at hv
  · next t ht =>
    split_ifs at hv with h₁ h₂ h₃ h₄ h₅ h₆ h₇
    all_goals first | (cases hv; rfl) | cases hv | (obtain ⟨r, hr, heq⟩ := map_ok hv; cases heq)
  · cases hv

theorem validate_error_seq {frame : Obj F} {isPrintable : Char → Bool} {e : ValidationError}
    (hv : validate isPrintable frame = .error e) : e.seq = optSeq frame := by
  unfold validate at hv
  cases hf : validateFrame isPrintable frame with
  | ok f => rw [hf] at hv; cases hv
  | error d => rw [hf] at hv; cases hv; rfl

end

/-! ## Names -/

/-- `s[:k]` -/
def sliceTo (s : Str) (k : Int) : Str :=
  if 0 ≤ k then s.take k.toNat else s.take (s.length - (-k).toNat)

/-- The `n`-th candidate of `suggest_name`. -/
def candidate (taken : Str) (n : Nat) : Str :=
  let suffix := str "-" ++ natStr n
  sliceTo taken (maxNameLen - suffix.length) ++ suffix

/-- The loop of `suggest_name`, for at most `fuel` candidates. -/
def suggestFrom (taken : Str) (isFree : Str → Bool) : Nat → Nat → Option Str
  | 0, _ => none
  | fuel + 1, n =>
    if isFree (candidate taken n) then some (candidate taken n)
    else suggestFrom taken isFree fuel (n + 1)

/-- `suggest_name`, when at most `used` names are not free. -/
def suggestName (taken : Str) (isFree : Str → Bool) (used : Nat) : Option Str :=
  suggestFrom taken isFree (used + 1) 2

end Moot.Proto
