import Moot.Directory

/-!
# What is encoded

The strings that a frame or a record gives, and those that a frame brings.
`json.dumps` writes a lone surrogate as it is, and UTF-8 has no bytes for it.

Proved here: `encode_isSome_iff` and `writable_iff`, a frame is encoded and a record
is written exactly if none of their strings holds a lone surrogate;
`saysClean_validate`, the error for a frame that `validate` refuses can be encoded
whatever the frame holds.
-/

namespace Moot
open Py Proto

/-! ## Strings -/

def Msg.strings (m : Msg) : List Str := [m.sender, m.addressee, m.kind, m.text]

def Peer.strings (p : Peer) : List Str := [p.name, p.kind, p.role]

def RosterPeer.strings (p : RosterPeer) : List Str :=
  p.toPeer.strings ++ p.queuedFrom ++ p.blockedDetail.toList

def HubEvent.strings : HubEvent → List Str
  | .rejected name code addressee kind _ _ _ => [name, code, addressee, kind]
  | .goalSet text => [text]
  | .peerJoined name kind role => [name, kind, role]
  | .peerLeft name => [name]
  | .stall detail => [detail]
  | .blocked name detail => [name, detail]
  | .quorum detail => [detail]
  | _ => []

/-- The strings a frame gives, beside its keys and fixed words. -/
def Frame.strings : Frame → List Str
  | .welcome name _ peers rate _ goal => name :: rate :: goal :: peers.flatMap Peer.strings
  | .deliver _ msgs => msgs.flatMap Msg.strings
  | .err code detail _ _ => [code, detail]
  | .event e => e.strings
  | .roster _ _ _ _ _ goal peers => goal :: peers.flatMap RosterPeer.strings
  | _ => []

def MsgRec.strings (r : MsgRec) : List Str := [r.sender, r.addressee, r.kind, r.text]

/-- The strings a record gives, beside its keys and fixed words. -/
def Record.strings : Record → List Str
  | .msg _ r => r.strings
  | .deliver addressee _ _ _ _ => [addressee]
  | .event e _ => e.strings
  | .roomDeclared room name _ => [room, name]
  | .freezeWithoutObserver _ => []

/-- None of the strings holds a lone surrogate. -/
def AllClean (ss : List Str) : Prop := ∀ s ∈ ss, Clean s

instance (ss : List Str) : Decidable (AllClean ss) := inferInstanceAs (Decidable (∀ s ∈ ss, _))

/-! ## Lists of strings -/

@[simp] theorem allClean_nil : AllClean [] := by simp [AllClean]

@[simp] theorem allClean_cons (s : Str) (ss : List Str) :
    AllClean (s :: ss) ↔ Clean s ∧ AllClean ss := by simp [AllClean]

@[simp] theorem allClean_append (ss ts : List Str) :
    AllClean (ss ++ ts) ↔ AllClean ss ∧ AllClean ts := List.forall_mem_append

@[simp] theorem allClean_flatMap {α : Type} (xs : List α) (f : α → List Str) :
    AllClean (xs.flatMap f) ↔ ∀ x ∈ xs, AllClean (f x) := by
  simp only [AllClean, List.mem_flatMap]
  constructor
  · exact fun h x hx s hs => h s ⟨x, hx, hs⟩
  · rintro h s ⟨x, hx, hs⟩
    exact h x hx s hs

@[simp] theorem allClean_toList (o : Option Str) : AllClean o.toList ↔ ∀ s ∈ o, Clean s := by
  cases o <;> simp

/-! ## Encoding -/

section
open PyJson

variable {F : Type} {num : Rat → Json F}

theorem all_int (P : Str → Prop) (z : Int) : (Json.int z : Json F).All P := trivial

theorem all_bool (P : Str → Prop) (b : Bool) : (Json.bool b : Json F).All P := trivial

theorem all_obj (P : Str → Prop) (kvs : Obj F) : (Json.obj kvs).All P ↔ AllFields P kvs := Iff.rfl

theorem all_arr {α : Type} {P : Str → Prop} (f : α → Json F) (xs : List α) :
    (Json.arr (xs.map f)).All P ↔ ∀ x ∈ xs, (f x).All P := by
  show AllItems P (xs.map f) ↔ _
  induction xs with
  | nil => simp [AllItems]
  | cons x xs ih => simp [AllItems, ih]

theorem allFields_nil (P : Str → Prop) : AllFields P ([] : Obj F) := trivial

theorem allFields_append {P : Str → Prop} (kvs kvs' : Obj F) :
    AllFields P (kvs ++ kvs') ↔ AllFields P kvs ∧ AllFields P kvs' := by
  induction kvs with
  | nil => simp [AllFields]
  | cons kv kvs ih => simp [AllFields, ih, and_assoc]

theorem clean_jstr (s : Str) : (jstr s : Json F).All Clean ↔ Clean s := Iff.rfl

theorem clean_jnat (n : Nat) : (jnat n : Json F).All Clean := trivial

theorem clean_jopt_str (o : Option Str) :
    (jopt jstr o : Json F).All Clean ↔ ∀ s ∈ o, Clean s := by
  cases o <;> simp [jopt, jstr, Json.All]

theorem clean_jopt_int (o : Option Int) : (jopt Json.int o : Json F).All Clean := by
  cases o <;> trivial

theorem clean_jopt_addressing (o : Option Addressing) :
    (jopt (fun a => jstr a.text) o : Json F).All Clean := by
  cases o with
  | none => trivial
  | some a => cases a <;> exact clean_str _

theorem clean_fieldIf (b : Bool) (key : String) (v : Json F) :
    AllFields Clean (fieldIf b key v) ↔ (b = true → v.All Clean) := by
  cases b <;> simp [fieldIf, AllFields]

/-- The goal is left out where it is empty. -/
theorem clean_unless_empty (goal : Str) : (¬goal = [] → Clean goal) ↔ Clean goal := by
  cases goal <;> simp

theorem clean_state (s : State) : Clean s.text := by cases s <;> exact clean_str _

theorem clean_eventName (e : HubEvent) : Clean e.name := by cases e <;> exact clean_str _

attribute [local simp] all_int all_bool all_obj all_arr allFields_nil allFields_cons allFields_append
  clean_jstr clean_jnat clean_jopt_str clean_jopt_int clean_jopt_addressing clean_fieldIf clean_unless_empty
  clean_state clean_eventName

theorem clean_peer (p : Peer) : AllFields Clean (p.fields : Obj F) ↔ AllClean p.strings := by
  simp [Peer.fields, Peer.strings]

section
variable (hnum : ∀ t, (num t).All Clean)
include hnum

theorem clean_toWire (m : Msg) : (m.toWire num).All Clean ↔ AllClean m.strings := by
  simp [Msg.toWire, Msg.strings, hnum]

theorem clean_rosterPeer (p : RosterPeer) :
    AllFields Clean (p.fields num) ↔ AllClean p.strings := by
  simp only [RosterPeer.fields, RosterPeer.strings, allClean_append, allClean_toList, and_assoc]
  simp [clean_peer, hnum, AllClean]

theorem clean_extra (e : HubEvent) : AllFields Clean (e.extra num) ↔ AllClean e.strings := by
  cases e with
  | rejected name code addressee kind bytes retryAfter priv =>
    cases retryAfter <;> simp [HubEvent.extra, HubEvent.strings, hnum]
  | _ => simp [HubEvent.extra, HubEvent.strings]

/-- The strings of a frame decide whether its JSON is clean. -/
theorem clean_toJson (f : Frame) : (f.toJson num).All Clean ↔ AllClean f.strings := by
  cases f with
  | welcome =>
    simp [Frame.toJson, Frame.strings, clean_peer]
    exact fun _ => and_rotate
  | deliver => simp [Frame.toJson, Frame.strings, clean_toWire hnum]
  | err code detail seq retryAfter =>
    cases retryAfter <;> simp [Frame.toJson, Frame.strings, hnum]
  | event => simp [Frame.toJson, Frame.strings, clean_extra hnum]
  | roster => simp [Frame.toJson, Frame.strings, clean_rosterPeer hnum]
  | _ => simp [Frame.toJson, Frame.strings]

/-- **A frame is encoded** exactly if its strings are clean. -/
theorem encode_isSome_iff [PyFloat F] (f : Frame) :
    (encode num f).isSome ↔ AllClean f.strings := by
  rw [encode, encode?_isSome_iff, clean_append, clean_dumps, Json.Clean, clean_toJson hnum]
  simp

end

/-- **A record is written** exactly if its strings are clean. -/
theorem writable_iff (site : Site F) (r : Record) : r.Writable site ↔ AllClean r.strings := by
  have hnum : ∀ t, (site.num t).All Clean := site.num_clean
  show (r.toJson site.num).All Clean ↔ _
  cases r with
  | msg => simp [Record.toJson, Record.strings, MsgRec.strings, hnum]
  | event => simp [Record.toJson, Record.strings, clean_extra hnum, hnum]
  | _ => simp [Record.toJson, Record.strings, hnum]

end

/-! ## Frames that come in -/

/-- The strings a frame brings, beside its names and fixed words. -/
def Proto.Inbound.strings : Inbound → List Str
  | .hello f => f.role.toList
  | .say f => [f.addressee, f.text]
  | .state f => f.detail.toList
  | .cmd (.goal text _) _ => [text]
  | _ => []

theorem clean_of_isAlnum {p : CodePoint} (hp : isAlnum p = true) : p.isScalar = true := by
  cases p with
  | scalar c => rfl
  | surrogate k => cases hp

theorem clean_of_isNameChar {p : CodePoint} (hp : isNameChar p = true) : p.isScalar = true := by
  cases p with
  | scalar c => rfl
  | surrogate k => simp [isNameChar, isAlnum] at hp

theorem clean_of_isProtocolName {s : Str} (hs : isProtocolName s = true) : Clean s := by
  cases s with
  | nil => exact clean_nil
  | cons p s =>
    simp only [isProtocolName, Bool.and_eq_true, List.all_eq_true] at hs
    rw [clean_cons]
    exact ⟨clean_of_isAlnum hs.1.1, fun q hq => clean_of_isNameChar (hs.1.2 q hq)⟩

/-- A name holds no surrogate. -/
theorem clean_of_nameRe {s : Str} (hs : nameRe s = true) : Clean s := by
  rw [nameRe, Bool.or_eq_true, Bool.and_eq_true, decide_eq_true_eq] at hs
  rcases hs with hs | ⟨hlast, hs⟩
  · exact clean_of_isProtocolName hs
  · have hne : s ≠ [] := by
      rintro rfl
      cases hlast
    rw [List.getLast?_eq_getLast_of_ne_nil hne, Option.some.injEq] at hlast
    rw [← List.dropLast_append_getLast hne, hlast, clean_append]
    exact ⟨clean_of_isProtocolName hs, by simp [CodePoint.isScalar]⟩

theorem clean_of_sayKinds {s : Str} (hs : s ∈ sayKinds) : Clean s := by
  have hall : ∀ s ∈ sayKinds, Clean s := by simp [sayKinds]
  exact hall s hs

/-- What `suggest_name` offers for a clean name. -/
theorem clean_suggestName {taken : Str} (ht : Clean taken) (isFree : Str → Bool) (used : Nat) :
    Clean ((suggestName taken isFree used).getD []) := by
  have hcandidate : ∀ n, Clean (candidate taken n) := by
    intro n
    have hslice : ∀ k : Int, Clean (sliceTo taken k) := fun k => by
      unfold sliceTo
      split <;> exact ht.of_mem_subset fun p hp => List.mem_of_mem_take hp
    simp [candidate, hslice]
  have hfrom : ∀ fuel n, Clean ((suggestFrom taken isFree fuel n).getD []) := by
    intro fuel
    induction fuel with
    | zero => exact fun _ => clean_nil
    | succ fuel ih =>
      intro n
      unfold suggestFrom
      split
      · exact hcandidate n
      · exact ih (n + 1)
  exact hfrom _ _

/-! ### Refusals -/

/-- If the check refuses, it says so in clean strings. -/
def SaysClean {α : Type} (x : Checked α) : Prop :=
  ∀ e, x = .error e → Clean e.code ∧ Clean e.detail

theorem saysClean_ok {α : Type} (a : α) : SaysClean (.ok a : Checked α) := by
  intro e he
  cases he

theorem saysClean_error {α : Type} {code detail : Str} {seq : Option Int} (hcode : Clean code)
    (hdetail : Clean detail) : SaysClean (.error ⟨code, detail, seq⟩ : Checked α) := by
  intro e he
  cases he
  exact ⟨hcode, hdetail⟩

theorem saysClean_malformed {α : Type} {detail : Str} (hdetail : Clean detail) :
    SaysClean (malformed detail : Checked α) := saysClean_error (clean_str _) hdetail

theorem saysClean_bind {α β : Type} {x : Checked α} {g : α → Checked β} (hx : SaysClean x)
    (hg : ∀ a, SaysClean (g a)) : SaysClean (x >>= g) := by
  cases x with
  | error e =>
    intro e' he
    cases he
    exact hx e rfl
  | ok a => exact hg a

theorem saysClean_map {α β : Type} {x : Checked α} {g : α → β} (hx : SaysClean x) :
    SaysClean (x.map g) := by
  cases x with
  | error e =>
    intro e' he
    cases he
    exact hx e rfl
  | ok a => exact saysClean_ok _

section
variable {F : Type} [PyJson.PyFloat F] {isPrintable : Char → Bool} {frame : Obj F}

mutual
theorem clean_reprJson (v : PyJson.Json F) : Clean (reprJson isPrintable v) := by
  match v with
  | .null => exact clean_str _
  | .bool true => exact clean_str _
  | .bool false => exact clean_str _
  | .int z => exact clean_intStr z
  | .float x =>
    simp only [reprJson]
    split_ifs <;> simp
  | .str s => exact clean_reprStr _ s
  | .arr xs =>
    have := clean_reprItems xs
    simp [reprJson, this]
  | .obj kvs =>
    have := clean_reprFields kvs
    simp [reprJson, this]

theorem clean_reprItems (xs : List (PyJson.Json F)) : Clean (reprItems isPrintable xs) := by
  match xs with
  | [] => exact clean_nil
  | [x] =>
    have := clean_reprJson x
    simpa [reprItems] using this
  | x :: y :: xs =>
    have hx := clean_reprJson x
    have hxs := clean_reprItems (y :: xs)
    simp [reprItems, hx, hxs]

theorem clean_reprFields (kvs : Obj F) : Clean (reprFields isPrintable kvs) := by
  match kvs with
  | [] => exact clean_nil
  | [(k, v)] =>
    have := clean_reprJson v
    simpa [reprFields] using this
  | (k, v) :: kv :: kvs =>
    have hv := clean_reprJson v
    have hkvs := clean_reprFields (kv :: kvs)
    simp [reprFields, hv, hkvs]
end

omit [PyJson.PyFloat F] in
theorem saysClean_reqStr (key : String) : SaysClean (reqStr frame key) := by
  unfold reqStr
  split
  · exact saysClean_ok _
  · exact saysClean_malformed (by simp)

omit [PyJson.PyFloat F] in
theorem saysClean_reqInt (key : String) : SaysClean (reqInt frame key) := by
  unfold reqInt
  split
  · exact saysClean_ok _
  · exact saysClean_malformed (by simp)

omit [PyJson.PyFloat F] in
theorem saysClean_optStr (key : String) (max : Nat) : SaysClean (optStr frame key max) := by
  unfold optStr
  split
  · exact saysClean_ok _
  · exact saysClean_ok _
  · split
    · exact saysClean_malformed (by simp)
    · split
      · exact saysClean_malformed (by simp)
      · exact saysClean_ok _
  · exact saysClean_malformed (by simp)

theorem saysClean_validateHello : SaysClean (validateHello isPrintable frame) := by
  refine saysClean_bind (saysClean_reqInt _) fun proto => ?_
  split
  · exact saysClean_error (clean_str _) (clean_str _)
  refine saysClean_bind (saysClean_reqStr _) fun name => ?_
  split
  · exact saysClean_malformed (by simp)
  refine saysClean_bind (saysClean_reqStr _) fun kind => ?_
  split
  · exact saysClean_malformed (by simp)
  refine saysClean_bind ?_ fun room => saysClean_bind ?_ fun caps =>
    saysClean_bind (saysClean_optStr _ _) fun role => saysClean_ok _
  · split
    · exact saysClean_ok _
    · exact saysClean_ok _
    · split
      · exact saysClean_ok _
      · exact saysClean_malformed (by simp)
    · exact saysClean_malformed (by simp [clean_reprJson])
  · split
    · exact saysClean_ok _
    · split
      · exact saysClean_ok _
      · exact saysClean_malformed (by simp)
    · exact saysClean_malformed (by simp)

omit [PyJson.PyFloat F] in
theorem saysClean_validateSay : SaysClean (validateSay isPrintable frame) := by
  refine saysClean_bind (saysClean_reqStr _) fun addressee => ?_
  split
  · exact saysClean_malformed (by simp)
  refine saysClean_bind (saysClean_reqStr _) fun kind => ?_
  split
  · refine saysClean_bind (saysClean_reqStr _) fun text => ?_
    split
    · refine saysClean_bind (saysClean_reqInt _) fun seq => saysClean_bind ?_ fun priv => ?_
      · split
        · exact saysClean_ok _
        · exact saysClean_ok _
        · exact saysClean_malformed (by simp)
      · split
        · exact saysClean_malformed (by simp)
        · exact saysClean_ok _
    · exact saysClean_malformed (by simp)
  · exact saysClean_malformed (by simp)

omit [PyJson.PyFloat F] in
theorem saysClean_validateState : SaysClean (validateState isPrintable frame) := by
  refine saysClean_bind (saysClean_reqStr _) fun name => saysClean_bind ?_ fun state =>
    saysClean_bind (saysClean_optStr _ _) fun detail => saysClean_ok _
  split_ifs
  · exact saysClean_ok _
  · exact saysClean_ok _
  · exact saysClean_ok _
  · exact saysClean_malformed (by simp)

omit [PyJson.PyFloat F] in
theorem saysClean_resumeArg (args : Obj F) : SaysClean (resumeArg args) := by
  unfold resumeArg
  split
  · exact saysClean_ok _
  · split
    · exact saysClean_ok _
    · exact saysClean_malformed (by simp)
  · exact saysClean_malformed (by simp)

omit [PyJson.PyFloat F] in
theorem saysClean_goalArg (args : Obj F) : SaysClean (goalArg args) := by
  unfold goalArg
  split
  · split
    · exact saysClean_malformed (by simp)
    · split
      · exact saysClean_malformed (by simp)
      · split
        · exact saysClean_malformed (by simp)
        · exact saysClean_ok _
  · exact saysClean_malformed (by simp)

omit [PyJson.PyFloat F] in
theorem saysClean_validateCmd : SaysClean (validateCmd isPrintable frame) := by
  refine saysClean_bind (saysClean_reqStr _) fun cmd => ?_
  split
  · exact saysClean_malformed (by simp)
  refine saysClean_bind ?_ fun args => saysClean_bind ?_ fun command => ?_
  · split
    · exact saysClean_ok _
    · exact saysClean_ok _
    · exact saysClean_ok _
    · exact saysClean_malformed (by simp)
  · split_ifs
    · exact saysClean_ok _
    · exact saysClean_resumeArg _
    · exact saysClean_ok _
    · exact saysClean_ok _
    · exact saysClean_ok _
    · exact saysClean_goalArg _
  · split
    · exact saysClean_ok _
    · exact saysClean_ok _
    · exact saysClean_ok _
    · exact saysClean_malformed (by simp)

/-- Whatever frame `validate` refuses, the error it raises is clean. -/
theorem saysClean_validate : SaysClean (validate isPrintable frame) := by
  have hframe : SaysClean (validateFrame isPrintable frame) := by
    unfold validateFrame
    split
    · split_ifs
      · exact saysClean_map saysClean_validateHello
      · exact saysClean_map saysClean_validateSay
      · exact saysClean_map saysClean_validateState
      · exact saysClean_map saysClean_validateCmd
      · exact saysClean_ok _
      · exact saysClean_ok _
      · exact saysClean_ok _
      · exact saysClean_malformed (by simp)
    · exact saysClean_malformed (by simp)
  intro e he
  unfold validate at he
  cases hf : validateFrame isPrintable frame with
  | ok f => rw [hf] at he; cases he
  | error d => rw [hf] at he; cases he; exact hframe d hf

end

end Moot
