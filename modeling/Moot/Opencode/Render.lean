import Moot.Lib.Js
import Moot.Hub.Handlers
import Moot.Lib.Run
import Moot.Spoke.Render
import Moot.Wire

/-!
# The two renderers

`render` of `opencode/lib.ts`, a port of `spoke/render.py`, and how far the two agree
on the frames a hub sends.

Proved here, for every frame: `renderers_agree_iff`, both give the same lines exactly
if no wait in the frame is a whole number of seconds and the frame does not report a
private say as rejected.
-/

namespace Moot.Opencode.Render
open Py PyJson Proto Js Wire

section
variable {F N : Type} [PyFloat F] (js : Engine F N)

/-- `value === s` -/
def equals (s : String) : Option (Value N) → Bool
  | some (.str t) => t = str s
  | _ => false

/-- `asRecord`; `none` is the `Error`. -/
def asRecord : Value N → Option (List (Str × Value N))
  | .obj kvs => some kvs
  | _ => none

/-- `items` -/
def items (frame : List (Str × Value N)) (key : String) : Option (List (List (Str × Value N))) :=
  match prop frame key with
  | some (.arr xs) => xs.mapM asRecord
  | _ => none

/-- One line of `deliverLines`. -/
def deliverLine (frame m : List (Str × Value N)) : Str :=
  let id := prop m "id"
  let tag := match id with
    | some (.num x) => if js.positive x then str " #" ++ stringOf js id else []
    | _ => []
  let label :=
    if equals "overheard" (prop m "addressing") then str "context"
    else str "r" ++ stringOf js (prop frame "round")
  let mark := match prop m "private" with
    | some (.bool true) => str " · private"
    | _ => []
  str "[" ++ label ++ tag ++ str "] " ++ stringOf js (prop m "from") ++ str " → " ++
    stringOf js (prop m "to") ++ mark ++ str " · " ++ stringOf js (prop m "kind") ++ str ": " ++
    stringOf js (prop m "text")

/-- `deliverLines` -/
def deliverLines (frame : List (Str × Value N)) : Option (List Str) :=
  (items frame "msgs").map fun msgs => msgs.map (deliverLine js frame)

/-- One entry of `peerList`. -/
def peer (p : List (Str × Value N)) : Str :=
  let shown := match prop p "role" with
    | some (.str role) =>
      if !equals "observer" (prop p "kind") && role ≠ [] then
        stringOf js (prop p "kind") ++ str ", " ++ role
      else stringOf js (prop p "kind")
    | _ => stringOf js (prop p "kind")
  stringOf js (prop p "name") ++ str " (" ++ shown ++ str ", " ++ stringOf js (prop p "state") ++
    str ")"

/-- `peerList` -/
def peerList (frame : List (Str × Value N)) : Option Str :=
  (items frame "peers").map fun peers =>
    if peers.length > 0 then join (str ", ") (peers.map (peer js)) else str "none"

/-- `welcomeLine` -/
def welcomeLine (frame : List (Str × Value N)) : Option Str :=
  let who := match prop frame "kind" with
    | some (.str kind) => stringOf js (prop frame "name") ++ str " (" ++ kind ++ str ")"
    | _ => stringOf js (prop frame "name")
  let maxRounds := match prop frame "limits" with
    | some (.obj limits) => prop limits "max_rounds"
    | _ => none
  let rounds := match maxRounds with
    | none | some .null => stringOf js (prop frame "round")
    | some maxRounds => stringOf js (prop frame "round") ++ str "/" ++ string js maxRounds
  (peerList js frame).map fun peers =>
    str "[moot] joined as " ++ who ++ str " · peers: " ++ peers ++ str " · round " ++ rounds

/-- The `event` branch of `render`. -/
def event (frame : List (Str × Value N)) : Str :=
  let rest := join (str " ") (((entries frame).filter
    fun kv => kv.1 ≠ str "t" && kv.1 ≠ str "event").map fun kv => kv.1 ++ str "=" ++ string js kv.2)
  let head := str "[event] " ++ stringOf js (prop frame "event")
  if rest ≠ [] then head ++ str " · " ++ rest else head

/-- The `err` branch of `render`. -/
def err (frame : List (Str × Value N)) : Str :=
  let line := str "[err] " ++ stringOf js (prop frame "code") ++ str " · " ++
    stringOf js (prop frame "detail")
  match prop frame "retry_after" with
  | none | some .null => line
  | some retryAfter => line ++ str " · retry in " ++ string js retryAfter ++ str "s"

/-- A line of the `roster` branch of `render`. -/
def rosterLine (p : List (Str × Value N)) : Str :=
  str "[roster] " ++ stringOf js (prop p "name") ++ str " (" ++ stringOf js (prop p "kind") ++
    str ", " ++ stringOf js (prop p "state") ++ str ")"

/-- `render`; `none` is an `Error`. -/
def render (frame : List (Str × Value N)) : Option (List Str) :=
  let t := prop frame "t"
  if equals "deliver" t then deliverLines js frame
  else if equals "event" t then some [event js frame]
  else if equals "err" t then some [err js frame]
  else if equals "ok" t then some []
  else if equals "roster" t then (items frame "peers").map fun ps => ps.map (rosterLine js)
  else if equals "welcome" t then (welcomeLine js frame).map ([·])
  else some []

/-! ## The way of a frame to its reader -/

/-- How the hub's clock arithmetic and `json.dumps` write times: a wait is rounded to thousandths of
a second before it is sent. -/
structure Written (num : Rat → Json F) : Prop where
  wf : ∀ t, (num t).Wf
  finite : ∀ t, Finite js (num t) = true
  rounded : ∀ t, ∃ x v, num (roundTo 3 t) = .float x ∧ js.value x = some v ∧
    (v = 0 ∨ 1 / 10000 ≤ |v|)

end

section
variable {F N : Type} [PyFloat F] (js : Engine F N) (isPrintable : Char → Bool) (num : Rat → Json F)

/-- The text of a frame, out of the bytes of `proto.encode`. -/
def received (f : Frame) : Option Str :=
  (encode num f).bind fun b => (Py.decode? b).map ofChars

/-- What a Python spoke reads of a frame; `kind` is the joiner's own, if it is added. -/
def pythonLines (kind : Option Str) (f : Frame) : Option (List Str) := do
  let value : Json F ← loads (← received num f)
  let frame ← asObj value
  Spoke.Render.render isPrintable (match kind with
    | none => frame
    | some k => setKey (str "kind") (.str k) frame)

/-- What the plugin reads of a frame. -/
def scriptLines (kind : Option Str) (f : Frame) : Option (List Str) := do
  let frame ← asRecord (← parse js (← received num f))
  render js (match kind with
    | none => frame
    | some k => setProp (str "kind") (.str k) frame)

/-- The two renderers agree on a frame. -/
def Agree (kind : Option Str) (f : Frame) : Prop :=
  ∃ lines, pythonLines isPrintable num kind f = some lines ∧ scriptLines js num kind f = some lines

/-- Both languages write a wait alike: it is no whole number of seconds below `1e21`. -/
def WaitAlike (wait : Rat) : Prop :=
  ∀ x v, num (roundTo 3 wait) = .float x → js.value x = some v → v.den = 1 → 10 ^ 21 ≤ |v|

/-- Both languages write all that is shown of a frame alike. -/
def ShownAlike : Frame → Prop
  | .err _ _ _ retryAfter => ∀ wait, retryAfter = some wait → WaitAlike js num wait
  | .event (.rejected _ _ _ _ _ retryAfter priv) =>
    priv = false ∧ ∀ wait, retryAfter = some wait → WaitAlike js num wait
  | _ => True

end

/-! ## Values both languages write alike -/

section
variable {F N : Type} [PyFloat F] (js : Engine F N) (isPrintable : Char → Bool)

/-- Both languages write a value alike. -/
def Same (j : Json F) : Prop := string js (ofJson js j) = Spoke.Render.shown isPrintable j

theorem same_str (s : Str) : Same js isPrintable (.str s) := rfl

theorem same_nat {n : Nat} (h : SmallInts (jnat n : Json F) = true) : Same js isPrintable (jnat n) := by
  apply string_int js
  simpa [SmallInts, jnat, numbers] using h

/-- A string or an integer. -/
def isPlain : Json F → Bool
  | .str _ | .int _ => true
  | _ => false

theorem same_plain {j : Json F} (h : isPlain j = true) (hsmall : SmallInts j = true) :
    Same js isPrintable j := by
  cases j with
  | str s => exact same_str js isPrintable s
  | int z =>
    apply string_int js
    simpa [SmallInts, numbers] using hsmall
  | _ => cases h

theorem shown_float {x : F} {v : Rat} (h : js.value x = some v) :
    Spoke.Render.shown isPrintable (.float x) = ofChars (PyFloat.repr x) := by
  have hfin := js.repr_finite x v h
  have hconst : ∀ tok : List Char, (numRun .start tok).isFloat = false → PyFloat.repr x ≠ tok := by
    rintro tok htok rfl
    rw [htok] at hfin
    cases hfin
  show reprJson isPrintable (.float x) = _
  rw [reprJson, if_neg (hconst _ rfl), if_neg (hconst _ rfl), if_neg (hconst _ rfl)]

/-- **A wait** is written alike exactly if it is no whole number of seconds. -/
theorem same_wait {num : Rat → Json F} (hnum : Written js num) (wait : Rat) :
    Same js isPrintable (num (roundTo 3 wait)) ↔ WaitAlike js num wait := by
  obtain ⟨x, v, hx, hv, hsmall⟩ := hnum.rounded wait
  rw [hx, Same, shown_float js isPrintable hv]
  constructor
  · intro hsame y w hy hw hden
    rw [hx, Json.float.injEq] at hy
    subst hy
    rw [hv, Option.some.injEq] at hw
    subst hw
    by_contra hlt
    exact string_whole js hv hden (not_le.mp hlt) hsame
  · intro halike
    apply string_fraction js hv
    · rcases hsmall with rfl | hsmall
      · exact absurd (halike x 0 hx hv rfl) (by norm_num)
      · exact hsmall
    · exact halike x v hx hv

theorem equals_ofJson (s : String) (j : Json F) :
    equals s (some (ofJson js j)) = Spoke.Render.equals s j := by
  cases j <;> rfl

theorem mapM_eq_map {α β : Type} {f : α → Option β} {g : α → β} {xs : List α}
    (h : ∀ x ∈ xs, f x = some (g x)) : xs.mapM f = some (xs.map g) := by
  induction xs with
  | nil => rfl
  | cons x xs ih =>
    rw [List.mapM_cons, h x (List.mem_cons_self ..), ih fun y hy => h y (List.mem_cons_of_mem x hy)]
    rfl

/-- The list of a frame under a key, whose entries are objects. -/
theorem items_ofJson {α : Type} {frame : Obj F} {key : String} {fields : α → Obj F} {xs : List α}
    (h : field frame key = some (.arr (xs.map fun a => .obj (fields a)))) :
    items (ofFields js frame) key = some (xs.map fun a => ofFields js (fields a)) := by
  rw [items, prop_ofJson, show List.lookup (str key) frame = _ from h, Option.map_some, ofJson]
  simp only
  rw [ofItems_eq, List.map_map, List.mapM_map]
  exact mapM_eq_map fun a _ => rfl

/-! ## The lines -/

theorem stringOf_field {kvs : Obj F} {key : String} {j : Json F} (h : field kvs key = some j)
    (hsame : Same js isPrintable j) :
    stringOf js (prop (ofFields js kvs) key) = Spoke.Render.shown isPrintable j := by
  rw [prop_ofJson, show List.lookup (str key) kvs = _ from h]
  exact hsame

/-- The `#` of a message, where both write the id or both leave it out. -/
theorem head_agrees (id : Nat) (hid : SmallInts (jnat id : Json F)) (label : Str) :
    str "[" ++ label ++ (if js.positive (js.ofInt id) then
        str " #" ++ stringOf js (some (.num (js.ofInt id))) else []) ++ str "] " =
      (if (if 0 < (id : Int) then (id : Int) else 0) = 0 then str "[" ++ label ++ str "]"
        else str "[" ++ label ++ str " #" ++ intStr (if 0 < (id : Int) then (id : Int) else 0) ++
          str "]") ++ str " " := by
  have hlt : (id : Int).natAbs < 2 ^ 53 := by simpa [SmallInts, jnat, numbers] using hid
  have hend : str "] " = str "]" ++ str " " := rfl
  rw [js.positive_ofInt _ hlt, hend]
  by_cases hpos : 0 < (id : Int)
  · have hne : (id : Int) ≠ 0 := by omega
    have hid' : stringOf js (some (.num (js.ofInt id))) = intStr (id : Int) := string_int js hlt
    simp only [hpos, decide_true, if_true, if_neg hne, hid', List.append_assoc]
  · simp only [hpos, decide_false, if_false, if_true, Bool.false_eq_true, List.append_nil,
      List.append_assoc]

section
variable (num : Rat → Json F)

/-- A message's line. -/
theorem deliverLine_agrees {frame : Obj F} {round : Nat}
    (hround : field frame "round" = some (jnat round)) (hsmall : SmallInts (jnat round : Json F))
    (m : Msg) (hid : SmallInts (jnat m.id : Json F)) :
    Spoke.Render.deliverLine isPrintable frame (.obj (msgFields num m)) =
      some (deliverLine js (ofFields js frame) (ofFields js (msgFields num m))) := by
  have hid' : field (msgFields num m) "id" = some (jnat m.id) := rfl
  have haddr : field (msgFields num m) "addressing" =
    some (jopt (fun a => jstr a.text) m.addressing) := rfl
  have hfrom : field (msgFields num m) "from" = some (jstr m.sender) := rfl
  have hto : field (msgFields num m) "to" = some (jstr m.addressee) := rfl
  have hkind : field (msgFields num m) "kind" = some (jstr m.kind) := rfl
  have htext : field (msgFields num m) "text" = some (jstr m.text) := rfl
  have hpriv : field (msgFields num m) "private" = if m.priv then some (.bool true) else none := by
    unfold msgFields Msg.toWire fieldIf
    cases m.priv <;> rfl
  have hprop : prop (ofFields js (msgFields num m)) "id" = some (.num (js.ofInt m.id)) := by
    rw [prop_ofJson]
    rfl
  have hequals : equals "overheard" (prop (ofFields js (msgFields num m)) "addressing") =
      Spoke.Render.equals "overheard" (jopt (fun a => jstr a.text) m.addressing : Json F) := by
    rw [prop_ofJson, show List.lookup _ _ = _ from haddr]
    exact equals_ofJson js _ _
  have hmark : prop (ofFields js (msgFields num m)) "private" =
      if m.priv then some (.bool true) else none := by
    rw [prop_ofJson, show List.lookup _ _ = _ from hpriv]
    cases m.priv <;> rfl
  have hlabel := stringOf_field js isPrintable hround (same_nat js isPrintable hsmall)
  unfold Spoke.Render.deliverLine deliverLine
  rw [hequals, hmark, hlabel, hprop, stringOf_field js isPrintable hfrom (same_str ..),
    stringOf_field js isPrintable hto (same_str ..), stringOf_field js isPrintable hkind (same_str ..),
    stringOf_field js isPrintable htext (same_str ..)]
  simp only [asObj, haddr, hid', hfrom, hto, hkind, htext, hpriv, Option.bind_eq_bind,
    Option.bind_some]
  cases Spoke.Render.equals "overheard" (jopt (fun a => jstr a.text) m.addressing : Json F) with
  | true =>
    simp only [if_true, head_agrees js m.id hid]
    cases m.priv <;> rfl
  | false =>
    simp only [Bool.false_eq_true, if_false, hround, Option.bind_some, head_agrees js m.id hid]
    cases m.priv <;> rfl

end

/-- A participant in the list of peers. -/
theorem peer_agrees (p : Peer) :
    Spoke.Render.peer isPrintable (.obj p.fields : Json F) =
      some (peer js (ofFields js (p.fields : Obj F))) := by
  have hkind : field (p.fields : Obj F) "kind" = some (jstr p.kind) := rfl
  have hname : field (p.fields : Obj F) "name" = some (jstr p.name) := rfl
  have hstate : field (p.fields : Obj F) "state" = some (jstr p.state.text) := rfl
  have hrole : field (p.fields : Obj F) "role" = some (.str p.role) := rfl
  have hprop : prop (ofFields js (p.fields : Obj F)) "role" = some (.str p.role) := by
    rw [prop_ofJson]
    rfl
  have hequals : equals "observer" (prop (ofFields js (p.fields : Obj F)) "kind") =
      Spoke.Render.equals "observer" (jstr p.kind : Json F) := by
    rw [prop_ofJson, show List.lookup _ _ = _ from hkind]
    exact equals_ofJson js _ _
  unfold Spoke.Render.peer peer
  rw [hequals, hprop, stringOf_field js isPrintable hname (same_str ..),
    stringOf_field js isPrintable hkind (same_str ..),
    stringOf_field js isPrintable hstate (same_str ..)]
  simp only [asObj, hkind, hname, hstate, hrole, Option.bind_eq_bind, Option.bind_some,
    Option.pure_def]
  cases Spoke.Render.equals "observer" (jstr p.kind : Json F) with
  | true => simp
  | false => cases p.role <;> simp

/-- A participant's line in the roster. -/
theorem rosterLine_agrees (num : Rat → Json F) (p : RosterPeer) :
    Spoke.Render.rosterLine isPrintable (.obj (p.fields num)) =
      some (rosterLine js (ofFields js (p.fields num))) := rfl

/-- The line of a welcome. -/
theorem welcome_agrees {frame : Obj F} {name : Str} {round maxRounds : Nat} {ps : List Peer}
    {kind : Option Str} (hname : field frame "name" = some (jstr name))
    (hround : field frame "round" = some (jnat round))
    (hpeers : field frame "peers" = some (.arr (ps.map fun p => .obj p.fields)))
    (hlimits : ∃ rate, field frame "limits" =
      some (.obj [(str "rate", jstr rate), (str "max_rounds", jnat maxRounds)]))
    (hkind : field frame "kind" = kind.map jstr) (hsmall : SmallInts (jnat round : Json F))
    (hlimit : SmallInts (jnat maxRounds : Json F)) :
    ∃ line, Spoke.Render.welcome isPrintable frame = some line ∧
      welcomeLine js (ofFields js frame) = some line := by
  obtain ⟨rate, hlimits⟩ := hlimits
  have hitems := items_ofJson js hpeers
  have hmapM : (ps.map fun p => (.obj p.fields : Json F)).mapM (Spoke.Render.peer isPrintable) =
      some (ps.map fun p => peer js (ofFields js (p.fields : Obj F))) := by
    rw [List.mapM_map]
    exact mapM_eq_map fun p _ => peer_agrees js isPrintable p
  have hmax : string js (ofJson js (jnat maxRounds : Json F)) =
      Spoke.Render.shown isPrintable (jnat maxRounds : Json F) := same_nat js isPrintable hlimit
  have hplimits : prop (ofFields js frame) "limits" = some (.obj [(str "rate", .str rate),
      (str "max_rounds", ofJson js (jnat maxRounds : Json F))]) := by
    rw [prop_ofJson, show List.lookup _ _ = _ from hlimits]
    rfl
  have hpkind : prop (ofFields js frame) "kind" = kind.map .str := by
    rw [prop_ofJson, show List.lookup _ _ = _ from hkind]
    cases kind <;> rfl
  unfold Spoke.Render.welcome Spoke.Render.peers Spoke.Render.rounds Spoke.Render.items welcomeLine
    peerList
  rw [hitems, hplimits, hpkind, stringOf_field js isPrintable hname (same_str ..),
    stringOf_field js isPrintable hround (same_nat js isPrintable hsmall)]
  simp only [hname, hround, hpeers, hlimits, hkind, hmapM, Option.bind_eq_bind, Option.bind_some,
    Option.pure_def]
  have hshown : (match prop [(str "rate", Value.str rate), (str "max_rounds",
      ofJson js (jnat maxRounds : Json F))] "max_rounds" with
      | none => Spoke.Render.shown isPrintable (jnat round : Json F)
      | some .null => Spoke.Render.shown isPrintable (jnat round : Json F)
      | some value => Spoke.Render.shown isPrintable (jnat round : Json F) ++ str "/" ++
          string js value) =
      Spoke.Render.shown isPrintable (jnat round : Json F) ++ str "/" ++
        Spoke.Render.shown isPrintable (jnat maxRounds : Json F) := by
    rw [← hmax]
    rfl
  have hlist : (if ps.length > 0 then
        join (str ", ") (ps.map fun p => peer js (ofFields js (p.fields : Obj F))) else str "none") =
      if (ps.map fun p => peer js (ofFields js (p.fields : Obj F))).isEmpty then str "none"
      else join (str ", ") (ps.map fun p => peer js (ofFields js (p.fields : Obj F))) := by
    cases ps <;> simp
  refine ⟨_, rfl, ?_⟩
  rw [hshown, Option.map_some, Option.map_some, List.length_map, List.map_map, ← hlist]
  cases kind <;> rfl

/-! ### Events -/

/-- What an event frame shows of one field. -/
def pair {V : Type} (write : V → Str) (kv : Str × V) : Str := kv.1 ++ str "=" ++ write kv.2

/-- The line of an event. -/
def eventLine (name rest : Str) : Str :=
  let head := str "[event] " ++ name
  if rest.isEmpty then head else head ++ str " · " ++ rest

theorem eventLine_inj {name rest rest' : Str} (h : rest ≠ []) (h' : rest' ≠ []) :
    eventLine name rest = eventLine name rest' ↔ rest = rest' := by
  unfold eventLine
  rw [if_neg (by simpa using h), if_neg (by simpa using h')]
  exact List.append_right_inj _

section
variable (num : Rat → Json F) (e : HubEvent)

omit [PyFloat F] in
theorem extra_keys {kv : Str × Json F} (h : kv ∈ e.extra num) :
    kv.1 ≠ str "t" ∧ kv.1 ≠ str "event" ∧ index? kv.1 = none := by
  have hkey : kv.1 ∈ ["name", "code", "to", "kind", "bytes", "retry_after", "private", "round",
      "max_rounds", "from_round", "text", "role", "detail"].map str := by
    cases e with
    | rejected name code addressee kind bytes retryAfter priv =>
      cases retryAfter <;> cases priv <;> simp [HubEvent.extra, fieldIf] at h <;> aesop
    | _ => simp [HubEvent.extra] at h <;> aesop
  revert hkey
  generalize kv.1 = k
  intro hkey
  have hall : ∀ k ∈ ["name", "code", "to", "kind", "bytes", "retry_after", "private", "round",
      "max_rounds", "from_round", "text", "role", "detail"].map str,
      k ≠ str "t" ∧ k ≠ str "event" ∧ index? k = none := by decide +kernel
  exact hall k hkey

omit [PyFloat F] in
theorem filter_eventFields :
    ((eventFields num e).filter fun kv => kv.1 ≠ str "t" && kv.1 ≠ str "event") = e.extra num := by
  have hextra : ((e.extra num).filter fun kv => kv.1 ≠ str "t" && kv.1 ≠ str "event") =
      e.extra num := by
    apply List.filter_eq_self.mpr
    intro kv hkv
    obtain ⟨ht, hevent, -⟩ := extra_keys num e hkv
    simp [ht, hevent]
  rw [eventFields, List.filter_append, hextra]
  rfl

theorem python_event :
    Spoke.Render.event isPrintable (eventFields num e) =
      some (eventLine e.name (join (str " ")
        ((e.extra num).map (pair (Spoke.Render.shown isPrintable))))) := by
  unfold Spoke.Render.event
  rw [filter_eventFields]
  rfl

theorem script_event :
    event js (ofFields js (eventFields num e)) = eventLine e.name (join (str " ")
      ((e.extra num).map (pair fun j => string js (ofJson js j)))) := by
  have hentries : entries (ofFields js (eventFields num e)) = ofFields js (eventFields num e) := by
    apply entries_eq
    rw [ofFields_eq]
    intro kv hkv
    obtain ⟨kv', hkv', rfl⟩ := List.mem_map.mp hkv
    rcases List.mem_append.mp hkv' with hhead | hextra
    · rcases List.mem_pair.mp hhead with rfl | rfl
      · rfl
      · rfl
    · exact (extra_keys num e hextra).2.2
  have hfilter : ((ofFields js (eventFields num e)).filter
      fun kv => kv.1 ≠ str "t" && kv.1 ≠ str "event") = ofFields js (e.extra num) := by
    rw [ofFields_eq, ofFields_eq, List.filter_map]
    exact congrArg _ (filter_eventFields num e)
  unfold event eventLine
  rw [hentries, hfilter, ofFields_eq, List.map_map]
  have hname : stringOf js (prop (ofFields js (eventFields num e)) "event") = e.name := by
    rw [prop_ofJson]
    rfl
  have hpair : ((fun kv : Str × Value N => kv.1 ++ str "=" ++ string js kv.2) ∘
      fun kv : Str × Json F => (kv.1, ofJson js kv.2)) = pair fun j => string js (ofJson js j) := rfl
  rw [hname, hpair]
  simp only [List.isEmpty_iff, ne_eq, ite_not]

omit num e in
theorem pairs_same {kvs : Obj F} (h : ∀ kv ∈ kvs, Same js isPrintable kv.2) :
    kvs.map (pair fun j => string js (ofJson js j)) =
      kvs.map (pair (Spoke.Render.shown isPrintable)) := by
  apply List.map_congr_left
  intro kv hkv
  rw [pair, pair, h kv hkv]

/-- An event all of whose fields are written alike is shown alike. -/
theorem event_agrees (h : ∀ kv ∈ e.extra num, Same js isPrintable kv.2) :
    Spoke.Render.event isPrintable (eventFields num e) =
      some (event js (ofFields js (eventFields num e))) := by
  rw [python_event, script_event, pairs_same js isPrintable h]

end

/-! ### Refusals -/

theorem join_cons (sep x : Str) (xs : List Str) :
    join sep (x :: xs) = x ++ xs.flatMap fun y => sep ++ y := by
  induction xs generalizing x with
  | nil => simp [join]
  | cons y ys ih =>
    show x ++ sep ++ join sep (y :: ys) = _
    rw [ih, List.flatMap_cons, List.append_assoc, List.append_assoc]

/-- What an event shows of the fields after the first. -/
def listed (write : Json F → Str) (kvs : Obj F) : Str := kvs.flatMap fun kv => str " " ++ pair write kv

omit [PyFloat F] in
theorem listed_append (write : Json F → Str) (kvs kvs' : Obj F) :
    listed write (kvs ++ kvs') = listed write kvs ++ listed write kvs' := List.flatMap_append ..

theorem listed_same {kvs : Obj F} (h : ∀ kv ∈ kvs, Same js isPrintable kv.2) :
    listed (fun j => string js (ofJson js j)) kvs = listed (Spoke.Render.shown isPrintable) kvs := by
  have hpairs := congrArg (List.flatMap fun y => str " " ++ y) (pairs_same js isPrintable h)
  rw [List.flatMap_map, List.flatMap_map] at hpairs
  exact hpairs

/-- The fields of a refusal that every one has. -/
def refusalFields (code addressee kind : Str) (bytes : Nat) : Obj F :=
  [(str "code", jstr code), (str "to", jstr addressee), (str "kind", jstr kind),
    (str "bytes", jnat bytes)]

/-- The wait of a refusal. -/
def waitField (num : Rat → Json F) : Option Rat → Obj F
  | none => []
  | some r => [(str "retry_after", num (roundTo 3 r))]

section
variable (num : Rat → Json F) (name code addressee kind : Str) (bytes : Nat)
  (retryAfter : Option Rat) (priv : Bool)

omit [PyFloat F] in
theorem rejected_rest (write : Json F → Str) :
    join (str " ") (((HubEvent.rejected name code addressee kind bytes retryAfter priv).extra
        num).map (pair write)) =
      pair write (str "name", jstr name) ++ (listed write (refusalFields code addressee kind bytes) ++
        (listed write (waitField num retryAfter) ++
          listed write (fieldIf priv "private" (.bool true)))) := by
  have hextra : (HubEvent.rejected name code addressee kind bytes retryAfter priv).extra num =
      (str "name", jstr name) :: (refusalFields code addressee kind bytes ++
        (waitField num retryAfter ++ fieldIf priv "private" (.bool true))) := by
    cases retryAfter <;> rfl
  rw [hextra, List.map_cons, join_cons, List.flatMap_map, ← listed_append, ← listed_append]
  rfl

/-- The wait of a refusal is shown alike exactly if both languages write it alike. -/
theorem wait_agrees_iff {num : Rat → Json F} (hnum : Written js num) :
    listed (Spoke.Render.shown isPrintable) (waitField num retryAfter) =
        listed (fun j => string js (ofJson js j)) (waitField num retryAfter) ↔
      ∀ wait, retryAfter = some wait → WaitAlike js num wait := by
  cases retryAfter with
  | none => simp [listed, waitField]
  | some r =>
    have hlisted : ∀ write : Json F → Str, listed write (waitField num (some r)) =
        str " retry_after=" ++ (write (num (roundTo 3 r)) ++ []) := fun write => rfl
    rw [hlisted, hlisted, List.append_right_inj, List.append_left_inj, eq_comm]
    simp only [Option.some.injEq, forall_eq']
    exact same_wait js isPrintable hnum r

/-- **A rejected event** is shown alike exactly if both languages write its wait alike and it does
not say that the message was private. -/
theorem rejected_agrees_iff {num : Rat → Json F} (hnum : Written js num)
    (hbytes : SmallInts (jnat bytes : Json F)) :
    let e := HubEvent.rejected name code addressee kind bytes retryAfter priv
    Spoke.Render.event isPrintable (eventFields num e) =
        some (event js (ofFields js (eventFields num e))) ↔
      priv = false ∧ ∀ wait, retryAfter = some wait → WaitAlike js num wait := by
  intro e
  have hrest := rejected_rest num name code addressee kind bytes retryAfter priv
  have hne : ∀ write : Json F → Str, join (str " ") ((e.extra num).map (pair write)) ≠ [] := by
    intro write h
    rw [hrest] at h
    cases h
  have hsame : listed (fun j => string js (ofJson js j)) (refusalFields code addressee kind bytes) =
      listed (Spoke.Render.shown isPrintable)
        (refusalFields code addressee kind bytes : Obj F) := by
    apply listed_same js isPrintable
    intro kv hkv
    simp only [refusalFields, List.mem_cons, List.not_mem_nil, or_false] at hkv
    rcases hkv with rfl | rfl | rfl | rfl
    · exact same_str ..
    · exact same_str ..
    · exact same_str ..
    · exact same_nat js isPrintable hbytes
  have hname : pair (fun j => string js (ofJson js j)) (str "name", jstr name) =
      pair (Spoke.Render.shown isPrintable) (str "name", (jstr name : Json F)) := rfl
  rw [python_event, script_event, Option.some.injEq, eventLine_inj (hne _) (hne _), hrest, hrest,
    hname, hsame, List.append_right_inj, List.append_right_inj]
  cases priv with
  | true =>
    -- `True` and `true` are of one length, so the ends of the lines differ.
    have hends : listed (Spoke.Render.shown isPrintable)
          (fieldIf true "private" (.bool true) : Obj F) ≠
        listed (fun j => string js (ofJson js j)) (fieldIf true "private" (.bool true)) := by
      show str " private=True" ≠ str " private=true"
      decide
    constructor
    · intro heq
      exact absurd (List.append_inj_right' heq rfl) hends
    · rintro ⟨⟨⟩, -⟩
  | false =>
    have hmark : ∀ write : Json F → Str, listed write (fieldIf false "private" (.bool true)) = [] :=
      fun write => rfl
    rw [hmark, hmark, List.append_nil, List.append_nil, wait_agrees_iff js isPrintable retryAfter hnum]
    simp

end

/-! ### Errors -/

/-- The fields of an error. -/
def errFields (num : Rat → Json F) (code detail : Str) (seq : Option Int) (retryAfter : Option Rat) :
    Obj F :=
  [(str "t", jstr (str "err")), (str "code", jstr code), (str "detail", jstr detail),
    (str "seq", jopt Json.int seq)] ++ waitField num retryAfter

/-- **An error** is shown alike exactly if both languages write its wait alike. -/
theorem err_agrees_iff {num : Rat → Json F} (hnum : Written js num) (code detail : Str)
    (seq : Option Int) (retryAfter : Option Rat) :
    Spoke.Render.err isPrintable (errFields num code detail seq retryAfter) =
        some (err js (ofFields js (errFields num code detail seq retryAfter))) ↔
      ∀ wait, retryAfter = some wait → WaitAlike js num wait := by
  cases retryAfter with
  | none =>
    have hsame : Spoke.Render.err isPrintable (errFields num code detail seq none) =
        some (err js (ofFields js (errFields num code detail seq none))) := by
      cases seq <;> rfl
    simp [hsame]
  | some r =>
    obtain ⟨x, v, hx, -, -⟩ := hnum.rounded r
    have hwait : waitField num (some r) = [(str "retry_after", .float x)] := by rw [waitField, hx]
    let line := str "[err] " ++ code ++ str " · " ++ detail
    have hpython : Spoke.Render.err isPrintable (errFields num code detail seq (some r)) =
        some (line ++ str " · retry in " ++ Spoke.Render.shown isPrintable (num (roundTo 3 r)) ++
          str "s") := by
      rw [errFields, hwait, hx]
      rfl
    have hscript : err js (ofFields js (errFields num code detail seq (some r))) =
        line ++ str " · retry in " ++ string js (ofJson js (num (roundTo 3 r))) ++ str "s" := by
      rw [errFields, hwait, hx]
      rfl
    rw [hpython, hscript, Option.some.injEq, List.append_left_inj, List.append_right_inj, eq_comm]
    simp only [Option.some.injEq, forall_eq']
    exact same_wait js isPrintable hnum r

end

/-! ## The frames -/

section
variable {F N : Type} [PyFloat F] (js : Engine F N) (isPrintable : Char → Bool) {num : Rat → Json F}

theorem received_eq {f : Frame} (hclean : (f.toJson num).Clean) :
    received num f = some (dumps false (f.toJson num) ++ str "\n") := by
  have hline : Clean (dumps false (f.toJson num) ++ str "\n") := by
    rw [clean_append]
    exact ⟨(clean_dumps false _).mpr hclean, clean_str _⟩
  obtain ⟨cs, hcs⟩ := (clean_iff_ofChars _).mp hline
  rw [received, encode, hcs, encode?, chars?_ofChars, Option.map_some, Option.bind_some]
  exact congrArg (Option.map ofChars) (decode?_utf8 cs)

/-- The welcome with the joiner's own kind. -/
def withKind (kind : Option Str) (frame : Obj F) : Obj F :=
  match kind with
  | none => frame
  | some k => setKey (str "kind") (.str k) frame

theorem pythonLines_eq (kind : Option Str) {f : Frame}
    (hclean : (f.toJson num).Clean) (hwf : (f.toJson num).Wf) :
    pythonLines isPrintable num kind f =
      Spoke.Render.render isPrintable (withKind kind (frameFields num f)) := by
  rw [pythonLines, received_eq hclean]
  simp only [Option.bind_eq_bind, Option.bind_some]
  rw [loads_line false _ hwf, frame_toJson]
  cases kind <;> rfl

theorem scriptLines_eq (kind : Option Str) {f : Frame} (hclean : (f.toJson num).Clean)
    (hwf : (f.toJson num).Wf) (hfin : Finite js (f.toJson num) = true) :
    scriptLines js num kind f = render js (ofFields js (withKind kind (frameFields num f))) := by
  rw [scriptLines, received_eq hclean]
  simp only [Option.bind_eq_bind, Option.bind_some]
  rw [parse_eq js (loads_line false _ hwf) hfin, frame_toJson]
  cases kind with
  | none => rfl
  | some k =>
    show render js (setProp (str "kind") (ofJson js (.str k)) (ofFields js (frameFields num f))) = _
    rw [setProp_ofJson]
    rfl

theorem closed_finite (hnum : Written js num) : Closed (fun j => Finite js j = true) num where
  null := rfl
  bool _ := rfl
  int _ := rfl
  str _ := rfl
  time := hnum.finite
  arr xs h := (numbersItems_eq_true _ _ xs).mpr h
  obj kvs _ h := (numbersFields_eq_true _ _ kvs).mpr h

/-- The frame is a welcome. -/
def IsWelcome : Frame → Prop
  | .welcome .. => True
  | _ => False

omit [PyFloat F] in
theorem small_field {kvs : Obj F} (h : SmallInts (.obj kvs)) (key : String) {j : Json F}
    (hj : (str key, j) ∈ kvs) : SmallInts j :=
  (numbersFields_eq_true _ _ kvs).mp h _ hj

/-! ### The frames, one by one -/

theorem prop_type {kvs : Obj F} {t : Str} (h : field kvs "t" = some (jstr t)) :
    prop (ofFields js kvs) "t" = some (.str t) := by
  rw [prop_ofJson, show List.lookup _ _ = _ from h]
  rfl

/-- A welcome is shown alike, with or without the joiner's kind. -/
theorem agree_welcome (kind : Option Str) (name : Str) (round : Nat) (peers : List Peer) (rate : Str)
    (maxRounds : Nat) (b : Bool) (goal : Str)
    (hsmall : SmallInts (.obj (welcomeFields name round peers rate maxRounds
      (fieldIf b "goal" (jstr goal))) : Json F)) :
    let kvs : Obj F := withKind kind (welcomeFields name round peers rate maxRounds
      (fieldIf b "goal" (jstr goal)))
    ∃ lines, Spoke.Render.render isPrintable kvs = some lines ∧
      render js (ofFields js kvs) = some lines := by
  intro kvs
  have htype : field kvs "t" = some (jstr (str "welcome")) := by cases kind <;> rfl
  have hname : field kvs "name" = some (jstr name) := by cases kind <;> rfl
  have hround : field kvs "round" = some (jnat round) := by cases kind <;> rfl
  have hpeers : field kvs "peers" = some (.arr (peers.map fun p => .obj p.fields)) := by
    cases kind <;> rfl
  have hlimits : field kvs "limits" =
      some (.obj [(str "rate", jstr rate), (str "max_rounds", jnat maxRounds)]) := by
    cases kind <;> rfl
  have hkind : field kvs "kind" = kind.map jstr := by cases kind <;> cases b <;> rfl
  have hsround : SmallInts (jnat round : Json F) :=
    small_field hsmall "round" (by simp [welcomeFields])
  have hslimits : SmallInts (.obj [(str "rate", jstr rate), (str "max_rounds", jnat maxRounds)] : Json F) :=
    small_field hsmall "limits" (by simp [welcomeFields])
  have hsmax : SmallInts (jnat maxRounds : Json F) := small_field hslimits "max_rounds" (by simp)
  obtain ⟨line, hpython, hscript⟩ := welcome_agrees js isPrintable hname hround hpeers
    ⟨rate, hlimits⟩ hkind hsround hsmax
  refine ⟨[line], ?_, ?_⟩
  · rw [Spoke.Render.render, htype]
    show (Spoke.Render.welcome isPrintable kvs).map ([·]) = _
    rw [hpython]
    rfl
  · rw [render, prop_type js htype]
    show (welcomeLine js (ofFields js kvs)).map ([·]) = _
    rw [hscript]
    rfl

/-- Messages are shown alike. -/
theorem agree_deliver (round : Nat) (msgs : List Msg)
    (hsmall : SmallInts ((Frame.deliver round msgs).toJson num)) :
    let kvs := frameFields num (.deliver round msgs)
    ∃ lines, Spoke.Render.render isPrintable kvs = some lines ∧
      render js (ofFields js kvs) = some lines := by
  intro kvs
  have hround : field kvs "round" = some (jnat round) := rfl
  have hmsgs : field kvs "msgs" = some (.arr (msgs.map fun m => .obj (msgFields num m))) := rfl
  have hsround : SmallInts (jnat round : Json F) := small_field hsmall "round" (by simp)
  have hsmsgs : SmallInts (.arr (msgs.map (Msg.toWire num))) := small_field hsmall "msgs" (by simp)
  have hids : ∀ m ∈ msgs, SmallInts (jnat m.id : Json F) := by
    intro m hm
    have hsmall : SmallInts (.obj (msgFields num m)) :=
      (numbersItems_eq_true _ _ _).mp hsmsgs _ (List.mem_map_of_mem hm)
    exact small_field hsmall "id" (by simp [msgFields, Msg.toWire, asObj])
  have hlines : (msgs.map fun m => (.obj (msgFields num m) : Json F)).mapM
      (Spoke.Render.deliverLine isPrintable kvs) =
      some (msgs.map fun m => deliverLine js (ofFields js kvs) (ofFields js (msgFields num m))) := by
    rw [List.mapM_map]
    apply mapM_eq_map
    intro m hm
    exact deliverLine_agrees js isPrintable num hround hsround m (hids m hm)
  refine ⟨msgs.map fun m => deliverLine js (ofFields js kvs) (ofFields js (msgFields num m)), ?_, ?_⟩
  · show Spoke.Render.deliver isPrintable kvs = _
    rw [Spoke.Render.deliver, Spoke.Render.items, hmsgs]
    exact hlines
  · show deliverLines js (ofFields js kvs) = _
    rw [deliverLines, items_ofJson js hmsgs, Option.map_some, List.map_map]
    rfl

/-- A roster is shown alike. -/
theorem agree_roster (round maxRounds : Nat) (frozen muted : Bool) (seq : Option Int)
    (peers : List RosterPeer) (b : Bool) (goal : Str) :
    let kvs := rosterFields num round maxRounds frozen muted seq peers (fieldIf b "goal" (jstr goal))
    ∃ lines, Spoke.Render.render isPrintable kvs = some lines ∧
      render js (ofFields js kvs) = some lines := by
  intro kvs
  have htype : field kvs "t" = some (jstr (str "roster")) := rfl
  have hpeers : field kvs "peers" = some (.arr (peers.map fun p => .obj (p.fields num))) := by
    cases b <;> rfl
  have hlines : (peers.map fun p => (.obj (p.fields num) : Json F)).mapM
      (Spoke.Render.rosterLine isPrintable) =
      some (peers.map fun p => rosterLine js (ofFields js (p.fields num))) := by
    rw [List.mapM_map]
    exact mapM_eq_map fun p _ => rosterLine_agrees js isPrintable num p
  refine ⟨peers.map fun p => rosterLine js (ofFields js (p.fields num)), ?_, ?_⟩
  · rw [Spoke.Render.render, htype]
    show (Spoke.Render.items kvs "peers").bind _ = _
    rw [Spoke.Render.items, hpeers]
    exact hlines
  · rw [render, prop_type js htype]
    show (items (ofFields js kvs) "peers").map _ = _
    rw [items_ofJson js hpeers, Option.map_some, List.map_map]
    rfl

/-- An event is shown alike exactly if both languages write its fields alike. -/
theorem agree_event_iff (hnum : Written js num) (e : HubEvent)
    (hsmall : SmallInts ((Frame.event e).toJson num)) :
    (∃ lines, Spoke.Render.render isPrintable (eventFields num e) = some lines ∧
      render js (ofFields js (eventFields num e)) = some lines) ↔ ShownAlike js num (.event e) := by
  have hrender : (∃ lines, Spoke.Render.render isPrintable (eventFields num e) = some lines ∧
      render js (ofFields js (eventFields num e)) = some lines) ↔
      Spoke.Render.event isPrintable (eventFields num e) =
        some (event js (ofFields js (eventFields num e))) := by
    have hpython : Spoke.Render.render isPrintable (eventFields num e) =
        (Spoke.Render.event isPrintable (eventFields num e)).map ([·]) := rfl
    have hscript : render js (ofFields js (eventFields num e)) =
        some [event js (ofFields js (eventFields num e))] := rfl
    rw [hpython, hscript, python_event]
    simp [eq_comm]
  have hplain : (e.extra num).all (fun kv => isPlain kv.2) = true →
      Spoke.Render.event isPrintable (eventFields num e) =
        some (event js (ofFields js (eventFields num e))) := by
    intro h
    apply event_agrees js isPrintable num e
    intro kv hkv
    have hfield : SmallInts kv.2 := (numbersFields_eq_true _ _ (eventFields num e)).mp hsmall kv
      (List.mem_append_right _ hkv)
    exact same_plain js isPrintable (List.all_eq_true.mp h kv hkv) hfield
  rw [hrender]
  cases e with
  | rejected name code addressee kind bytes retryAfter priv =>
    have hfields : SmallInts (.obj (eventFields num (.rejected name code addressee kind bytes retryAfter
      priv))) := hsmall
    have hbytes : SmallInts (jnat bytes : Json F) :=
      small_field hfields "bytes" (by simp [eventFields, HubEvent.extra])
    exact rejected_agrees_iff js isPrintable name code addressee kind bytes retryAfter priv hnum hbytes
  | _ => exact iff_of_true (hplain rfl) trivial

/-- An error is shown alike exactly if both languages write its wait alike. -/
theorem agree_err_iff (hnum : Written js num) (code detail : Str) (seq : Option Int)
    (retryAfter : Option Rat) :
    (∃ lines, Spoke.Render.render isPrintable (errFields num code detail seq retryAfter) = some lines ∧
      render js (ofFields js (errFields num code detail seq retryAfter)) = some lines) ↔
      ShownAlike js num (.err code detail seq retryAfter) := by
  have hpython : Spoke.Render.render isPrintable (errFields num code detail seq retryAfter) =
      (Spoke.Render.err isPrintable (errFields num code detail seq retryAfter)).map ([·]) := rfl
  have hscript : render js (ofFields js (errFields num code detail seq retryAfter)) =
      some [err js (ofFields js (errFields num code detail seq retryAfter))] := rfl
  rw [ShownAlike, ← err_agrees_iff js isPrintable hnum code detail seq retryAfter, hpython, hscript]
  cases Spoke.Render.err isPrintable (errFields num code detail seq retryAfter) with
  | none => simp
  | some line => simp [eq_comm]

/-- A frame that is shown as it was received. -/
theorem agree_frame_iff (hnum : Written js num) (f : Frame) (hsmall : SmallInts (f.toJson num)) :
    (∃ lines, Spoke.Render.render isPrintable (frameFields num f) = some lines ∧
      render js (ofFields js (frameFields num f)) = some lines) ↔ ShownAlike js num f := by
  cases f with
  | welcome name round peers rate maxRounds goal =>
    exact iff_of_true (agree_welcome js isPrintable none name round peers rate maxRounds _ goal hsmall)
      trivial
  | deliver round msgs => exact iff_of_true (agree_deliver js isPrintable round msgs hsmall) trivial
  | said id queued seq => exact iff_of_true ⟨[], rfl, rfl⟩ trivial
  | ok seq => exact iff_of_true ⟨[], rfl, rfl⟩ trivial
  | err code detail seq retryAfter => exact agree_err_iff js isPrintable hnum code detail seq retryAfter
  | event e => exact agree_event_iff js isPrintable hnum e hsmall
  | ping => exact iff_of_true ⟨[], rfl, rfl⟩ trivial
  | roster round maxRounds frozen muted seq goal peers =>
    exact iff_of_true (agree_roster js isPrintable round maxRounds frozen muted seq peers _ goal)
      trivial

/-- **The Python and the TypeScript renderer** show a frame of the hub alike, a welcome with or
without the joiner's kind, exactly if every wait in it is written alike and it is no report of a
private say that was rejected: Python's `True` is JavaScript's `true`, and `10.0` is `10`. -/
theorem renderers_agree_iff (hnum : Written js num) (kind : Option Str) (f : Frame)
    (hkind : kind.isSome → IsWelcome f) (hclean : (f.toJson num).Clean)
    (hsmall : SmallInts (f.toJson num)) :
    Agree js isPrintable num kind f ↔ ShownAlike js num f := by
  have hwf := (closed_wf hnum.wf).frame f
  have hfin := (closed_finite js hnum).frame f
  rw [Agree, pythonLines_eq isPrintable kind hclean hwf, scriptLines_eq js kind hclean hwf hfin]
  cases kind with
  | none => exact agree_frame_iff js isPrintable hnum f hsmall
  | some k =>
    cases f with
    | welcome name round peers rate maxRounds goal =>
      exact iff_of_true (agree_welcome js isPrintable (some k) name round peers rate maxRounds _ goal
        hsmall) trivial
    | _ => exact (hkind rfl).elim

end

/-! ## Fixed values -/

/-- The number that a token without an exponent writes. -/
def decimal (tok : List Char) : Rat :=
  let fraction := (tok.dropWhile (· ≠ '.')).tail
  (intOfToken (tok.filter (· ≠ '.')) : Rat) / 10 ^ fraction.length

/-- The number of a token. -/
def tokenValue : PyJson.Token → Option Rat
  | .num tok _ => some (decimal tok)
  | _ => none

theorem intToken_chars (z : Int) {c : Char} (h : c ∈ intToken z) : c = '-' ∨ c.isDigit = true := by
  cases z with
  | ofNat n => exact Or.inr (Nat.isDigit_of_mem_toDigits (by omega) (by omega) h)
  | negSucc n =>
    rcases List.mem_cons.mp h with h | h
    · exact Or.inl h
    · exact Or.inr (Nat.isDigit_of_mem_toDigits (by omega) (by omega) h)

/-- What `String` writes of a float: a whole number below `1e21` has neither point nor exponent. -/
def floatText (x : PyJson.Token) : List Char :=
  match tokenValue x with
  | some v => if v.den = 1 ∧ |v| < 10 ^ 21 then intToken v.num else PyFloat.repr x
  | none => PyFloat.repr x

/-- An engine that holds a number as the integer or the float it came from. -/
def tokenEngine : Engine PyJson.Token (Int ⊕ PyJson.Token) where
  ofInt := .inl
  ofFloat := .inr
  text
    | .inl z => intToken z
    | .inr x => floatText x
  positive
    | .inl z => decide (0 < z)
    | .inr x => decide (0 < (tokenValue x).getD 0)
  value := tokenValue
  text_ofInt _ _ := rfl
  positive_ofInt _ _ := rfl
  repr_finite x v h := by
    cases x with
    | num tok hfloat => exact hfloat
    | _ => cases h
  text_fraction x v h hden _ := by
    show floatText x = _
    rw [floatText, h]
    exact if_neg fun hwhole => hden hwhole.1
  text_whole x v h hden hlt c hc := by
    have htext : floatText x = intToken v.num := by
      rw [floatText, h]
      exact if_pos ⟨hden, hlt⟩
    exact intToken_chars v.num (htext ▸ hc)
  text_huge x v h hle := by
    show floatText x = _
    rw [floatText, h]
    exact if_neg fun hwhole => absurd hwhole.2 (not_lt.mpr hle)

/-- Times of a run at the time zero: only the wait `8.2` is another. -/
def zeroOr (t : Rat) : Json PyJson.Token :=
  if t = 41 / 5 then .float (.num ['8', '.', '2'] (by decide)) else .float (.num ['0', '.', '0'] (by decide))

theorem written_zeroOr : Written tokenEngine zeroOr where
  wf t := by
    unfold zeroOr
    split <;> trivial
  finite t := by
    unfold zeroOr
    split <;> rfl
  rounded t := by
    unfold zeroOr
    split
    · refine ⟨_, _, rfl, rfl, Or.inr ?_⟩
      have hvalue : decimal ['8', '.', '2'] = 41 / 5 := by decide +kernel
      rw [hvalue]
      norm_num
    · refine ⟨_, _, rfl, rfl, Or.inl ?_⟩
      decide +kernel

/-- The refusal of the fixture `err` of `render_cases.json`. -/
theorem renderers_agree_iff_rateLimited :
    let f := Frame.err (str "rate_limited") (str "rate limit") (some 17) (some (41 / 5))
    Agree tokenEngine (fun _ => true) zeroOr none f ↔ ShownAlike tokenEngine zeroOr f :=
  renderers_agree_iff tokenEngine (fun _ => true) written_zeroOr none _ (fun h => by cases h)
    ((clean_dumps false _).mp (by decide +kernel)) (by decide +kernel)

/-- Bob whispers to nobody; frank observes. -/
def whisper : List (Op PyJson.Token) :=
  [.handle 0 (helloFrame "frank" "observer" []), .handle 1 (helloFrame "bob" "agent" []),
    .handle 1 (sayFrame "zed" "claim" "psst" true)]

/-- Frank is told `private=True` in one language and `private=true` in the other. -/
theorem whisper_disagrees :
    ¬ ∀ (F N : Type) [PyFloat F] (js : Engine F N) (isPrintable : Char → Bool) (num : Rat → Json F),
      Written js num → ∀ (ops : List (Op F)) (n : Str) (c : ClientId) (f : Frame),
        .send n c true f ∈ (Run.after (Hub.step .still) (Hub.init .still [] 0 0) ops).wire.log →
          (f.toJson num).Clean → SmallInts (f.toJson num) → Agree js isPrintable num none f := by
  intro hall
  let f := Frame.event (.rejected (str "bob") errUnknownRecipient (str "zed") (str "claim") 4 none true)
  have hclean : (f.toJson zeroOr).Clean := (clean_dumps false _).mp (by decide +kernel)
  have hwf := (closed_wf written_zeroOr.wf).frame f
  have hfin := (closed_finite tokenEngine written_zeroOr).frame f
  obtain ⟨lines, hpython, hscript⟩ := hall PyJson.Token _ tokenEngine (fun _ => true) zeroOr
    written_zeroOr whisper (str "frank") 0 f (by decide +kernel) hclean (by decide +kernel)
  rw [pythonLines_eq _ none hclean hwf] at hpython
  rw [scriptLines_eq tokenEngine none hclean hwf hfin] at hscript
  have hdiffer : Spoke.Render.render (fun _ => true) (withKind none (frameFields zeroOr f)) ≠
      render tokenEngine (ofFields tokenEngine (withKind none (frameFields zeroOr f))) := by
    decide +kernel
  exact hdiffer (hpython.trans hscript.symm)

end Moot.Opencode.Render
