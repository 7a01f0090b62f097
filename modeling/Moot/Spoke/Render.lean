import Moot.Directory

/-!
# Frames as text

`spoke/render.py`: the lines a model reads of an inbound frame.  A missing key or a
value of another shape raises, which is `none` here.
-/

namespace Moot.Spoke.Render
open Py PyJson Proto

section
variable {F : Type} [PyFloat F] (isPrintable : Char → Bool)

/-- `str(value)` -/
def shown : Json F → Str
  | .str s => s
  | j => reprJson isPrintable j

/-- `value == s` -/
def equals (s : String) : Json F → Bool
  | .str t => t = str s
  | _ => false

/-- `_items` -/
def items (frame : Obj F) (key : String) : Option (List (Json F)) :=
  match field frame key with
  | some (.arr xs) => some xs
  | _ => none

/-- `_int_id` -/
def intId : Option (Json F) → Int
  | some (.int z) => if 0 < z then z else 0
  | _ => 0

/-- `message_head` -/
def messageHead (round : Json F) (id : Int) : Str :=
  let label := match round with
    | .null => str "context"
    | round => str "r" ++ shown isPrintable round
  if id = 0 then str "[" ++ label ++ str "]"
  else str "[" ++ label ++ str " #" ++ intStr id ++ str "]"

/-- `message_line` -/
def messageLine (round : Json F) (id : Int) (sender addressee kind text : Json F) (priv : Bool) :
    Str :=
  let mark := if priv then str " · private" else []
  messageHead isPrintable round id ++ str " " ++ shown isPrintable sender ++ str " → " ++
    shown isPrintable addressee ++ mark ++ str " · " ++ shown isPrintable kind ++ str ": " ++
    shown isPrintable text

/-- One line of `_deliver`. -/
def deliverLine (frame : Obj F) (msg : Json F) : Option Str := do
  let m ← asObj msg
  let addressing ← field m "addressing"
  let round ← if equals "overheard" addressing then some .null else field frame "round"
  return messageLine isPrintable round (intId (field m "id")) (← field m "from") (← field m "to")
    (← field m "kind") (← field m "text")
    (match field m "private" with
      | some (.bool true) => true
      | _ => false)

/-- `_deliver` -/
def deliver (frame : Obj F) : Option (List Str) := do
  (← items frame "msgs").mapM (deliverLine isPrintable frame)

/-- `_peer` -/
def peer (value : Json F) : Option Str := do
  let p ← asObj value
  let kind ← field p "kind"
  let name ← field p "name"
  let state ← field p "state"
  let role := match field p "role" with
    | some (.str role) => if equals "observer" kind || role.isEmpty then [] else str ", " ++ role
    | _ => []
  return shown isPrintable name ++ str " (" ++ shown isPrintable kind ++ role ++ str ", " ++
    shown isPrintable state ++ str ")"

/-- `_peers` -/
def peers (frame : Obj F) : Option Str := do
  let peers ← (← items frame "peers").mapM (peer isPrintable)
  return if peers.isEmpty then str "none" else join (str ", ") peers

/-- `_rounds` -/
def rounds (frame : Obj F) : Option Str := do
  let maxRounds := match field frame "limits" with
    | some (.obj limits) => field limits "max_rounds"
    | _ => none
  let round ← field frame "round"
  return match maxRounds with
    | none | some .null => shown isPrintable round
    | some maxRounds => shown isPrintable round ++ str "/" ++ shown isPrintable maxRounds

/-- `_welcome` -/
def welcome (frame : Obj F) : Option Str := do
  let name ← field frame "name"
  let who := match field frame "kind" with
    | some (.str kind) => shown isPrintable name ++ str " (" ++ kind ++ str ")"
    | _ => shown isPrintable name
  return str "[moot] joined as " ++ who ++ str " · peers: " ++ (← peers isPrintable frame) ++
    str " · round " ++ (← rounds isPrintable frame)

/-- The `event` branch of `render`. -/
def event (frame : Obj F) : Option Str := do
  let rest := join (str " ") ((frame.filter fun kv => kv.1 ≠ str "t" && kv.1 ≠ str "event").map
    fun kv => kv.1 ++ str "=" ++ shown isPrintable kv.2)
  let head := str "[event] " ++ shown isPrintable (← field frame "event")
  return if rest.isEmpty then head else head ++ str " · " ++ rest

/-- The `err` branch of `render`. -/
def err (frame : Obj F) : Option Str := do
  let line := str "[err] " ++ shown isPrintable (← field frame "code") ++ str " · " ++
    shown isPrintable ((field frame "detail").getD .null)
  return match field frame "retry_after" with
    | none | some .null => line
    | some retryAfter => line ++ str " · retry in " ++ shown isPrintable retryAfter ++ str "s"

/-- A line of the `roster` branch of `render`. -/
def rosterLine (value : Json F) : Option Str := do
  let p ← asObj value
  return str "[roster] " ++ shown isPrintable (← field p "name") ++ str " (" ++
    shown isPrintable (← field p "kind") ++ str ", " ++ shown isPrintable (← field p "state") ++
    str ")"

/-- `render` -/
def render (frame : Obj F) : Option (List Str) :=
  match field frame "t" with
  | some (.str t) =>
    if t = str "deliver" then deliver isPrintable frame
    else if t = str "event" then (event isPrintable frame).map ([·])
    else if t = str "err" then (err isPrintable frame).map ([·])
    else if t = str "ok" then some []
    else if t = str "roster" then do (← items frame "peers").mapM (rosterLine isPrintable)
    else if t = str "welcome" then (welcome isPrintable frame).map ([·])
    else some []
  | _ => some []

end

end Moot.Spoke.Render
