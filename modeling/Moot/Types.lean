import Moot.Lib.Text
import Mathlib.Data.Rat.Defs

/-!
# Messages and connections

The records of `types.py`: a message with its per-recipient tag, and what the
hub reads of a connected wire endpoint.  Times are exact rationals.
-/

namespace Moot
open Py

/-- `State` -/
inductive State
  | idle | busy | blocked
  deriving DecidableEq, Repr

/-- `Addressing` -/
inductive Addressing
  | direct | broadcast | overheard
  deriving DecidableEq, Repr

def State.text : State → Str
  | .idle => str "idle"
  | .busy => str "busy"
  | .blocked => str "blocked"

def Addressing.text : Addressing → Str
  | .direct => str "direct"
  | .broadcast => str "broadcast"
  | .overheard => str "overheard"

/-- `Msg`.  `addressee` is the field `to`, `"*"` for a broadcast; `priv` is
the field `private`. -/
structure Msg where
  id : Nat
  sender : Str
  addressee : Str
  kind : Str
  text : Str
  ts : Rat
  addressing : Option Addressing := none
  seq : Option Int := none
  priv : Bool := false
  deriving DecidableEq

/-- `Msg.tag`: the per-recipient copy. -/
def Msg.tag (m : Msg) (a : Addressing) : Msg := { m with addressing := some a }

@[simp] theorem Msg.tag_id (m : Msg) (a : Addressing) : (m.tag a).id = m.id := rfl
@[simp] theorem Msg.tag_addressing (m : Msg) (a : Addressing) :
    (m.tag a).addressing = some a := rfl

/-- A client object: the connection's identity. -/
abbrev ClientId := Nat

/-- `Client`: the name it has registered under, empty before its hello. -/
structure Client where
  name : Str := []
  connected : Bool := true
  deriving DecidableEq

end Moot
