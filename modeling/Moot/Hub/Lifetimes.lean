import Moot.Directory
import Moot.Hub.Mailed

/-!
# Lifetimes

Hubs that follow one another over one transcript directory.  Each starts from what
the ones before it have written (`Hub.start`), and any of them may be stopped between
two operations.

Proved here: `start_eq`, a start never fails and takes the messages of yesterday and
today.
-/

namespace Moot
open Py PyJson Proto

/-- The appends of a log, with their times. -/
def appends (log : List Effect) : List (Rat × Record) :=
  log.filterMap fun
    | .append wall r => some (wall, r)
    | _ => none

theorem saidAt_eq_appends (log : List Effect) :
    saidAt log = (appends log).filterMap fun e => e.2.msg?.map fun r => (e.1, r) := by
  rw [saidAt, appends, List.filterMap_filterMap]
  refine List.filterMap_congr fun e _ => ?_
  cases e with
  | append wall r => cases r <;> rfl
  | _ => rfl

section
variable {F : Type} [PyFloat F] (site : Site F) (env : Env)

/-- `Hub.__init__`, over a directory. -/
def Hub.start (d : Directory) (now wall : Rat) : Option Hub :=
  (d.recentMsgs site wall).map fun records =>
    Hub.init env (records.map (recordOfFields site)) now wall

/-- A hub, and what the hubs before it have done. -/
structure World where
  past : List Effect
  hub : Hub

namespace World

/-- All that has been done. -/
def log (w : World) : List Effect := w.past ++ w.hub.wire.log

/-- The directory, as the appends have left it. -/
def dir (w : World) : Directory := Directory.written site (appends w.log)

/-- The first hub, over an empty directory. -/
def first (now wall : Rat) : World := ⟨[], Hub.init env [] now wall⟩

end World

/-- An operation of the hub, or a new hub in its place. -/
inductive Event (F : Type)
  | op (op : Op F)
  | restart (now wall : Rat)

/-- One event.  If the new hub cannot be built, the old one stays. -/
def World.step (w : World) : Event F → World
  | .op op => { w with hub := w.hub.step env op }
  | .restart now wall =>
    match Hub.start site env (w.dir site) now wall with
    | some h => ⟨w.log, h⟩
    | none => w

/-- The messages that were written, with their times. -/
def messagesAt (log : List Effect) : List (Rat × MsgRec) :=
  (saidAt log).filter fun e => e.2.Encodes

/-- The messages that were written. -/
def messages (log : List Effect) : List MsgRec := (messagesAt log).map Prod.snd

omit [PyFloat F] in
theorem messagesOn_eq_filter (log : List Effect) (day : Int) :
    messagesOn site (saidAt log) day =
      ((messagesAt log).filter fun e => site.day e.1 = day).map Prod.snd := by
  rw [messagesOn, messagesAt, List.filter_filter]
  congr 2
  funext e
  simp

/-- **A start** never fails, and takes the messages of yesterday and today. -/
theorem start_eq (w : World) (now wall : Rat) :
    Hub.start site env (w.dir site) now wall =
      some (Hub.init env (messagesOn site (saidAt w.log) (site.day wall - 1) ++
        messagesOn site (saidAt w.log) (site.day wall)) now wall) := by
  have hread := recentMsgs_written site (appends w.log) wall
  rw [List.filterMap_append, messagesOn_eq, messagesOn_eq, ← saidAt_eq_appends] at hread
  obtain ⟨records, hrecords, heq⟩ := Option.map_eq_some_iff.mp hread
  rw [Hub.start, World.dir, hrecords, Option.map_some, heq]

theorem step_restart (w : World) (now wall : Rat) :
    w.step site env (.restart now wall) = ⟨w.log, Hub.init env
      (messagesOn site (saidAt w.log) (site.day wall - 1) ++
        messagesOn site (saidAt w.log) (site.day wall)) now wall⟩ := by
  rw [World.step, start_eq]

end

end Moot
