/-
Noticing changes of files.

A watcher remembers when each of its files was last changed.  **`poll`** compares that
with the present, path by path: a file that was not there is opened, one with another
time is saved, and one that is gone is removed.  What it remembers changes on the way, so
a second spelling of a path meets what the first one left.
-/
import LuaDiagnostics.FileSystem
import LuaDiagnostics.SortedMap

namespace LuaDiagnostics

/-- What happened to a watched file. -/
inductive WatchEvent
  | opened (path : Path)
  | saved (path : Path)
  | removed (path : Path)
deriving DecidableEq, Repr, Inhabited

/-- The paths that are watched and the times that were seen. -/
structure Watcher where
  paths : List Path
  seen : SortedMap Timestamp
deriving DecidableEq

namespace Watcher

/-- A watcher that has not seen anything. -/
def new (paths : List Path) : Watcher := { paths, seen := .empty }

/-- Compares a file with what was seen of it. -/
def look (modified? : Path → Option Timestamp) (seen : SortedMap Timestamp) (p : Path) :
    SortedMap Timestamp × Option WatchEvent :=
  match modified? p, seen.get? p.normal with
  | some time, none => (seen.insert p.normal time, some (.opened p))
  | some time, some before =>
    (seen.insert p.normal time, if before = time then none else some (.saved p))
  | none, some _ => (seen.erase p.normal, some (.removed p))
  | none, none => (seen, none)

/-- Compares files one after the other. -/
def lookAll (modified? : Path → Option Timestamp) (seen : SortedMap Timestamp) :
    List Path → SortedMap Timestamp × List WatchEvent
  | [] => (seen, [])
  | p :: rest =>
    let (seen, event) := look modified? seen p
    let (seen, events) := lookAll modified? seen rest
    (seen, event.toList ++ events)

/-- Compares all watched files with what was seen of them. -/
def poll (w : Watcher) (modified? : Path → Option Timestamp) : Watcher × List WatchEvent :=
  let (seen, events) := lookAll modified? w.seen w.paths
  ({ w with seen }, events)

end Watcher

end LuaDiagnostics
