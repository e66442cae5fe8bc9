/-
From changes of files to lint cycles.

A file that is removed is forgotten, under the name that its path has then.  A file that
is opened or saved is read and linted; one that cannot be read is passed over.
-/
import LuaDiagnostics.Session.Worker
import LuaDiagnostics.Watch.Poll

namespace LuaDiagnostics

namespace WatchEvent

/-- The path of the file. -/
def path : WatchEvent → Path
  | opened p => p
  | saved p => p
  | removed p => p

end WatchEvent

/-- What is to be done about an event. -/
inductive Prepared
  /-- A document is to be linted. -/
  | lint (kind : EventKind) (document : Document)
  /-- Everything is done. -/
  | settled (id : DocumentId) (outcome : LintOutcome)

namespace Session

/-- The document of a file that is to be linted. -/
def prepareLint (m : Machine) (kind : EventKind) (p : Path) : Option Prepared :=
  match Document.load m.files m.directory p with
  | .ok document => some (.lint kind document)
  | .error _ => none

/-- Finds out what is to be done about an event, and forgets a removed file. -/
def prepareEvent (s : Session) (m : Machine) : WatchEvent → Session × Option Prepared
  | .opened p => (s, prepareLint m .opened p)
  | .saved p => (s, prepareLint m .saved p)
  | .removed p =>
    let id := DocumentId.ofPath m.files m.directory p
    (s.forget id, some (.settled id .cleared))

/-- Deals with an event and waits for the result. -/
def dispatch (s : Session) (m : Machine) (e : WatchEvent) :
    Session × Option (DocumentId × LintOutcome) :=
  match s.prepareEvent m e with
  | (s, none) => (s, none)
  | (s, some (.settled id outcome)) => (s, some (id, outcome))
  | (s, some (.lint kind document)) =>
    let (s, outcome) := s.handle m kind document
    (s, some (document.id, outcome))

/-- Deals with events in order. -/
def dispatchAll (s : Session) (m : Machine) :
    List WatchEvent → Session × List (Option (DocumentId × LintOutcome))
  | [] => (s, [])
  | e :: rest =>
    let (s, result) := s.dispatch m e
    let (s, results) := s.dispatchAll m rest
    (s, result :: results)

end Session

end LuaDiagnostics
