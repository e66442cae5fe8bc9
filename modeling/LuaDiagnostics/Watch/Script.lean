/-
Watching with a script.

The observer here keeps a record of the outcomes.  After each of them it carries out the
next changes of its script, and when there are no more it wants the loop to stop.

A round without an event and without a finished worker ends the loop, and events come
only from changes.  So there are at most two rounds for every outcome, one for the events
and one for the workers, and **`rounds`** is enough of them.
-/
import LuaDiagnostics.Watch.Loop

namespace LuaDiagnostics

/-- What an observer with a script remembers. -/
structure ScriptState where
  /-- The changes that are still to be carried out, a list for each outcome. -/
  script : List (List FileChange)
  /-- The outcomes, latest first. -/
  outcomes : List (DocumentId × LintOutcome)
  stopped : Bool

namespace ScriptState

/-- Takes an outcome. -/
def observe (directory : Location) (s : ScriptState) (files : FileSystem) (id : DocumentId)
    (outcome : LintOutcome) : ScriptState × FileSystem :=
  let s := { s with outcomes := (id, outcome) :: s.outcomes }
  if s.stopped then (s, files)
  else
    match s.script with
    | [] => ({ s with stopped := true }, files)
    | changes :: script => ({ s with script }, files.applyAll directory changes)

/-- The observer that follows a script. -/
def observer (directory : Location) : Observer ScriptState where
  observe s files _ id outcome := s.observe directory files id outcome
  wantsStop s := s.stopped

end ScriptState

namespace Watch

/-- A number of rounds that is enough for a script. -/
def scriptRounds (script : List (List FileChange)) : Nat := 2 * (script.length + 2) + 1

/-- Watches files and follows a script; `stopped` says that there is nothing to be done
at all.  Answers the outcomes in order and the session. -/
def follow (m : Machine) (settings : Settings) (paths : List Path)
    (script : List (List FileChange)) (stopped : Bool) :
    List (DocumentId × LintOutcome) × Session :=
  let start : Watch ScriptState :=
    { machine := m, session := .new settings, watcher := .new paths, workers := [],
      observer := { script, outcomes := [], stopped } }
  let final := start.run (ScriptState.observer m.directory) (scriptRounds script)
  (final.observer.outcomes.reverse, final.session)

end Watch

end LuaDiagnostics
