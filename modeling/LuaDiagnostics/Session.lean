/-
The lint session.

A session turns documents into lint cycles and cycles into diagnostics.  Its steps are
atomic, and cycles of any number of documents may be under way at once:

* **`prepare`** begins a cycle for a document, unless linting is off or the document is
  not Lua.  The cycle gets a number of its own and takes the place of the document's
  earlier one, which is cancelled.
* **`complete`** ends a cycle with what its compiler said.  Only the cycle that holds the
  place of its document has an effect; any other was superseded.
* **`forget`** drops a document with its cycle, **`cancelAll`** drops all cycles.

The numbers of cancelled cycles stand for the flags of their handles.
-/
import LuaDiagnostics.Compiler.Cycle
import LuaDiagnostics.Compiler.Machine
import LuaDiagnostics.Failure
import LuaDiagnostics.Notification
import LuaDiagnostics.Registry

namespace LuaDiagnostics

/-- What may happen to a document. -/
inductive EventKind
  | opened
  | changed
  | saved
  | activated
deriving DecidableEq, Repr, Inhabited

/-- How an event was dealt with. -/
inductive LintOutcome
  /-- Linting is off. -/
  | disabled
  /-- The document is not Lua. -/
  | skipped
  /-- The document has this diagnostic now. -/
  | published (diagnostic : Diagnostic)
  /-- The document has no diagnostics now. -/
  | cleared
  /-- A later event took over. -/
  | superseded
  /-- The compiler could not be run. -/
  | failed (message : String)
deriving DecidableEq, Repr, Inhabited

/-- A cycle that has begun. -/
structure PreparedCycle where
  generation : Nat
  document : Document
  command : Command
deriving DecidableEq, Repr

/-- What came of running a cycle's compiler. -/
abbrev CycleResult := Except Failure Cycle.Outcome

/-- A lint session. -/
structure Session where
  settings : Settings
  registry : Registry
  /-- The number of the cycle that holds the place of each document. -/
  inFlight : SortedMap Nat
  /-- The number of the next cycle. -/
  nextGeneration : Nat
  /-- The numbers of the cycles that were cancelled. -/
  cancelled : List Nat
  /-- What the user was told, in order. -/
  notifications : List Notification
deriving DecidableEq

namespace Session

/-- A session that has done nothing yet. -/
def new (settings : Settings) : Session :=
  { settings, registry := .empty, inFlight := .empty, nextGeneration := 1, cancelled := [],
    notifications := [] }

/-- Tells the user something. -/
def notify (s : Session) (n : Notification) : Session :=
  { s with notifications := s.notifications ++ [n] }

/-! ### Cancelling -/

/-- Cancels the cycle that holds the place of a document and clears the place. -/
def cancel (s : Session) (id : DocumentId) : Session :=
  match s.inFlight.get? id.text with
  | some generation =>
    { s with
      inFlight := s.inFlight.erase id.text, cancelled := generation :: s.cancelled }
  | none => s

/-- Empties the slot of a document. -/
def clear (s : Session) (id : DocumentId) : Session :=
  { s with registry := s.registry.clear id }

/-- Drops a document that went away: its cycle first, then its diagnostics. -/
def forget (s : Session) (id : DocumentId) : Session := (s.cancel id).clear id

/-- Cancels the cycles of all documents. -/
def cancelAll (s : Session) : Session :=
  { s with
    inFlight := .empty
    cancelled := s.inFlight.bindings.map (·.2) ++ s.cancelled }

/-! ### Cycles -/

/-- The command that checks a document. -/
def commandFor (s : Session) (m : Machine) (d : Document) : Command :=
  ((CommandBuilder.new.withSettings s.settings).withDirectory d.workingDirectory).build
    m.lookUp

/-- Gives a document's place to a new cycle. -/
def begin (s : Session) (id : DocumentId) : Session :=
  let s' := s.cancel id
  { s' with
    inFlight := s'.inFlight.insert id.text s.nextGeneration
    nextGeneration := s.nextGeneration + 1 }

/-- Begins a cycle for a document, or says why there is none. -/
def prepare (s : Session) (m : Machine) (d : Document) :
    Session × Except LintOutcome PreparedCycle :=
  if ¬ s.settings.enable then (s, .error .disabled)
  else if ¬ d.isLua then (s, .error .skipped)
  else
    (s.begin d.id,
      .ok { generation := s.nextGeneration, document := d, command := s.commandFor m d })

/-- Holds when a cycle has the place of its document. -/
def isLatest (s : Session) (c : PreparedCycle) : Bool :=
  s.inFlight.get? c.document.id.text = some c.generation

/-- Gives up the place of a document. -/
def release (s : Session) (id : DocumentId) : Session :=
  { s with inFlight := s.inFlight.erase id.text }

/-- The reason that the user is given for a failure: that of the system when a program
could not be started. -/
def reason : Failure → String
  | .spawn _ cause => cause.message
  | failure => failure.message

/-- The warning about an error in a saved document. -/
def saveWarning (d : Diagnostic) : Notification :=
  .warning s!"Current file contains an error: '{d.message}' at line {d.range.start.line + 1}"

/-- Publishes what a cycle found.  The diagnostic is said to come from the interpreter,
whatever program was run. -/
def publish (s : Session) (kind : EventKind) (c : PreparedCycle) :
    Option Diagnostic → Session × LintOutcome
  | none => (s.clear c.document.id, .cleared)
  | some found =>
    let d := found.withSource c.command.interpreter.program
    let s := { s with registry := s.registry.set c.document.id [d] }
    (if kind = .saved ∧ s.settings.warnOnSave then s.notify (saveWarning d) else s,
      .published d)

/-- Ends a cycle with what came of it. -/
def complete (s : Session) (kind : EventKind) (c : PreparedCycle) (result : CycleResult) :
    Session × LintOutcome :=
  if ¬ s.isLatest c then (s, .superseded)
  else
    let s := s.release c.document.id
    match result with
    | .error failure =>
      (s.notify (.error s!"{c.command.displayName} error: {reason failure}"),
        .failed (reason failure))
    | .ok outcome => s.publish kind c outcome.diagnostic

end Session

end LuaDiagnostics
