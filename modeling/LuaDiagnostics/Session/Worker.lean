/-
Workers: cycles whose compilers run beside the session.

A worker begins its cycle when it starts, so workers supersede each other in the order
of their start, and it completes the cycle when its compiler has ended.

* **`start`** begins a cycle and launches its compiler.
* **`isDone`** holds when the compiler has ended: by itself, or because it was killed.
* **`finish`** completes the cycle, and **`settle`** does so once the worker is done.
* **`handle`** does all of it at once, **`lintAll`** for one document after the other.
-/
import LuaDiagnostics.Session

namespace LuaDiagnostics

/-- What a worker waits for. -/
inductive Job
  /-- There was no cycle to begin. -/
  | settled (outcome : LintOutcome)
  /-- The compiler could not be started. -/
  | stillborn (cycle : PreparedCycle) (failure : Failure)
  /-- The compiler runs and does what the rule says. -/
  | running (cycle : PreparedCycle) (rule : Rule)

/-- A cycle at work. -/
structure Worker where
  id : DocumentId
  kind : EventKind
  job : Job

namespace Worker

/-- Launches the compiler of a cycle. -/
def launch (m : Machine) (c : PreparedCycle) : Job :=
  match m.launch c.command with
  | .ok _ => .running c (Rule.respond m.rules c.document.text)
  | .error e => .stillborn c (.spawn c.command.displayName e)

/-- Begins a cycle for a document and launches its compiler. -/
def start (s : Session) (m : Machine) (kind : EventKind) (d : Document) : Session × Worker :=
  match s.prepare m d with
  | (s, .error outcome) => (s, { id := d.id, kind, job := .settled outcome })
  | (s, .ok cycle) => (s, { id := d.id, kind, job := launch m cycle })

/-- Holds when a worker has nothing more to wait for. -/
def isDone (s : Session) (w : Worker) : Bool :=
  match w.job with
  | .settled _ => true
  | .stillborn _ _ => true
  | .running cycle rule => !rule.runsOn || s.cancelled.contains cycle.generation

/-- Completes the cycle of a worker, with everything that its compiler has to say. -/
def finish (s : Session) (w : Worker) : Session × LintOutcome :=
  match w.job with
  | .settled outcome => (s, outcome)
  | .stillborn cycle failure => s.complete w.kind cycle (.error failure)
  | .running cycle rule =>
    s.complete w.kind cycle
      (.ok (Cycle.undisturbed cycle.document.lines rule.errors.toList rule.exitCode))

/-- Completes the cycle of a worker that is done. -/
def settle (s : Session) (w : Worker) : Session × Worker :=
  if w.isDone s then
    let (s, outcome) := w.finish s
    (s, { w with job := .settled outcome })
  else (s, w)

/-- The outcome of a worker whose cycle is over. -/
def outcome? (w : Worker) : Option LintOutcome :=
  match w.job with
  | .settled outcome => some outcome
  | _ => none

end Worker

namespace Session

/-- Lints a document and waits for the result. -/
def handle (s : Session) (m : Machine) (kind : EventKind) (d : Document) :
    Session × LintOutcome :=
  let (s, worker) := Worker.start s m kind d
  worker.finish s

/-- Lints documents one after the other. -/
def lintAll (s : Session) (m : Machine) : List Document → Session × List LintOutcome
  | [] => (s, [])
  | d :: rest =>
    let (s, outcome) := s.handle m .opened d
    let (s, outcomes) := s.lintAll m rest
    (s, outcome :: outcomes)

end Session

end LuaDiagnostics
