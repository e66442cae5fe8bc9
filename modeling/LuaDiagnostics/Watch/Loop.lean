/-
Watching files.

The loop polls, starts a worker for every file to be linted, and reports the workers
that are done, in the order of their start; what a removed file leads to is reported at
once.  It goes on until it is told to stop; then all cycles are cancelled and the
remaining workers are reported.

Whoever is reported to is an **observer**: it may change files and it says when to stop.
Compilers that end by themselves do so between two rounds.  A round in which nothing
happens would repeat for ever, because nothing but the observer changes files, so the
loop ends there as if it were told to stop.

* **`settleDone`**, **`react`** and **`collectDone`** are the parts of a **`round`**.
* **`run`** is the whole loop.
-/
import LuaDiagnostics.Watch.Dispatch

namespace LuaDiagnostics

/-- Someone who is told about outcomes. -/
structure Observer (σ : Type) where
  /-- Takes an outcome, and may change the files. -/
  observe : σ → FileSystem → Registry → DocumentId → LintOutcome → σ × FileSystem
  /-- Wants the loop to end. -/
  wantsStop : σ → Bool

/-- The state of the loop. -/
structure Watch (σ : Type) where
  machine : Machine
  session : Session
  watcher : Watcher
  /-- The workers that are not reported yet, in the order of their start. -/
  workers : List Worker
  observer : σ

namespace Watch

variable {σ : Type}

/-- Reports an outcome. -/
def report (o : Observer σ) (w : Watch σ) (id : DocumentId) (outcome : LintOutcome) :
    Watch σ :=
  let (observer, files) :=
    o.observe w.observer w.machine.files w.session.registry id outcome
  { w with observer, machine := { w.machine with files } }

/-- Completes the cycles of workers whose compilers have ended. -/
def settleAll (s : Session) : List Worker → Session × List Worker
  | [] => (s, [])
  | worker :: rest =>
    let (s, worker) := worker.settle s
    let (s, rest) := settleAll s rest
    (s, worker :: rest)

/-- Completes the cycles of all workers whose compilers have ended. -/
def settleDone (w : Watch σ) : Watch σ :=
  let (session, workers) := settleAll w.session w.workers
  { w with session, workers }

/-- Deals with an event: a lint gets a worker, anything else is reported. -/
def react (o : Observer σ) (w : Watch σ) (e : WatchEvent) : Watch σ :=
  match w.session.prepareEvent w.machine e with
  | (session, none) => { w with session }
  | (session, some (.settled id outcome)) => report o { w with session } id outcome
  | (session, some (.lint kind document)) =>
    let (session, worker) := Worker.start session w.machine kind document
    { w with session, workers := w.workers ++ [worker] }

/-- Goes through workers in order, reports those whose cycles are over, and keeps the
others. -/
def collect (o : Observer σ) (w : Watch σ) : List Worker → Watch σ × List Worker
  | [] => (w, [])
  | worker :: rest =>
    match worker.outcome? with
    | some outcome => (report o w worker.id outcome).collect o rest
    | none =>
      let (w, kept) := w.collect o rest
      (w, worker :: kept)

/-- Reports the workers whose cycles are over. -/
def collectDone (o : Observer σ) (w : Watch σ) : Watch σ :=
  let (w', kept) := w.collect o w.workers
  { w' with workers := kept }

/-- Completes the cycle of a worker and reports it. -/
def join (o : Observer σ) (w : Watch σ) (worker : Worker) : Watch σ :=
  let (session, outcome) := worker.finish w.session
  report o { w with session } worker.id outcome

/-- Cancels all cycles and reports every worker. -/
def shutDown (o : Observer σ) (w : Watch σ) : Watch σ :=
  let w := { w with session := w.session.cancelAll }
  { w.workers.foldl (join o) w with workers := [] }

/-- One round: what ended since the last, the events of a poll, and the reports.  Answers
too whether anything happened or is still to happen. -/
def round (o : Observer σ) (w : Watch σ) : Watch σ × Bool :=
  let w := w.settleDone
  let (watcher, events) := w.watcher.poll (w.machine.files.modified? w.machine.directory)
  let w := events.foldl (react o) { w with watcher }
  let isBusy := !events.isEmpty || w.workers.any (·.isDone w.session)
  (w.collectDone o, isBusy)

/-- At most `fuel` rounds. -/
def rounds (o : Observer σ) : Nat → Watch σ → Watch σ
  | 0, w => w
  | fuel + 1, w =>
    if o.wantsStop w.observer then w
    else
      let (w, isBusy) := w.round o
      if isBusy then rounds o fuel w else w

/-- Watches files until the observer wants to stop, for at most `fuel` rounds. -/
def run (o : Observer σ) (fuel : Nat) (w : Watch σ) : Watch σ := (rounds o fuel w).shutDown o

end Watch

end LuaDiagnostics
