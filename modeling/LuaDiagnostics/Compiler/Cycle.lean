/-
A lint cycle and its cancellation, step by step.

A cycle starts a compiler, keeps it in a slot where others can reach it, reads its error
stream to the end, takes it out of the slot and waits for it.  Whoever cancels the cycle
first sets a flag and then kills the compiler if the slot holds one; the cycle itself
looks at the flag once after it filled the slot, and cancels itself if it is set.  The
compiler may write, close its streams and end at any time.

* **`step`** is one step of the cycle, of a cancellation or of the compiler; it is not
  defined where that step is not possible.
* **`run?`** takes steps in order.
* **`outcome?`** is what a cycle that has returned found.
-/
import LuaDiagnostics.Compiler.ErrorStream

namespace LuaDiagnostics.Cycle

/-- How far a cycle has come. -/
inductive Phase
  /-- Nothing was started. -/
  | ready
  /-- The compiler runs and is not yet in the slot. -/
  | spawned
  /-- The compiler is in the slot and the flag is still to be looked at. -/
  | stored
  /-- The flag was set, and the cycle is about to set it again. -/
  | confirming
  /-- The cycle is about to kill its own compiler. -/
  | killing
  /-- The error stream is being read. -/
  | reading
  /-- The error stream has ended. -/
  | drained
  /-- The compiler was taken out of the slot. -/
  | waiting
  /-- The cycle has returned, with the exit code and the flag as it found them. -/
  | returned (exitCode : Option Nat) (cancelled : Bool)
deriving DecidableEq, Repr

/-- A compiler that was started. -/
structure Child where
  /-- What it wrote to its error stream. -/
  written : List UInt8
  /-- What it wrote to its output, which is taken from it and thrown away. -/
  printed : List UInt8
  /-- It has closed its streams. -/
  closed : Bool
  /-- It has ended, with an exit code unless it was killed. -/
  ended : Option (Option Nat)
deriving DecidableEq, Repr

namespace Child

/-- A compiler that has just started. -/
def fresh : Child := { written := [], printed := [], closed := false, ended := none }

/-- Kills a compiler, which does nothing to one that has ended. -/
def kill (c : Child) : Child := { c with ended := c.ended.or (some none) }

/-- Nothing more comes from the streams. -/
def isSilent (c : Child) : Bool := c.closed || c.ended.isSome

end Child

/-- A cycle, its compiler, and the cancellations under way. -/
structure State where
  phase : Phase
  /-- The flag. -/
  cancelled : Bool
  /-- The slot holds the compiler. -/
  slotFull : Bool
  child : Option Child
  /-- Cancellations that have set the flag and not yet looked into the slot. -/
  pendingCancels : Nat
  /-- Cancellations that have done both. -/
  finishedCancels : Nat
deriving DecidableEq, Repr

namespace State

/-- Before anything happened. -/
def initial : State :=
  { phase := .ready, cancelled := false, slotFull := false, child := none,
    pendingCancels := 0, finishedCancels := 0 }

/-- Kills the compiler in the slot, if there is one. -/
def killInSlot (s : State) : State :=
  if s.slotFull then { s with child := s.child.map Child.kill } else s

/-- The compiler has ended, killed or by itself. -/
def hasEnded (s : State) : Bool := (s.child.bind Child.ended).isSome

end State

/-- A step of the cycle, of a cancellation, or of the compiler. -/
inductive Action
  | spawn
  | store
  | testFlag
  | confirmFlag
  | killOwn
  | read
  | take
  | wait
  | setFlag
  | killOther
  | write (bytes : List UInt8)
  | print (bytes : List UInt8)
  | closeStreams
  | exit (code : Option Nat)
deriving DecidableEq, Repr

/-- The compiler does something while it runs. -/
def childStep (s : State) (change : Child → Child) : Option State :=
  match s.child with
  | some c => if c.ended.isNone then some { s with child := some (change c) } else none
  | none => none

/-- The compiler writes to one of its streams while these are open. -/
def streamStep (s : State) (change : Child → Child) : Option State :=
  if s.child.any Child.closed then none else childStep s change

/-- One step. -/
def step (s : State) : Action → Option State
  | .spawn =>
    if s.phase = .ready then some { s with phase := .spawned, child := some .fresh } else none
  | .store =>
    if s.phase = .spawned then some { s with phase := .stored, slotFull := true } else none
  | .testFlag =>
    if s.phase = .stored then
      some { s with phase := if s.cancelled then .confirming else .reading }
    else none
  | .confirmFlag =>
    if s.phase = .confirming then some { s with phase := .killing, cancelled := true }
    else none
  | .killOwn =>
    if s.phase = .killing then some { s.killInSlot with phase := .reading } else none
  | .read =>
    if s.phase = .reading ∧ s.child.any Child.isSilent then some { s with phase := .drained }
    else none
  | .take =>
    if s.phase = .drained then some { s with phase := .waiting, slotFull := false } else none
  | .wait =>
    match s.phase, s.child.bind Child.ended with
    | .waiting, some code => some { s with phase := .returned code s.cancelled }
    | _, _ => none
  | .setFlag => some { s with cancelled := true, pendingCancels := s.pendingCancels + 1 }
  | .killOther =>
    if 0 < s.pendingCancels then
      some { s.killInSlot with
        pendingCancels := s.pendingCancels - 1, finishedCancels := s.finishedCancels + 1 }
    else none
  | .write bytes => streamStep s fun c => { c with written := c.written ++ bytes }
  | .print bytes => streamStep s fun c => { c with printed := c.printed ++ bytes }
  | .closeStreams => childStep s fun c => { c with closed := true }
  | .exit code => childStep s fun c => { c with ended := some code }

/-- Takes steps in order. -/
def run? (s : State) (actions : List Action) : Option State := actions.foldlM step s

/-! ### Outcomes -/

/-- What a cycle found. -/
structure Outcome where
  diagnostic : Option Diagnostic
  exitCode : Option Nat
  errorLines : Nat
  cancelled : Bool
deriving DecidableEq, Repr, Inhabited

/-- What a cycle found that has returned, about a document with the given lines. -/
def outcome? (lines : List String) (s : State) : Option Outcome :=
  match s.phase with
  | .returned exitCode cancelled =>
    let findings := ErrorStream.scan lines ((s.child.map Child.written).getD [])
    some { diagnostic := findings.diagnostic, exitCode, errorLines := findings.lineCount,
           cancelled }
  | _ => none

/-- When a cycle is cancelled. -/
inductive CancelTime
  /-- Before it starts its compiler. -/
  | before
  /-- When the compiler has written everything and does not end. -/
  | during
  /-- When the compiler has closed its streams and does not end. -/
  | late
  /-- When the cycle has returned. -/
  | after
deriving DecidableEq, Repr

/-- A cancellation without anything between its steps. -/
def cancellation : List Action := [.setFlag, .killOther]

/-- The steps of a cycle whose compiler writes `bytes` and, unless it is killed, ends
with `code`.  A compiler without streams is waited for, so it is cancelled then. -/
def schedule (bytes : List UInt8) (code : Option Nat) : Option CancelTime → List Action
  | none => [.spawn, .store, .testFlag, .write bytes, .exit code, .read, .take, .wait]
  | some .before =>
    cancellation ++ [.spawn, .store, .testFlag, .confirmFlag, .killOwn, .read, .take, .wait]
  | some .during =>
    [.spawn, .store, .testFlag, .write bytes] ++ cancellation ++ [.read, .take, .wait]
  | some .late =>
    [.spawn, .store, .testFlag, .write bytes, .closeStreams, .read, .take] ++ cancellation
      ++ [.exit code, .wait]
  | some .after =>
    [.spawn, .store, .testFlag, .write bytes, .exit code, .read, .take, .wait]
      ++ cancellation

/-- The state after a cycle that is cancelled at most once. -/
def afterCycle (bytes : List UInt8) (code : Option Nat) (cancel : Option CancelTime) : State :=
  (run? .initial (schedule bytes code cancel)).getD .initial

/-- What a cycle finds that nobody cancels. -/
def undisturbed (lines : List String) (bytes : List UInt8) (code : Option Nat) : Outcome :=
  let findings := ErrorStream.scan lines bytes
  { diagnostic := findings.diagnostic, exitCode := code, errorLines := findings.lineCount,
    cancelled := false }

/-- The steps of an undisturbed cycle lead to what it finds. -/
theorem outcome?_afterCycle_none (lines : List String) (bytes : List UInt8)
    (code : Option Nat) :
    outcome? lines (afterCycle bytes code none) = some (undisturbed lines bytes code) := by
  simp [outcome?, afterCycle, schedule, run?, step, streamStep, childStep, State.initial,
    Child.fresh, Child.isSilent, undisturbed]

/-- A cycle that is cancelled late finds what it would have found, and the exit code is the
compiler's own. -/
theorem outcome?_afterCycle_late (lines : List String) (bytes : List UInt8)
    (code : Option Nat) :
    outcome? lines (afterCycle bytes code (some .late))
      = some { undisturbed lines bytes code with cancelled := true } := by
  simp [outcome?, afterCycle, schedule, cancellation, run?, step, streamStep, childStep,
    State.initial, State.killInSlot, Child.fresh, Child.isSilent, undisturbed]

end LuaDiagnostics.Cycle
