/-
The program: one run from its command line to its exit code.

* **`check`** lints each file once.  It fails when a file cannot be read or linted, or
  has a diagnostic.
* **`watch`** lints files when they appear and when they are saved, and shows each
  outcome as it is reported.
* **`parse`** shows what compiler output says about a file.
* **`run`** understands the command line, loads the settings and does one of the three.

What a run writes is gathered here and printed elsewhere, so a run is a function of its
surroundings and its words.
-/
import LuaDiagnostics.CommandLine.Parser
import LuaDiagnostics.Report.Human
import LuaDiagnostics.Report.Json
import LuaDiagnostics.Settings.Discovery
import LuaDiagnostics.Watch.Loop

namespace LuaDiagnostics

/-- What a run finds around it. -/
structure Surroundings where
  machine : Machine
  /-- Standard input. -/
  input : ByteArray
  /-- Standard output is a terminal. -/
  outputIsTerminal : Bool
  /-- The error stream is a terminal. -/
  errorsAreTerminal : Bool
  /-- A watch is interrupted once it has written this many lines. -/
  interruptAfter : Option Nat

/-- What a run leaves behind. -/
structure Ending where
  exitCode : Nat
  output : String
  errors : String
deriving DecidableEq, Repr, Inhabited

/-! ### Errors that end a run -/

/-- An error that ends a run: what was being done, and its causes, each the reason for
the one before. -/
structure FatalError where
  context : String
  causes : List String
deriving DecidableEq, Repr, Inhabited

namespace FatalError

/-- A cause behind its mark; further lines of it are indented. -/
def indented (mark indent cause : String) : String :=
  mark ++ ("\n" ++ indent).intercalate ((Text.pieces cause.toList).map String.ofList)

/-- A cause behind its number. -/
def numbered (cause : String) (number : Nat) : String :=
  indented (String.ofList (number.repr.toList.leftpad 5 ' ') ++ ": ") "       " cause

/-- The causes, one below the other; several are numbered. -/
def causeLines : List String → List String
  | [cause] => [indented "    " "    " cause]
  | causes => causes.zipIdx.map fun (cause, number) => numbered cause number

/-- What is written about an error. -/
def message (e : FatalError) : String :=
  let about := if e.causes.isEmpty then [] else "" :: "Caused by:" :: causeLines e.causes
  "\n".intercalate (s!"Error: {e.context}" :: about) ++ "\n"

/-- The error of a run whose settings could not be loaded. -/
def ofFailure (context : String) (failure : Failure) : FatalError :=
  { context, causes := failure.message :: (failure.cause?.map IoError.message).toList }

/-- The end of a run with an error. -/
def ending (e : FatalError) : Ending := { exitCode := 1, output := "", errors := e.message }

end FatalError

/-! ### Showing results -/

/-- How results are shown. -/
structure View where
  format : OutputFormat
  color : Bool
deriving DecidableEq, Repr

namespace View

/-- A diagnostic for people, with its line and carets under it. -/
def diagnostic (v : View) (d : Document) (found : Diagnostic) : String :=
  let head := found.headline d.id v.color ++ "\n"
  match d.lineAt? found.range.start.line with
  | some line => head ++ "    " ++ line ++ "\n    " ++ found.underline line ++ "\n"
  | none => head

/-- The report on a registry for programs. -/
def registry (r : Registry) : String := report r.snapshot ++ "\n"

/-- What a check shows of a document. -/
def checked (v : View) (d : Document) : LintOutcome → String
  | .published found => v.diagnostic d found
  | _ => ""

/-- What a watch shows of an outcome to people.  The document is read again. -/
def watchedByPeople (v : View) (m : Machine) (id : DocumentId) : LintOutcome → String
  | .published found =>
    match Document.load m.files m.directory ⟨id.text⟩ with
    | .ok d => v.diagnostic d found
    | .error _ => found.headline id v.color ++ "\n"
  | .cleared => id.text ++ ": ok\n"
  | _ => ""

/-- What a watch shows of an outcome. -/
def watched (v : View) (m : Machine) (r : Registry) (id : DocumentId)
    (outcome : LintOutcome) : String :=
  match v.format with
  | .human => v.watchedByPeople m id outcome
  | .json => registry r

end View

/-! ### Activities -/

namespace Program

/-- An outcome that makes a check fail. -/
def isFailing : LintOutcome → Bool
  | .published _ => true
  | .failed _ => true
  | _ => false

/-- Reads files in order: the documents, and what is said about files without. -/
def loadAll (m : Machine) : List Path → List Document × String
  | [] => ([], "")
  | p :: rest =>
    let (documents, complaints) := loadAll m rest
    match Document.load m.files m.directory p with
    | .ok d => (d :: documents, complaints)
    | .error e => (documents, s!"cannot read {p.text}: {e.message}\n" ++ complaints)

/-- Lints each file once. -/
def check (s : Surroundings) (session : Session) (v : View) (errorColor : Bool)
    (files : List Path) : Ending :=
  let (documents, complaints) := loadAll s.machine files
  let (session, outcomes) := session.lintAll s.machine documents
  let shown := match v.format with
    | .human => String.join (List.zipWith v.checked documents outcomes)
    | .json => View.registry session.registry
  { exitCode := if complaints ≠ "" ∨ outcomes.any isFailing then 1 else 0
    output := shown
    errors := complaints ++ Notification.console session.notifications errorColor }

/-- The number of complete lines of a text. -/
def lineCount (text : String) : Nat := text.toList.count '\n'

/-- Shows every outcome of a watch, until it is interrupted. -/
def watchObserver (s : Surroundings) (v : View) : Observer String where
  observe output files registry id outcome :=
    (output ++ v.watched { s.machine with files } registry id outcome, files)
  wantsStop output := s.interruptAfter.any (· ≤ lineCount output)

/-- As no file changes during a run, all files are opened in the first round, reported
in the second, and nothing happens in the third. -/
def watchRounds : Nat := 3

/-- Lints files when they appear and when they are saved. -/
def watch (s : Surroundings) (session : Session) (v : View) (errorColor : Bool)
    (files : List Path) : Ending :=
  let start : Watch String :=
    { machine := s.machine, session, watcher := .new files, workers := [], observer := "" }
  let observer := watchObserver s v
  let final := start.run observer watchRounds
  { exitCode := 0
    output := final.observer
    errors := s!"watching {files.length} file(s), Ctrl+C to stop\n"
      ++ Notification.console final.session.notifications errorColor
      ++ if observer.wantsStop final.observer then "Ctrl+C pressed, stopping watch...\n"
        else "" }

/-- The compiler output to be read: the one given, or standard input. -/
def compilerOutput (s : Surroundings) : Option String → Except FatalError String
  | some line => .ok line
  | none =>
    match Text.decode? s.input with
    | some text => .ok text
    | none => .error { context := "reading stdin", causes := [IoError.invalidUtf8.message] }

/-- What compiler output says about a document: its last diagnostic. -/
def lastOf (d : Document) (output : String) : Option Diagnostic :=
  lastDiagnosis d.lines ((Text.fullLines output.toList).map String.ofList)

/-- Shows what compiler output says about a file. -/
def parse (s : Surroundings) (v : View) (file : Path) (line : Option String) :
    Except FatalError Ending := do
  let d ← (Document.load s.machine.files s.machine.directory file).mapError fun e =>
    { context := s!"reading {file.text}", causes := [e.message] : FatalError }
  let output ← compilerOutput s line
  match lastOf d output with
  | none => return { exitCode := 1, output := "", errors := "no diagnostic\n" }
  | some found =>
    let shown := match v.format with
      | .human => v.diagnostic d found
      | .json => View.registry (Registry.empty.set d.id [found])
    return { exitCode := 0, output := shown, errors := "" }

/-! ### Runs -/

/-- The settings of the configuration that was named or else is found. -/
def loadSettings (m : Machine) : Option Path → Except FatalError Settings
  | some path => (Settings.load m.files m.directory path).result.mapError
      (.ofFailure s!"loading config {path.text}")
  | none => (Settings.discover m.files m.directory).1.result.mapError
      (.ofFailure "loading config")

/-- The end of a run whose command line asks for nothing that can be done. -/
def usage (e : UsageError) : Ending :=
  match e with
  | .helpAsked | .versionAsked => { exitCode := e.exitCode, output := e.message, errors := "" }
  | _ => { exitCode := e.exitCode, output := "", errors := e.message }

/-- Does what an invocation asks for. -/
def perform (s : Surroundings) (i : Invocation) : Except FatalError Ending := do
  let settings ← loadSettings s.machine i.configuration
  let session := Session.new (i.applyTo settings)
  let view : View := { format := i.format, color := !i.noColor && s.outputIsTerminal }
  let errorColor := !i.noColor && s.errorsAreTerminal
  match i.activity with
  | .check files => return check s session view errorColor files
  | .watch files _ => return watch s session view errorColor files
  | .parse file line => parse s view file line

/-- One run of the program. -/
def run (s : Surroundings) (words : List String) : Ending :=
  match CommandLine.parse words with
  | .error e => usage e
  | .ok i =>
    match perform s i with
    | .error e => e.ending
    | .ok ending => ending

end Program

end LuaDiagnostics
