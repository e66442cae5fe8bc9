/-
What a command line asks for.

An invocation names one of three activities and may override the settings that a
configuration gives.  **`applyTo`** lets every override win and leaves the rest.
-/
import LuaDiagnostics.Settings

namespace LuaDiagnostics

/-- The forms of a report. -/
inductive OutputFormat
  | human
  | json
deriving DecidableEq, Repr, Inhabited

namespace OutputFormat

/-- The name of a form. -/
def name : OutputFormat → String
  | human => "human"
  | json => "json"

/-- The form with the name. -/
def ofName? : String → Option OutputFormat
  | "human" => some human
  | "json" => some json
  | _ => none

end OutputFormat

/-- What the program is to do. -/
inductive Activity
  /-- Lint each file once. -/
  | check (files : List Path)
  /-- Lint files when they appear and when they are saved, and look for that every
  `interval` milliseconds. -/
  | watch (files : List Path) (interval : Nat)
  /-- Read compiler output, given or from standard input, against a file. -/
  | parse (file : Path) (line : Option String)
deriving DecidableEq, Repr

/-- The time between two polls in milliseconds, where none is given. -/
def defaultInterval : Nat := 500

/-- A command line that was understood. -/
structure Invocation where
  configuration : Option Path
  interpreter : Option String
  compilerPath : Option Path
  warnOnSave : Bool
  disable : Bool
  format : OutputFormat
  noColor : Bool
  activity : Activity
deriving DecidableEq, Repr

namespace Invocation

/-- The settings of a configuration with the overrides of a command line. -/
def applyTo (i : Invocation) (s : Settings) : Settings :=
  { enable := if i.disable then false else s.enable
    interpreter := (i.interpreter.map Interpreter.ofNameOrDefault).getD s.interpreter
    warnOnSave := if i.warnOnSave then true else s.warnOnSave
    compilerPath := i.compilerPath.or s.compilerPath }

end Invocation

end LuaDiagnostics
