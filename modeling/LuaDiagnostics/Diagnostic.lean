/-
Diagnostics: what is said about a place in a document.

Lines and columns count from zero, and columns count characters.  The numbers are
unbounded here; that those of a diagnostic read from a compiler stay below `2 ^ 32` is
a property of how it is made (`Message.resolve`).
-/
namespace LuaDiagnostics

/-- A place in a text. -/
structure Position where
  line : Nat
  character : Nat
deriving DecidableEq, Repr, Inhabited

/-- The places from `start` on and before `stop`. -/
structure Range where
  start : Position
  stop : Position
deriving DecidableEq, Repr, Inhabited

namespace Range

/-- The columns from `start` on and before `stop` of one line. -/
def onLine (line start stop : Nat) : Range := ⟨⟨line, start⟩, ⟨line, stop⟩⟩

/-- Holds of a range that covers nothing. -/
def isEmpty (r : Range) : Bool := r.start = r.stop

end Range

/-- How grave a diagnostic is. -/
inductive Severity
  | error
  | warning
  | information
  | hint
deriving DecidableEq, Repr, Inhabited

namespace Severity

/-- The word for a severity in a line meant for people. -/
def label : Severity → String
  | error => "error"
  | warning => "warning"
  | information => "info"
  | hint => "hint"

/-- The full name of a severity, as in structured reports. -/
def name : Severity → String
  | error => "error"
  | warning => "warning"
  | information => "information"
  | hint => "hint"

/-- The severity with the full name. -/
def ofName? : String → Option Severity
  | "error" => some error
  | "warning" => some warning
  | "information" => some information
  | "hint" => some hint
  | _ => none

theorem ofName?_name (s : Severity) : ofName? s.name = some s := by
  cases s <;> rfl

end Severity

/-- A remark on a range of a document. -/
structure Diagnostic where
  range : Range
  message : String
  severity : Severity
  /-- The compiler that the remark comes from; empty until a session fills it in. -/
  source : String
deriving DecidableEq, Repr, Inhabited

namespace Diagnostic

/-- An error without a source. -/
def error (range : Range) (message : String) : Diagnostic := ⟨range, message, .error, ""⟩

/-- The same remark, said to come from `source`. -/
def withSource (d : Diagnostic) (source : String) : Diagnostic := { d with source }

end Diagnostic

end LuaDiagnostics
