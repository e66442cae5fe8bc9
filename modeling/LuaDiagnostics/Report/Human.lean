/-
Reports for people.

* **`Diagnostic.headline`**: `file:line:column: severity: message [source]`, with lines
  and columns counted from one.
* **`Diagnostic.underline`**: carets under the range of a diagnostic.  Tabs of the line
  are kept in front of them, so that the carets stand under the text.
-/
import LuaDiagnostics.Diagnostic
import LuaDiagnostics.Document
import LuaDiagnostics.Report.Paint

namespace LuaDiagnostics

namespace Severity

/-- How a severity is painted. -/
def style : Severity → Style
  | error => .error
  | warning => .warning
  | information => .note
  | hint => .note

end Severity

namespace Diagnostic

/-- The place of a diagnostic, as terminals and editors read it. -/
def place (id : DocumentId) (d : Diagnostic) : String :=
  s!"{id.text}:{d.range.start.line + 1}:{d.range.start.character + 1}"

/-- What stands behind the message. -/
def attribution (d : Diagnostic) : String :=
  if d.source = "" then "" else s!" [{d.source}]"

/-- A diagnostic on one line. -/
def headline (id : DocumentId) (d : Diagnostic) (color : Bool) : String :=
  Style.place.apply color (d.place id) ++ ": "
    ++ d.severity.style.apply color d.severity.label ++ ": "
    ++ d.message ++ d.attribution

/-- Carets under the columns of a diagnostic on the text of its line. -/
def underline (line : String) (d : Diagnostic) : String :=
  let start := d.range.start.character
  let stop := max d.range.stop.character (start + 1)
  let margin := (line.toList.take start).map fun c => if c = '\t' then '\t' else ' '
  String.ofList (margin ++ List.replicate (stop - start) '^')

end Diagnostic

end LuaDiagnostics
