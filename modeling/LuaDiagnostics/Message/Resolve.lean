/-
Placing a complaint in the source text.

* **`resolve`** gives a message its range: the first occurrence of the token on the
  line, or the whole line when the token stands for the end of the input or is not
  there.  A line that the document does not have gives no diagnostic.
* **`diagnose`** does so for a piece of compiler output, and **`lastDiagnosis`** keeps
  the last diagnostic of several.
-/
import LuaDiagnostics.Diagnostic
import LuaDiagnostics.Message.Parser
import LuaDiagnostics.Text.Spans

namespace LuaDiagnostics

namespace Message

/-- Column numbers are below this bound. -/
def columnBound : Nat := 0x100000000

/-- The number of characters, if it can serve as a column. -/
def width? (text : String) : Option Nat :=
  if text.length < columnBound then some text.length else none

/-- The columns that a message is about on the text of its line.  The token is looked for
among the bytes, and the characters before it are counted. -/
def columns? (m : Message) (text : String) : Option (Nat × Nat) := do
  let whole ← width? text
  if m.isEof then return (0, whole)
  match Text.byteIndex? m.token text with
  | some place =>
    let start ← width? (← Text.slice? text ⟨0, place⟩)
    return (start, start + (← width? m.token))
  | none => return (0, whole)

/-- The diagnostic for a message about a document with the given lines. -/
def resolve (lines : List String) (m : Message) : Option Diagnostic := do
  let index ← if m.line = 0 then none else some (m.line - 1)
  let text ← lines[index]?
  let (start, stop) ← m.columns? text
  return .error (.onLine index start stop) m.text

end Message

/-- The diagnostic that a piece of compiler output gives for a document. -/
def diagnose (lines : List String) (output : String) : Option Diagnostic :=
  if output.isEmpty then none else (Message.parse? output).bind (Message.resolve lines)

/-- The diagnostic of the last piece of output that gives one. -/
def lastDiagnosis (lines : List String) (outputs : List String) : Option Diagnostic :=
  outputs.reverse.findSome? (diagnose lines)

end LuaDiagnostics
