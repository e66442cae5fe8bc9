/-
Lines of a text.

Three readings of "line" are needed, and all come from the same cut at newlines:

* **`pieces`**: what stands between the newlines, as it is.
* **`lines`**: the lines of a source text, where a carriage return directly before a
  newline belongs to the terminator.  There is one more line than there are newlines,
  so a text that ends in a newline has an empty last line.
* **`fullLines`**: the lines of a program's output, where the empty rest after a final
  newline is no line.

`trimLineEnd` takes all carriage returns and newlines off the end, as is done with a
line of an error stream.
-/
import LuaDiagnostics.Text.Search

namespace LuaDiagnostics.Text

/-- What stands between the newlines of a text. -/
def pieces (cs : List Char) : List (List Char) := splitAll (· = '\n') cs

/-- Drops one carriage return from the end. -/
def dropFinalReturn (cs : List Char) : List Char :=
  if cs.getLast? = some '\r' then cs.dropLast else cs

/-- The lines of a source text, without their terminators. -/
def lines (cs : List Char) : List (List Char) :=
  (pieces cs).dropLast.map dropFinalReturn ++ (pieces cs).getLast?.toList

/-- The lines of a program's output: an empty rest after the last newline is none. -/
def fullLines (cs : List Char) : List (List Char) :=
  if (lines cs).getLast? = some [] then (lines cs).dropLast else lines cs

/-- Holds of the two characters that end lines. -/
def isLineEnd (c : Char) : Bool := c = '\r' || c = '\n'

/-- Takes all line-end characters off the end. -/
def trimLineEnd (cs : List Char) : List Char :=
  (cs.reverse.dropWhile isLineEnd).reverse

end LuaDiagnostics.Text
