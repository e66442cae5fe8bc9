/-
Coloured output.

A style is written as an escape sequence in front of the text and a reset behind it, so
painting adds sequences and changes no character of the text.
-/
namespace LuaDiagnostics

/-- The ways in which text is set off. -/
inductive Style
  | place
  | error
  | warning
  | note
deriving DecidableEq, Repr

namespace Style

/-- The parameters of a style's escape sequence. -/
def parameters : Style → String
  | place => "1;37"
  | error => "1;31"
  | warning => "1;33"
  | note => "36"

/-- The text between the style's sequence and a reset. -/
def paint (s : Style) (text : String) : String :=
  "\x1b[" ++ s.parameters ++ "m" ++ text ++ "\x1b[0m"

/-- The text as it is or painted. -/
def apply (s : Style) (color : Bool) (text : String) : String :=
  if color then s.paint text else text

end Style

end LuaDiagnostics
