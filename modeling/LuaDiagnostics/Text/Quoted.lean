/-
Texts in quotation marks, for messages.

The quotation mark and the backslash are escaped, line ends, tabs and the zero character
have escapes of two characters, and other characters without a form of their own are
written by their code point in braces.
-/
import LuaDiagnostics.Text.Visible

namespace LuaDiagnostics.Text

/-- A character inside quotation marks. -/
def escapeQuoted (c : Char) : List Char :=
  if c = '"' then ['\\', '"']
  else if c = '\\' then ['\\', '\\']
  else if c = '\n' then ['\\', 'n']
  else if c = '\r' then ['\\', 'r']
  else if c = '\t' then ['\\', 't']
  else if c = '\x00' then ['\\', '0']
  else if isVisible c then [c]
  else ['\\', 'u', '\x7b'] ++ Nat.toDigits 16 c.toNat ++ ['\x7d']

/-- A text in quotation marks. -/
def quoted (s : String) : String :=
  String.ofList ('"' :: s.toList.flatMap escapeQuoted ++ ['"'])

end LuaDiagnostics.Text
