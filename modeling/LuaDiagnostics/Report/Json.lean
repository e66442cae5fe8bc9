/-
Reports for programs.

A report is a JSON array with an object for every document: its name and its diagnostics
in order.  It is laid out with two spaces for each level, an empty array or object stays
on its line, and a string escapes the quotation mark, the backslash and the control
characters and nothing else.  A diagnostic without a source has no `source` member.
-/
import LuaDiagnostics.Diagnostic
import LuaDiagnostics.Document

namespace LuaDiagnostics

/-- The JSON values that reports are made of. -/
inductive Json
  | number (n : Nat)
  | string (s : String)
  | array (items : List Json)
  | object (members : List (String × Json))

namespace Json

/-- A character inside a string. -/
def escape (c : Char) : List Char :=
  if c = '"' then ['\\', '"']
  else if c = '\\' then ['\\', '\\']
  else if c = '\n' then ['\\', 'n']
  else if c = '\r' then ['\\', 'r']
  else if c = '\t' then ['\\', 't']
  else if c = '\x08' then ['\\', 'b']
  else if c = '\x0c' then ['\\', 'f']
  else if c.toNat < 0x20 then
    ['\\', 'u', '0', '0', Nat.digitChar (c.toNat / 16), Nat.digitChar (c.toNat % 16)]
  else [c]

/-- A string in quotation marks. -/
def quote (s : String) : List Char := '"' :: s.toList.flatMap escape ++ ['"']

/-- A new line, indented by two spaces for each level. -/
def newline (level : Nat) : List Char := '\n' :: List.replicate (2 * level) ' '

mutual

/-- The text of a value that stands at a level. -/
def render (level : Nat) : Json → List Char
  | number n => n.repr.toList
  | string s => quote s
  | array [] => ['[', ']']
  | array (item :: items) =>
    '[' :: newline (level + 1) ++ render (level + 1) item
      ++ renderItems (level + 1) items ++ newline level ++ [']']
  | object [] => ['\x7b', '\x7d']
  | object ((name, value) :: members) =>
    '\x7b' :: newline (level + 1) ++ quote name ++ [':', ' '] ++ render (level + 1) value
      ++ renderMembers (level + 1) members ++ newline level ++ ['\x7d']

/-- The items of an array after its first. -/
def renderItems (level : Nat) : List Json → List Char
  | [] => []
  | item :: items => ',' :: newline level ++ render level item ++ renderItems level items

/-- The members of an object after its first. -/
def renderMembers (level : Nat) : List (String × Json) → List Char
  | [] => []
  | (name, value) :: members =>
    ',' :: newline level ++ quote name ++ [':', ' '] ++ render level value
      ++ renderMembers level members

end

end Json

/-! ### Reports -/

namespace Position

/-- A position as a JSON object. -/
def toJson (p : Position) : Json :=
  .object [("line", .number p.line), ("character", .number p.character)]

end Position

namespace Range

/-- A range as a JSON object. -/
def toJson (r : Range) : Json :=
  .object [("start", r.start.toJson), ("end", r.stop.toJson)]

end Range

namespace Diagnostic

/-- A diagnostic as a JSON object. -/
def toJson (d : Diagnostic) : Json :=
  .object <|
    [("range", d.range.toJson), ("message", .string d.message),
      ("severity", .string d.severity.name)]
      ++ if d.source = "" then [] else [("source", .string d.source)]

end Diagnostic

/-- The report on some documents as a JSON array. -/
def reportJson (entries : List (DocumentId × List Diagnostic)) : Json :=
  .array <| entries.map fun (id, diagnostics) =>
    .object [("file", .string id.text),
      ("diagnostics", .array (diagnostics.map Diagnostic.toJson))]

/-- The text of the report on some documents. -/
def report (entries : List (DocumentId × List Diagnostic)) : String :=
  String.ofList ((reportJson entries).render 0)

end LuaDiagnostics
