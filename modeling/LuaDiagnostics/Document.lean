/-
Documents: the texts that are linted.

A document is known by the canonical path of its file, so all spellings of one existing
file, links included, name one document; a path that leads nowhere names itself.
-/
import LuaDiagnostics.FileSystem
import LuaDiagnostics.Text.Lines
import LuaDiagnostics.Text.Spans

namespace LuaDiagnostics

/-- The name of a document in the registry. -/
structure DocumentId where
  text : String
deriving DecidableEq, Repr, Inhabited

namespace DocumentId

/-- The name of the document at a path: its canonical form, or the path as given when it
leads nowhere. -/
def ofPath (fs : FileSystem) (directory : Location) (p : Path) : DocumentId :=
  ⟨((fs.canonical? directory p).getD p).text⟩

end DocumentId

/-- The language that is linted. -/
def luaLanguage : String := "lua"

/-- The language of all other files. -/
def plainLanguage : String := "plaintext"

/-- A letter's lower-case form; other characters, also letters beyond ASCII, stand for
themselves. -/
def lowerAscii (c : Char) : Char :=
  if 'A' ≤ c ∧ c ≤ 'Z' then Char.ofNat (c.toNat + 32) else c

/-- The language of a file by its extension, in whatever case that is written. -/
def languageOf (p : Path) : String :=
  if p.extension?.map (·.map lowerAscii) = some luaLanguage.toList then luaLanguage
  else plainLanguage

/-- A source text with its name, its path as given and its language. -/
structure Document where
  id : DocumentId
  path : Path
  language : String
  text : String
deriving DecidableEq, Repr, Inhabited

namespace Document

/-- The document at a path with a text that need not be the file's. -/
def create (fs : FileSystem) (directory : Location) (path : Path) (language text : String) :
    Document :=
  { id := .ofPath fs directory path, path, language, text }

/-- The document that a file holds. -/
def load (fs : FileSystem) (directory : Location) (path : Path) :
    Except IoError Document := do
  let text ← fs.readText directory path
  return create fs directory path (languageOf path) text

/-- Holds of documents that are linted. -/
def isLua (d : Document) : Bool := d.language = luaLanguage

/-- The places of the lines in the bytes of the text. -/
def spans (d : Document) : List Text.Span := Text.lineSpans d.text

/-- The text of a line, without its terminator. -/
def lineAt? (d : Document) (index : Nat) : Option String :=
  d.spans[index]?.bind (Text.slice? d.text)

/-- The lines of the text, without terminators. -/
def lines (d : Document) : List String := d.spans.filterMap (Text.slice? d.text)

/-- The directory that the compiler runs in. -/
def workingDirectory (d : Document) : Path :=
  match d.path.parent? with
  | some parent => if parent.text = "" then ⟨"."⟩ else parent
  | none => ⟨"."⟩

end Document

end LuaDiagnostics
