/-
Paths as text.

A path is kept as it was written.  These functions read its structure without looking
at any file: slashes separate the parts, empty parts and `.` count for nothing except a
`.` that begins a relative path, and `..` is a part like any other.

* **`parent?`** drops the last part and what separates it.
* **`ancestors`** repeats that, beginning with the path itself.
* **`extension?`** is what stands behind the last dot of the last part.
* **`normal`** is the same for two spellings of the same sequence of parts.
-/
import LuaDiagnostics.Text.Search

namespace LuaDiagnostics

/-- A path as it was written. -/
structure Path where
  text : String
deriving DecidableEq, Repr, Inhabited

namespace Path

/-- The characters of a path. -/
def chars (p : Path) : List Char := p.text.toList

/-- The path written with the characters. -/
def ofChars (cs : List Char) : Path := ⟨String.ofList cs⟩

/-- Holds of a path that starts at the root. -/
def isAbsolute (p : Path) : Bool := p.chars.head? = some '/'

/-- The number of leading characters that no trimming removes: the root's slash, or the
`.` that begins a relative path. -/
def anchor (cs : List Char) : Nat :=
  match cs with
  | '/' :: _ => 1
  | ['.'] => 1
  | '.' :: '/' :: _ => 1
  | _ => 0

/-- Drops the last part of `body`, read from right to left, and the slash before it. -/
def dropLastPart (body : List Char) : List Char :=
  (body.dropWhile (· ≠ '/')).drop 1

/-- The last part of `body`, read from right to left. -/
def lastPart (body : List Char) : List Char := body.takeWhile (· ≠ '/')

/-- Trims, from right to left, the parts that count for nothing. -/
def trimIdle (body : List Char) : List Char :=
  match body with
  | [] => []
  | c :: rest =>
    if lastPart (c :: rest) = [] ∨ lastPart (c :: rest) = ['.'] then
      trimIdle (dropLastPart (c :: rest))
    else c :: rest
termination_by body.length
decreasing_by
  have h : ((c :: rest).dropWhile (· ≠ '/')).length ≤ (c :: rest).length :=
    (List.dropWhile_suffix _).length_le
  unfold dropLastPart
  simp only [List.length_drop, List.length_cons] at *
  omega

/-- The directory that a path names its last part in. -/
def parent? (p : Path) : Option Path :=
  let keep := anchor p.chars
  let head := p.chars.take keep
  match trimIdle (p.chars.drop keep).reverse with
  | [] => if head = ['.'] then some ⟨""⟩ else none
  | c :: rest => some (ofChars (head ++ (trimIdle (dropLastPart (c :: rest))).reverse))

/-- The first `n` ancestors. -/
def ancestorsUpTo : Nat → Path → List Path
  | 0, _ => []
  | n + 1, p =>
    p :: match p.parent? with
      | some q => ancestorsUpTo n q
      | none => []

/-- The path, its parent, the parent of that, and so on.  Each is shorter than the one
before, which bounds their number. -/
def ancestors (p : Path) : List Path := ancestorsUpTo (p.chars.length + 1) p

/-- The last part, unless it is `..` or there is none. -/
def fileName? (p : Path) : Option (List Char) :=
  match (lastPart (trimIdle (p.chars.drop (anchor p.chars)).reverse)).reverse with
  | [] => none
  | ['.', '.'] => none
  | name => some name

/-- What stands behind the last dot of the last part.  A part that has its only dot in
front has no extension. -/
def extension? (p : Path) : Option (List Char) := do
  let name ← p.fileName?
  let (stem, _, extension) ← Text.splitLastChar? (· = '.') name
  if stem = [] then none else return extension

/-- The path to `name` as seen in a directory: an absolute name stands for itself. -/
def join (directory name : Path) : Path :=
  if name.isAbsolute ∨ directory.text = "" then name
  else if directory.chars.getLast? = some '/' then ⟨directory.text ++ name.text⟩
  else ⟨directory.text ++ "/" ++ name.text⟩

/-- The parts between slashes, without the empty ones. -/
def parts (p : Path) : List (List Char) :=
  (Text.splitAll (· = '/') p.chars).filter (· ≠ [])

/-- One spelling for all paths with the same sequence of parts. -/
def normal (p : Path) : String :=
  let head := p.chars.take (anchor p.chars)
  let named := p.parts.filter (· ≠ ['.'])
  let body := ['/'].intercalate named
  String.ofList (if head = ['.'] ∧ named ≠ [] then '.' :: '/' :: body else head ++ body)

end Path

end LuaDiagnostics
