/-
Reading TOML documents.

**`parse?`** answers the members of a document's root table, or nothing when the text is
not a TOML document: malformed, with a key defined twice, or adding to a table that is
complete.  Where and why a document is malformed is not said.

A reader for values takes the number of levels that may still be nested, which bounds
its own recursion; lists are read with as much fuel as the document has characters, since
each item takes at least one.
-/
import LuaDiagnostics.Toml.Number

namespace LuaDiagnostics.Toml

/-! ### Values -/

/-- Reads the items of an array up to its closing bracket; a comma may stand behind the
last.  `read` holds the items so far, latest first. -/
def arrayItems (item : Reader Value) (read : List Value) : Nat → Reader (List Value)
  | 0, _ => none
  | fuel + 1, cs =>
    match skipFiller false cs with
    | ']' :: rest => some (read.reverse, rest)
    | cs => do
      let (value, rest) ← item cs
      match skipFiller false rest with
      | ',' :: rest => arrayItems item (value :: read) fuel rest
      | ']' :: rest => return ((value :: read).reverse, rest)
      | _ => none

/-- Reads a key, an equals sign and a value. -/
def keyValue (item : Reader Value) : Reader (List String × Value) := fun cs => do
  let (path, rest) ← dottedKey cs
  let rest ← mark '=' rest
  let (value, rest) ← item (skipBlanks rest)
  return ((path, value), rest)

/-- Reads the members of an inline table up to its closing brace, all on one line. -/
def inlineMembers (item : Reader Value) (members : Members) : Nat → Reader Members
  | 0, _ => none
  | fuel + 1, cs => do
    let ((path, value), rest) ← keyValue item cs
    let members ← assign path value members
    match skipBlanks rest with
    | ',' :: rest => inlineMembers item members fuel rest
    | '\x7d' :: rest => return (members, rest)
    | _ => none

/-- Reads an inline table behind its opening brace. -/
def inlineTable (item : Reader Value) (fuel : Nat) : Reader Value := fun cs =>
  match skipBlanks cs with
  | '\x7d' :: rest => some (.table .inline [], rest)
  | cs => (inlineMembers item [] fuel cs).map fun (members, rest) =>
      (.table .inline members, rest)

/-- Reads a value that is neither array nor table. -/
def scalar (cs : List Char) : Option (Value × List Char) :=
  if "true".toList.isPrefixOf cs then some (.boolean true, cs.drop 4)
  else if "false".toList.isPrefixOf cs then some (.boolean false, cs.drop 5)
  else
    match cs with
    | '"' :: _ | '\'' :: _ => (stringValue cs).map fun (s, rest) => (.string s, rest)
    | _ => (dateTime cs).or (number cs)

/-- Reads a value in which arrays and inline tables may nest to a depth; each of them has
the same fuel. -/
def value (fuel : Nat) : Nat → Reader Value
  | _, [] => none
  | 0, c :: rest => if c = '[' ∨ c = '\x7b' then none else scalar (c :: rest)
  | depth + 1, c :: rest =>
    if c = '[' then
      (arrayItems (value fuel depth) [] fuel rest).map fun (items, rest) =>
        (.array items, rest)
    else if c = '\x7b' then inlineTable (value fuel depth) fuel rest
    else scalar (c :: rest)

/-! ### Documents -/

/-- What has been read of a document: its root table and the path of the section that
key-value lines belong to. -/
structure Draft where
  root : Members
  sectionPath : List String

/-- Adds a key-value line to the current section. -/
def Draft.add (d : Draft) (path : List String) (v : Value) : Option Draft := do
  let root ← update false (fun _ members => assign path v members) .header d.root d.sectionPath
  return { d with root }

/-- Reads what stands between the brackets of a header and the rest of its line. -/
def headerPath (close : List Char) (cs : List Char) : Option (List String × List Char) := do
  let (path, rest) ← dottedKey cs
  if close.isPrefixOf rest then
    return (path, ← afterLine? (rest.drop close.length))
  else none

/-- Reads the next line that is not blank, which begins behind its blanks. -/
def line (fuel : Nat) (d : Draft) : Reader Draft
  | '#' :: rest => (afterLine? ('#' :: rest)).map fun rest => (d, rest)
  | '[' :: '[' :: rest => do
    let (path, rest) ← headerPath [']', ']'] rest
    return ({ root := ← openElement path d.root, sectionPath := path }, rest)
  | '[' :: rest => do
    let (path, rest) ← headerPath [']'] rest
    return ({ root := ← openTable path d.root, sectionPath := path }, rest)
  | cs =>
    match afterNewline? cs with
    | some rest => some (d, rest)
    | none => do
      let ((path, v), rest) ← keyValue (value fuel (depthBound - 1)) cs
      return (← d.add path v, ← afterLine? rest)

/-- Reads lines to the end of the document, at most `count` of them. -/
def linesUpTo (fuel : Nat) (d : Draft) : Nat → List Char → Option Members
  | 0, _ => none
  | count + 1, cs =>
    match skipBlanks cs with
    | [] => some d.root
    | cs => do
      let (d, rest) ← line fuel d cs
      linesUpTo fuel d count rest

/-- Drops the mark of the byte order that may begin a document. -/
def skipByteOrderMark : List Char → List Char
  | '\uFEFF' :: rest => rest
  | cs => cs

/-- The root table of a TOML document. -/
def parse? (text : String) : Option Members :=
  let cs := skipByteOrderMark text.toList
  let fuel := cs.length + 1
  linesUpTo fuel { root := [], sectionPath := [] } fuel cs

end LuaDiagnostics.Toml
