/-
The small parts of a TOML document: blanks, comments, line ends, strings and keys.

A reader takes the characters from where it stands and answers what it read and what
follows, or nothing when the document is malformed there.
-/
namespace LuaDiagnostics.Toml

/-- Reads something from the front of the characters. -/
abbrev Reader (α : Type) := List Char → Option (α × List Char)

/-! ### Blanks, comments and line ends -/

/-- Holds of the blanks inside a line. -/
def isBlank (c : Char) : Bool := c = ' ' || c = '\t'

/-- Drops blanks. -/
def skipBlanks (cs : List Char) : List Char := cs.dropWhile isBlank

/-- Holds of the characters allowed in comments: all but control characters, the tab
being none. -/
def isCommentChar (c : Char) : Bool :=
  c = '\t' || (0x20 ≤ c.toNat && c.toNat ≠ 0x7F)

/-- Drops a comment, if one begins here. -/
def skipComment : List Char → List Char
  | '#' :: rest => rest.dropWhile isCommentChar
  | cs => cs

/-- What follows a line end. -/
def afterNewline? : List Char → Option (List Char)
  | '\n' :: rest => some rest
  | '\r' :: '\n' :: rest => some rest
  | _ => none

/-- What follows blanks, a comment and the end of the line or of the document. -/
def afterLine? (cs : List Char) : Option (List Char) :=
  match skipComment (skipBlanks cs) with
  | [] => some []
  | rest => afterNewline? rest

/-- Drops blanks, line ends and comments; `inComment` says whether one has begun. -/
def skipFiller (inComment : Bool) : List Char → List Char
  | [] => []
  | '\n' :: rest => skipFiller false rest
  | '\r' :: '\n' :: rest => skipFiller false rest
  | c :: rest =>
    if inComment then
      if isCommentChar c then skipFiller true rest else c :: rest
    else if isBlank c then skipFiller false rest
    else if c = '#' then skipFiller true rest
    else c :: rest

/-! ### Strings -/

/-- The value of a hexadecimal digit. -/
def hexValue? (c : Char) : Option Nat :=
  if '0' ≤ c ∧ c ≤ '9' then some (c.toNat - '0'.toNat)
  else if 'a' ≤ c ∧ c ≤ 'f' then some (c.toNat - 'a'.toNat + 10)
  else if 'A' ≤ c ∧ c ≤ 'F' then some (c.toNat - 'A'.toNat + 10)
  else none

/-- The value of hexadecimal digits. -/
def hexNumber? (cs : List Char) : Option Nat :=
  cs.foldlM (fun n c => (hexValue? c).map (16 * n + ·)) 0

/-- The character with the code point in hexadecimal digits. -/
def codePoint? (cs : List Char) : Option Char := do
  let n ← hexNumber? cs
  if n.isValidChar then some (Char.ofNat n) else none

/-- The character that a backslash and one more character stand for. -/
def shortEscape? : Char → Option Char
  | 'b' => some '\x08'
  | 't' => some '\t'
  | 'n' => some '\n'
  | 'f' => some '\x0c'
  | 'r' => some '\r'
  | '"' => some '"'
  | '\\' => some '\\'
  | _ => none

/-- Reads the rest of a string in quotation marks; `read` holds its characters so far,
latest first. -/
def basicString (read : List Char) : Reader (List Char)
  | [] => none
  | '"' :: rest => some (read.reverse, rest)
  | '\\' :: 'u' :: a :: b :: c :: d :: rest => do
    basicString ((← codePoint? [a, b, c, d]) :: read) rest
  | '\\' :: 'U' :: a :: b :: c :: d :: e :: f :: g :: h :: rest => do
    basicString ((← codePoint? [a, b, c, d, e, f, g, h]) :: read) rest
  | '\\' :: c :: rest => do basicString ((← shortEscape? c) :: read) rest
  | c :: rest => if isCommentChar c ∧ c ≠ '\\' then basicString (c :: read) rest else none

/-- Reads the rest of a string in apostrophes, which has no escapes. -/
def literalString (cs : List Char) : Option (List Char × List Char) :=
  match cs.dropWhile fun c => isCommentChar c && c ≠ '\'' with
  | '\'' :: rest => some (cs.takeWhile fun c => isCommentChar c && c ≠ '\'', rest)
  | _ => none

/-- Holds when blanks and then a line end follow. -/
def isLineContinuation (cs : List Char) : Bool := (afterNewline? (skipBlanks cs)).isSome

/-- Closes a string of several lines at three marks or more, of which up to two belong
to the text. -/
def closeMarks? (mark : Char) (read : List Char) : List Char → Option (List Char × List Char)
  | a :: b :: c :: d :: e :: rest =>
    if a = mark ∧ b = mark ∧ c = mark then
      if d = mark ∧ e = mark then some ((mark :: mark :: read).reverse, rest)
      else if d = mark then some ((mark :: read).reverse, e :: rest)
      else some (read.reverse, d :: e :: rest)
    else none
  | [a, b, c, d] =>
    if a = mark ∧ b = mark ∧ c = mark then
      if d = mark then some ((mark :: read).reverse, []) else some (read.reverse, [d])
    else none
  | [a, b, c] => if a = mark ∧ b = mark ∧ c = mark then some (read.reverse, []) else none
  | _ => none

/-- Reads the rest of a string of several lines in quotation marks.  `skipping` holds
behind a backslash at the end of a line: the blanks and line ends there do not count. -/
def multilineBasic (read : List Char) (skipping : Bool) : Reader (List Char)
  | [] => none
  | '\\' :: 'u' :: a :: b :: c :: d :: rest => do
    multilineBasic ((← codePoint? [a, b, c, d]) :: read) false rest
  | '\\' :: 'U' :: a :: b :: c :: d :: e :: f :: g :: h :: rest => do
    multilineBasic ((← codePoint? [a, b, c, d, e, f, g, h]) :: read) false rest
  | '\\' :: c :: rest =>
    match shortEscape? c with
    | some escaped => multilineBasic (escaped :: read) false rest
    | none =>
      if isLineContinuation (c :: rest) then multilineBasic read true (c :: rest) else none
  | '\r' :: '\n' :: rest =>
    if skipping then multilineBasic read true rest
    else multilineBasic ('\n' :: read) false rest
  | '\n' :: rest =>
    if skipping then multilineBasic read true rest
    else multilineBasic ('\n' :: read) false rest
  | c :: rest =>
    if skipping ∧ isBlank c then multilineBasic read true rest
    else if c = '"' then
      match closeMarks? '"' read (c :: rest) with
      | some closed => some closed
      | none => multilineBasic (c :: read) false rest
    else if isCommentChar c ∧ c ≠ '\\' then multilineBasic (c :: read) false rest
    else none

/-- Reads the rest of a string of several lines in apostrophes. -/
def multilineLiteral (read : List Char) : Reader (List Char)
  | [] => none
  | '\r' :: '\n' :: rest => multilineLiteral ('\n' :: read) rest
  | '\n' :: rest => multilineLiteral ('\n' :: read) rest
  | c :: rest =>
    if c = '\'' then
      match closeMarks? '\'' read (c :: rest) with
      | some closed => some closed
      | none => multilineLiteral (c :: read) rest
    else if isCommentChar c then multilineLiteral (c :: read) rest
    else none

/-- Drops the line end right behind the opening of a string of several lines. -/
def skipFirstNewline (cs : List Char) : List Char := (afterNewline? cs).getD cs

/-- Reads a string of any of the four kinds. -/
def stringValue : Reader String
  | '"' :: '"' :: '"' :: rest =>
    (multilineBasic [] false (skipFirstNewline rest)).map fun (s, r) => (String.ofList s, r)
  | '\'' :: '\'' :: '\'' :: rest =>
    (multilineLiteral [] (skipFirstNewline rest)).map fun (s, r) => (String.ofList s, r)
  | '"' :: rest => (basicString [] rest).map fun (s, r) => (String.ofList s, r)
  | '\'' :: rest => (literalString rest).map fun (s, r) => (String.ofList s, r)
  | _ => none

/-! ### Keys -/

/-- Holds of the characters of keys without quotation marks. -/
def isKeyChar (c : Char) : Bool :=
  ('a' ≤ c && c ≤ 'z') || ('A' ≤ c && c ≤ 'Z') || ('0' ≤ c && c ≤ '9') || c = '_' || c = '-'

/-- Reads one key. -/
def simpleKey : Reader String
  | '"' :: rest => (basicString [] rest).map fun (s, r) => (String.ofList s, r)
  | '\'' :: rest => (literalString rest).map fun (s, r) => (String.ofList s, r)
  | cs =>
    if cs.takeWhile isKeyChar = [] then none
    else some (String.ofList (cs.takeWhile isKeyChar), cs.dropWhile isKeyChar)

/-- Reads keys with dots between them, at most `fuel` of them, and the blanks around
each. -/
def keysUpTo : Nat → Reader (List String)
  | 0, _ => none
  | fuel + 1, cs => do
    let (key, rest) ← simpleKey (skipBlanks cs)
    match skipBlanks rest with
    | '.' :: rest =>
      let (keys, rest) ← keysUpTo fuel rest
      return (key :: keys, rest)
    | rest => return ([key], rest)

/-- Values nest less deep than this, and dotted keys have fewer parts. -/
def depthBound : Nat := 80

/-- Reads a key, dotted or not. -/
def dottedKey : Reader (List String) := keysUpTo (depthBound - 1)

end LuaDiagnostics.Toml
