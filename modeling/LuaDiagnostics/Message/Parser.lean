/-
Reading a compiler's complaint.

Both compilers print `<process>: <chunk>:<line>: <text> near <token>`, the token in
quotes or angle brackets.  Any of the parts may hold the marks that separate the others,
so the cut is fixed from the right: the closing mark is the last one of the line, the
opening mark the last one before it, the word ` near` the last one that ends at or
before the opening mark, and the number is the last one between `:` and `: ` that leaves
some text before that word and something before itself.

* **`partsOfLine?`** cuts one line.
* **`parse?`** takes the first line that can be cut; its number decides whether there is
  a message at all, and no later line is looked at.
-/
import LuaDiagnostics.Text.Lines

namespace LuaDiagnostics

/-- What a compiler said: the line, counted from one, the text, and the token at which
it stopped. -/
structure Message where
  line : Nat
  text : String
  token : String
deriving DecidableEq, Repr, Inhabited

namespace Message

/-- The token that stands for the end of the input. -/
def endOfInput : String := "eof"

/-- Holds when the compiler stopped at the end of the input. -/
def isEof (m : Message) : Bool := m.token = endOfInput

/-- Lines are numbered below this bound. -/
def lineBound : Nat := 0x100000000

/-! ### Cutting a line -/

/-- The number, text and token of a line, still as they stand there. -/
structure Parts where
  digits : List Char
  text : List Char
  token : List Char
deriving DecidableEq, Repr

/-- Holds of the marks that open a token. -/
def isOpening (c : Char) : Bool := c = '<' || c = '\''

/-- Holds of the marks that close a token. -/
def isClosing (c : Char) : Bool := c = '\'' || c = '>'

/-- Holds of the ten decimal digits. -/
def isDigit (c : Char) : Bool := '0' ≤ c && c ≤ '9'

/-- The word before a token. -/
def nearWord : List Char := " near".toList

/-- Reads `: `, digits, `:` and one more character, all from right to left, and answers
the digits in their order on the line. -/
def numberEndingAt? : List Char → Option (List Char)
  | ' ' :: ':' :: rest =>
    match rest.takeWhile isDigit, rest.dropWhile isDigit with
    | _ :: _, ':' :: _ :: _ => some (rest.takeWhile isDigit).reverse
    | _, _ => none
  | _ => none

/-- Looks for the number from right to left, behind the text passed so far.  There has
to be some text. -/
def numberAndText? (text : List Char) : List Char → Option (List Char × List Char)
  | [] => none
  | c :: rest =>
    match numberEndingAt? rest with
    | some digits => some (digits, c :: text)
    | none => numberAndText? (c :: text) rest

/-- Cuts a line into number, text and token. -/
def partsOfLine? (line : List Char) : Option Parts := do
  let (beforeClosing, _, _) ← Text.splitLastChar? isClosing line
  let (beforeOpening, _, token) ← Text.splitLastChar? isOpening beforeClosing
  let (beforeNear, _) ← Text.splitLast? nearWord beforeOpening
  let (digits, text) ← numberAndText? [] beforeNear.reverse
  return { digits, text, token }

/-! ### Messages -/

/-- The value of decimal digits. -/
def numberOfDigits (digits : List Char) : Nat :=
  digits.foldl (fun n c => 10 * n + (c.toNat - '0'.toNat)) 0

/-- The message of a line's parts, unless its number is zero or too large. -/
def ofParts? (p : Parts) : Option Message :=
  let line := numberOfDigits p.digits
  if 0 < line ∧ line < lineBound then
    some { line, text := String.ofList p.text, token := String.ofList p.token }
  else none

/-- Reads the first line of the output that is a complaint. -/
def parse? (output : String) : Option Message :=
  ((Text.pieces output.toList).findSome? partsOfLine?).bind ofParts?

end Message

end LuaDiagnostics
