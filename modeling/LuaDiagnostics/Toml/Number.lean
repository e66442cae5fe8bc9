/-
Numbers, dates and times of a TOML document.

* **`integerText`** reads a decimal integer as it is written: no leading zeros, and
  single underscores between digits only.
* **`radixInteger`** reads one with a base mark; **`number`** reads any number.
* **`dateTime`** reads a date, a time of day, or both with or without an offset, and
  checks that they exist.

A number with a fraction or an exponent may not be too large for a double, while a
negative one may.
-/
import LuaDiagnostics.Toml.Value
import LuaDiagnostics.Toml.Lexical

namespace LuaDiagnostics.Toml

/-! ### Digits -/

/-- Holds of the ten digits. -/
def isDecimal (c : Char) : Bool := '0' ≤ c && c ≤ '9'

/-- Holds of the digits of a base. -/
def isDigitOf (base : Nat) (c : Char) : Bool :=
  match hexValue? c with
  | some n => n < base
  | none => false

/-- Reads digits with single underscores between them; `afterDigit` says whether one may
stand here.  The underscores are dropped. -/
def groupedDigits (isDigit : Char → Bool) (afterDigit : Bool) (read : List Char) :
    Reader (List Char)
  | [] => if afterDigit then some (read.reverse, []) else none
  | c :: rest =>
    if isDigit c then groupedDigits isDigit true (c :: read) rest
    else if c = '_' ∧ afterDigit then groupedDigits isDigit false read rest
    else if afterDigit then some (read.reverse, c :: rest)
    else none

/-- Reads digits with underscores. -/
def digits (isDigit : Char → Bool) : Reader (List Char) := groupedDigits isDigit false []

/-- The value of digits of a base. -/
def valueOf (base : Nat) (cs : List Char) : Nat :=
  cs.foldl (fun n c => base * n + (hexValue? c).getD 0) 0

/-- Reads a sign: whether it is a minus. -/
def sign : List Char → Bool × List Char
  | '-' :: rest => (true, rest)
  | '+' :: rest => (false, rest)
  | cs => (false, cs)

/-- Reads the digits of a decimal integer: a zero stands alone. -/
def integerText : Reader (List Char)
  | '0' :: rest => some (['0'], rest)
  | cs => digits isDecimal cs

/-! ### Integers and floats -/

/-- Integers are below this bound, and not below its negative. -/
def integerBound : Int := 0x8000000000000000

/-- Reads the digits behind a base mark. -/
def radixInteger (base : Nat) (cs : List Char) : Option (Value × List Char) := do
  let (ds, rest) ← digits (isDigitOf base) cs
  let n : Int := valueOf base ds
  if n < integerBound then some (.integer n, rest) else none

/-- Reads a dot and the digits behind it. -/
def fraction : List Char → Option (List Char × List Char)
  | '.' :: rest => digits isDecimal rest
  | cs => some ([], cs)

/-- Reads an exponent. -/
def exponent : List Char → Option (Int × List Char)
  | 'e' :: rest | 'E' :: rest => do
    let (minus, rest) := sign rest
    let (ds, rest) ← digits isDecimal rest
    let n : Int := valueOf 10 ds
    return (if minus then -n else n, rest)
  | cs => some (0, cs)

/-- Holds when digits times a power of ten round to a finite double: they are less than
the middle between the largest one and the next power of two. -/
def isFiniteDouble (digits : List Char) (power : Int) : Bool :=
  let significant := digits.dropWhile (· = '0')
  let magnitude := significant.length + power
  if significant = [] ∨ magnitude < 300 then true
  else if 400 < magnitude then false
  else
    valueOf 10 significant * Nat.pow 10 power.toNat
      < (Nat.pow 2 1024 - Nat.pow 2 970) * Nat.pow 10 (-power).toNat

/-- Reads a number without base mark. -/
def plainNumber (cs : List Char) : Option (Value × List Char) := do
  let (minus, unsigned) := sign cs
  if "inf".toList.isPrefixOf unsigned then return (.float "inf", unsigned.drop 3)
  if "nan".toList.isPrefixOf unsigned then return (.float "nan", unsigned.drop 3)
  let (whole, afterWhole) ← integerText unsigned
  let (part, afterPart) ← fraction afterWhole
  let (power, rest) ← exponent afterPart
  if rest.length = afterWhole.length then
    let n : Int := valueOf 10 whole
    let n := if minus then -n else n
    if -integerBound ≤ n ∧ n < integerBound then return (.integer n, rest) else none
  else if minus ∨ isFiniteDouble (whole ++ part) (power - part.length) then
    return (.float (String.ofList (cs.take (cs.length - rest.length))), rest)
  else none

/-- Holds of the characters that numbers are written with. -/
def isNumberChar (c : Char) : Bool :=
  isKeyChar c || c = '+' || c = '.'

/-- Reads a number from characters that numbers are written with. -/
def numberWord : List Char → Option (Value × List Char)
  | '0' :: 'x' :: rest => radixInteger 16 rest
  | '0' :: 'o' :: rest => radixInteger 8 rest
  | '0' :: 'b' :: rest => radixInteger 2 rest
  | cs => plainNumber cs

/-- Reads a number. -/
def number (cs : List Char) : Option (Value × List Char) :=
  (numberWord (cs.takeWhile isNumberChar)).map fun (value, rest) =>
    (value, rest ++ cs.dropWhile isNumberChar)

/-! ### Dates and times -/

/-- Reads exactly two digits, of a value between two bounds. -/
def twoDigits (least greatest : Nat) : Reader Nat
  | a :: b :: rest =>
    let n := valueOf 10 [a, b]
    if isDecimal a ∧ isDecimal b ∧ least ≤ n ∧ n ≤ greatest then some (n, rest) else none
  | _ => none

/-- Reads one character. -/
def mark (c : Char) : List Char → Option (List Char)
  | d :: rest => if d = c then some rest else none
  | [] => none

/-- The number of days of a month. -/
def daysOf (year month : Nat) : Nat :=
  if month = 2 then
    if year % 4 = 0 ∧ (year % 100 ≠ 0 ∨ year % 400 = 0) then 29 else 28
  else if month = 4 ∨ month = 6 ∨ month = 9 ∨ month = 11 then 30
  else 31

/-- What follows a date. -/
def afterDate? : List Char → Option (List Char)
  | a :: b :: c :: d :: rest => do
    if ¬ [a, b, c, d].all isDecimal then none
    let rest ← mark '-' rest
    let (month, rest) ← twoDigits 1 12 rest
    let rest ← mark '-' rest
    let (_, rest) ← twoDigits 1 (daysOf (valueOf 10 [a, b, c, d]) month) rest
    return rest
  | _ => none

/-- What follows a time of day, the hour of which has a greatest value.  The seconds may
be a leap second. -/
def afterTime? (lastHour : Nat) (cs : List Char) : Option (List Char) := do
  let (_, rest) ← twoDigits 0 lastHour cs
  let rest ← mark ':' rest
  let (_, rest) ← twoDigits 0 59 rest
  let rest ← mark ':' rest
  let (_, rest) ← twoDigits 0 60 rest
  match rest with
  | '.' :: c :: rest =>
    if isDecimal c then return rest.dropWhile isDecimal else none
  | '.' :: [] => none
  | rest => return rest

/-- What follows an offset from universal time, if there is one. -/
def afterOffset? : List Char → Option (List Char)
  | 'Z' :: rest | 'z' :: rest => some rest
  | '+' :: rest | '-' :: rest => do
    let (_, rest) ← twoDigits 0 23 rest
    let rest ← mark ':' rest
    let (_, rest) ← twoDigits 0 59 rest
    return rest
  | rest => some rest

/-- What follows a date, a time of day or both.  A blank behind a date is only part of
it when a time follows. -/
def afterDateTime? (cs : List Char) : Option (List Char) :=
  match afterDate? cs with
  | none => afterTime? 23 cs
  | some rest =>
    match rest with
    | 'T' :: time | 't' :: time => (afterTime? 23 time).bind afterOffset?
    | ' ' :: time =>
      match afterTime? 23 time with
      | some rest => afterOffset? rest
      | none => some rest
    | rest => some rest

/-- Holds of the characters that dates and times are written with. -/
def isDateChar (c : Char) : Bool := isDecimal c || "-:.+TtZz ".toList.contains c

/-- Reads a date, a time of day or both. -/
def dateTime (cs : List Char) : Option (Value × List Char) :=
  let word := cs.takeWhile isDateChar
  (afterDateTime? word).map fun rest =>
    (.datetime (String.ofList (word.take (word.length - rest.length))),
      rest ++ cs.dropWhile isDateChar)

end LuaDiagnostics.Toml
