/-
Tables that stand for dates.

Next to its own notation a date may be given as a table: the first key of such a table is
`dateKey`, and its value is a string with the date.  What else the table holds does not
count.

* **`isDateText`** holds of the strings that are dates.  They follow rules of their own,
  a little wider than those of dates in a document.
* **`Value.withDates?`** puts dates in the place of these tables, at any depth, and answers
  nothing when one of them has no date as its value.
* **`document?`** reads a document in this way.
-/
import LuaDiagnostics.Toml.Parser

namespace LuaDiagnostics.Toml

/-! ### Dates as strings -/

/-- Holds when nothing follows but an offset from universal time, of up to one day, or
nothing at all. -/
def endsWithOffset : List Char → Bool
  | [] | ['Z'] | ['z'] => true
  | [sign, a, b, ':', c, d] =>
    (sign = '+' || sign = '-') && [a, b, c, d].all isDecimal
      && valueOf 10 [a, b] * 60 + valueOf 10 [c, d] ≤ 24 * 60
  | _ => false

/-- The last hour that dates in strings know is the one at the end of the day. -/
def lastHour : Nat := 24

/-- Holds of a date, a time of day, or both with or without an offset. -/
def isDateText (cs : List Char) : Bool :=
  match cs with
  | _ :: _ :: ':' :: _ => afterTime? lastHour cs = some []
  | _ =>
    match afterDate? cs with
    | none => false
    | some [] => true
    | some (mark :: time) =>
      (mark = 'T' || mark = 't' || mark = ' ')
        && (afterTime? lastHour time).any endsWithOffset

/-! ### Dates in the place of tables -/

/-- The first key of a table that stands for a date. -/
def dateKey : String := "$__toml_private_datetime"

/-- The date that the value of `dateKey` gives. -/
def dateOf? : Value → Option Value
  | .string text => if isDateText text.toList then some (.datetime text) else none
  | _ => none

mutual

/-- A value with dates in the place of the tables that stand for them. -/
def Value.withDates? : Value → Option Value
  | .array items => (itemsWithDates? items).map .array
  | .table origin members => tableWithDates? origin members
  | .tables elements => (elementsWithDates? elements).map fun items => .array items.reverse
  | value => some value

/-- A table, or the date that it stands for. -/
def tableWithDates? (origin : Origin) : List (String × Value) → Option Value
  | [] => some (.table origin [])
  | (key, value) :: rest =>
    if key = dateKey then dateOf? value
    else do
      let value ← value.withDates?
      let rest ← membersWithDates? rest
      return .table origin ((key, value) :: rest)

/-- The members of a table that stands for no date. -/
def membersWithDates? : List (String × Value) → Option (List (String × Value))
  | [] => some []
  | (key, value) :: rest => do
    let value ← value.withDates?
    let rest ← membersWithDates? rest
    return (key, value) :: rest

/-- The items of an array. -/
def itemsWithDates? : List Value → Option (List Value)
  | [] => some []
  | value :: rest => do
    let value ← value.withDates?
    let rest ← itemsWithDates? rest
    return value :: rest

/-- The elements of an array of tables, each a table or a date. -/
def elementsWithDates? : List (List (String × Value)) → Option (List Value)
  | [] => some []
  | members :: rest => do
    let element ← tableWithDates? .header members
    let rest ← elementsWithDates? rest
    return element :: rest

end

/-! ### Documents -/

/-- The root of a TOML document: a table or the date that it stands for. -/
def document? (text : String) : Option Value := (parse? text).bind (tableWithDates? .header)

end LuaDiagnostics.Toml
