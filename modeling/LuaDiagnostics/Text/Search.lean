/-
Searching a text for a word or a character.

* **`firstIndex?`**: where the first occurrence of a word begins.
* **`splitFirst?`**, **`splitLast?`**: a text cut around the first or the last occurrence
  of a word.  Words are looked for among characters and among bytes alike.
* **`splitLastChar?`**: a text cut at the last character of a class.
* **`splitAll`**: a text, or a sequence of bytes, cut at every element of a class.

The last occurrence is the first one of the reversed word in the reversed text, so one
scan serves both directions.
-/
namespace LuaDiagnostics.Text

universe u

section
variable {α : Type u} [BEq α]

/-- The scan behind `firstIndex?`: `index` elements have been passed. -/
def firstIndexFrom? (word : List α) (index : Nat) : List α → Option Nat
  | [] => if word.isEmpty then some index else none
  | c :: rest =>
    if word.isPrefixOf (c :: rest) then some index
    else firstIndexFrom? word (index + 1) rest

/-- The number of elements before the first occurrence of the word. -/
def firstIndex? (word cs : List α) : Option Nat := firstIndexFrom? word 0 cs

/-- Holds when the word occurs in the text. -/
def contains (word cs : List α) : Bool := (firstIndex? word cs).isSome

/-- The scan behind `splitFirst?`: `passed` holds the elements passed, latest first. -/
def splitFirstFrom? (word passed : List α) : List α → Option (List α × List α)
  | [] => if word.isEmpty then some (passed.reverse, []) else none
  | c :: rest =>
    if word.isPrefixOf (c :: rest) then some (passed.reverse, (c :: rest).drop word.length)
    else splitFirstFrom? word (c :: passed) rest

/-- What stands before and after the first occurrence of the word. -/
def splitFirst? (word cs : List α) : Option (List α × List α) :=
  splitFirstFrom? word [] cs

/-- What stands before and after the last occurrence of the word. -/
def splitLast? (word cs : List α) : Option (List α × List α) :=
  (splitFirst? word.reverse cs.reverse).map fun (after, before) =>
    (before.reverse, after.reverse)

end

/-- The last character of the class, with what stands before and after it. -/
def splitLastChar? (p : Char → Bool) (cs : List Char) :
    Option (List Char × Char × List Char) :=
  match cs.reverse.dropWhile (fun c => !p c) with
  | [] => none
  | c :: before => some (before.reverse, c, (cs.reverse.takeWhile fun c => !p c).reverse)

/-- Adds an element in front of the pieces of what follows it: a separator starts a new
piece, and any other element goes to the first one. -/
def consPiece {α : Type u} (p : α → Bool) (c : α) (ps : List (List α)) : List (List α) :=
  if p c then [] :: ps
  else
    match ps with
    | [] => [[c]]
    | piece :: rest => (c :: piece) :: rest

/-- The pieces of a sequence between its separators, of which there is one more than of
separators. -/
def splitAll {α : Type u} (p : α → Bool) (cs : List α) : List (List α) :=
  cs.foldr (consPiece p) [[]]

@[simp] theorem splitAll_nil {α : Type u} (p : α → Bool) : splitAll p [] = [[]] := rfl

theorem splitAll_cons {α : Type u} (p : α → Bool) (c : α) (cs : List α) :
    splitAll p (c :: cs) = consPiece p c (splitAll p cs) := rfl

theorem splitAll_ne_nil {α : Type u} (p : α → Bool) (cs : List α) : splitAll p cs ≠ [] := by
  cases cs with
  | nil => simp
  | cons c cs =>
    rw [splitAll_cons]
    unfold consPiece
    split
    · simp
    · split <;> simp

end LuaDiagnostics.Text
