/-
Where the lines and the words of a text stand in its bytes.

A text is kept in bytes, and a line is known by the places where it begins and ends, its
terminator not counted.

* **`lineSpans`** finds the lines in one pass over the bytes, which looks back from a
  newline at the byte before it, though never past the beginning of the line.
* **`byteIndex?`** is the place of the first occurrence of a word.
* **`slice?`** is the part of a text between two places.  There is none unless both are
  places between characters, in their order.
-/
import LuaDiagnostics.Text.Search

namespace LuaDiagnostics.Text

/-- The bytes from `start` on and before `stop`. -/
structure Span where
  start : Nat
  stop : Nat
deriving DecidableEq, Repr, Inhabited

/-- The pass behind `lineSpans`: `done` holds the lines passed, latest first, the present
one begins at `start`, and the bytes that are left begin at `place`, behind `before`. -/
def spansOnto (done : List Span) (start place : Nat) (before : UInt8) :
    List UInt8 → List Span
  | [] => (⟨start, place⟩ :: done).reverse
  | b :: rest =>
    if b = '\n'.toUInt8 then
      let stop := if start < place ∧ before = '\r'.toUInt8 then place - 1 else place
      spansOnto (⟨start, stop⟩ :: done) (place + 1) (place + 1) b rest
    else spansOnto done start (place + 1) b rest

/-- The places of the lines of a source text, without their terminators. -/
def lineSpans (text : String) : List Span := spansOnto [] 0 0 0 text.toUTF8.toList

/-- The number of bytes before the first occurrence of the word. -/
def byteIndex? (word text : String) : Option Nat :=
  firstIndex? word.toUTF8.toList text.toUTF8.toList

/-- The part of a text that stands at a span. -/
def slice? (text : String) (s : Span) : Option String :=
  if h : (⟨s.start⟩ : String.Pos.Raw).IsValid text ∧ (⟨s.stop⟩ : String.Pos.Raw).IsValid text ∧
      s.start ≤ s.stop then
    some (text.extract (text.pos ⟨s.start⟩ h.1) (text.pos ⟨s.stop⟩ h.2.1))
  else none

end LuaDiagnostics.Text
