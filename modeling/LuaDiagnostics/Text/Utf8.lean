/-
Text in bytes.

**`decodeLossy`** reads any bytes as UTF-8: well-formed sequences give their character,
and each longest beginning of a sequence that cannot be completed, like each byte that
cannot begin one, gives the replacement character.  A newline byte is never part of a
longer sequence, so decoding and cutting at newlines can be done in either order.

**`decode?`** reads well-formed bytes only.
-/
namespace LuaDiagnostics.Text

/-- What stands in for bytes that are not UTF-8. -/
def replacementChar : Char := '\uFFFD'

/-- The ranges that the bytes after a leading byte have to lie in, or `none` when the
byte cannot lead.  The first range is narrower after four of the bytes, which keeps out
over-long forms, surrogates and values past the last code point. -/
def continuation (lead : UInt8) : Option (List (UInt8 × UInt8)) :=
  let plain : UInt8 × UInt8 := (0x80, 0xBF)
  if lead < 0x80 then some []
  else if lead < 0xC2 then none
  else if lead < 0xE0 then some [plain]
  else if lead = 0xE0 then some [(0xA0, 0xBF), plain]
  else if lead = 0xED then some [(0x80, 0x9F), plain]
  else if lead < 0xF0 then some [plain, plain]
  else if lead = 0xF0 then some [(0x90, 0xBF), plain, plain]
  else if lead < 0xF4 then some [plain, plain, plain]
  else if lead = 0xF4 then some [(0x80, 0x8F), plain, plain]
  else none

/-- The payload bits of a leading byte. -/
def leadBits (lead : UInt8) : Nat :=
  let n := lead.toNat
  if n < 0x80 then n
  else if n < 0xE0 then n - 0xC0
  else if n < 0xF0 then n - 0xE0
  else n - 0xF0

/-- Reads continuation bytes as long as they fit: the value, if all were there, and the
bytes that follow those that fitted. -/
def readContinuation (value : Nat) :
    List (UInt8 × UInt8) → List UInt8 → Option Nat × List UInt8
  | [], bytes => (some value, bytes)
  | _ :: _, [] => (none, [])
  | (low, high) :: ranges, b :: bytes =>
    if low ≤ b ∧ b ≤ high then
      readContinuation (value * 64 + (b.toNat - 0x80)) ranges bytes
    else (none, b :: bytes)

theorem readContinuation_length_le (value : Nat) (ranges : List (UInt8 × UInt8))
    (bytes : List UInt8) :
    (readContinuation value ranges bytes).2.length ≤ bytes.length := by
  induction ranges generalizing value bytes with
  | nil => simp [readContinuation]
  | cons r ranges ih =>
    cases bytes with
    | nil => simp [readContinuation]
    | cons b bytes =>
      rw [readContinuation]
      split
      · exact Nat.le_succ_of_le (ih _ _)
      · simp

/-- The character that begins with a byte, and the bytes after it. -/
def readChar (lead : UInt8) (bytes : List UInt8) : Char × List UInt8 :=
  match continuation lead with
  | none => (replacementChar, bytes)
  | some ranges =>
    match readContinuation (leadBits lead) ranges bytes with
    | (some value, rest) => (Char.ofNat value, rest)
    | (none, rest) => (replacementChar, rest)

theorem readChar_length_le (lead : UInt8) (bytes : List UInt8) :
    (readChar lead bytes).2.length ≤ bytes.length := by
  rw [readChar]
  split
  · simp
  · rename_i ranges _
    have h := readContinuation_length_le (leadBits lead) ranges bytes
    split <;> simp_all

/-- Decodes behind the characters already read, latest first. -/
def decodeLossyOnto (read : List Char) : List UInt8 → List Char
  | [] => read.reverse
  | lead :: bytes =>
    decodeLossyOnto ((readChar lead bytes).1 :: read) (readChar lead bytes).2
termination_by bytes => bytes.length
decreasing_by
  exact Nat.lt_succ_of_le (readChar_length_le lead bytes)

/-- Reads bytes as UTF-8, with replacement characters where they are not. -/
def decodeLossy (bytes : List UInt8) : List Char := decodeLossyOnto [] bytes

/-- Reads bytes that are UTF-8 throughout. -/
def decode? (bytes : ByteArray) : Option String := String.fromUTF8? bytes

end LuaDiagnostics.Text
