/-
Reading a compiler's error stream.

The stream is read line by line, each up to its newline.  A line is decoded and loses the
line-end characters at its end; if it is then empty, it does not count.

* **`chunks`**: the lines as they are read.
* **`Findings.heed`**: what one line adds to what was found so far.
* **`scan`**: what is found in the end, the last diagnostic and the number of lines that
  count.
-/
import LuaDiagnostics.Message.Resolve
import LuaDiagnostics.Text.Lines
import LuaDiagnostics.Text.Utf8

namespace LuaDiagnostics.ErrorStream

/-- The byte of a newline. -/
def newlineByte : UInt8 := 0x0A

/-- The pass behind `chunks`: `read` holds the bytes of the present line, latest first. -/
def chunksFrom (read : List UInt8) : List UInt8 → List (List UInt8)
  | [] => if read = [] then [] else [read.reverse]
  | b :: rest =>
    if b = newlineByte then (b :: read).reverse :: chunksFrom [] rest
    else chunksFrom (b :: read) rest

/-- The lines of a stream with their newlines.  The last one may have none, but it is not
empty. -/
def chunks (bytes : List UInt8) : List (List UInt8) := chunksFrom [] bytes

/-- What an error stream says. -/
structure Findings where
  /-- The last diagnostic. -/
  diagnostic : Option Diagnostic
  /-- The number of lines that count. -/
  lineCount : Nat
deriving DecidableEq, Repr, Inhabited

/-- What an empty stream says. -/
def Findings.empty : Findings := { diagnostic := none, lineCount := 0 }

/-- Goes on to the next line of the stream.  One without a diagnostic leaves the last one as
it is. -/
def Findings.heed (lines : List String) (found : Findings) (line : List Char) : Findings :=
  let report := Text.trimLineEnd line
  if report = [] then found
  else
    { diagnostic := (diagnose lines (.ofList report)).or found.diagnostic,
      lineCount := found.lineCount + 1 }

/-- Reads an error stream about a document with the given lines. -/
def scan (lines : List String) (bytes : List UInt8) : Findings :=
  ((chunks bytes).map Text.decodeLossy).foldl (Findings.heed lines) .empty

end LuaDiagnostics.ErrorStream
