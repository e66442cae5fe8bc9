/-
What an error stream says, line by line.

The stream is read in a loop that keeps what was found so far.  What the loop finds in two
streams with a newline between them is what it finds in the one, followed by what it finds in
the other, and lines that are blank add nothing.

* **`foldl_heed`**: how much was found before does not matter for what is added, and
  **`scan_append`**: so streams may be read in parts.
* **`scan_eq_scanText`**: the stream may be decoded as a whole first and cut afterwards.
* **`Thins`**: something that does not count is left out of a stream, and **`scan_of_thins`**:
  that changes nothing.
* **`scan_eq`**: in terms of single lines, what is found is what the last of them says that
  gives a diagnostic.
* **`Cycle.findings_of_stream`**: what all of this means for what a cycle finds.
-/
import LuaDiagnostics.Compiler.Cycle
import LuaDiagnostics.Proofs.Text.Lossy
import Mathlib.Logic.Relation

namespace LuaDiagnostics

/-! ### Line ends -/

namespace Text

theorem trimLineEnd_append {cs ends : List Char} (h : ∀ c ∈ ends, isLineEnd c = true) :
    trimLineEnd (cs ++ ends) = trimLineEnd cs := by
  have hreverse : ∀ c ∈ ends.reverse, isLineEnd c = true := fun c hc => h c (List.mem_reverse.mp hc)
  rw [trimLineEnd, List.reverse_append, List.dropWhile_append_of_pos hreverse, trimLineEnd]

theorem trimLineEnd_eq_nil_iff {cs : List Char} :
    trimLineEnd cs = [] ↔ ∀ c ∈ cs, isLineEnd c = true := by
  rw [trimLineEnd, List.reverse_eq_nil_iff, List.dropWhile_eq_nil_iff]
  exact ⟨fun h c hc => h c (List.mem_reverse.mpr hc), fun h c hc => h c (List.mem_reverse.mp hc)⟩

end Text

/-! ### The last diagnostic -/

variable {lines : List String}

theorem lastDiagnosis_append (xs ys : List String) :
    lastDiagnosis lines (xs ++ ys) = (lastDiagnosis lines ys).or (lastDiagnosis lines xs) := by
  rw [lastDiagnosis, List.reverse_append, List.findSome?_append]
  rfl

theorem lastDiagnosis_cons (x : String) (xs : List String) :
    lastDiagnosis lines (x :: xs) = (lastDiagnosis lines xs).or (diagnose lines x) := by
  have hone : lastDiagnosis lines [x] = diagnose lines x := by
    rw [lastDiagnosis, List.reverse_singleton, List.findSome?_singleton]
  rw [← List.singleton_append, lastDiagnosis_append, hone]

theorem lastDiagnosis_eq_getLast? (outputs : List String) :
    lastDiagnosis lines outputs = (outputs.filterMap (diagnose lines)).getLast? := by
  rw [lastDiagnosis, List.getLast?_filterMap]

namespace ErrorStream

/-! ### The lines of a stream -/

theorem chunksFrom_append {read bytes : List UInt8} (h : ∀ b ∈ bytes, b ≠ newlineByte)
    (rest : List UInt8) :
    chunksFrom read (bytes ++ rest) = chunksFrom (bytes.reverse ++ read) rest := by
  induction bytes generalizing read with
  | nil => rfl
  | cons b bytes ih =>
    rw [List.forall_mem_cons] at h
    obtain ⟨hb, hbytes⟩ := h
    rw [List.cons_append, chunksFrom, if_neg hb, ih hbytes, List.reverse_cons, List.append_assoc]
    rfl

theorem chunks_of_forall {piece : List UInt8} (h : ∀ b ∈ piece, b ≠ newlineByte) :
    chunks piece = if piece = [] then [] else [piece] := by
  have hread : chunks (piece ++ []) = chunksFrom (piece.reverse ++ []) [] :=
    chunksFrom_append h []
  simpa only [List.append_nil, chunksFrom, List.reverse_eq_nil_iff, List.reverse_reverse]
    using hread

theorem chunks_append {piece : List UInt8} (h : ∀ b ∈ piece, b ≠ newlineByte)
    (tail : List UInt8) :
    chunks (piece ++ newlineByte :: tail) = (piece ++ [newlineByte]) :: chunks tail := by
  rw [chunks, chunksFrom_append h, chunksFrom, if_pos rfl, List.append_nil, List.reverse_cons,
    List.reverse_reverse]
  rfl

/-! ### What was found -/

namespace Findings

variable {found : Findings}

/-- What two streams say one after the other. -/
def followedBy (a b : Findings) : Findings :=
  { diagnostic := b.diagnostic.or a.diagnostic, lineCount := a.lineCount + b.lineCount }

theorem followedBy_assoc (a b c : Findings) :
    (a.followedBy b).followedBy c = a.followedBy (b.followedBy c) := by
  simp only [followedBy, Option.or_assoc, Nat.add_assoc]

@[simp] theorem empty_followedBy (a : Findings) : Findings.empty.followedBy a = a := by
  simp only [followedBy, empty, Option.or_none, Nat.zero_add]

@[simp] theorem followedBy_empty (a : Findings) : a.followedBy .empty = a := by
  simp only [followedBy, empty, Option.none_or, Nat.add_zero]

/-- The ends of a line do not count. -/
theorem heed_append {line ends : List Char} (h : ∀ c ∈ ends, Text.isLineEnd c = true) :
    found.heed lines (line ++ ends) = found.heed lines line := by
  rw [heed, heed, Text.trimLineEnd_append h]

/-- A line that consists of line ends does not count. -/
theorem heed_of_forall {line : List Char} (h : ∀ c ∈ line, Text.isLineEnd c = true) :
    found.heed lines line = found :=
  if_pos (Text.trimLineEnd_eq_nil_iff.mpr h)

theorem heed_eq_followedBy (line : List Char) :
    found.heed lines line = found.followedBy (Findings.empty.heed lines line) := by
  by_cases h : ∀ c ∈ line, Text.isLineEnd c = true
  · rw [heed_of_forall h, heed_of_forall h, followedBy_empty]
  · rw [← Text.trimLineEnd_eq_nil_iff] at h
    simp only [heed, if_neg h, followedBy, empty, Option.or_none, Nat.zero_add]

/-- What is added does not depend on what was found before. -/
theorem foldl_heed (found : Findings) (said : List (List Char)) :
    said.foldl (heed lines) found = found.followedBy (said.foldl (heed lines) .empty) := by
  induction said generalizing found with
  | nil => rw [List.foldl_nil, List.foldl_nil, followedBy_empty]
  | cons line said ih =>
    rw [List.foldl_cons, List.foldl_cons, ih, heed_eq_followedBy, followedBy_assoc, ← ih]

end Findings

/-! ### Reading in parts -/

/-- Reads a text about a document with the given lines. -/
def scanText (lines : List String) (cs : List Char) : Findings :=
  (Text.pieces cs).foldl (Findings.heed lines) .empty

theorem forall_ne_of_forall_decide {piece : List UInt8}
    (h : ∀ b ∈ piece, decide (b = newlineByte) = false) : ∀ b ∈ piece, b ≠ newlineByte :=
  fun b hb => of_decide_eq_false (h b hb)

/-- It does not matter that lines are read with their newlines and that a last one without
anything is not read. -/
theorem foldl_chunks (found : Findings) (bytes : List UInt8) :
    ((chunks bytes).map Text.decodeLossy).foldl (Findings.heed lines) found
      = ((Text.splitAll (· = newlineByte) bytes).map Text.decodeLossy).foldl
          (Findings.heed lines) found := by
  induction bytes using Text.splitAll_induction (· = newlineByte) generalizing found with
  | last piece h =>
    rw [chunks_of_forall (forall_ne_of_forall_decide h), Text.splitAll_of_forall h]
    -- Behind a final newline there is an empty piece, but nothing is read.
    split
    · rename_i hempty
      rw [hempty, List.map_singleton, Text.decodeLossy_nil, List.foldl_cons]
      exact (Findings.heed_of_forall (by simp)).symm
    · rfl
  | more piece c tail h hc ih =>
    obtain rfl := of_decide_eq_true hc
    have hchunk : Text.decodeLossy (piece ++ [newlineByte]) = Text.decodeLossy piece ++ ['\n'] := by
      rw [Text.decodeLossy_append (by decide), Text.decodeLossy_nil]
      rfl
    rw [chunks_append (forall_ne_of_forall_decide h), Text.splitAll_append_cons h hc,
      List.map_cons, List.map_cons, List.foldl_cons, List.foldl_cons, hchunk,
      Findings.heed_append (List.forall_mem_singleton.mpr (by decide)), ih]

/-- Decoding may come first. -/
theorem scan_eq_scanText (bytes : List UInt8) :
    scan lines bytes = scanText lines (Text.decodeLossy bytes) := by
  rw [scan, foldl_chunks, scanText, Text.pieces_decodeLossy]

/-- Streams may be read in parts. -/
theorem scan_append (as bs : List UInt8) :
    scan lines (as ++ newlineByte :: bs) = (scan lines as).followedBy (scan lines bs) := by
  rw [scan, foldl_chunks, Text.splitAll_append_of_separator as bs (decide_eq_true rfl),
    List.map_append, List.foldl_append, Findings.foldl_heed, ← foldl_chunks, ← foldl_chunks]
  rfl

theorem scan_of_forall {piece : List UInt8}
    (h : ∀ b ∈ piece, decide (b = newlineByte) = false) :
    scan lines piece = Findings.empty.heed lines (Text.decodeLossy piece) := by
  rw [scan, foldl_chunks, Text.splitAll_of_forall h]
  rfl

/-! ### What does not count -/

/-- The byte of a carriage return. -/
def returnByte : UInt8 := 0x0D

/-- The line has something in it. -/
def isFilled (piece : List UInt8) : Bool := piece.any (· ≠ returnByte)

theorem isFilled_eq_false_iff {piece : List UInt8} :
    isFilled piece = false ↔ ∀ b ∈ piece, b = returnByte := by
  simp [isFilled]

/-- A line in which there is something stays one when it is decoded and trimmed. -/
theorem forall_isLineEnd_iff {piece : List UInt8}
    (h : ∀ b ∈ piece, decide (b = newlineByte) = false) :
    (∀ c ∈ Text.decodeLossy piece, Text.isLineEnd c = true) ↔ isFilled piece = false := by
  rw [Text.forall_isLineEnd_decodeLossy_iff, isFilled_eq_false_iff]
  refine forall₂_congr fun b hb => ?_
  rw [Text.isLineEndByte, Bool.or_eq_true, decide_eq_true_iff, decide_eq_true_iff]
  exact or_iff_left (of_decide_eq_false (h b hb))

/-- A stream of carriage returns says nothing. -/
theorem scan_of_returns {returns : List UInt8} (h : ∀ b ∈ returns, b = returnByte) :
    scan lines returns = .empty := by
  have hline : ∀ b ∈ returns, decide (b = newlineByte) = false := by
    intro b hb
    rw [h b hb]
    decide
  rw [scan_of_forall hline]
  exact Findings.heed_of_forall ((forall_isLineEnd_iff hline).mpr (isFilled_eq_false_iff.mpr h))

/-- A carriage return at the end says nothing. -/
theorem scan_concat_return (bytes : List UInt8) :
    scan lines (bytes ++ [returnByte]) = scan lines bytes := by
  -- Only the last line changes, and the induction leads there.
  induction bytes using Text.splitAll_induction (· = newlineByte) with
  | last piece h =>
    have hline : ∀ b ∈ piece ++ [returnByte], decide (b = newlineByte) = false := by
      intro b hb
      rcases List.mem_append.mp hb with hb | hb
      · exact h b hb
      · rw [List.mem_singleton.mp hb]
        decide
    have hdecoded :
        Text.decodeLossy (piece ++ [returnByte]) = Text.decodeLossy piece ++ ['\r'] := by
      rw [Text.decodeLossy_append (by decide), Text.decodeLossy_nil]
      rfl
    rw [scan_of_forall hline, scan_of_forall h, hdecoded,
      Findings.heed_append (List.forall_mem_singleton.mpr (by decide))]
  | more piece c tail h hc ih =>
    obtain rfl := of_decide_eq_true hc
    rw [List.append_assoc, List.cons_append, scan_append, ih, scan_append]

/-- The lines that count are those in which there is something. -/
theorem lineCount_scan (bytes : List UInt8) :
    (scan lines bytes).lineCount = (Text.splitAll (· = newlineByte) bytes).countP isFilled := by
  have hpiece : ∀ piece : List UInt8, (∀ b ∈ piece, decide (b = newlineByte) = false) →
      (scan lines piece).lineCount = [piece].countP isFilled := by
    intro piece h
    have hempty := forall_isLineEnd_iff h
    rw [scan_of_forall h, List.countP_singleton]
    cases hfilled : isFilled piece with
    | false =>
      rw [Findings.heed_of_forall (hempty.mpr hfilled)]
      rfl
    | true =>
      have hne : Text.trimLineEnd (Text.decodeLossy piece) ≠ [] := by
        rw [Ne, Text.trimLineEnd_eq_nil_iff, hempty, hfilled]
        simp
      rw [Findings.heed, if_neg hne]
      rfl
  induction bytes using Text.splitAll_induction (· = newlineByte) with
  | last piece h => rw [hpiece piece h, Text.splitAll_of_forall h]
  | more piece c tail h hc ih =>
    obtain rfl := of_decide_eq_true hc
    rw [scan_append, Findings.followedBy, hpiece piece h, ih, Text.splitAll_append_cons h hc,
      ← List.countP_append, List.singleton_append]

/-- Something that does not count is left out of a stream: a line, that may hold carriage
returns, or a carriage return at the end of a line. -/
inductive Thins : List UInt8 → List UInt8 → Prop
  | firstLine {returns : List UInt8} (h : ∀ b ∈ returns, b = returnByte) (bs : List UInt8) :
      Thins (returns ++ newlineByte :: bs) bs
  | innerLine {returns : List UInt8} (h : ∀ b ∈ returns, b = returnByte) (as bs : List UInt8) :
      Thins (as ++ newlineByte :: (returns ++ newlineByte :: bs)) (as ++ newlineByte :: bs)
  | lastLine {returns : List UInt8} (h : ∀ b ∈ returns, b = returnByte) (as : List UInt8) :
      Thins (as ++ newlineByte :: returns) as
  | returnBeforeNewline (as bs : List UInt8) :
      Thins (as ++ returnByte :: newlineByte :: bs) (as ++ newlineByte :: bs)
  | returnAtEnd (as : List UInt8) : Thins (as ++ [returnByte]) as

theorem scan_of_thins {as bs : List UInt8} (h : Thins as bs) : scan lines as = scan lines bs := by
  cases h with
  | firstLine h => rw [scan_append, scan_of_returns h, Findings.empty_followedBy]
  | innerLine h =>
    rw [scan_append, scan_append, scan_of_returns h, Findings.empty_followedBy, scan_append]
  | lastLine h => rw [scan_append, scan_of_returns h, Findings.followedBy_empty]
  | returnBeforeNewline =>
    rw [List.append_cons, scan_append, scan_concat_return, scan_append]
  | returnAtEnd => exact scan_concat_return bs

/-- Leaving out and putting in, as often as one likes, changes nothing. -/
theorem scan_of_eqvGen {as bs : List UInt8} (h : Relation.EqvGen Thins as bs) :
    scan lines as = scan lines bs := by
  induction h with
  | rel as bs h => exact scan_of_thins h
  | refl as => rfl
  | symm as bs _ ih => exact ih.symm
  | trans as bs cs _ _ ih ih' => exact ih.trans ih'

/-! ### Reports -/

/-- The lines of an error stream that count. -/
def reports (bytes : List UInt8) : List String :=
  ((Text.splitAll (· = newlineByte) bytes).map fun piece =>
      Text.trimLineEnd (Text.decodeLossy piece)).filterMap fun line =>
    if line = [] then none else some (String.ofList line)

/-- What is found is what the lines say that count. -/
theorem scan_eq (bytes : List UInt8) : scan lines bytes =
    { diagnostic := lastDiagnosis lines (reports bytes), lineCount := (reports bytes).length } := by
  rw [scan, foldl_chunks, reports]
  induction Text.splitAll (· = newlineByte) bytes with
  | nil => rfl
  | cons piece pieces ih =>
    rw [List.map_cons, List.foldl_cons, Findings.foldl_heed, ih, List.map_cons,
      List.filterMap_cons, Findings.heed]
    by_cases hempty : Text.trimLineEnd (Text.decodeLossy piece) = []
    · simp only [if_pos hempty, Findings.empty_followedBy]
    · simp only [if_neg hempty, Findings.followedBy, Findings.empty, lastDiagnosis_cons,
        List.length_cons, Option.or_none, Nat.zero_add, Nat.add_comm]

end ErrorStream

/-! ### Cycles -/

namespace Cycle

open ErrorStream

/-- What a cycle has found when it returns is what was written, whatever became of the
compiler. -/
theorem findings_of_written {bytes : List UInt8} {state : State} {found : Outcome}
    (hwritten : state.child.map Child.written = some bytes)
    (hfound : outcome? lines state = some found) :
    found.diagnostic = (scan lines bytes).diagnostic ∧
      found.errorLines = (scan lines bytes).lineCount := by
  rw [outcome?] at hfound
  split at hfound
  · obtain rfl := Option.some.inj hfound
    rw [hwritten]
    exact ⟨rfl, rfl⟩
  · exact absurd hfound (by simp)

/-- Any bytes may be written and printed, and the compiler may end as it likes. -/
theorem exists_undisturbed (lines : List String) (bytes printed : List UInt8)
    (code : Option Nat) : ∃ actions state, run? .initial actions = some state ∧
      state.child.map Child.written = some bytes ∧
      state.child.map Child.printed = some printed ∧
      outcome? lines state = some (undisturbed lines bytes code) := by
  refine ⟨[.spawn, .store, .testFlag, .print printed, .write bytes, .exit code, .read, .take,
    .wait], _, rfl, ?_, ?_, ?_⟩
  · simp [Child.fresh]
  · simp [Child.fresh]
  · simp [outcome?, undisturbed, State.initial, Child.fresh]

/-- **What a cycle finds in the error stream.**  The diagnostic and the number of lines depend
on the bytes that were written there and on nothing else, neither on what was printed nor on
how the compiler ended, and any bytes may be written.  Of two streams with a newline between
them the numbers add up, and the diagnostic is that of the latter if it has one.  The lines
that count are the pieces between newlines with another byte than carriage returns, and what
does not count may be put in or left out.  The stream may be decoded before it is cut.  Taken
one by one, decoded and without what ends them, the lines that count are as many as the number
says, and the diagnostic is the last that one of them gives. -/
theorem findings_of_stream (lines : List String) :
    (∀ bytes actions state found, run? .initial actions = some state →
      state.child.map Child.written = some bytes → outcome? lines state = some found →
      found.diagnostic = (scan lines bytes).diagnostic ∧
        found.errorLines = (scan lines bytes).lineCount) ∧
    (∀ bytes printed code, ∃ actions state, run? .initial actions = some state ∧
      state.child.map Child.written = some bytes ∧
      state.child.map Child.printed = some printed ∧
      outcome? lines state = some (undisturbed lines bytes code)) ∧
    (∀ as bs, (scan lines (as ++ newlineByte :: bs)).lineCount
        = (scan lines as).lineCount + (scan lines bs).lineCount ∧
      (scan lines (as ++ newlineByte :: bs)).diagnostic
        = (scan lines bs).diagnostic.or (scan lines as).diagnostic) ∧
    (∀ bytes, (scan lines bytes).lineCount
      = (Text.splitAll (· = newlineByte) bytes).countP isFilled) ∧
    (∀ as bs, Relation.EqvGen Thins as bs → scan lines as = scan lines bs) ∧
    (∀ bytes, scan lines bytes = scanText lines (Text.decodeLossy bytes)) ∧
    (∀ bytes, (scan lines bytes).lineCount = (reports bytes).length ∧
      (scan lines bytes).diagnostic = ((reports bytes).filterMap (diagnose lines)).getLast?) := by
  refine ⟨?_, exists_undisturbed lines, fun as bs => ?_, lineCount_scan, fun _ _ => scan_of_eqvGen,
    scan_eq_scanText, fun bytes => ?_⟩
  · intro bytes actions state found _ hwritten hfound
    exact findings_of_written hwritten hfound
  · rw [scan_append]
    exact ⟨rfl, rfl⟩
  · rw [scan_eq]
    exact ⟨rfl, lastDiagnosis_eq_getLast? (reports bytes)⟩

end Cycle

end LuaDiagnostics
