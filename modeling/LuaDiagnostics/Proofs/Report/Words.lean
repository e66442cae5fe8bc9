/-
Positions in words of 32 bits.

Lines and columns are written here as numbers without bound.  A program keeps them in words of
32 bits, where a sum or a difference need not fit.  So the same things are computed once more,
in words and with every sum and difference checked, and nothing ever fails to fit.

* **`diagnoseInWords_eq`**: placing a message in words gives the same range, whatever the
  output and the document.
* **`Shows`**: headline, save warning and carets come out in words as they do in numbers, and
  **`shows_of_covers`**: they do for every range that covers what it should.
* **`dropWhile_zero_eq`**: a number is printed with the digits that it was read from, but for
  zeros in front.
* **`positions_fit_words`** puts these together for every diagnostic.
-/
import LuaDiagnostics.Proofs.Message.Placement
import LuaDiagnostics.Report.Human
import LuaDiagnostics.Session

namespace LuaDiagnostics

/-! ### Words -/

/-- What a position is kept in. -/
abbrev Word := UInt32

/-- A result that a word cannot hold. -/
inductive Overflow
  | overflow
deriving DecidableEq, Repr

namespace Word

/-- The word for a number, if it has one. -/
def ofNat? (n : Nat) : Option Word := if n < UInt32.size then some (.ofNat n) else none

/-- The sum, if it fits. -/
def add (a b : Word) : Except Overflow Word :=
  if a.toNat + b.toNat < UInt32.size then .ok (a + b) else .error .overflow

/-- The difference, if there is one. -/
def sub (a b : Word) : Except Overflow Word :=
  if b.toNat ≤ a.toNat then .ok (a - b) else .error .overflow

/-- The larger of two words. -/
def larger (a b : Word) : Word := if a.toNat ≤ b.toNat then b else a

variable {a b c : Word} {n : Nat}

theorem ofNat?_eq_some_iff : ofNat? n = some a ↔ a.toNat = n := by
  rw [ofNat?]
  split
  · rename_i hlt
    rw [Option.some.injEq, ← UInt32.toNat_inj, UInt32.toNat_ofNat_of_lt' hlt, eq_comm]
  · rename_i hlt
    refine ⟨fun h => absurd h (by simp), ?_⟩
    rintro rfl
    exact absurd a.toNat_lt hlt

theorem exists_ofNat? (h : n < UInt32.size) : ∃ a : Word, ofNat? n = some a ∧ a.toNat = n := by
  refine ⟨.ofNat n, ?_, UInt32.toNat_ofNat_of_lt' h⟩
  rw [ofNat?, if_pos h]

theorem exists_add (h : a.toNat + b.toNat < UInt32.size) :
    ∃ c : Word, add a b = .ok c ∧ c.toNat = a.toNat + b.toNat := by
  refine ⟨a + b, if_pos h, ?_⟩
  rw [UInt32.toNat_add, Nat.mod_eq_of_lt h]

theorem exists_sub (h : b.toNat ≤ a.toNat) :
    ∃ c : Word, sub a b = .ok c ∧ c.toNat = a.toNat - b.toNat :=
  ⟨a - b, if_pos h, UInt32.toNat_sub_of_le a b (UInt32.le_iff_toNat_le.mpr h)⟩

theorem toNat_larger (a b : Word) : (larger a b).toNat = max a.toNat b.toNat := by
  rw [larger]
  split
  · rename_i hle
    exact (Nat.max_eq_right hle).symm
  · rename_i hlt
    exact (Nat.max_eq_left (Nat.le_of_not_le hlt)).symm

end Word

/-- A range whose positions are words. -/
structure WordRange where
  startLine : Word
  startCharacter : Word
  stopLine : Word
  stopCharacter : Word
deriving DecidableEq, Repr

/-- A diagnostic whose positions are words. -/
structure WordDiagnostic where
  range : WordRange
  message : String
  severity : Severity
  source : String
deriving DecidableEq, Repr

namespace WordRange

/-- The columns from `start` on and before `stop` of one line. -/
def onLine (line start stop : Word) : WordRange := ⟨line, start, line, stop⟩

/-- The range in numbers. -/
def toRange (r : WordRange) : Range :=
  ⟨⟨r.startLine.toNat, r.startCharacter.toNat⟩, ⟨r.stopLine.toNat, r.stopCharacter.toNat⟩⟩

end WordRange

namespace WordDiagnostic

/-- The diagnostic in numbers. -/
def toDiagnostic (w : WordDiagnostic) : Diagnostic :=
  ⟨w.range.toRange, w.message, w.severity, w.source⟩

/-- The same remark, said to come from `source`. -/
def withSource (w : WordDiagnostic) (source : String) : WordDiagnostic := { w with source }

end WordDiagnostic

/-! ### Placing a message -/

namespace Message

/-- The columns that a message is about. -/
def columnsInWords (m : Message) (text : String) : Except Overflow (Option (Word × Word)) :=
  match Word.ofNat? text.length with
  | none => .ok none
  | some whole =>
    if m.isEof then .ok (some (0, whole))
    else
      match Text.byteIndex? m.token text with
      | none => .ok (some (0, whole))
      | some place =>
        match (Text.slice? text ⟨0, place⟩).bind fun before => Word.ofNat? before.length,
          Word.ofNat? m.token.length with
        | some start, some width => (Word.add start width).map fun stop => some (start, stop)
        | _, _ => .ok none

/-- The diagnostic for a message about a document with the given lines. -/
def resolveInWords (lines : List String) (m : Message) :
    Except Overflow (Option WordDiagnostic) :=
  match (Word.ofNat? m.line).bind fun number => (Word.sub number 1).toOption with
  | none => .ok none
  | some index =>
    match lines[index.toNat]? with
    | none => .ok none
    | some text => (m.columnsInWords text).map fun columns =>
      columns.map fun (start, stop) => ⟨.onLine index start stop, m.text, .error, ""⟩

end Message

/-- The diagnostic that a piece of compiler output gives for a document. -/
def diagnoseInWords (lines : List String) (output : String) :
    Except Overflow (Option WordDiagnostic) :=
  if output.isEmpty then .ok none
  else
    match Message.parse? output with
    | none => .ok none
    | some m => m.resolveInWords lines

namespace Message

theorem width?_eq_map (text : String) :
    width? text = (Word.ofNat? text.length).map UInt32.toNat := by
  rw [width?, Word.ofNat?]
  by_cases hlt : text.length < UInt32.size
  · rw [if_pos (show text.length < columnBound from hlt), if_pos hlt, Option.map_some,
      UInt32.toNat_ofNat_of_lt' hlt]
  · rw [if_neg (show ¬ text.length < columnBound from hlt), if_neg hlt, Option.map_none]

/-- No columns are too large, because a token that is found ends within its line. -/
theorem columnsInWords_eq (m : Message) (text : String) : ∃ columns,
    m.columnsInWords text = .ok columns ∧
      columns.map (fun (start, stop) => (start.toNat, stop.toNat)) = m.columns? text := by
  have hcovers : ∀ start stop, m.columns? text = some (start, stop) → stop ≤ text.length :=
    fun start stop h => (covers_of_columns?_eq_some h).stop_le
  rw [columnsInWords]
  simp only [columns?, width?_eq_map, Option.bind_eq_bind] at hcovers ⊢
  cases hwhole : Word.ofNat? text.length with
  | none => exact ⟨none, rfl, rfl⟩
  | some whole =>
    have hlength := Word.ofNat?_eq_some_iff.mp hwhole
    by_cases heof : m.isEof = true
    · exact ⟨some (0, whole), if_pos heof, by simp [heof, hlength]⟩
    simp only [hwhole, heof, Option.map_some, Option.bind_some] at hcovers ⊢
    cases hplace : Text.byteIndex? m.token text with
    | none => exact ⟨some (0, whole), rfl, rfl⟩
    | some place =>
      simp only [hplace] at hcovers ⊢
      cases hslice : Text.slice? text ⟨0, place⟩ with
      | none => exact ⟨none, rfl, rfl⟩
      | some before =>
        simp only [hslice, Option.bind_some] at hcovers ⊢
        cases hbefore : Word.ofNat? before.length with
        | none => exact ⟨none, rfl, rfl⟩
        | some start =>
          cases hwidth : Word.ofNat? m.token.length with
          | none => exact ⟨none, rfl, rfl⟩
          | some width =>
            simp only [hbefore, hwidth] at hcovers
            have hle : start.toNat + width.toNat ≤ text.length := hcovers _ _ rfl
            have hbound : text.length < UInt32.size := hlength ▸ whole.toNat_lt
            obtain ⟨stop, hstop, hsum⟩ := Word.exists_add (Nat.lt_of_le_of_lt hle hbound)
            exact ⟨some (start, stop), by simp [hstop, Except.map], by simp [hsum]⟩

/-- In words a message gives the diagnostic that it gives in numbers. -/
theorem resolveInWords_eq (lines : List String) {m : Message} (hbound : m.line < lineBound) :
    ∃ found, m.resolveInWords lines = .ok found ∧
      found.map WordDiagnostic.toDiagnostic = resolve lines m := by
  obtain ⟨number, hnumber, hline⟩ := Word.exists_ofNat? hbound
  rw [resolveInWords, resolve, hnumber, Option.bind_some]
  by_cases hzero : m.line = 0
  · have hsub : Word.sub number 1 = .error .overflow :=
      if_neg (by rw [hline, hzero]; decide)
    rw [hsub, if_pos hzero]
    exact ⟨none, rfl, rfl⟩
  obtain ⟨index, hindex, heq⟩ : ∃ c : Word, Word.sub number 1 = .ok c ∧ c.toNat = m.line - 1 := by
    rw [← hline]
    exact Word.exists_sub (by rw [hline]; exact Nat.pos_of_ne_zero hzero)
  rw [hindex, if_neg hzero]
  simp only [Except.toOption, Option.bind_eq_bind, Option.bind_some, heq]
  cases hget : lines[m.line - 1]? with
  | none => exact ⟨none, rfl, rfl⟩
  | some text =>
    obtain ⟨columns, hcolumns, hcolumns'⟩ := m.columnsInWords_eq text
    simp only [hcolumns, ← hcolumns', Option.bind_some, Except.map]
    refine ⟨_, rfl, ?_⟩
    cases columns with
    | none => rfl
    | some columns =>
      simp only [Option.map_some, Option.bind_some, WordDiagnostic.toDiagnostic,
        WordRange.onLine, WordRange.toRange, heq]
      rfl

end Message

/-- **No range is too large.**  Whatever a compiler wrote about whatever document, placing its
message in words leads to the diagnostic that numbers lead to. -/
theorem diagnoseInWords_eq (lines : List String) (output : String) :
    ∃ found, diagnoseInWords lines output = .ok found ∧
      found.map WordDiagnostic.toDiagnostic = diagnose lines output := by
  rw [diagnoseInWords, diagnose]
  split
  · exact ⟨none, rfl, rfl⟩
  cases hm : Message.parse? output with
  | none => exact ⟨none, rfl, rfl⟩
  | some m =>
    obtain ⟨-, -, -, hbound⟩ := Message.parse?_bounds hm
    exact m.resolveInWords_eq lines hbound

/-! ### Showing a diagnostic -/

namespace WordDiagnostic

/-- The place of a diagnostic, as terminals and editors read it. -/
def place (id : DocumentId) (w : WordDiagnostic) : Except Overflow String := do
  let line ← Word.add w.range.startLine 1
  let character ← Word.add w.range.startCharacter 1
  return s!"{id.text}:{line.toNat}:{character.toNat}"

/-- A diagnostic on one line. -/
def headline (id : DocumentId) (w : WordDiagnostic) (color : Bool) : Except Overflow String := do
  let place ← w.place id
  return Style.place.apply color place ++ ": "
    ++ w.severity.style.apply color w.severity.label ++ ": "
    ++ w.message ++ w.toDiagnostic.attribution

/-- The warning about an error in a saved document. -/
def saveWarning (w : WordDiagnostic) : Except Overflow Notification := do
  let line ← Word.add w.range.startLine 1
  return .warning s!"Current file contains an error: '{w.message}' at line {line.toNat}"

/-- Carets under the columns of a diagnostic on the text of its line. -/
def underline (line : String) (w : WordDiagnostic) : Except Overflow String := do
  let next ← Word.add w.range.startCharacter 1
  let width ← Word.sub (Word.larger w.range.stopCharacter next) w.range.startCharacter
  let margin := (line.toList.take w.range.startCharacter.toNat).map fun c =>
    if c = '\t' then '\t' else ' '
  return String.ofList (margin ++ List.replicate width.toNat '^')

/-- All that is shown of a diagnostic comes out in words as it does in numbers. -/
structure Shows (w : WordDiagnostic) (d : Diagnostic) (line : String) : Prop where
  headline_eq : ∀ id color, w.headline id color = .ok (d.headline id color)
  saveWarning_eq : w.saveWarning = .ok (Session.saveWarning d)
  underline_eq : w.underline line = .ok (d.underline line)

/-- The places that are shown are one more than those of the range, and that must fit. -/
theorem shows_toDiagnostic {w : WordDiagnostic} (line : String)
    (hline : w.range.startLine.toNat + 1 < UInt32.size)
    (hcharacter : w.range.startCharacter.toNat + 1 < UInt32.size) :
    w.Shows w.toDiagnostic line := by
  obtain ⟨number, hnumber, hnumber'⟩ := Word.exists_add (b := 1) hline
  obtain ⟨next, hnext, hnext'⟩ := Word.exists_add (b := 1) hcharacter
  have hplace : ∀ id, w.place id = .ok (w.toDiagnostic.place id) := by
    intro id
    simp only [place, hnumber, hnext, hnumber', hnext', bind, Except.bind]
    rfl
  refine ⟨fun id color => ?_, ?_, ?_⟩
  · simp only [headline, hplace, bind, Except.bind]
    rfl
  · simp only [saveWarning, hnumber, hnumber', bind, Except.bind]
    rfl
  · -- The carets go at least as far as the column behind the first, so none are taken away.
    have hle : w.range.startCharacter.toNat
        ≤ (Word.larger w.range.stopCharacter next).toNat := by
      rw [Word.toNat_larger, hnext']
      exact Nat.le_trans (Nat.le_succ _) (Nat.le_max_right _ _)
    obtain ⟨width, hwidth, hwidth'⟩ := Word.exists_sub hle
    rw [Word.toNat_larger, hnext'] at hwidth'
    simp only [underline, hnext, hwidth, hwidth', bind, Except.bind]
    rfl

end WordDiagnostic

/-! ### Numbers as they are printed -/

namespace Message

theorem exists_digitChar {c : Char} (h : isDigit c = true) :
    ∃ k < 10, c = Nat.digitChar k ∧ c.toNat - '0'.toNat = k := by
  rw [isDigit, Bool.and_eq_true, decide_eq_true_iff, decide_eq_true_iff] at h
  have hlow : 48 ≤ c.toNat := h.1
  have hhigh : c.toNat ≤ 57 := h.2
  refine ⟨c.toNat - 48, by omega, ?_, rfl⟩
  rw [← Char.toNat_inj, Nat.toNat_digitChar_of_lt_ten (by omega)]
  omega

theorem numberOfDigits_concat (digits : List Char) (c : Char) :
    numberOfDigits (digits ++ [c]) = 10 * numberOfDigits digits + (c.toNat - '0'.toNat) := by
  rw [numberOfDigits, numberOfDigits, List.foldl_append]
  rfl

/-- Without the zeros in front, digits are those of their number. -/
theorem dropWhile_zero_eq {digits : List Char} (h : ∀ d ∈ digits, isDigit d = true) :
    digits.dropWhile (· = '0')
      = if numberOfDigits digits = 0 then [] else Nat.toDigits 10 (numberOfDigits digits) := by
  induction digits using List.reverseRecOn with
  | nil => rfl
  | append_singleton digits c ih =>
    have hdigits := ih fun d hd => h d (List.mem_append_left _ hd)
    obtain ⟨k, hk, rfl, hvalue⟩ := exists_digitChar (h c (by simp))
    rw [List.dropWhile_append, hdigits, numberOfDigits_concat, hvalue]
    by_cases hzero : numberOfDigits digits = 0
    · -- Only zeros stand before this digit.
      rw [if_pos hzero, hzero, Nat.mul_zero, Nat.zero_add]
      by_cases hk0 : k = 0
      · subst hk0
        rfl
      · rw [if_neg hk0, Nat.toDigits_of_lt_base hk]
        simp [hk0]
    · have hsum : 10 * numberOfDigits digits + k ≠ 0 := by omega
      rw [if_neg hzero, if_neg hsum,
        ← Nat.toDigits_append_toDigits (by decide) (Nat.pos_of_ne_zero hzero) hk,
        Nat.toDigits_of_lt_base hk]
      simp [Nat.toDigits_ne_nil]

/-- A number is printed as it was read, but for zeros in front. -/
theorem repr_numberOfDigits {digits : List Char} (h : ∀ d ∈ digits, isDigit d = true)
    (hpos : 0 < numberOfDigits digits) :
    (numberOfDigits digits).repr = .ofList (digits.dropWhile (· = '0')) := by
  rw [dropWhile_zero_eq h, if_neg (Nat.ne_of_gt hpos), Nat.repr_eq_ofList_toDigits]

end Message

/-! ### Diagnostics -/

/-- **Positions fit into words.**  Whatever a compiler wrote about whatever document, if a
diagnostic is read from it then no sum and no difference overflows, neither where its range is
found nor in its headline, its save warning or its carets, whoever it is said to come from, and
all come out as in numbers.  The number that is shown of its line is the one at which the output
was read, without zeros in front, and that of its column is one more than the number of
characters in front of the part of the line that is marked. -/
theorem positions_fit_words {lines : List String} {output : String} {d : Diagnostic}
    (h : diagnose lines output = some d) :
    ∃ (w : WordDiagnostic) (line : String) (k : Message.Cut) (before marked after : List Char),
      diagnoseInWords lines output = .ok (some w) ∧ w.toDiagnostic = d ∧
      (∀ source, (w.withSource source).Shows (d.withSource source) line) ∧
      lines[d.range.start.line]? = some line ∧ line.toList = before ++ (marked ++ after) ∧
      d.range = .onLine d.range.start.line before.length (before.length + marked.length) ∧
      k.IsReadFrom output ∧
      (∀ source id color, (d.withSource source).headline id color
        = Style.place.apply color (id.text ++ ":" ++ .ofList (k.digits.dropWhile (· = '0'))
            ++ ":" ++ (before.length + 1).repr)
          ++ ": " ++ Style.error.apply color "error" ++ ": " ++ d.message
          ++ (d.withSource source).attribution) ∧
      (∀ source, Session.saveWarning (d.withSource source)
        = .warning ("Current file contains an error: '" ++ d.message ++ "' at line "
            ++ .ofList (k.digits.dropWhile (· = '0')))) := by
  obtain ⟨found, hwords, hfound⟩ := diagnoseInWords_eq lines output
  rw [h] at hfound
  obtain ⟨w, rfl, hw⟩ := Option.map_eq_some_iff.mp hfound
  obtain ⟨m, line, start, stop, hm, hpos, hline, hcolumns, hcovers, rfl⟩ :=
    exists_covers_of_diagnose h
  obtain ⟨k, hk, hparts⟩ := Message.exists_isReadFrom hm
  obtain ⟨-, -, -, hbound⟩ := Message.parse?_bounds hm
  have hwidth := Message.length_lt_of_columns?_eq_some hcolumns
  -- In words the range begins on the same line and in the same column.
  have hstartLine : w.range.startLine.toNat = m.line - 1 :=
    congrArg (fun d => d.range.start.line) hw
  have hstartCharacter : w.range.startCharacter.toNat = start :=
    congrArg (fun d => d.range.start.character) hw
  have hshows : ∀ source, (w.withSource source).Shows
      ((Diagnostic.error (.onLine (m.line - 1) start stop) m.text).withSource source) line := by
    intro source
    rw [← hw]
    refine WordDiagnostic.shows_toDiagnostic line ?_ ?_
    · show w.range.startLine.toNat + 1 < UInt32.size
      rw [hstartLine, Nat.sub_add_cancel hpos]
      exact hbound
    · show w.range.startCharacter.toNat + 1 < UInt32.size
      rw [hstartCharacter]
      rcases hcovers.start_eq_zero_or_lt with rfl | hlt
      · decide
      · exact Nat.lt_of_le_of_lt hlt hwidth
  -- The line that is shown is the number that was read.
  have hnumber : (m.line - 1 + 1).repr = .ofList (k.digits.dropWhile (· = '0')) := by
    rw [Message.ofParts?] at hparts
    split at hparts
    · rename_i hbounds
      obtain rfl := Option.some.inj hparts
      rw [Nat.sub_add_cancel hpos]
      exact Message.repr_numberOfDigits k.isDigit_of_mem hbounds.1
    · exact absurd hparts (by simp)
  have hstop : stop ≤ line.toList.length := hcovers.stop_le
  have hlength : (line.toList.take start).length = start := by
    rw [List.length_take, Nat.min_eq_left (Nat.le_trans hcovers.start_le hstop)]
  have hmarked : (line.toList.extract start stop).length = stop - start := by
    rw [List.extract_eq_take_drop, List.length_take, List.length_drop]
    omega
  refine ⟨w, line, k, line.toList.take start, line.toList.extract start stop, _, hwords, hw,
    hshows, hline, Text.eq_cut_of_extract rfl, ?_, hk, fun source id color => ?_, fun source => ?_⟩
  · rw [hlength, hmarked, Nat.add_sub_cancel' hcovers.start_le]
    rfl
  · rw [← hnumber, hlength]
    rfl
  · rw [← hnumber]
    rfl

/-- The last line that a word can number. -/
theorem last_line_shown : ∃ w : WordDiagnostic,
    diagnoseInWords (.replicate 4294967295 "x")
      "luac: stdin:04294967295: unexpected symbol near 'x'" = .ok (some w) ∧
    (w.withSource "luac").headline ⟨"a.lua"⟩ false
      = .ok "a.lua:4294967295:1: error: unexpected symbol [luac]" := by
  have hm : Message.parse? "luac: stdin:04294967295: unexpected symbol near 'x'"
      = some ⟨4294967295, "unexpected symbol", "x"⟩ := by
    decide +kernel
  have hd : diagnose (.replicate 4294967295 "x")
      "luac: stdin:04294967295: unexpected symbol near 'x'"
      = some (.error (.onLine 4294967294 0 1) "unexpected symbol") := by
    rw [diagnose, if_neg (by decide), hm, Option.bind_some]
    refine Message.resolve_eq_some_iff.mpr ⟨by decide, "x", 0, 1, ?_, by decide +kernel, rfl⟩
    rw [List.getElem?_replicate, if_pos (by decide)]
  obtain ⟨w, line, k, before, marked, after, hw, -, hshows, -⟩ := positions_fit_words hd
  refine ⟨w, hw, ((hshows "luac").headline_eq ⟨"a.lua"⟩ false).trans ?_⟩
  decide +kernel

end LuaDiagnostics
