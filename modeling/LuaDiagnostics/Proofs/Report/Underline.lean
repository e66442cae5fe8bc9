/-
Carets under a diagnostic.

Carets are put under a line by columns alone: tabs of the line are copied, any other character
becomes a space, and then come the carets.  On a range beyond the line they would stand
elsewhere.  That this never happens is due to how a message is placed (`Message.Covers`).

* **`IsUnderlined`**: the carets stand where the range is, and nothing else stands there;
  **`IsUnderlined.eq`**: there is only one such text.
* **`isUnderlined_underline`**: carets are put in this way on every range that begins within
  its line.
* **`underline_marks_range`**: so they are under every diagnostic that is read from any
  compiler output for any document.
-/
import LuaDiagnostics.Program
import LuaDiagnostics.Proofs.Message.Placement
import LuaDiagnostics.Proofs.Text.Lines

namespace LuaDiagnostics

namespace Diagnostic

/-- The number of carets: one for each column, and one for a range without columns. -/
def caretCount (d : Diagnostic) : Nat :=
  max 1 (d.range.stop.character - d.range.start.character)

/-- In front of the range the text repeats the tabs of the line and is blank otherwise, and then
it has its carets and ends. -/
structure IsUnderlined (d : Diagnostic) (line carets : String) : Prop where
  length_eq : carets.length = d.range.start.character + d.caretCount
  margin : ∀ i < d.range.start.character,
    carets.toList[i]? = some (if line.toList[i]? = some '\t' then '\t' else ' ')
  caret : ∀ i, d.range.start.character ≤ i → i < d.range.start.character + d.caretCount →
    carets.toList[i]? = some '^'

variable {d : Diagnostic} {line carets carets' : String}

/-- The carets are known by what they stand under. -/
theorem IsUnderlined.eq (h : d.IsUnderlined line carets) (h' : d.IsUnderlined line carets') :
    carets = carets' := by
  refine String.toList_inj.mp (List.ext_getElem? fun i => ?_)
  rcases Nat.lt_or_ge i d.range.start.character with hi | hi
  · rw [h.margin i hi, h'.margin i hi]
  rcases Nat.lt_or_ge i (d.range.start.character + d.caretCount) with hlt | hge
  · rw [h.caret i hi hlt, h'.caret i hi hlt]
  · rw [List.getElem?_eq_none, List.getElem?_eq_none]
    · rw [String.length_toList, h'.length_eq]
      exact hge
    · rw [String.length_toList, h.length_eq]
      exact hge

/-- There are carets under the columns of the range and nowhere else. -/
theorem IsUnderlined.getElem?_eq_caret_iff (h : d.IsUnderlined line carets) (i : Nat) :
    carets.toList[i]? = some '^' ↔
      d.range.start.character ≤ i ∧ i < d.range.start.character + d.caretCount := by
  constructor
  · intro hcaret
    have hlt := (List.getElem?_eq_some_iff.mp hcaret).1
    rw [String.length_toList, h.length_eq] at hlt
    refine ⟨Nat.le_of_not_lt fun hi => ?_, hlt⟩
    -- The margin holds tabs and spaces only.
    rw [h.margin i hi] at hcaret
    split at hcaret
    · exact absurd hcaret (by decide)
    · exact absurd hcaret (by decide)
  · rintro ⟨hle, hlt⟩
    exact h.caret i hle hlt

/-- The carets are not longer than the line if the range is not, save that an empty line gets
one. -/
theorem IsUnderlined.length_le (h : d.IsUnderlined line carets)
    (hstart : d.range.start.character = 0 ∨ d.range.start.character < line.length)
    (hle : d.range.start.character ≤ d.range.stop.character)
    (hstop : d.range.stop.character ≤ line.length) : carets.length ≤ max 1 line.length := by
  rw [h.length_eq, caretCount]
  omega

theorem toList_underline (d : Diagnostic) (line : String) :
    (d.underline line).toList
      = (line.toList.take d.range.start.character).map (fun c => if c = '\t' then '\t' else ' ')
        ++ List.replicate d.caretCount '^' := by
  have hcount : max d.range.stop.character (d.range.start.character + 1)
      - d.range.start.character = d.caretCount := by
    rw [caretCount]
    omega
  rw [underline, String.toList_ofList, hcount]

/-- A line that reaches the range gets its carets under it. -/
theorem isUnderlined_underline (h : d.range.start.character ≤ line.length) :
    d.IsUnderlined line (d.underline line) := by
  have hmargin : (line.toList.take d.range.start.character).length = d.range.start.character := by
    rw [List.length_take, String.length_toList, Nat.min_eq_left h]
  refine ⟨?_, fun i hi => ?_, fun i hle hlt => ?_⟩
  · rw [← String.length_toList, toList_underline, List.length_append, List.length_map, hmargin,
      List.length_replicate]
  · have hlt : i < line.toList.length := by
      rw [String.length_toList]
      exact Nat.lt_of_lt_of_le hi h
    have hget : line.toList[i]? = some line.toList[i] := List.getElem?_eq_getElem hlt
    rw [toList_underline, List.getElem?_append_left (by rw [List.length_map, hmargin]; exact hi),
      List.getElem?_map, List.getElem?_take_of_lt hi, hget, Option.map_some]
    simp only [Option.some.injEq]
  · rw [toList_underline, List.getElem?_append_right (by rw [List.length_map, hmargin]; exact hle),
      List.length_map, hmargin, List.getElem?_replicate, if_pos (by omega)]

end Diagnostic

/-- What people are shown of a diagnostic on a line of the document. -/
theorem View.diagnostic_of_lineAt? {v : View} {doc : Document} {d : Diagnostic} {line : String}
    (h : doc.lineAt? d.range.start.line = some line) :
    v.diagnostic doc d = d.headline doc.id v.color ++ "\n" ++ "    " ++ line ++ "\n    "
      ++ d.underline line ++ "\n" := by
  rw [View.diagnostic, h]

/-- **The carets mark the range.**  Whatever a compiler wrote about whatever document: a
diagnostic that is read from it stands on a line that the document has, in the columns that
its message covers, and these are the columns that get the carets.  In front of them tabs of
the line are kept and all else is blank, behind them there is nothing, and the caret line is
no longer than the line, or one caret under an empty one.  It is always shown. -/
theorem underline_marks_range {lines : List String} {output : String} {d : Diagnostic}
    (h : diagnose lines output = some d) :
    ∃ m line, Message.parse? output = some m ∧ lines[d.range.start.line]? = some line ∧
      m.Covers line d.range.start.character d.range.stop.character ∧
      d.IsUnderlined line (d.underline line) ∧
      (∀ i, (d.underline line).toList[i]? = some '^' ↔ d.range.start.character ≤ i ∧
        i < max d.range.stop.character (d.range.start.character + 1)) ∧
      (d.underline line).length ≤ max 1 line.length ∧
      (∀ doc : Document, doc.lines = lines →
        doc.lineAt? d.range.start.line = some line ∧
        ∀ v : View, v.diagnostic doc d = d.headline doc.id v.color ++ "\n" ++ "    " ++ line
          ++ "\n    " ++ d.underline line ++ "\n") := by
  obtain ⟨m, line, start, stop, hm, hpos, hline, -, hcovers, rfl⟩ := exists_covers_of_diagnose h
  set d : Diagnostic := .error (.onLine (m.line - 1) start stop) m.text
  have hunderlined : d.IsUnderlined line (d.underline line) :=
    Diagnostic.isUnderlined_underline (Nat.le_trans hcovers.start_le hcovers.stop_le)
  refine ⟨m, line, hm, hline, hcovers, hunderlined, fun i => ?_, ?_, ?_⟩
  · rw [hunderlined.getElem?_eq_caret_iff, Diagnostic.caretCount]
    omega
  · exact hunderlined.length_le hcovers.start_eq_zero_or_lt hcovers.start_le hcovers.stop_le
  · rintro doc rfl
    have hlineAt := (doc.lineAt?_eq (m.line - 1)).trans hline
    exact ⟨hlineAt, fun v => View.diagnostic_of_lineAt? hlineAt⟩

/-- A tab and a letter of two bytes stand in front of the token. -/
theorem underline_marks_bar :
    ∃ d, diagnose ["x = 1", "\té = bar"] "luac: stdin:2: unexpected symbol near 'bar'" = some d ∧
      d.underline "\té = bar" = "\t    ^^^" := by
  have hd : diagnose ["x = 1", "\té = bar"] "luac: stdin:2: unexpected symbol near 'bar'"
      = some (.error (.onLine 1 5 8) "unexpected symbol") := by
    decide +kernel
  obtain ⟨m, line, -, hline, -, hunderlined, -⟩ := underline_marks_range hd
  obtain rfl : "\té = bar" = line := Option.some.inj hline
  refine ⟨_, hd, hunderlined.eq ⟨by decide, by decide, fun i hle hlt => ?_⟩⟩
  have hcolumns : ∀ i < 8, 5 ≤ i → "\t    ^^^".toList[i]? = some '^' := by decide
  exact hcolumns i hlt hle

end LuaDiagnostics
