/-
Where a diagnostic stands.

Whatever a compiler writes, the diagnostics that are read from it fit the document that
it was given: they are errors with a text of one line, on one line that the document has
and within the width of that line.

* **`parse?_bounds`**: what holds of every message.
* **`Diagnostic.Fits`**: the diagnostic fits a document with these lines.
* **`Diagnostic.Quotes`**: the diagnostic repeats a message, with its line counted from
  zero.
* **`fits_of_finds`**, **`quotes_of_finds`**: both hold of what any cycle finds, whatever
  its compiler wrote and however its steps were mixed.
-/
import LuaDiagnostics.Proofs.Compiler.ErrorStream
import LuaDiagnostics.Proofs.Message.Columns
import LuaDiagnostics.Proofs.Message.Language

namespace LuaDiagnostics

namespace Message

/-! ### Messages -/

/-- A message has a text, which stands on one line, and a number that lines can have. -/
theorem parse?_bounds {output : String} {m : Message} (h : parse? output = some m) :
    m.text ≠ "" ∧ '\n' ∉ m.text.toList ∧ 0 < m.line ∧ m.line < lineBound := by
  obtain ⟨k, hline, -, hparts⟩ := exists_cut_of_parse?_eq_some h
  rw [ofParts?] at hparts
  split at hparts
  · rename_i hbounds
    obtain rfl := Option.some.inj hparts
    refine ⟨fun hempty => ?_, fun hnewline => ?_, hbounds⟩
    · have htext := congrArg String.toList hempty
      rw [String.toList_ofList] at htext
      exact k.text_ne_nil htext
    · -- The text is a part of its line.
      rw [String.toList_ofList] at hnewline
      refine Text.not_mem_of_mem_pieces hline ?_
      simp [Cut.line, Cut.upToClosing, Cut.upToOpening, Cut.upToNear,
        show '\n' ∈ k.text from hnewline]
  · exact absurd hparts (by simp)

end Message

/-! ### Diagnostics -/

namespace Diagnostic

/-- The diagnostic fits a document with these lines. -/
structure Fits (d : Diagnostic) (lines : List String) : Prop where
  severity : d.severity = .error
  message_ne_empty : d.message ≠ ""
  newline_not_mem : '\n' ∉ d.message.toList
  stop_line : d.range.stop.line = d.range.start.line
  exists_line : ∃ text, lines[d.range.start.line]? = some text ∧
    d.range.start.character ≤ d.range.stop.character ∧
    d.range.stop.character ≤ text.length

/-- The diagnostic repeats the message, whose line is counted from one. -/
def Quotes (d : Diagnostic) (m : Message) : Prop :=
  d.message = m.text ∧ d.range.start.line + 1 = m.line

variable {d : Diagnostic} {lines : List String} {m : Message}

/-- Where a diagnostic comes from does not matter. -/
theorem Fits.withSource (h : d.Fits lines) (source : String) :
    (d.withSource source).Fits lines :=
  ⟨h.severity, h.message_ne_empty, h.newline_not_mem, h.stop_line, h.exists_line⟩

theorem Quotes.withSource (h : d.Quotes m) (source : String) :
    (d.withSource source).Quotes m := h

end Diagnostic

variable {lines : List String} {d : Diagnostic}

/-- A diagnostic is a message in the columns that it covers of its line. -/
theorem exists_covers_of_diagnose {output : String} (h : diagnose lines output = some d) :
    ∃ m text start stop, Message.parse? output = some m ∧ 0 < m.line ∧
      lines[m.line - 1]? = some text ∧ m.columns? text = some (start, stop) ∧
      m.Covers text start stop ∧ d = .error (.onLine (m.line - 1) start stop) m.text := by
  rw [diagnose] at h
  split at h
  · exact absurd h (by simp)
  · obtain ⟨m, hm, hd⟩ := Option.bind_eq_some_iff.mp h
    obtain ⟨hpos, text, start, stop, hline, hcolumns, heq⟩ := Message.resolve_eq_some_iff.mp hd
    exact ⟨m, text, start, stop, hm, hpos, hline, hcolumns,
      Message.covers_of_columns?_eq_some hcolumns, heq⟩

/-- A diagnostic comes from a message and fits the document that it was placed in. -/
theorem exists_message_of_diagnose {output : String} (h : diagnose lines output = some d) :
    ∃ m, Message.parse? output = some m ∧ d.Quotes m ∧ d.Fits lines := by
  obtain ⟨m, text, start, stop, hm, hpos, hline, -, hcovers, rfl⟩ := exists_covers_of_diagnose h
  obtain ⟨htext, hnewline, -, -⟩ := Message.parse?_bounds hm
  exact ⟨m, hm, ⟨rfl, Nat.sub_add_cancel hpos⟩, rfl, htext, hnewline, rfl, text, hline,
    hcovers.start_le, hcovers.stop_le⟩

theorem exists_diagnose_of_lastDiagnosis {outputs : List String}
    (h : lastDiagnosis lines outputs = some d) :
    ∃ output ∈ outputs, diagnose lines output = some d := by
  obtain ⟨output, hmem, houtput⟩ := List.exists_of_findSome?_eq_some h
  exact ⟨output, List.mem_reverse.mp hmem, houtput⟩

/-! ### What a cycle finds -/

namespace Cycle

/-- A cycle on a document with these lines may find this, its compiler having written these
bytes to its error stream. -/
def Finds (lines : List String) (bytes : List UInt8) (found : Outcome) : Prop :=
  ∃ actions state, run? .initial actions = some state ∧
    state.child.map Child.written = some bytes ∧ outcome? lines state = some found

variable {bytes : List UInt8} {found : Outcome}

/-- A cycle finds what the stream says, whatever became of the compiler. -/
theorem diagnostic_of_written {state : State}
    (hwritten : state.child.map Child.written = some bytes)
    (hfound : outcome? lines state = some found) :
    found.diagnostic = lastDiagnosis lines (ErrorStream.reports bytes) := by
  rw [(findings_of_written hwritten hfound).1, ErrorStream.scan_eq]

theorem diagnostic_of_finds (h : Finds lines bytes found) :
    found.diagnostic = lastDiagnosis lines (ErrorStream.reports bytes) := by
  obtain ⟨actions, state, -, hwritten, hfound⟩ := h
  exact diagnostic_of_written hwritten hfound

theorem finds_undisturbed (lines : List String) (bytes : List UInt8) (code : Option Nat) :
    Finds lines bytes (undisturbed lines bytes code) := by
  obtain ⟨actions, state, hrun, hwritten, -, hfound⟩ := exists_undisturbed lines bytes [] code
  exact ⟨actions, state, hrun, hwritten, hfound⟩

theorem fits_of_finds (h : Finds lines bytes found) (hd : found.diagnostic = some d) :
    d.Fits lines := by
  rw [diagnostic_of_finds h] at hd
  obtain ⟨output, -, houtput⟩ := exists_diagnose_of_lastDiagnosis hd
  obtain ⟨m, -, -, hfits⟩ := exists_message_of_diagnose houtput
  exact hfits

end Cycle

end LuaDiagnostics
