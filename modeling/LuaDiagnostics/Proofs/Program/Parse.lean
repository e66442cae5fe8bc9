/-
Parsing an output by hand and reading it in a cycle.

The activity `parse` takes the lines of an output that somebody hands over; a lint cycle
takes the reports of an error stream while its compiler runs.  The two are cut, decoded
and trimmed in different ways and yet select the same diagnostic.

* **`diagnostic_of_outcome?`**: what any cycle finds whose compiler wrote a text, in
  however many pieces and with whatever else happening in between;
* **`parse_of_lastOf_eq_none`** and **`parse_of_lastOf_eq_some`**: how `parse` ends, with all
  that it writes, when the text has a diagnostic and when it has none;
* **`parse_agrees_with_cycle`**: `parse` selects and shows that diagnostic, and its exit code
  says whether there is one.
-/
import LuaDiagnostics.Program
import LuaDiagnostics.Proofs.Message.LineEnds
import LuaDiagnostics.Proofs.Message.Placement
import LuaDiagnostics.Proofs.Report.Underline
import LuaDiagnostics.Proofs.Watch.Removal

namespace LuaDiagnostics.Program

/-- What an error stream says on which an output was written is what its lines say. -/
theorem scan_toUTF8 (d : Document) (output : String) :
    (ErrorStream.scan d.lines output.toUTF8.toList).diagnostic = lastOf d output := by
  rw [ErrorStream.scan_eq, Text.toList_toUTF8, lastDiagnosis_reports, lastOf,
    lastDiagnosis_fullLines]

/-- A cycle that has returned has read all that its compiler wrote. -/
theorem diagnostic_of_outcome? {d : Document} {output : String} {state : Cycle.State}
    {found : Cycle.Outcome}
    (hwritten : state.child.map Cycle.Child.written = some output.toUTF8.toList)
    (hfound : Cycle.outcome? d.lines state = some found) :
    found.diagnostic = lastOf d output := by
  rw [(Cycle.findings_of_written hwritten hfound).1, scan_toUTF8]

/-- The output may be given as one word or on standard input. -/
theorem compilerOutput_of_given {s : Surroundings} {line : Option String} {output : String}
    (hgiven : line = some output ∨ line = none ∧ s.input = output.toUTF8) :
    compilerOutput s line = .ok output := by
  rcases hgiven with rfl | ⟨rfl, hinput⟩
  · rfl
  · have hdecode : Text.decode? s.input = some output := by
      rw [hinput]
      exact Text.decode?_toByteArray output
    rw [compilerOutput, hdecode]

section Ending

variable {s : Surroundings} {file : Path} {line : Option String} {d : Document}
  {output : String} {found : Diagnostic}

/-- How `parse` ends on an output without a diagnostic. -/
theorem parse_of_lastOf_eq_none
    (hload : Document.load s.machine.files s.machine.directory file = .ok d)
    (houtput : compilerOutput s line = .ok output) (hnone : lastOf d output = none) (v : View) :
    parse s v file line = .ok ⟨1, "", "no diagnostic\n"⟩ := by
  rw [parse, hload, houtput]
  simp only [bind, Except.bind, Except.mapError, hnone]
  rfl

/-- How `parse` ends on an output with a diagnostic. -/
theorem parse_of_lastOf_eq_some
    (hload : Document.load s.machine.files s.machine.directory file = .ok d)
    (houtput : compilerOutput s line = .ok output) (hfound : lastOf d output = some found)
    (v : View) :
    parse s v file line = .ok ⟨0, match v.format with
      | .human => v.diagnostic d found
      | .json => View.registry (Registry.empty.set d.id [found]), ""⟩ := by
  rw [parse, hload, houtput]
  simp only [bind, Except.bind, Except.mapError, hfound]
  rfl

/-- A diagnostic of an output is shown with the line on which it stands. -/
theorem exists_line_of_lastOf (hfound : lastOf d output = some found) :
    ∃ text, d.lines[found.range.start.line]? = some text ∧
      ∀ v : View, v.diagnostic d found = found.headline d.id v.color ++ "\n" ++ "    " ++ text
        ++ "\n    " ++ found.underline text ++ "\n" := by
  obtain ⟨chunk, -, hchunk⟩ := exists_diagnose_of_lastDiagnosis hfound
  obtain ⟨m, text, -, htext, -, -, -, -, hshown⟩ := underline_marks_range hchunk
  exact ⟨text, htext, (hshown d rfl).2⟩

end Ending

/-- **Parsing agrees with linting.**  Whatever document and whatever text: a cycle that
nobody cancels and whose compiler writes the text to its error stream returns, and it finds
the very diagnostic that `parse` selects when it is given the text.  The same holds of every
cycle that returns after its compiler wrote the text, however its steps were mixed.

The text may be given as a word or on standard input.  When there is no diagnostic, `parse`
says so and its exit code is 1.  When there is one, the exit code is 0 and the diagnostic is
what is shown: to people with its line and carets, to programs as the report on a registry
that holds it alone. -/
theorem parse_agrees_with_cycle (d : Document) (output : String) :
    (∀ code, ∃ found,
      Cycle.outcome? d.lines (Cycle.afterCycle output.toUTF8.toList code none) = some found ∧
      found.diagnostic = lastOf d output) ∧
    (∀ actions state found, Cycle.run? .initial actions = some state →
      state.child.map Cycle.Child.written = some output.toUTF8.toList →
      Cycle.outcome? d.lines state = some found → found.diagnostic = lastOf d output) ∧
    (∀ s line, line = some output ∨ line = none ∧ s.input = output.toUTF8 →
      compilerOutput s line = .ok output) ∧
    (∀ s v file line, Document.load s.machine.files s.machine.directory file = .ok d →
      compilerOutput s line = .ok output →
      ∃ ending, parse s v file line = .ok ending ∧
        ending.exitCode = (if lastOf d output = none then 1 else 0) ∧
        (lastOf d output = none → ending.output = "" ∧ ending.errors = "no diagnostic\n") ∧
        ∀ found, lastOf d output = some found → ending.errors = "" ∧
          (v.format = .human → ending.output = v.diagnostic d found ∧
            ∃ text, d.lines[found.range.start.line]? = some text ∧
              ending.output = found.headline d.id v.color ++ "\n" ++ "    " ++ text ++ "\n    "
                ++ found.underline text ++ "\n") ∧
          (v.format = .json →
            ending.output = View.registry (Registry.empty.set d.id [found]) ∧
            ending.output = report [(d.id, [found])] ++ "\n")) := by
  refine ⟨fun code => ?_, ?_, ?_, ?_⟩
  · exact ⟨_, Cycle.outcome?_afterCycle_none d.lines _ code, scan_toUTF8 d output⟩
  · intro actions state found _ hwritten hfound
    exact diagnostic_of_outcome? hwritten hfound
  · intro s line hgiven
    exact compilerOutput_of_given hgiven
  · intro s v file line hload houtput
    cases hlast : lastOf d output with
    | none =>
      refine ⟨_, parse_of_lastOf_eq_none hload houtput hlast v, rfl, fun _ => ⟨rfl, rfl⟩, ?_⟩
      intro found hfound
      exact absurd hfound (by simp)
    | some found =>
      refine ⟨_, parse_of_lastOf_eq_some hload houtput hlast v, rfl,
        fun hnone => absurd hnone (by simp), ?_⟩
      rintro found' hfound
      obtain rfl := Option.some.inj hfound
      refine ⟨rfl, fun hhuman => ?_, fun hjson => ?_⟩
      · obtain ⟨text, htext, hshown⟩ := exists_line_of_lastOf hlast
        simp only [hhuman]
        exact ⟨trivial, text, htext, hshown v⟩
      · simp only [hjson]
        exact ⟨trivial, rfl⟩

/-- The text of an output for examples: there is one carriage return too many. -/
def sampleOutput : String := "luac: stdin:1: unexpected symbol near 'x'\r\r\n"

theorem lastOf_sampleOutput :
    lastOf (Session.Course.homeDocument ⟨"a.lua"⟩) sampleOutput
      = some (.error (.onLine 0 0 1) "unexpected symbol") := by
  have hlines : (Text.fullLines sampleOutput.toList).map String.ofList
      = ["luac: stdin:1: unexpected symbol near 'x'\r"] := by decide +kernel
  have hdocument : (Session.Course.homeDocument ⟨"a.lua"⟩).lines = ["x = "] := by
    decide +kernel
  have hmessage : Message.parse? "luac: stdin:1: unexpected symbol near 'x'\r"
      = some ⟨1, "unexpected symbol", "x"⟩ := by decide +kernel
  have hplaced : Message.resolve ["x = "] ⟨1, "unexpected symbol", "x"⟩
      = some (.error (.onLine 0 0 1) "unexpected symbol") := by decide +kernel
  rw [lastOf, hlines, hdocument, lastDiagnosis_cons, diagnose, if_neg (by decide), hmessage,
    Option.bind_some, hplaced]
  rfl

/-- Surroundings for examples, with an input that says nothing about the file. -/
def sampleSurroundings : Surroundings :=
  ⟨Session.Course.homeMachine, "ok\n".toUTF8, false, false, none⟩

/-- The sample output is shown in both formats, and the input has nothing to show. -/
theorem parse_sampleOutput :
    parse sampleSurroundings ⟨.human, false⟩ ⟨"a.lua"⟩ (some sampleOutput)
      = .ok ⟨0, "/home/a.lua:1:1: error: unexpected symbol\n    x = \n    ^\n", ""⟩ ∧
    parse sampleSurroundings ⟨.json, false⟩ ⟨"a.lua"⟩ (some sampleOutput)
      = .ok ⟨0, report [(⟨"/home/a.lua"⟩, [.error (.onLine 0 0 1) "unexpected symbol"])] ++ "\n",
        ""⟩ ∧
    parse sampleSurroundings ⟨.human, false⟩ ⟨"a.lua"⟩ none = .ok ⟨1, "", "no diagnostic\n"⟩ := by
  have hload : Document.load sampleSurroundings.machine.files sampleSurroundings.machine.directory
      ⟨"a.lua"⟩ = .ok (Session.Course.homeDocument ⟨"a.lua"⟩) :=
    Session.Course.load_homeMachine (.inl rfl)
  obtain ⟨-, -, -, hparse⟩ :=
    parse_agrees_with_cycle (Session.Course.homeDocument ⟨"a.lua"⟩) sampleOutput
  rw [lastOf_sampleOutput] at hparse
  refine ⟨?_, ?_, ?_⟩
  · obtain ⟨⟨code, output, errors⟩, hending, rfl, -, hfound⟩ :=
      hparse sampleSurroundings ⟨.human, false⟩ ⟨"a.lua"⟩ (some sampleOutput) hload rfl
    obtain ⟨rfl, hhuman, -⟩ := hfound _ rfl
    have hshown : View.diagnostic ⟨.human, false⟩ (Session.Course.homeDocument ⟨"a.lua"⟩)
        (.error (.onLine 0 0 1) "unexpected symbol")
          = "/home/a.lua:1:1: error: unexpected symbol\n    x = \n    ^\n" := by
      decide +kernel
    obtain rfl := (hhuman rfl).1.trans hshown
    exact hending
  · obtain ⟨⟨code, output, errors⟩, hending, rfl, -, hfound⟩ :=
      hparse sampleSurroundings ⟨.json, false⟩ ⟨"a.lua"⟩ (some sampleOutput) hload rfl
    obtain ⟨rfl, -, hjson⟩ := hfound _ rfl
    obtain rfl := (hjson rfl).2
    exact hending
  · obtain ⟨-, -, hgiven, hparse⟩ :=
      parse_agrees_with_cycle (Session.Course.homeDocument ⟨"a.lua"⟩) "ok\n"
    have hnone : lastOf (Session.Course.homeDocument ⟨"a.lua"⟩) "ok\n" = none := by
      decide +kernel
    obtain ⟨⟨code, shown, errors⟩, hending, hcode, hsilent, -⟩ :=
      hparse sampleSurroundings ⟨.human, false⟩ ⟨"a.lua"⟩ none hload
        (hgiven _ _ (.inr ⟨rfl, rfl⟩))
    rw [if_pos hnone] at hcode
    obtain rfl := hcode
    obtain ⟨rfl, rfl⟩ := hsilent hnone
    exact hending

end LuaDiagnostics.Program
