/-
Reports can be read back.

* **`report_readable`**: the text of a report is a JSON array.  From it, and from any other
  text for the same value, exactly the documents and diagnostics that were reported can be
  decoded, so different documents or diagnostics never make the same report.

Decoding looks the members of an object up by their names.  All that is optional is the
source of a diagnostic, where a missing one stands for the empty one.
-/
import LuaDiagnostics.Proofs.Report.Reader

namespace LuaDiagnostics

/-! ### Decoding -/

namespace Json

/-- The value of the member with a name. -/
def member? (name : String) : Json → Option Json
  | object members => members.lookup name
  | _ => none

@[simp] theorem member?_nil (name : String) : (object []).member? name = none := rfl

@[simp] theorem member?_cons (name other : String) (v : Json) (members : List (String × Json)) :
    (object ((other, v) :: members)).member? name
      = if name = other then some v else (object members).member? name := by
  rw [member?, List.lookup_cons]
  by_cases h : name = other
  · rw [if_pos h, beq_iff_eq.mpr h]
  · rw [if_neg h, beq_eq_false_iff_ne.mpr h]
    rfl

/-- The number, if the value is one. -/
def number? : Json → Option Nat
  | number n => some n
  | _ => none

/-- The string, if the value is one. -/
def string? : Json → Option String
  | string s => some s
  | _ => none

/-- The items, if the value is an array. -/
def items? : Json → Option (List Json)
  | array items => some items
  | _ => none

end Json

namespace Position

/-- The position that a JSON object stands for. -/
def ofJson? (v : Json) : Option Position := do
  return ⟨← (← v.member? "line").number?, ← (← v.member? "character").number?⟩

end Position

namespace Range

/-- The range that a JSON object stands for. -/
def ofJson? (v : Json) : Option Range := do
  return ⟨← Position.ofJson? (← v.member? "start"), ← Position.ofJson? (← v.member? "end")⟩

end Range

namespace Diagnostic

/-- The diagnostic that a JSON object stands for. -/
def ofJson? (v : Json) : Option Diagnostic := do
  let range ← Range.ofJson? (← v.member? "range")
  let message ← (← v.member? "message").string?
  let severity ← Severity.ofName? (← (← v.member? "severity").string?)
  let source ← ((v.member? "source").getD (.string "")).string?
  return { range, message, severity, source }

end Diagnostic

/-- The document and the diagnostics that a JSON object stands for. -/
def entryOfJson? (v : Json) : Option (DocumentId × List Diagnostic) := do
  let file ← (← v.member? "file").string?
  let diagnostics ← (← (← v.member? "diagnostics").items?).mapM Diagnostic.ofJson?
  return (⟨file⟩, diagnostics)

/-- The documents and diagnostics that a JSON array stands for. -/
def entriesOfJson? (v : Json) : Option (List (DocumentId × List Diagnostic)) := do
  (← v.items?).mapM entryOfJson?

/-- The documents and diagnostics that a text reports. -/
def readReport? (text : String) : Option (List (DocumentId × List Diagnostic)) := do
  entriesOfJson? (← Json.read? text.toList)

/-! ### What was encoded is decoded -/

/-- Decoding the members of a list one by one undoes encoding them one by one. -/
theorem mapM_map_of_forall {α β : Type} {encode : α → β} {decode? : β → Option α}
    (h : ∀ a, decode? (encode a) = some a) (l : List α) :
    (l.map encode).mapM decode? = some l := by
  induction l with
  | nil => rfl
  | cons a l ih => simp [List.mapM_cons, h, ih]

theorem Position.ofJson?_toJson (p : Position) : ofJson? p.toJson = some p := rfl

theorem Range.ofJson?_toJson (r : Range) : ofJson? r.toJson = some r := rfl

theorem Diagnostic.ofJson?_toJson (d : Diagnostic) : ofJson? d.toJson = some d := by
  obtain ⟨range, message, severity, source⟩ := d
  have hrange := Range.ofJson?_toJson range
  have hseverity := Severity.ofName?_name severity
  by_cases hsource : source = ""
  · subst hsource
    simp [ofJson?, toJson, Json.string?, hrange, hseverity]
  · simp [ofJson?, toJson, Json.string?, hrange, hseverity, hsource]

theorem entriesOfJson?_reportJson (entries : List (DocumentId × List Diagnostic)) :
    entriesOfJson? (reportJson entries) = some entries := by
  refine mapM_map_of_forall (fun (id, diagnostics) => ?_) entries
  have hdiagnostics := mapM_map_of_forall Diagnostic.ofJson?_toJson diagnostics
  simp [entryOfJson?, Json.string?, Json.items?, hdiagnostics]

/-! ### Reading reports -/

theorem elementSpelling_report (entries : List (DocumentId × List Diagnostic)) :
    Json.ElementSpelling (reportJson entries) (report entries).toList := by
  have hvalue := Json.spelling_render (reportJson entries) 0
  have helement := Json.ElementSpelling.mk Json.blank_nil hvalue Json.blank_nil
  rw [report, String.toList_ofList]
  simpa using helement

/-- However the value of a report is spelled, it is read and decoded. -/
theorem readReport?_of_spelling {entries : List (DocumentId × List Diagnostic)} {text : String}
    (h : Json.ElementSpelling (reportJson entries) text.toList) :
    readReport? text = some entries := by
  rw [readReport?, Json.read?_of_spelling h]
  exact entriesOfJson?_reportJson entries

/-- The text of a report is a JSON array, and exactly what was reported can be decoded from
it and from all texts for the same value.  So no two lists make the same report. -/
theorem report_readable (entries : List (DocumentId × List Diagnostic)) :
    (∃ items, reportJson entries = .array items ∧
        Json.ElementSpelling (.array items) (report entries).toList) ∧
      readReport? (report entries) = some entries ∧
      (∀ text : String, Json.ElementSpelling (reportJson entries) text.toList →
        readReport? text = some entries) ∧
      ∀ others, report others = report entries → others = entries := by
  have hread : ∀ entries, readReport? (report entries) = some entries :=
    fun entries => readReport?_of_spelling (elementSpelling_report entries)
  refine ⟨⟨_, rfl, elementSpelling_report entries⟩, hread entries,
    fun _ => readReport?_of_spelling, fun others hothers => ?_⟩
  have hdecoded := hread others
  rw [hothers, hread entries] at hdecoded
  exact (Option.some.inj hdecoded).symm

end LuaDiagnostics
