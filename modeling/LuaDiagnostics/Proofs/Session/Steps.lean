/-
What the steps of a session change.

Each step touches few of a session's parts, and each part is known by its look-ups:
`holder?` says which cycle holds the place of a document, `Registry.get?` what the
document's slot holds.  For every step the lemmas here give the parts afterwards:

* **`holder?_begin`**, **`holder?_forget`**, **`holder?_cancelAll`**: the table of cycles;
* **`mem_cancelled_begin`**, **`mem_cancelled_forget`**, **`mem_cancelled_cancelAll`**:
  the cycles that were cancelled;
* **`outcome_complete`**, **`get?_registry_complete`** and **`complete_rest`**: the end of a
  cycle that holds its place, and **`complete_of_not_isLatest`**: the end of any other.

Later proofs use these and do not look into the steps.
-/
import LuaDiagnostics.Session

namespace LuaDiagnostics

namespace Session

/-- A session that has done nothing yet, on a registry that may hold diagnostics. -/
def withRegistry (settings : Settings) (registry : Registry) : Session :=
  { new settings with registry }

/-- The number of the cycle that holds the place of a document. -/
def holder? (s : Session) (id : DocumentId) : Option Nat := s.inFlight.get? id.text

theorem isLatest_iff {s : Session} {c : PreparedCycle} :
    s.isLatest c = true ↔ s.holder? c.document.id = some c.generation := by
  rw [isLatest, holder?, decide_eq_true_iff]

/-! ### Beginning a cycle -/

variable (s : Session) (id other : DocumentId)

theorem holder?_cancel :
    (s.cancel id).holder? other = if other = id then none else s.holder? other := by
  rw [cancel]
  split
  · simp only [holder?, SortedMap.get?_erase, Registry.text_inj]
  · rename_i hnone
    by_cases h : other = id
    · rw [if_pos h, holder?, h, hnone]
    · rw [if_neg h]

theorem mem_cancelled_cancel {g : Nat} :
    g ∈ (s.cancel id).cancelled ↔ s.holder? id = some g ∨ g ∈ s.cancelled := by
  rw [cancel, holder?]
  split
  · rename_i generation hsome
    simp [hsome, eq_comm]
  · rename_i hnone
    simp [hnone]

/-- Cancelling touches nothing but the table and the flags. -/
theorem cancel_rest : (s.cancel id).registry = s.registry ∧
    (s.cancel id).nextGeneration = s.nextGeneration ∧
    (s.cancel id).settings = s.settings ∧
    (s.cancel id).notifications = s.notifications := by
  rw [cancel]
  split
  · exact ⟨rfl, rfl, rfl, rfl⟩
  · exact ⟨rfl, rfl, rfl, rfl⟩

theorem holder?_begin :
    (s.begin id).holder? other
      = if other = id then some s.nextGeneration else s.holder? other := by
  have hcancel := s.holder?_cancel id other
  rw [holder?] at hcancel ⊢
  simp only [begin, SortedMap.get?_insert, Registry.text_inj, hcancel]
  by_cases h : other = id
  · rw [if_pos h, if_pos h]
  · rw [if_neg h, if_neg h, if_neg h]

theorem mem_cancelled_begin {g : Nat} :
    g ∈ (s.begin id).cancelled ↔ s.holder? id = some g ∨ g ∈ s.cancelled :=
  s.mem_cancelled_cancel id

@[simp] theorem nextGeneration_begin :
    (s.begin id).nextGeneration = s.nextGeneration + 1 := rfl

@[simp] theorem registry_begin : (s.begin id).registry = s.registry := (s.cancel_rest id).1

@[simp] theorem settings_begin : (s.begin id).settings = s.settings :=
  (s.cancel_rest id).2.2.1

/-- A cycle begins only for a Lua document of a session that lints, and it gets the next
number. -/
theorem prepare_eq_ok_iff {s t : Session} {m : Machine} {d : Document} {c : PreparedCycle} :
    s.prepare m d = (t, .ok c) ↔
      s.settings.enable = true ∧ d.isLua = true ∧ t = s.begin d.id ∧
        c = { generation := s.nextGeneration, document := d, command := s.commandFor m d } := by
  rw [prepare]
  by_cases henable : s.settings.enable = true
  · by_cases hlua : d.isLua = true
    · simp only [henable, hlua, not_true_eq_false, if_false, Prod.mk.injEq, Except.ok.injEq,
        true_and]
      exact and_congr eq_comm eq_comm
    · simp [henable, hlua]
  · simp [henable]

/-- A document that is turned away leaves the session as it was. -/
theorem session_of_prepare_eq_error {s t : Session} {m : Machine} {d : Document}
    {outcome : LintOutcome} (h : s.prepare m d = (t, .error outcome)) : t = s := by
  rw [prepare] at h
  split at h
  · exact (Prod.mk.inj h).1.symm
  · split at h
    · exact (Prod.mk.inj h).1.symm
    · exact absurd (Prod.mk.inj h).2 (by simp)

/-! ### Dropping cycles -/

theorem holder?_forget :
    (s.forget id).holder? other = if other = id then none else s.holder? other :=
  s.holder?_cancel id other

theorem mem_cancelled_forget {g : Nat} :
    g ∈ (s.forget id).cancelled ↔ s.holder? id = some g ∨ g ∈ s.cancelled :=
  s.mem_cancelled_cancel id

theorem get?_registry_forget :
    (s.forget id).registry.get? other
      = if other = id then none else s.registry.get? other := by
  rw [← (s.cancel_rest id).1]
  exact Registry.get?_clear _ id other

@[simp] theorem nextGeneration_forget :
    (s.forget id).nextGeneration = s.nextGeneration := (s.cancel_rest id).2.1

@[simp] theorem settings_forget : (s.forget id).settings = s.settings :=
  (s.cancel_rest id).2.2.1

@[simp] theorem holder?_cancelAll : s.cancelAll.holder? id = none := rfl

theorem mem_cancelled_cancelAll {g : Nat} :
    g ∈ s.cancelAll.cancelled ↔ (∃ id, s.holder? id = some g) ∨ g ∈ s.cancelled := by
  rw [cancelAll, List.mem_append, List.mem_map]
  refine or_congr_left ⟨?_, ?_⟩
  · rintro ⟨⟨key, value⟩, hmem, rfl⟩
    exact ⟨⟨key⟩, (s.inFlight.mem_bindings_iff key value).mp hmem⟩
  · rintro ⟨id, hid⟩
    exact ⟨(id.text, g), (s.inFlight.mem_bindings_iff id.text g).mpr hid, rfl⟩

/-! ### Ending a cycle -/

theorem holder?_release :
    (s.release id).holder? other = if other = id then none else s.holder? other := by
  simp only [release, holder?, SortedMap.get?_erase, Registry.text_inj]

/-- What the slot of a cycle's document holds when the cycle has ended with a result:
the one diagnostic that was found, said to come from the interpreter.  A failed cycle
leaves the slot as it was. -/
def slotAfter (c : PreparedCycle) (before : Option (List Diagnostic)) :
    CycleResult → Option (List Diagnostic)
  | .error _ => before
  | .ok found =>
    found.diagnostic.map fun d => [d.withSource c.command.interpreter.program]

variable {s} {c : PreparedCycle} (kind : EventKind)

theorem get?_registry_publish (found : Option Diagnostic) :
    (s.publish kind c found).1.registry.get? id
      = if id = c.document.id then
          found.map fun d => [d.withSource c.command.interpreter.program]
        else s.registry.get? id := by
  cases found with
  | none => exact Registry.get?_clear s.registry c.document.id id
  | some d =>
    have hset := Registry.get?_set s.registry c.document.id id
      [d.withSource c.command.interpreter.program]
    rw [if_neg (List.cons_ne_nil _ _)] at hset
    rw [publish]
    split
    · exact hset
    · exact hset

/-- Publishing touches nothing but the registry and what the user is told. -/
theorem publish_rest (found : Option Diagnostic) :
    (s.publish kind c found).2 ≠ .superseded ∧
      (s.publish kind c found).1.inFlight = s.inFlight ∧
      (s.publish kind c found).1.nextGeneration = s.nextGeneration ∧
      (s.publish kind c found).1.cancelled = s.cancelled ∧
      (s.publish kind c found).1.settings = s.settings := by
  cases found with
  | none => exact ⟨by simp [publish], rfl, rfl, rfl, rfl⟩
  | some d =>
    rw [publish]
    refine ⟨by simp, ?_⟩
    split
    · exact ⟨rfl, rfl, rfl, rfl⟩
    · exact ⟨rfl, rfl, rfl, rfl⟩

variable (result : CycleResult)

/-- A cycle that lost the place of its document ends without any effect. -/
theorem complete_of_not_isLatest (h : s.isLatest c = false) :
    s.complete kind c result = (s, .superseded) := by
  rw [complete, if_pos (by simp [h])]

theorem get?_registry_complete (h : s.isLatest c = true) :
    (s.complete kind c result).1.registry.get? id
      = if id = c.document.id then slotAfter c (s.registry.get? id) result
        else s.registry.get? id := by
  rw [complete, if_neg (by simp [h])]
  cases result with
  | error failure => exact (ite_self _).symm
  | ok outcome => exact (s.release c.document.id).get?_registry_publish id kind _

/-- What a cycle comes to that held its place to the end.  Its diagnostic is said to come
from the program. -/
def outcomeAfter (program : String) : CycleResult → LintOutcome
  | .error failure => .failed (reason failure)
  | .ok found =>
    match found.diagnostic with
    | none => .cleared
    | some d => .published (d.withSource program)

theorem outcome_complete (h : s.isLatest c = true) :
    (s.complete kind c result).2 = outcomeAfter c.command.interpreter.program result := by
  rw [complete, if_neg (by simp [h])]
  cases result with
  | error failure => rfl
  | ok found =>
    show ((s.release c.document.id).publish kind c found.diagnostic).2 = _
    rw [outcomeAfter]
    cases found.diagnostic with
    | none => rfl
    | some d => rfl

/-- A cycle that holds the place of its document is not superseded: it gives the place
up, and apart from the registry and what the user is told nothing else changes. -/
theorem complete_rest (h : s.isLatest c = true) :
    (s.complete kind c result).2 ≠ .superseded ∧
      (∀ id, (s.complete kind c result).1.holder? id
        = if id = c.document.id then none else s.holder? id) ∧
      (s.complete kind c result).1.nextGeneration = s.nextGeneration ∧
      (s.complete kind c result).1.cancelled = s.cancelled ∧
      (s.complete kind c result).1.settings = s.settings := by
  rw [complete, if_neg (by simp [h])]
  cases result with
  | error failure => exact ⟨by simp, fun id => s.holder?_release _ id, rfl, rfl, rfl⟩
  | ok outcome =>
    obtain ⟨houtcome, htable, hnext, hcancelled, hsettings⟩ :=
      (s.release c.document.id).publish_rest (c := c) kind outcome.diagnostic
    refine ⟨houtcome, fun id => ?_, hnext, hcancelled, hsettings⟩
    rw [← s.holder?_release, holder?, holder?, htable]

end Session

end LuaDiagnostics
