/-
The registry: the diagnostics that stand for each document.

Every document has one slot.  An update replaces the slot as a whole, and a slot is
never empty: to set no diagnostics is to clear it.

* **`get?_set`**, **`get?_clear`**, **`get?_clearAll`**: what a slot holds after an update.
* **`snapshot`** lists the slots in ascending order of their documents' names, and
  **`mem_snapshot_iff`** says that it lists nothing else.
-/
import LuaDiagnostics.Diagnostic
import LuaDiagnostics.Document
import LuaDiagnostics.SortedMap

namespace LuaDiagnostics

/-- The slots of all documents that have diagnostics. -/
@[ext]
structure Registry where
  slots : SortedMap (List Diagnostic)
deriving DecidableEq, Inhabited

namespace Registry

/-- No document has diagnostics. -/
def empty : Registry := ⟨.empty⟩

/-- The diagnostics of a document. -/
def get? (r : Registry) (id : DocumentId) : Option (List Diagnostic) := r.slots.get? id.text

/-- Empties the slot of a document. -/
def clear (r : Registry) (id : DocumentId) : Registry := ⟨r.slots.erase id.text⟩

/-- Replaces the diagnostics of a document. -/
def set (r : Registry) (id : DocumentId) (diagnostics : List Diagnostic) : Registry :=
  if diagnostics.isEmpty then r.clear id else ⟨r.slots.insert id.text diagnostics⟩

/-- Empties all slots. -/
def clearAll (_ : Registry) : Registry := empty

/-- The documents with diagnostics and what they have, in ascending order. -/
def snapshot (r : Registry) : List (DocumentId × List Diagnostic) :=
  r.slots.bindings.map fun b => (⟨b.1⟩, b.2)

/-- The number of documents with diagnostics. -/
def size (r : Registry) : Nat := r.slots.size

/-- Holds when no document has diagnostics. -/
def isEmpty (r : Registry) : Bool := r.slots.isEmpty

theorem text_inj {a b : DocumentId} : a.text = b.text ↔ a = b :=
  ⟨fun h => by cases a; cases b; simpa using h, fun h => h ▸ rfl⟩

@[simp] theorem get?_empty (id : DocumentId) : empty.get? id = none := rfl

theorem get?_clear (r : Registry) (id other : DocumentId) :
    (r.clear id).get? other = if other = id then none else r.get? other := by
  simp [get?, clear, SortedMap.get?_erase, text_inj]

theorem get?_set (r : Registry) (id other : DocumentId) (ds : List Diagnostic) :
    (r.set id ds).get? other
      = if other = id then (if ds = [] then none else some ds) else r.get? other := by
  cases ds with
  | nil => simp [set, get?_clear]
  | cons d ds => simp [set, get?, SortedMap.get?_insert, text_inj]

@[simp] theorem get?_clearAll (r : Registry) (id : DocumentId) :
    r.clearAll.get? id = none := rfl

/-- The snapshot lists exactly what the slots hold. -/
theorem mem_snapshot_iff (r : Registry) (id : DocumentId) (ds : List Diagnostic) :
    (id, ds) ∈ r.snapshot ↔ r.get? id = some ds := by
  rw [get?, ← SortedMap.mem_bindings_iff, snapshot, List.mem_map]
  constructor
  · rintro ⟨⟨key, value⟩, hmem, heq⟩
    obtain ⟨rfl, rfl⟩ := Prod.mk.inj heq
    exact hmem
  · intro hmem
    exact ⟨_, hmem, rfl⟩

/-- A registry is determined by its slots. -/
theorem ext_get {r s : Registry} (h : ∀ id, r.get? id = s.get? id) : r = s :=
  Registry.ext (SortedMap.ext_get fun key => h ⟨key⟩)

end Registry

end LuaDiagnostics
