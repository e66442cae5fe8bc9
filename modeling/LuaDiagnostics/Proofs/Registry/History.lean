/-
A registry as the map that its history describes.

A registry is changed slot by slot or emptied as a whole.  What it then holds for a document
is decided by the last change that concerned the document, and every way of looking at the
registry shows the same map.

* **`get?_run_of_last`**, **`get?_run_of_none`**: a slot is what the last change left.
* **`sort_listing`**: in whatever order the slots are listed, sorting the list by the names
  of the documents gives the snapshot, and **`pairwise_snapshot`**: their names increase,
  byte by byte.
* **`apply_comm`**: changes to different documents may change places.
* **`registry_refines_history`** puts these together.
-/
import LuaDiagnostics.Proofs.Text.Utf8
import LuaDiagnostics.Registry
import Mathlib.Data.List.Induction
import Mathlib.Data.List.Nodup

namespace LuaDiagnostics

namespace DocumentId

/-- The bytes of a document's name. -/
def bytes (id : DocumentId) : List UInt8 := id.text.toUTF8.toList

theorem bytes_lt_iff {a b : DocumentId} : a.bytes < b.bytes ↔ a.text < b.text :=
  (Text.lt_iff_toUTF8_lt a.text b.text).symm

theorem bytes_le_iff {a b : DocumentId} : a.bytes ≤ b.bytes ↔ a.text ≤ b.text := by
  rw [← List.not_lt, bytes_lt_iff, String.not_lt]

end DocumentId

namespace Registry

/-! ### Changes -/

/-- A change to a registry. -/
inductive Change
  | set (id : DocumentId) (diagnostics : List Diagnostic)
  | clear (id : DocumentId)
  | clearAll

namespace Change

/-- The registry after a change. -/
def apply (r : Registry) : Change → Registry
  | set id diagnostics => r.set id diagnostics
  | clear id => r.clear id
  | clearAll => r.clearAll

/-- The one document that a change is about, if it is not about all of them. -/
def target? : Change → Option DocumentId
  | set id _ => some id
  | clear id => some id
  | clearAll => none

/-- The change is about the document, alone or with all others. -/
def Concerns (c : Change) (id : DocumentId) : Prop := c.target? = none ∨ c.target? = some id

/-- What a change leaves in the slots that it concerns. -/
def left : Change → Option (List Diagnostic)
  | set _ [] => none
  | set _ (d :: ds) => some (d :: ds)
  | clear _ => none
  | clearAll => none

theorem concerns_iff {c : Change} {id other : DocumentId} (h : c.target? = some id) :
    c.Concerns other ↔ other = id := by
  simp [Concerns, h, eq_comm]

theorem left_ne_nil (c : Change) : c.left ≠ some [] := by
  rcases c with ⟨_, _ | ⟨d, ds⟩⟩ | _ | _ <;> simp [left]

end Change

variable {r : Registry} {c : Change} {id : DocumentId}

theorem get?_apply_of_concerns (h : c.Concerns id) : (c.apply r).get? id = c.left := by
  cases c with
  | set other ds =>
    obtain rfl := (Change.concerns_iff rfl).mp h
    rw [Change.apply, get?_set, if_pos rfl]
    cases ds <;> simp [Change.left]
  | clear other =>
    obtain rfl := (Change.concerns_iff rfl).mp h
    rw [Change.apply, get?_clear, if_pos rfl, Change.left]
  | clearAll => rfl

theorem get?_apply_of_not_concerns (h : ¬ c.Concerns id) :
    (c.apply r).get? id = r.get? id := by
  cases c with
  | set other ds =>
    have hne : id ≠ other := fun heq => h ((Change.concerns_iff rfl).mpr heq)
    rw [Change.apply, get?_set, if_neg hne]
  | clear other =>
    have hne : id ≠ other := fun heq => h ((Change.concerns_iff rfl).mpr heq)
    rw [Change.apply, get?_clear, if_neg hne]
  | clearAll => exact absurd (.inl rfl) h

/-- Changes that concern no document in common may change places. -/
theorem apply_comm {c' : Change} (h : ∀ id, c.Concerns id → ¬ c'.Concerns id) :
    c'.apply (c.apply r) = c.apply (c'.apply r) := by
  refine ext_get fun id => ?_
  by_cases hc : c.Concerns id
  · rw [get?_apply_of_not_concerns (h id hc), get?_apply_of_concerns hc,
      get?_apply_of_concerns hc]
  · rw [get?_apply_of_not_concerns hc]
    by_cases hc' : c'.Concerns id
    · rw [get?_apply_of_concerns hc', get?_apply_of_concerns hc']
    · rw [get?_apply_of_not_concerns hc', get?_apply_of_not_concerns hc',
        get?_apply_of_not_concerns hc]

/-! ### Histories -/

/-- The registry after a history of changes, empty at first. -/
def run (history : List Change) : Registry := history.foldl Change.apply empty

variable {history : List Change}

theorem run_concat (history : List Change) (c : Change) :
    run (history ++ [c]) = c.apply (run history) := by
  rw [run, List.foldl_append]
  rfl

/-- A slot that no change concerned is as it was. -/
theorem get?_foldl_of_none (h : ∀ c ∈ history, ¬ c.Concerns id) :
    (history.foldl Change.apply r).get? id = r.get? id := by
  induction history generalizing r with
  | nil => rfl
  | cons c history ih =>
    rw [List.forall_mem_cons] at h
    rw [List.foldl_cons, ih h.2, get?_apply_of_not_concerns h.1]

theorem get?_run_of_none (h : ∀ c ∈ history, ¬ c.Concerns id) : (run history).get? id = none :=
  get?_foldl_of_none h

/-- A slot holds what the last change that concerned it left there. -/
theorem get?_run_of_last {earlier later : List Change}
    (hhistory : history = earlier ++ c :: later) (hc : c.Concerns id)
    (hlater : ∀ c' ∈ later, ¬ c'.Concerns id) : (run history).get? id = c.left := by
  rw [hhistory, run, List.foldl_append, List.foldl_cons, get?_foldl_of_none hlater,
    get?_apply_of_concerns hc]

/-- No slot holds an empty list. -/
theorem get?_run_ne_nil (history : List Change) (id : DocumentId) :
    (run history).get? id ≠ some [] := by
  induction history using List.reverseRecOn with
  | nil => simp [run]
  | append_singleton history c ih =>
    rw [run_concat]
    by_cases hc : c.Concerns id
    · rw [get?_apply_of_concerns hc]
      exact c.left_ne_nil
    · rw [get?_apply_of_not_concerns hc]
      exact ih

/-! ### The snapshot -/

/-- The documents of a snapshot increase by the bytes of their names. -/
theorem pairwise_snapshot (r : Registry) :
    r.snapshot.Pairwise fun a b => a.1.bytes < b.1.bytes := by
  rw [snapshot, List.pairwise_map]
  have hascending : r.slots.bindings.Pairwise fun a b => a.1 < b.1 := r.slots.ascending
  exact hascending.imp fun hlt => DocumentId.bytes_lt_iff.mpr hlt

theorem nodup_snapshot (r : Registry) : (r.snapshot.map Prod.fst).Nodup := by
  rw [List.Nodup, List.pairwise_map]
  refine (pairwise_snapshot r).imp fun hlt heq => ?_
  rw [heq] at hlt
  exact List.lt_irrefl _ hlt

theorem length_snapshot (r : Registry) : r.snapshot.length = r.size := List.length_map _

/-- The first slot's document comes no later by the bytes of its name. -/
def isInOrder (a b : DocumentId × List Diagnostic) : Bool := decide (a.1.bytes ≤ b.1.bytes)

theorem isInOrder_iff {a b : DocumentId × List Diagnostic} :
    isInOrder a b = true ↔ a.1.text ≤ b.1.text := by
  rw [isInOrder, decide_eq_true_iff, DocumentId.bytes_le_iff]

/-- In whatever order the slots are listed, sorting the list by the names of the documents
gives the snapshot. -/
theorem sort_listing {listing : List (DocumentId × List Diagnostic)}
    (hnodup : (listing.map Prod.fst).Nodup)
    (hmem : ∀ id ds, (id, ds) ∈ listing ↔ r.get? id = some ds) :
    listing.mergeSort isInOrder = r.snapshot := by
  have hperm : (listing.mergeSort isInOrder).Perm r.snapshot := by
    refine (List.mergeSort_perm _ _).trans ?_
    refine (List.perm_ext_iff_of_nodup (List.Nodup.of_map _ hnodup)
      (List.Nodup.of_map _ (nodup_snapshot r))).mpr ?_
    rintro ⟨id, ds⟩
    rw [hmem, mem_snapshot_iff]
  have hsorted : (listing.mergeSort isInOrder).Pairwise fun a b => isInOrder a b = true := by
    refine List.pairwise_mergeSort (fun a b c hab hbc => ?_) (fun a b => ?_) listing
    · exact isInOrder_iff.mpr (String.le_trans (isInOrder_iff.mp hab) (isInOrder_iff.mp hbc))
    · rw [Bool.or_eq_true, isInOrder_iff, isInOrder_iff]
      exact String.le_total _ _
  have hsnapshot : r.snapshot.Pairwise fun a b => isInOrder a b = true :=
    (pairwise_snapshot r).imp fun hlt => decide_eq_true (List.le_of_lt hlt)
  refine hperm.eq_of_pairwise ?_ hsorted hsnapshot
  -- Two slots of one document are one slot.
  rintro ⟨id, ds⟩ ⟨id', ds'⟩ hslot hslot' hle hle'
  obtain rfl : id = id' :=
    text_inj.mp (String.le_antisymm (isInOrder_iff.mp hle) (isInOrder_iff.mp hle'))
  rw [List.mem_mergeSort, hmem] at hslot
  rw [mem_snapshot_iff] at hslot'
  rw [Option.some.inj (hslot.symm.trans hslot')]

/-! ### The map -/

/-- **A registry is the map of its history.**  After any history of changes, the slot of a
document holds what the last change that concerned the document left there: the list that was
set if it was not empty, and nothing after an empty list was set, the slot was cleared or all
slots were; without such a change it holds nothing.  No slot holds an empty list.  The snapshot
lists every slot once, with the names of the documents increasing by their bytes; it is what
sorting by these makes of the slots in whatever order.  The size is the length of the snapshot.
Changes to different documents may change places. -/
theorem registry_refines_history (history : List Change) :
    (∀ id earlier c later, history = earlier ++ c :: later → c.Concerns id →
      (∀ c' ∈ later, ¬ c'.Concerns id) → (run history).get? id = c.left) ∧
    (∀ id, (∀ c ∈ history, ¬ c.Concerns id) → (run history).get? id = none) ∧
    (∀ id, (run history).get? id ≠ some []) ∧
    (run history).snapshot.Pairwise (fun a b => a.1.bytes < b.1.bytes) ∧
    ((run history).snapshot.map Prod.fst).Nodup ∧
    (∀ id ds, (id, ds) ∈ (run history).snapshot ↔ (run history).get? id = some ds) ∧
    (∀ listing : List (DocumentId × List Diagnostic), (listing.map Prod.fst).Nodup →
      (∀ id ds, (id, ds) ∈ listing ↔ (run history).get? id = some ds) →
      listing.mergeSort isInOrder = (run history).snapshot) ∧
    (run history).size = (run history).snapshot.length ∧
    ((run history).isEmpty = true ↔ (run history).size = 0) ∧
    (∀ c c' id id' later, c.target? = some id → c'.target? = some id' → id ≠ id' →
      run (history ++ c :: c' :: later) = run (history ++ c' :: c :: later)) := by
  refine ⟨fun id earlier c later hhistory hc hlater => get?_run_of_last hhistory hc hlater,
    fun id h => get?_run_of_none h, get?_run_ne_nil history, pairwise_snapshot _,
    nodup_snapshot _, fun id ds => mem_snapshot_iff _ id ds,
    fun listing hnodup hmem => sort_listing hnodup hmem, (length_snapshot _).symm, ?_, ?_⟩
  · rw [isEmpty, SortedMap.isEmpty, size, SortedMap.size, List.isEmpty_iff,
      List.length_eq_zero_iff]
  · intro c c' id id' later hc hc' hne
    have happly : c'.apply (c.apply (run history)) = c.apply (c'.apply (run history)) := by
      refine apply_comm fun other h h' => hne ?_
      rw [← (Change.concerns_iff hc).mp h, (Change.concerns_iff hc').mp h']
    rw [run, run, List.foldl_append, List.foldl_append]
    exact congrArg (later.foldl Change.apply) happly

example : (run [.set ⟨"b"⟩ [.error (.onLine 0 0 1) "x"], .set ⟨"a"⟩ [.error (.onLine 1 0 1) "y"],
    .set ⟨"b"⟩ []]).snapshot = [(⟨"a"⟩, [.error (.onLine 1 0 1) "y"])] := by decide

end Registry

end LuaDiagnostics
