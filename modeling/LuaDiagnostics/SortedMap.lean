/-
Finite maps from texts to values, kept in ascending order of their keys.

A map is its list of bindings, strictly ascending in the key, so a key is bound at
most once and two maps with the same look-ups are equal.  Main statements:

* **`get?_insert`**, **`get?_erase`**: what a look-up finds after an update.
* **`ext_get`**: a map is determined by its look-ups.
* **`mem_bindings_iff`**: the bindings are exactly the pairs that a look-up finds.

Keys are compared by code points, which for texts is the order of their UTF-8 bytes.
-/
namespace LuaDiagnostics

universe u

/-! ### Ascending lists of bindings -/

/-- Puts a binding at its place, in the stead of one with the same key. -/
def insertBinding {α : Type u} (key : String) (value : α) :
    List (String × α) → List (String × α)
  | [] => [(key, value)]
  | (k, v) :: rest =>
    if key < k then (key, value) :: (k, v) :: rest
    else if key = k then (key, value) :: rest
    else (k, v) :: insertBinding key value rest

/-- The value of the first binding with the key. -/
def findBinding {α : Type u} (key : String) : List (String × α) → Option α
  | [] => none
  | (k, v) :: rest => if k = key then some v else findBinding key rest

/-- The keys of the bindings increase strictly. -/
def Ascending {α : Type u} (bindings : List (String × α)) : Prop :=
  bindings.Pairwise fun a b => a.1 < b.1

section
variable {α : Type u}

theorem mem_insertBinding {key : String} {value : α} {b : String × α}
    {l : List (String × α)} (h : b ∈ insertBinding key value l) :
    b = (key, value) ∨ b ∈ l := by
  induction l with
  | nil => simpa [insertBinding] using h
  | cons head rest ih =>
    obtain ⟨k, v⟩ := head
    rw [insertBinding] at h
    split at h
    · simpa using h
    · split at h
      · rcases List.mem_cons.mp h with h | h
        · exact .inl h
        · exact .inr (List.mem_cons_of_mem _ h)
      · rcases List.mem_cons.mp h with h | h
        · exact .inr (h ▸ List.mem_cons_self)
        · exact (ih h).imp_right (List.mem_cons_of_mem _)

theorem ascending_insertBinding (key : String) (value : α) {l : List (String × α)}
    (h : Ascending l) : Ascending (insertBinding key value l) := by
  induction l with
  | nil => simp [insertBinding, Ascending]
  | cons head rest ih =>
    obtain ⟨k, v⟩ := head
    have hk := (List.pairwise_cons.mp h).1
    have hrest := (List.pairwise_cons.mp h).2
    rw [insertBinding]
    split
    · rename_i hlt
      refine List.pairwise_cons.mpr ⟨fun b hb => ?_, h⟩
      rcases List.mem_cons.mp hb with hb | hb
      · exact hb ▸ hlt
      · exact String.lt_trans hlt (hk b hb)
    · split
      · rename_i heq
        subst heq
        exact List.pairwise_cons.mpr ⟨hk, hrest⟩
      · rename_i hnlt hne
        refine List.pairwise_cons.mpr ⟨fun b hb => ?_, ih hrest⟩
        rcases mem_insertBinding hb with hb | hb
        · subst hb
          exact Std.lt_of_le_of_ne (Std.not_lt.mp hnlt) (Ne.symm hne)
        · exact hk b hb

theorem ascending_filter (p : String × α → Bool) {l : List (String × α)}
    (h : Ascending l) : Ascending (l.filter p) :=
  List.Pairwise.filter p h

theorem findBinding_insertBinding (key other : String) (value : α)
    (l : List (String × α)) :
    findBinding other (insertBinding key value l)
      = if other = key then some value else findBinding other l := by
  induction l with
  | nil => simp [insertBinding, findBinding, eq_comm]
  | cons head rest ih =>
    obtain ⟨k, v⟩ := head
    rw [insertBinding]
    split
    · by_cases ho : other = key
      · simp [findBinding, ho]
      · simp [findBinding, ho, Ne.symm ho]
    · split
      · rename_i heq
        subst heq
        by_cases ho : other = key
        · simp [findBinding, ho]
        · simp [findBinding, ho, Ne.symm ho]
      · rename_i hne
        by_cases hk : k = other
        · subst hk
          simp [findBinding, Ne.symm hne]
        · simp [findBinding, hk, ih]

theorem findBinding_filter_ne (key other : String) (l : List (String × α)) :
    findBinding other (l.filter fun b => b.1 ≠ key)
      = if other = key then none else findBinding other l := by
  induction l with
  | nil => simp [findBinding]
  | cons head rest ih =>
    obtain ⟨k, v⟩ := head
    by_cases hk : k = key
    · subst hk
      by_cases ho : other = k
      · subst ho
        simpa using ih
      · simpa [findBinding, ho, Ne.symm ho] using ih
    · by_cases ho : k = other
      · subst ho
        simp [findBinding, hk]
      · simpa [findBinding, hk, ho] using ih

theorem mem_iff_findBinding {l : List (String × α)} (h : Ascending l)
    (key : String) (value : α) :
    (key, value) ∈ l ↔ findBinding key l = some value := by
  induction l with
  | nil => simp [findBinding]
  | cons head rest ih =>
    obtain ⟨k, v⟩ := head
    have hk := (List.pairwise_cons.mp h).1
    have hrest := (List.pairwise_cons.mp h).2
    by_cases heq : k = key
    · subst heq
      have hnot : ∀ w, (k, w) ∉ rest := fun w hw => String.lt_irrefl k (hk _ hw)
      simp [findBinding, hnot, eq_comm]
    · have hne : ¬ key = k := fun e => heq e.symm
      simp [findBinding, heq, hne, ih hrest]

theorem eq_of_findBinding_eq {l m : List (String × α)} (hl : Ascending l)
    (hm : Ascending m) (h : ∀ key, findBinding key l = findBinding key m) : l = m := by
  have hmem : ∀ b, b ∈ l ↔ b ∈ m := fun b => by
    obtain ⟨k, v⟩ := b
    rw [mem_iff_findBinding hl, mem_iff_findBinding hm, h]
  induction l generalizing m with
  | nil =>
    cases m with
    | nil => rfl
    | cons b rest => exact absurd ((hmem b).mpr List.mem_cons_self) List.not_mem_nil
  | cons a l ih =>
    cases m with
    | nil => exact absurd ((hmem a).mp List.mem_cons_self) List.not_mem_nil
    | cons b m =>
      have hal := (List.pairwise_cons.mp hl).1
      have hbm := (List.pairwise_cons.mp hm).1
      have hab : a = b := by
        rcases List.mem_cons.mp ((hmem a).mp List.mem_cons_self) with e | hin
        · exact e
        · rcases List.mem_cons.mp ((hmem b).mpr List.mem_cons_self) with e | hin'
          · exact e.symm
          · exact absurd (String.lt_trans (hbm a hin) (hal b hin'))
              (String.lt_irrefl b.1)
      subst hab
      have htail : ∀ c, c ∈ l ↔ c ∈ m := by
        intro c
        constructor
        · intro hc
          rcases List.mem_cons.mp ((hmem c).mp (List.mem_cons_of_mem _ hc)) with e | hin
          · exact absurd (e ▸ hal c hc) (String.lt_irrefl c.1)
          · exact hin
        · intro hc
          rcases List.mem_cons.mp ((hmem c).mpr (List.mem_cons_of_mem _ hc)) with e | hin
          · exact absurd (e ▸ hbm c hc) (String.lt_irrefl c.1)
          · exact hin
      have hl' := (List.pairwise_cons.mp hl).2
      have hm' := (List.pairwise_cons.mp hm).2
      refine congrArg (a :: ·) (ih hl' hm' (fun key => ?_) htail)
      refine Option.ext fun v => ?_
      rw [← mem_iff_findBinding hl', ← mem_iff_findBinding hm', htail]

end

/-! ### Maps -/

/-- A finite map from texts to values. -/
@[ext]
structure SortedMap (α : Type u) where
  /-- The bindings, in ascending order of their keys. -/
  bindings : List (String × α)
  ascending : Ascending bindings

namespace SortedMap

variable {α : Type u}

instance [DecidableEq α] : DecidableEq (SortedMap α) := fun a b =>
  decidable_of_iff (a.bindings = b.bindings) SortedMap.ext_iff.symm

/-- The map without bindings. -/
def empty : SortedMap α := ⟨[], List.Pairwise.nil⟩

instance : Inhabited (SortedMap α) := ⟨empty⟩

/-- The value bound to the key. -/
def get? (m : SortedMap α) (key : String) : Option α := findBinding key m.bindings

/-- Binds the key to the value, whatever it was bound to before. -/
def insert (m : SortedMap α) (key : String) (value : α) : SortedMap α :=
  ⟨insertBinding key value m.bindings, ascending_insertBinding key value m.ascending⟩

/-- Removes the binding of the key, if there is one. -/
def erase (m : SortedMap α) (key : String) : SortedMap α :=
  ⟨m.bindings.filter fun b => b.1 ≠ key, ascending_filter _ m.ascending⟩

/-- The number of bindings. -/
def size (m : SortedMap α) : Nat := m.bindings.length

/-- Holds when there is no binding. -/
def isEmpty (m : SortedMap α) : Bool := m.bindings.isEmpty

@[simp] theorem get?_empty (key : String) : (empty : SortedMap α).get? key = none := rfl

theorem get?_insert (m : SortedMap α) (key other : String) (value : α) :
    (m.insert key value).get? other = if other = key then some value else m.get? other :=
  findBinding_insertBinding key other value m.bindings

theorem get?_erase (m : SortedMap α) (key other : String) :
    (m.erase key).get? other = if other = key then none else m.get? other :=
  findBinding_filter_ne key other m.bindings

theorem mem_bindings_iff (m : SortedMap α) (key : String) (value : α) :
    (key, value) ∈ m.bindings ↔ m.get? key = some value :=
  mem_iff_findBinding m.ascending key value

/-- A map is determined by its look-ups. -/
theorem ext_get {m n : SortedMap α} (h : ∀ key, m.get? key = n.get? key) : m = n :=
  SortedMap.ext (eq_of_findBinding_eq m.ascending n.ascending h)

end SortedMap

end LuaDiagnostics
