/-
Patterns and how they are searched for.

The patterns are those of a backtracking search with greedy repetitions of character
classes, greedy options and groups.  **`ways`** lists all ways in which a pattern matches
a beginning of a text, in the order in which a backtracking search tries them: of a
repetition the longest first, of an option the match before its absence, of a sequence
the choices of its first part before those of its second.  **`search?`** takes the first
way at the first place that has any.

* **`head?_ways_repeated_seq`**: the first way of a repetition and what follows it takes
  the longest run that what follows can match behind.
* **`search?_append_newline`**: a pattern that matches no newline is searched for line by
  line.
-/
import Mathlib.Data.List.Basic
import Mathlib.Data.List.Infix

namespace LuaDiagnostics

/-- Patterns over characters. -/
inductive Pattern
  | empty
  /-- One character of a class. -/
  | one (p : Char → Bool)
  /-- As many characters of a class as possible, and no fewer than `least`. -/
  | repeated (least : Nat) (p : Char → Bool)
  | seq (r s : Pattern)
  /-- The pattern, or else nothing. -/
  | maybe (r : Pattern)
  /-- The pattern, where what it matches is kept. -/
  | group (r : Pattern)

namespace Pattern

/-- A way to match: what is matched, what the groups in it match, in the order in which
they open, and what is left of the text. -/
structure Way where
  matched : List Char
  groups : List (List Char)
  rest : List Char

/-- One way after the other. -/
def Way.andThen (w v : Way) : Way := ⟨w.matched ++ v.matched, w.groups ++ v.groups, v.rest⟩

/-- A way in a text that goes on. -/
def Way.extend (w : Way) (more : List Char) : Way := { w with rest := w.rest ++ more }

/-- The beginnings of a text that consist of `least` or more characters of a class, with
what follows them, longest first. -/
def spans (p : Char → Bool) : Nat → List Char → List (List Char × List Char)
  | least, [] => if least = 0 then [([], [])] else []
  | least, c :: cs =>
    (if p c then (spans p (least - 1) cs).map fun s => (c :: s.1, s.2) else []) ++
      if least = 0 then [([], c :: cs)] else []

/-- All ways in which a pattern matches a beginning of a text, in order of preference. -/
def ways : Pattern → List Char → List Way
  | empty, cs => [⟨[], [], cs⟩]
  | one _, [] => []
  | one p, c :: cs => if p c then [⟨[c], [], cs⟩] else []
  | repeated least p, cs => (spans p least cs).map fun s => ⟨s.1, [], s.2⟩
  | seq r s, cs => (r.ways cs).flatMap fun w => (s.ways w.rest).map w.andThen
  | maybe r, cs => r.ways cs ++ [⟨[], [], cs⟩]
  | group r, cs => (r.ways cs).map fun w => { w with groups := w.matched :: w.groups }

/-- The first way at the first place of a text where there is one. -/
def search? (r : Pattern) : List Char → Option Way
  | [] => (r.ways []).head?
  | c :: cs => (r.ways (c :: cs)).head?.or (search? r cs)

/-- The pattern behind a word. -/
def after (word : List Char) (r : Pattern) : Pattern :=
  word.foldr (fun c r => seq (one (· = c)) r) r

/-- The pattern matches a beginning of the text. -/
def Begins (r : Pattern) (cs : List Char) : Prop := ∃ w, w ∈ r.ways cs

variable {r s : Pattern} {p : Char → Bool} {least : Nat}

theorem not_begins_iff {cs : List Char} : ¬ r.Begins cs ↔ r.ways cs = [] := by
  rw [List.eq_nil_iff_forall_not_mem]
  exact not_exists

/-! ### Where patterns match -/

theorem mem_spans_iff {cs m rest : List Char} :
    (m, rest) ∈ spans p least cs ↔
      cs = m ++ rest ∧ (∀ c ∈ m, p c = true) ∧ least ≤ m.length := by
  induction cs generalizing least m with
  | nil =>
    -- The only span of nothing is empty.
    rw [spans]
    split
    · rename_i hleast
      rw [List.mem_singleton, Prod.mk.injEq]
      constructor
      · rintro ⟨rfl, rfl⟩
        simp [hleast]
      · rintro ⟨hcs, -, -⟩
        exact List.append_eq_nil_iff.mp hcs.symm
    · rename_i hleast
      refine ⟨fun h => absurd h List.not_mem_nil, ?_⟩
      rintro ⟨hcs, -, hlength⟩
      obtain ⟨rfl, -⟩ := List.append_eq_nil_iff.mp hcs.symm
      rw [List.length_nil] at hlength
      omega
  | cons c cs ih =>
    rw [spans, List.mem_append]
    -- The empty span is the last one in the list, the others come from the rest.
    cases m with
    | nil =>
      have hlonger : ([], rest) ∉
          (if p c then (spans p (least - 1) cs).map fun s => (c :: s.1, s.2) else []) := by
        split <;> simp
      rw [or_iff_right hlonger]
      split
      · rename_i hleast
        simp only [hleast, List.mem_singleton, Prod.mk.injEq, true_and, List.nil_append,
          List.not_mem_nil, false_implies, implies_true, Nat.zero_le, and_true]
        exact eq_comm
      · rename_i hleast
        simp [hleast]
    | cons d m =>
      have hnone : (d :: m, rest) ∉ (if least = 0 then [([], c :: cs)] else []) := by
        split <;> simp
      rw [or_iff_left hnone]
      split
      · rename_i hc
        constructor
        · intro h
          obtain ⟨⟨m', rest'⟩, hmem, heq⟩ := List.mem_map.mp h
          obtain ⟨⟨rfl, rfl⟩, rfl⟩ : (c = d ∧ m' = m) ∧ rest' = rest := by simpa using heq
          obtain ⟨rfl, hall, hlength⟩ := ih.mp hmem
          refine ⟨rfl, List.forall_mem_cons.mpr ⟨hc, hall⟩, ?_⟩
          rw [List.length_cons]
          omega
        · rintro ⟨hcs, hall, hlength⟩
          rw [List.cons_append] at hcs
          obtain ⟨rfl, rfl⟩ := List.cons.inj hcs
          rw [List.length_cons] at hlength
          refine List.mem_map.mpr ⟨(m, rest), ih.mpr ⟨rfl, ?_, by omega⟩, rfl⟩
          exact (List.forall_mem_cons.mp hall).2
      · rename_i hc
        refine ⟨fun h => absurd h List.not_mem_nil, ?_⟩
        rintro ⟨hcs, hall, -⟩
        rw [List.cons_append] at hcs
        obtain ⟨rfl, -⟩ := List.cons.inj hcs
        exact absurd (hall c List.mem_cons_self) hc

/-- A way splits the text. -/
theorem append_of_mem_ways {cs : List Char} {w : Way} (h : w ∈ r.ways cs) :
    w.matched ++ w.rest = cs := by
  induction r generalizing cs w with
  | empty =>
    obtain rfl := List.mem_singleton.mp h
    rfl
  | one p =>
    cases cs with
    | nil => exact absurd h List.not_mem_nil
    | cons c cs =>
      rw [ways] at h
      split at h
      · obtain rfl := List.mem_singleton.mp h
        rfl
      · exact absurd h List.not_mem_nil
  | repeated least p =>
    obtain ⟨⟨m, rest⟩, hmem, rfl⟩ := List.mem_map.mp h
    exact (mem_spans_iff.mp hmem).1.symm
  | seq r s ihr ihs =>
    obtain ⟨u, hu, hmem⟩ := List.mem_flatMap.mp h
    obtain ⟨v, hv, rfl⟩ := List.mem_map.mp hmem
    rw [← ihr hu, ← ihs hv]
    exact List.append_assoc _ _ _
  | maybe r ih =>
    rcases List.mem_append.mp h with h | h
    · exact ih h
    · obtain rfl := List.mem_singleton.mp h
      rfl
  | group r ih =>
    obtain ⟨v, hv, rfl⟩ := List.mem_map.mp h
    show v.matched ++ v.rest = cs
    exact ih hv

/-- The pattern has no groups. -/
def Plain : Pattern → Prop
  | empty => True
  | one _ => True
  | repeated _ _ => True
  | seq r s => r.Plain ∧ s.Plain
  | maybe r => r.Plain
  | group _ => False

theorem groups_of_mem_ways (hr : r.Plain) {cs : List Char} {w : Way} (h : w ∈ r.ways cs) :
    w.groups = [] := by
  induction r generalizing cs w with
  | empty =>
    obtain rfl := List.mem_singleton.mp h
    rfl
  | one p =>
    cases cs with
    | nil => exact absurd h List.not_mem_nil
    | cons c cs =>
      rw [ways] at h
      split at h
      · obtain rfl := List.mem_singleton.mp h
        rfl
      · exact absurd h List.not_mem_nil
  | repeated least p =>
    obtain ⟨s, -, rfl⟩ := List.mem_map.mp h
    rfl
  | seq r s ihr ihs =>
    obtain ⟨u, hu, hmem⟩ := List.mem_flatMap.mp h
    obtain ⟨v, hv, rfl⟩ := List.mem_map.mp hmem
    rw [Way.andThen, ihr hr.1 hu, ihs hr.2 hv]
    rfl
  | maybe r ih =>
    rcases List.mem_append.mp h with h | h
    · exact ih hr h
    · obtain rfl := List.mem_singleton.mp h
      rfl
  | group r ih => exact absurd hr id

theorem begins_seq_iff {cs : List Char} :
    (seq r s).Begins cs ↔ ∃ w ∈ r.ways cs, s.Begins w.rest := by
  constructor
  · rintro ⟨w, hw⟩
    obtain ⟨u, hu, hmem⟩ := List.mem_flatMap.mp hw
    obtain ⟨v, hv, -⟩ := List.mem_map.mp hmem
    exact ⟨u, hu, v, hv⟩
  · rintro ⟨u, hu, v, hv⟩
    exact ⟨u.andThen v, List.mem_flatMap.mpr ⟨u, hu, List.mem_map.mpr ⟨v, hv, rfl⟩⟩⟩

theorem begins_one_seq_iff {cs : List Char} :
    (seq (one p) s).Begins cs ↔ ∃ c rest, cs = c :: rest ∧ p c = true ∧ s.Begins rest := by
  rw [begins_seq_iff]
  cases cs with
  | nil => simp [ways]
  | cons c cs =>
    rw [ways]
    split
    · rename_i hc
      simp [hc]
    · rename_i hc
      simp [hc]

theorem begins_repeated_seq_iff {cs : List Char} :
    (seq (repeated least p) s).Begins cs ↔
      ∃ m rest, cs = m ++ rest ∧ (∀ c ∈ m, p c = true) ∧ least ≤ m.length ∧ s.Begins rest := by
  rw [begins_seq_iff]
  constructor
  · rintro ⟨w, hw, hs⟩
    obtain ⟨⟨m, rest⟩, hmem, rfl⟩ := List.mem_map.mp hw
    obtain ⟨hcs, hall, hlength⟩ := mem_spans_iff.mp hmem
    exact ⟨m, rest, hcs, hall, hlength, hs⟩
  · rintro ⟨m, rest, hcs, hall, hlength, hs⟩
    exact ⟨_, List.mem_map.mpr ⟨(m, rest), mem_spans_iff.mpr ⟨hcs, hall, hlength⟩, rfl⟩, hs⟩

/-- A group changes what is kept, not what is matched. -/
theorem begins_group_seq_iff {cs : List Char} :
    (seq (group r) s).Begins cs ↔ (seq r s).Begins cs := by
  rw [begins_seq_iff, begins_seq_iff, ways]
  constructor
  · rintro ⟨w, hw, hs⟩
    obtain ⟨v, hv, rfl⟩ := List.mem_map.mp hw
    exact ⟨v, hv, hs⟩
  · rintro ⟨v, hv, hs⟩
    exact ⟨_, List.mem_map.mpr ⟨v, hv, rfl⟩, hs⟩

theorem begins_after_iff {word cs : List Char} :
    (after word r).Begins cs ↔ ∃ rest, cs = word ++ rest ∧ r.Begins rest := by
  induction word generalizing cs with
  | nil => simp [after]
  | cons d word ih =>
    show (seq (one (· = d)) (after word r)).Begins cs ↔ _
    rw [begins_one_seq_iff]
    constructor
    · rintro ⟨c, rest, rfl, hc, hrest⟩
      obtain ⟨rest', rfl, hr⟩ := ih.mp hrest
      obtain rfl : c = d := by simpa using hc
      exact ⟨rest', rfl, hr⟩
    · rintro ⟨rest, rfl, hr⟩
      exact ⟨d, word ++ rest, rfl, by simp, ih.mpr ⟨rest, rfl, hr⟩⟩

theorem begins_maybe_seq_iff {cs : List Char} :
    (seq (maybe r) s).Begins cs ↔ (seq r s).Begins cs ∨ s.Begins cs := by
  rw [begins_seq_iff, begins_seq_iff, ways]
  simp [or_and_right, exists_or]

/-! ### The first way -/

theorem head?_ways_seq (r s : Pattern) (cs : List Char) :
    ((seq r s).ways cs).head? = (r.ways cs).findSome? fun w =>
      (s.ways w.rest).head?.map w.andThen := by
  rw [ways, List.head?_flatMap]
  simp only [List.head?_map]

theorem head?_ways_one_seq {c : Char} {rest : List Char} {w : Way} (hc : p c = true)
    (hw : (s.ways rest).head? = some w) :
    ((seq (one p) s).ways (c :: rest)).head? = some (Way.andThen ⟨[c], [], rest⟩ w) := by
  rw [head?_ways_seq, ways, if_pos hc]
  simp [hw]

theorem head?_ways_after (word : List Char) {rest : List Char} {w : Way}
    (hw : (r.ways rest).head? = some w) :
    ((after word r).ways (word ++ rest)).head? = some (Way.andThen ⟨word, [], rest⟩ w) := by
  induction word with
  | nil => exact hw
  | cons d word ih => exact head?_ways_one_seq (decide_eq_true rfl) ih

/-- Of the spans the longest that goes on is found first. -/
theorem findSome?_spans {α : Type} {f : List Char × List Char → Option α} {a : α}
    {m rest : List Char} (hall : ∀ c ∈ m, p c = true) (hleast : least ≤ m.length)
    (hf : f (m, rest) = some a)
    (hlonger : ∀ m' rest', m ++ rest = m' ++ rest' → m.length < m'.length →
      (∀ c ∈ m', p c = true) → f (m', rest') = none) :
    (spans p least (m ++ rest)).findSome? f = some a := by
  induction m generalizing least f with
  | nil =>
    obtain rfl := Nat.le_zero.mp hleast
    rw [List.nil_append] at hlonger ⊢
    cases rest with
    | nil => simp [spans, hf]
    | cons c rest =>
      rw [spans, List.findSome?_append, if_pos rfl]
      -- What comes first in the list is longer, and nothing goes on behind it.
      have hnone : (if p c then (spans p (0 - 1) rest).map fun s => (c :: s.1, s.2)
          else []).findSome? f = none := by
        rw [List.findSome?_eq_none_iff]
        split
        · rename_i hc
          intro x hx
          obtain ⟨⟨m', rest'⟩, hmem, rfl⟩ := List.mem_map.mp hx
          obtain ⟨rfl, hall', -⟩ := mem_spans_iff.mp hmem
          exact hlonger (c :: m') rest' rfl (Nat.succ_pos _)
            (List.forall_mem_cons.mpr ⟨hc, hall'⟩)
        · exact fun x hx => absurd hx List.not_mem_nil
      rw [hnone]
      simp [hf]
  | cons c m ih =>
    obtain ⟨hc, hall⟩ := List.forall_mem_cons.mp hall
    rw [List.cons_append, spans, List.findSome?_append, if_pos hc, List.findSome?_map]
    rw [List.length_cons] at hleast
    have hfirst : (spans p (least - 1) (m ++ rest)).findSome?
        (f ∘ fun s => (c :: s.1, s.2)) = some a := by
      refine ih hall (by omega) hf fun m' rest' hcut hlt hall' => ?_
      exact hlonger (c :: m') rest' (congrArg (c :: ·) hcut) (Nat.succ_lt_succ hlt)
        (List.forall_mem_cons.mpr ⟨hc, hall'⟩)
    rw [hfirst, Option.some_or]

/-- The first way of a repetition and what follows it takes the longest run that what
follows can match behind. -/
theorem head?_ways_repeated_seq {m rest : List Char} {w : Way}
    (hall : ∀ c ∈ m, p c = true) (hleast : least ≤ m.length)
    (hw : (s.ways rest).head? = some w)
    (hlonger : ∀ m' rest', m ++ rest = m' ++ rest' → m.length < m'.length →
      (∀ c ∈ m', p c = true) → ¬ s.Begins rest') :
    ((seq (repeated least p) s).ways (m ++ rest)).head?
      = some (Way.andThen ⟨m, [], rest⟩ w) := by
  rw [head?_ways_seq, ways, List.findSome?_map]
  refine findSome?_spans hall hleast (by simp [hw]) fun m' rest' hcut hlt hall' => ?_
  simp [not_begins_iff.mp (hlonger m' rest' hcut hlt hall')]

/-- The same for a repetition that is kept. -/
theorem head?_ways_group_repeated_seq {m rest : List Char} {w : Way}
    (hall : ∀ c ∈ m, p c = true) (hleast : least ≤ m.length)
    (hw : (s.ways rest).head? = some w)
    (hlonger : ∀ m' rest', m ++ rest = m' ++ rest' → m.length < m'.length →
      (∀ c ∈ m', p c = true) → ¬ s.Begins rest') :
    ((seq (group (repeated least p)) s).ways (m ++ rest)).head?
      = some (Way.andThen ⟨m, [m], rest⟩ w) := by
  rw [head?_ways_seq, ways, ways, List.findSome?_map, List.findSome?_map]
  refine findSome?_spans hall hleast (by simp [hw]) fun m' rest' hcut hlt hall' => ?_
  simp [not_begins_iff.mp (hlonger m' rest' hcut hlt hall')]

/-! ### Searching -/

/-- A way at the first place is what is found. -/
theorem search?_of_head? {cs : List Char} {w : Way} (h : (r.ways cs).head? = some w) :
    r.search? cs = some w := by
  cases cs with
  | nil => exact h
  | cons c cs => rw [search?, h, Option.some_or]

theorem search?_eq_none {cs : List Char} (h : ∀ t, t <:+ cs → ¬ r.Begins t) :
    r.search? cs = none := by
  induction cs with
  | nil =>
    rw [search?, not_begins_iff.mp (h [] (List.suffix_refl _))]
    rfl
  | cons c cs ih =>
    rw [search?, not_begins_iff.mp (h _ (List.suffix_refl _)),
      ih fun t ht => h t (ht.trans (List.suffix_cons c cs))]
    rfl

/-- The pattern matches no newline. -/
def Inline : Pattern → Prop
  | empty => True
  | one p => p '\n' = false
  | repeated _ p => p '\n' = false
  | seq r s => r.Inline ∧ s.Inline
  | maybe r => r.Inline
  | group r => r.Inline

theorem inline_after {word : List Char} (hword : '\n' ∉ word) (hr : r.Inline) :
    (after word r).Inline := by
  induction word with
  | nil => exact hr
  | cons c word ih =>
    rw [List.mem_cons, not_or] at hword
    exact ⟨decide_eq_false hword.1, ih hword.2⟩

theorem spans_append_newline (hp : p '\n' = false) (cs tail : List Char) :
    spans p least (cs ++ '\n' :: tail)
      = (spans p least cs).map fun s => (s.1, s.2 ++ '\n' :: tail) := by
  induction cs generalizing least with
  | nil => by_cases hleast : least = 0 <;> simp [spans, hp, hleast]
  | cons c cs ih =>
    rw [List.cons_append, spans, spans, ih]
    by_cases hleast : least = 0 <;> by_cases hc : p c = true <;> simp [hleast, hc]

/-- What follows a newline has no part in the ways before it. -/
theorem ways_append_newline (hr : r.Inline) (cs tail : List Char) :
    r.ways (cs ++ '\n' :: tail) = (r.ways cs).map (Way.extend · ('\n' :: tail)) := by
  induction r generalizing cs with
  | empty => rfl
  | one p =>
    cases cs with
    | nil =>
      have hnewline : ¬ p '\n' = true := by
        rw [show p '\n' = false from hr]
        simp
      rw [List.nil_append, ways, ways, if_neg hnewline]
      rfl
    | cons c cs =>
      rw [List.cons_append, ways, ways]
      split
      · rfl
      · rfl
  | repeated least p =>
    rw [ways, ways, spans_append_newline hr, List.map_map, List.map_map]
    rfl
  | seq r s ihr ihs =>
    obtain ⟨hr, hs⟩ := hr
    rw [ways, ways, ihr hr, List.flatMap_map, List.map_flatMap]
    congr 1
    funext w
    rw [show (w.extend ('\n' :: tail)).rest = w.rest ++ '\n' :: tail from rfl, ihs hs,
      List.map_map, List.map_map]
    rfl
  | maybe r ih =>
    rw [ways, ways, ih hr, List.map_append]
    rfl
  | group r ih =>
    rw [ways, ways, ih hr, List.map_map, List.map_map]
    rfl

theorem search?_append_newline (hr : r.Inline) (cs tail : List Char) :
    r.search? (cs ++ '\n' :: tail)
      = ((r.search? cs).map (Way.extend · ('\n' :: tail))).or (r.search? tail) := by
  induction cs with
  | nil =>
    have hways := ways_append_newline hr [] tail
    rw [List.nil_append] at hways ⊢
    simp only [search?, hways, List.head?_map]
  | cons c cs ih =>
    have hways := ways_append_newline hr (c :: cs) tail
    rw [List.cons_append] at hways ⊢
    rw [search?, hways, List.head?_map, ih, search?]
    cases ((r.ways (c :: cs)).head?) <;> simp

end Pattern

end LuaDiagnostics
