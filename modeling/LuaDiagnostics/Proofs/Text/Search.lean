/-
What the searches of a text find.

A search is described by concatenation: the text is what stands before, what was looked
for, and what stands after, and no such cut lies further in the direction that counts.

* **`splitLastChar?_eq_some_iff`**: nothing of the class stands after the character.
* **`splitFirst?_eq_some_iff`**, **`splitLast?_eq_some_iff`**: every other occurrence of
  the word has at least as much before it, or after it; **`firstIndex?_eq_some_iff`** says
  the same of the place alone.
* **`splitAll_induction`**, **`pieces_induction`**: what holds of sequences without
  separators, and goes from a sequence to one with a further piece in front, holds of all.
-/
import LuaDiagnostics.Text.Lines
import Mathlib.Data.List.TakeWhile
import Mathlib.Data.Nat.Init

namespace LuaDiagnostics.Text

universe u

/-! ### The last character of a class -/

theorem splitLastChar?_eq_some_iff {p : Char → Bool} {cs before after : List Char}
    {c : Char} :
    splitLastChar? p cs = some (before, c, after) ↔
      cs = before ++ c :: after ∧ p c = true ∧ ∀ x ∈ after, p x = false := by
  constructor
  · intro h
    rw [splitLastChar?] at h
    have hcut : cs.reverse.takeWhile (fun c => !p c) ++ cs.reverse.dropWhile (fun c => !p c)
        = cs.reverse := List.takeWhile_append_dropWhile
    split at h
    · exact absurd h (by simp)
    · rename_i d passed hdrop
      obtain ⟨rfl, rfl, rfl⟩ : passed.reverse = before ∧ d = c ∧ _ = after := by
        simpa using h
      refine ⟨?_, ?_, fun x hx => ?_⟩
      · rw [hdrop] at hcut
        have hrev := congrArg List.reverse hcut
        rw [List.reverse_reverse] at hrev
        refine hrev.symm.trans ?_
        simp
      · have hhead := List.head?_dropWhile_not (fun c => !p c) cs.reverse
        rw [hdrop] at hhead
        simpa using hhead
      · have htake := List.mem_takeWhile_imp (List.mem_reverse.mp hx)
        simpa using htake
  · rintro ⟨rfl, hc, hafter⟩
    -- From the right, exactly the characters of `after` are passed.
    have hpassed : ∀ x ∈ after.reverse, (!p x) = true := fun x hx => by
      rw [hafter x (List.mem_reverse.mp hx)]
      rfl
    have hrev : (before ++ c :: after).reverse = after.reverse ++ c :: before.reverse := by
      simp
    rw [splitLastChar?, hrev, List.dropWhile_append_of_pos hpassed,
      List.takeWhile_append_of_pos hpassed]
    simp [hc]

theorem splitLastChar?_eq_none_iff {p : Char → Bool} {cs : List Char} :
    splitLastChar? p cs = none ↔ ∀ x ∈ cs, p x = false := by
  constructor
  · intro h
    rw [splitLastChar?] at h
    split at h
    · rename_i hdrop
      rw [List.dropWhile_eq_nil_iff] at hdrop
      intro x hx
      simpa using hdrop x (List.mem_reverse.mpr hx)
    · exact absurd h (by simp)
  · intro hall
    cases h : splitLastChar? p cs with
    | none => rfl
    | some cut =>
      obtain ⟨before, c, after⟩ := cut
      obtain ⟨rfl, hc, -⟩ := splitLastChar?_eq_some_iff.mp h
      rw [hall c (by simp)] at hc
      exact absurd hc (by simp)

/-- The last character of a class lies at or behind every character of the class. -/
theorem exists_splitLastChar? {p : Char → Bool} {c : Char} (before after : List Char)
    (hc : p c = true) : ∃ behind last rest,
      splitLastChar? p (before ++ c :: after) = some (before ++ behind, last, rest) := by
  cases h : splitLastChar? p (before ++ c :: after) with
  | none =>
    rw [splitLastChar?_eq_none_iff.mp h c (by simp)] at hc
    exact absurd hc (by simp)
  | some cut =>
    obtain ⟨before', last, rest⟩ := cut
    obtain ⟨hcut, -, hrest⟩ := splitLastChar?_eq_some_iff.mp h
    rcases List.append_eq_append_iff.mp hcut with ⟨behind, rfl, -⟩ | ⟨front, rfl, hfront⟩
    · exact ⟨behind, last, rest, rfl⟩
    · cases front with
      | nil => exact ⟨[], last, rest, by simp⟩
      | cons d front =>
        -- The character would stand behind the last one of its class.
        obtain ⟨-, rfl⟩ := List.cons.inj hfront
        rw [hrest c (by simp)] at hc
        exact absurd hc (by simp)

/-! ### Words -/

section
variable {α : Type u} [BEq α] [LawfulBEq α]

theorem splitFirstFrom?_eq_some_iff {word passed cs before after : List α} :
    splitFirstFrom? word passed cs = some (before, after) ↔
      ∃ skipped, before = passed.reverse ++ skipped ∧ cs = skipped ++ (word ++ after) ∧
        ∀ b a, cs = b ++ (word ++ a) → skipped.length ≤ b.length := by
  induction cs generalizing passed with
  | nil =>
    rw [splitFirstFrom?]
    constructor
    · intro h
      cases word with
      | nil =>
        obtain ⟨rfl, rfl⟩ : passed.reverse = before ∧ [] = after := by simpa using h
        exact ⟨[], by simp, rfl, fun b a _ => Nat.zero_le _⟩
      | cons w word => exact absurd h (by simp)
    · rintro ⟨skipped, rfl, hcs, -⟩
      obtain ⟨rfl, hnil⟩ := List.append_eq_nil_iff.mp hcs.symm
      obtain ⟨rfl, rfl⟩ := List.append_eq_nil_iff.mp hnil
      simp
  | cons c rest ih =>
    rw [splitFirstFrom?]
    by_cases hword : word <+: c :: rest
    · rw [if_pos (List.isPrefixOf_iff_prefix.mpr hword)]
      obtain ⟨behind, hbehind⟩ := hword
      rw [← hbehind, List.drop_left]
      constructor
      · intro h
        obtain ⟨rfl, rfl⟩ : passed.reverse = before ∧ behind = after := by simpa using h
        exact ⟨[], by simp, rfl, fun b a _ => Nat.zero_le _⟩
      · rintro ⟨skipped, rfl, hcs, hfirst⟩
        have hzero := hfirst [] behind rfl
        obtain rfl : skipped = [] := List.eq_nil_of_length_eq_zero (Nat.le_zero.mp hzero)
        obtain rfl : behind = after := List.append_cancel_left hcs
        simp
    · rw [if_neg (fun h => hword (List.isPrefixOf_iff_prefix.mp h)), ih]
      -- No cut has nothing before the word, so the cuts of the rest are all there are.
      constructor
      · rintro ⟨skipped, rfl, rfl, hfirst⟩
        refine ⟨c :: skipped, by simp, rfl, fun b a hcs => ?_⟩
        cases b with
        | nil => exact absurd ⟨a, hcs.symm⟩ hword
        | cons d b =>
          obtain ⟨-, hrest⟩ := List.cons.inj hcs
          exact Nat.succ_le_succ (hfirst b a hrest)
      · rintro ⟨skipped, rfl, hcs, hfirst⟩
        cases skipped with
        | nil => exact absurd ⟨after, hcs.symm⟩ hword
        | cons d skipped =>
          obtain ⟨rfl, hrest⟩ := List.cons.inj hcs
          refine ⟨skipped, by simp, hrest, fun b a hb => ?_⟩
          exact Nat.le_of_succ_le_succ (hfirst (c :: b) a (congrArg (c :: ·) hb))

theorem splitFirst?_eq_some_iff {word cs before after : List α} :
    splitFirst? word cs = some (before, after) ↔
      cs = before ++ (word ++ after) ∧
        ∀ b a, cs = b ++ (word ++ a) → before.length ≤ b.length := by
  rw [splitFirst?, splitFirstFrom?_eq_some_iff]
  constructor
  · rintro ⟨skipped, rfl, hcut⟩
    exact hcut
  · intro hcut
    exact ⟨before, rfl, hcut⟩

theorem splitFirstFrom?_ne_none {word passed before after : List α} :
    splitFirstFrom? word passed (before ++ (word ++ after)) ≠ none := by
  induction before generalizing passed with
  | nil =>
    cases word with
    | nil => cases after <;> simp [splitFirstFrom?]
    | cons w word => simp [splitFirstFrom?]
  | cons c before ih =>
    rw [List.cons_append, splitFirstFrom?]
    split
    · simp
    · exact ih

theorem splitFirst?_eq_none_iff {word cs : List α} :
    splitFirst? word cs = none ↔ ∀ b a, cs ≠ b ++ (word ++ a) := by
  constructor
  · rintro h b a rfl
    exact splitFirstFrom?_ne_none h
  · intro hnone
    cases h : splitFirst? word cs with
    | none => rfl
    | some cut => exact absurd (splitFirst?_eq_some_iff.mp h).1 (hnone _ _)

omit [LawfulBEq α] in
theorem firstIndexFrom?_eq_map (word passed cs : List α) :
    firstIndexFrom? word passed.length cs
      = (splitFirstFrom? word passed cs).map fun cut => cut.1.length := by
  induction cs generalizing passed with
  | nil =>
    rw [firstIndexFrom?, splitFirstFrom?]
    split
    · simp
    · rfl
  | cons c rest ih =>
    rw [firstIndexFrom?, splitFirstFrom?]
    split
    · simp
    · exact ih (c :: passed)

omit [LawfulBEq α] in
theorem firstIndex?_eq_map (word cs : List α) :
    firstIndex? word cs = (splitFirst? word cs).map fun cut => cut.1.length :=
  firstIndexFrom?_eq_map word [] cs

theorem firstIndex?_eq_some_iff {word cs : List α} {index : Nat} :
    firstIndex? word cs = some index ↔
      ∃ before after, cs = before ++ (word ++ after) ∧ before.length = index ∧
        ∀ b a, cs = b ++ (word ++ a) → index ≤ b.length := by
  rw [firstIndex?_eq_map, Option.map_eq_some_iff]
  constructor
  · rintro ⟨⟨before, after⟩, hcut, rfl⟩
    obtain ⟨hcs, hfirst⟩ := splitFirst?_eq_some_iff.mp hcut
    exact ⟨before, after, hcs, rfl, hfirst⟩
  · rintro ⟨before, after, hcs, rfl, hfirst⟩
    exact ⟨(before, after), splitFirst?_eq_some_iff.mpr ⟨hcs, hfirst⟩, rfl⟩

theorem firstIndex?_eq_none_iff {word cs : List α} :
    firstIndex? word cs = none ↔ ∀ b a, cs ≠ b ++ (word ++ a) := by
  rw [firstIndex?_eq_map, Option.map_eq_none_iff, splitFirst?_eq_none_iff]

omit [BEq α] [LawfulBEq α] in
/-- Reversed, a text is cut around the reversed word, before and after changing places. -/
theorem reverse_eq_cut_iff {word cs b a : List α} :
    cs.reverse = a.reverse ++ (word.reverse ++ b.reverse) ↔ cs = b ++ (word ++ a) := by
  rw [← List.reverse_inj]
  simp

theorem splitLast?_eq_some_iff {word cs before after : List α} :
    splitLast? word cs = some (before, after) ↔
      cs = before ++ (word ++ after) ∧
        ∀ b a, cs = b ++ (word ++ a) → after.length ≤ a.length := by
  have hmap : splitLast? word cs = some (before, after) ↔
      splitFirst? word.reverse cs.reverse = some (after.reverse, before.reverse) := by
    rw [splitLast?, Option.map_eq_some_iff]
    constructor
    · rintro ⟨⟨x, y⟩, h, heq⟩
      obtain ⟨rfl, rfl⟩ : y.reverse = before ∧ x.reverse = after := by simpa using heq
      simpa using h
    · intro h
      exact ⟨_, h, by simp⟩
  rw [hmap, splitFirst?_eq_some_iff, reverse_eq_cut_iff, List.length_reverse]
  refine and_congr_right fun _ => ⟨fun hfirst b a hcut => ?_, fun hlast b a hcut => ?_⟩
  · simpa using hfirst a.reverse b.reverse (reverse_eq_cut_iff.mpr hcut)
  · have hcut' : cs = a.reverse ++ (word ++ b.reverse) := by
      refine reverse_eq_cut_iff.mp ?_
      simpa using hcut
    simpa using hlast _ _ hcut'

theorem splitLast?_eq_none_iff {word cs : List α} :
    splitLast? word cs = none ↔ ∀ b a, cs ≠ b ++ (word ++ a) := by
  rw [splitLast?, Option.map_eq_none_iff, splitFirst?_eq_none_iff]
  constructor
  · intro hnone b a hcut
    exact hnone a.reverse b.reverse (reverse_eq_cut_iff.mpr hcut)
  · intro hnone b a hcut
    refine hnone a.reverse b.reverse (reverse_eq_cut_iff.mp ?_)
    simpa using hcut

/-- The last occurrence of a word begins at or behind every occurrence. -/
theorem exists_splitLast? (word before after : List α) : ∃ behind rest,
    splitLast? word (before ++ (word ++ after)) = some (before ++ behind, rest) := by
  cases h : splitLast? word (before ++ (word ++ after)) with
  | none => exact absurd rfl (splitLast?_eq_none_iff.mp h before after)
  | some cut =>
    obtain ⟨before', rest⟩ := cut
    obtain ⟨hcut, hlast⟩ := splitLast?_eq_some_iff.mp h
    have hlength := congrArg List.length hcut
    have hrest := hlast before after rfl
    simp only [List.length_append] at hlength
    obtain ⟨behind, rfl⟩ := List.prefix_of_prefix_length_le
      (List.prefix_append before (word ++ after)) ⟨_, hcut.symm⟩ (by omega)
    exact ⟨behind, rest, rfl⟩

end

/-! ### The pieces between newlines -/

/-- A sequence without separators is one piece. -/
theorem splitAll_of_forall {α : Type u} {p : α → Bool} {cs : List α}
    (h : ∀ x ∈ cs, p x = false) : splitAll p cs = [cs] := by
  induction cs with
  | nil => rfl
  | cons c cs ih =>
    rw [List.forall_mem_cons] at h
    rw [splitAll_cons, ih h.2]
    simp [consPiece, h.1]

/-- The separators of a sequence cut it, whatever stands between them. -/
theorem splitAll_append_of_separator {α : Type u} {p : α → Bool} {c : α} (as bs : List α)
    (hc : p c = true) : splitAll p (as ++ c :: bs) = splitAll p as ++ splitAll p bs := by
  induction as with
  | nil => simp [splitAll_cons, consPiece, hc]
  | cons a as ih =>
    obtain ⟨piece, rest, hsplit⟩ := List.exists_cons_of_ne_nil (splitAll_ne_nil p as)
    rw [List.cons_append, splitAll_cons, ih, splitAll_cons, hsplit]
    cases ha : p a with
    | true => simp [consPiece, ha]
    | false => simp [consPiece, ha]

/-- What stands before the first separator is the first piece. -/
theorem splitAll_append_cons {α : Type u} {p : α → Bool} {piece tail : List α} {c : α}
    (h : ∀ x ∈ piece, p x = false) (hc : p c = true) :
    splitAll p (piece ++ c :: tail) = piece :: splitAll p tail := by
  rw [splitAll_append_of_separator piece tail hc, splitAll_of_forall h, List.singleton_append]

theorem forall_ne_newline {cs : List Char} (h : '\n' ∉ cs) :
    ∀ x ∈ cs, decide (x = '\n') = false := by
  intro x hx
  refine decide_eq_false ?_
  rintro rfl
  exact h hx

theorem pieces_of_not_mem {cs : List Char} (h : '\n' ∉ cs) : pieces cs = [cs] :=
  splitAll_of_forall (forall_ne_newline h)

theorem pieces_append {piece : List Char} (tail : List Char) (h : '\n' ∉ piece) :
    pieces (piece ++ '\n' :: tail) = piece :: pieces tail :=
  splitAll_append_cons (forall_ne_newline h) (decide_eq_true rfl)

/-- A sequence holds no separator, or a first one. -/
theorem forall_or_exists_first {α : Type u} (p : α → Bool) (cs : List α) :
    (∀ x ∈ cs, p x = false) ∨ ∃ piece c tail,
      (∀ x ∈ piece, p x = false) ∧ p c = true ∧ cs = piece ++ c :: tail := by
  induction cs with
  | nil => exact .inl fun x hx => absurd hx List.not_mem_nil
  | cons d cs ih =>
    cases hd : p d with
    | true => exact .inr ⟨[], d, cs, fun x hx => absurd hx List.not_mem_nil, hd, rfl⟩
    | false =>
      rcases ih with hall | ⟨piece, c, tail, hpiece, hc, rfl⟩
      · exact .inl (List.forall_mem_cons.mpr ⟨hd, hall⟩)
      · exact .inr ⟨d :: piece, c, tail, List.forall_mem_cons.mpr ⟨hd, hpiece⟩, hc, rfl⟩

@[elab_as_elim]
theorem splitAll_induction {α : Type u} (p : α → Bool) {motive : List α → Prop}
    (last : ∀ piece, (∀ x ∈ piece, p x = false) → motive piece)
    (more : ∀ piece c tail, (∀ x ∈ piece, p x = false) → p c = true → motive tail →
      motive (piece ++ c :: tail))
    (cs : List α) : motive cs := by
  induction h : cs.length using Nat.strong_induction_on generalizing cs with
  | _ n ih =>
    rcases forall_or_exists_first p cs with hcs | ⟨piece, c, tail, hpiece, hc, rfl⟩
    · exact last cs hcs
    · refine more piece c tail hpiece hc (ih tail.length ?_ tail rfl)
      rw [← h, List.length_append, List.length_cons]
      omega

@[elab_as_elim]
theorem pieces_induction {motive : List Char → Prop}
    (last : ∀ piece, '\n' ∉ piece → motive piece)
    (more : ∀ piece tail, '\n' ∉ piece → motive tail → motive (piece ++ '\n' :: tail))
    (cs : List Char) : motive cs := by
  have hnone : ∀ piece : List Char, (∀ x ∈ piece, decide (x = '\n') = false) → '\n' ∉ piece :=
    fun piece hpiece hmem => absurd (hpiece _ hmem) (by simp)
  induction cs using splitAll_induction (· = '\n') with
  | last piece hpiece => exact last piece (hnone piece hpiece)
  | more piece c tail hpiece hc ih =>
    obtain rfl := of_decide_eq_true hc
    exact more piece tail (hnone piece hpiece) ih

theorem not_mem_of_mem_pieces {cs piece : List Char} (h : piece ∈ pieces cs) :
    '\n' ∉ piece := by
  induction cs using pieces_induction with
  | last cs hcs =>
    rw [pieces_of_not_mem hcs] at h
    rw [List.mem_singleton.mp h]
    exact hcs
  | more first tail hfirst ih =>
    rw [pieces_append tail hfirst] at h
    rcases List.mem_cons.mp h with rfl | h
    · exact hfirst
    · exact ih h

end LuaDiagnostics.Text
