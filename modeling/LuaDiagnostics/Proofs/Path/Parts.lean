/-
The parts of a path, however it is spelled.

Doubled slashes, slashes at the end and `.` add no parts to a path, except that a `.` that
begins a relative path is one.

* **`parent?_cases`**: the ways in which a path can have a parent or none.
* **`of_above?_eq_some`**: what lies some steps above a path is a beginning of it that has so
  many parts less; **`isSome_above?_iff`**: there is something there as long as parts are left.
-/
import LuaDiagnostics.Proofs.Path.Ancestors
import LuaDiagnostics.Proofs.Text.Search

namespace LuaDiagnostics.Path

variable {p q : Path}

/-! ### The parts that count -/

/-- A part that counts for something. -/
def counts (part : List Char) : Bool := part ≠ [] ∧ part ≠ ['.']

/-- The parts of a text that count. -/
def namedIn (cs : List Char) : List (List Char) :=
  (Text.splitAll (· = '/') cs).filter counts

/-- The parts of a path that count; a `.` that begins a relative path is one. -/
def namedParts (p : Path) : List (List Char) :=
  (if p.mark = ['.'] then [['.']] else []) ++ namedIn p.behind

/-! ### Reading from right to left -/

theorem lastPart_append (body : List Char) :
    body = lastPart body ∧ dropLastPart body = [] ∨
      body = lastPart body ++ '/' :: dropLastPart body := by
  have hcut : lastPart body ++ body.dropWhile (· ≠ '/') = body :=
    List.takeWhile_append_dropWhile
  rw [dropLastPart]
  cases hbehind : body.dropWhile (· ≠ '/') with
  | nil =>
    rw [hbehind, List.append_nil] at hcut
    exact .inl ⟨hcut.symm, List.drop_nil⟩
  | cons c rest =>
    have hc : c = '/' := by
      have hhead := List.head?_dropWhile_not (· ≠ '/') body
      rw [hbehind] at hhead
      simpa using hhead
    rw [hbehind, hc] at hcut
    exact .inr hcut.symm

theorem slash_not_mem_lastPart (body : List Char) :
    ∀ c ∈ (lastPart body).reverse, decide (c = '/') = false := by
  intro c hc
  simpa using List.mem_takeWhile_imp (List.mem_reverse.mp hc)

/-- The last part comes last, if it counts. -/
theorem namedIn_reverse (body : List Char) : namedIn body.reverse
    = namedIn (dropLastPart body).reverse ++ [(lastPart body).reverse].filter counts := by
  have hlast := Text.splitAll_of_forall (slash_not_mem_lastPart body)
  rcases lastPart_append body with ⟨hbody, hdropped⟩ | hbody
  · rw [← hbody] at hlast ⊢
    rw [hdropped, namedIn, hlast]
    rfl
  · have hreverse : body.reverse
        = (dropLastPart body).reverse ++ '/' :: (lastPart body).reverse := by
      refine (congrArg List.reverse hbody).trans ?_
      rw [List.reverse_append, List.reverse_cons, List.append_assoc, List.singleton_append]
    have hslash : decide ('/' = '/') = true := decide_eq_true rfl
    rw [namedIn, hreverse, Text.splitAll_append_of_separator (p := (decide <| · = '/')) _ _ hslash,
      hlast, List.filter_append, namedIn]

theorem counts_reverse_eq_false_iff {part : List Char} :
    counts part.reverse = false ↔ part = [] ∨ part = ['.'] := by
  rw [counts, decide_eq_false_iff_not, not_and_or, not_not, not_not,
    List.reverse_eq_nil_iff, List.reverse_eq_iff]
  rfl

/-- Trimming drops nothing that counts. -/
theorem namedIn_trimIdle (body : List Char) :
    namedIn (trimIdle body).reverse = namedIn body.reverse := by
  induction body using trimIdle.induct with
  | case1 => rw [trimIdle_nil]
  | case2 c rest hidle ih =>
    have hcounts : ¬ counts (lastPart (c :: rest)).reverse = true := by
      rw [counts_reverse_eq_false_iff.mpr hidle]
      exact Bool.false_ne_true
    rw [trimIdle_of_idle hidle, ih, namedIn_reverse (c :: rest),
      List.filter_cons_of_neg hcounts, List.filter_nil, List.append_nil]
  | case3 c rest hidle => rw [trimIdle_of_not_idle hidle]

/-- What trimming leaves ends with a part that counts. -/
theorem counts_lastPart_trimIdle {body : List Char} (h : trimIdle body ≠ []) :
    counts (lastPart (trimIdle body)).reverse = true := by
  induction body using trimIdle.induct with
  | case1 => exact absurd trimIdle_nil h
  | case2 c rest hidle ih =>
    rw [trimIdle_of_idle hidle] at h ⊢
    exact ih h
  | case3 c rest hidle =>
    rw [trimIdle_of_not_idle hidle]
    exact Bool.of_not_eq_false fun heq => hidle (counts_reverse_eq_false_iff.mp heq)

theorem trimIdle_ne_dot (body : List Char) : trimIdle body ≠ ['.'] := by
  intro heq
  have hne : trimIdle body ≠ [] := by
    rw [heq]
    exact List.cons_ne_nil _ _
  have hcounts := counts_lastPart_trimIdle hne
  rw [heq] at hcounts
  exact absurd hcounts (by decide)

/-! ### One step up -/

/-- What a parent is, if there is one: nothing if only a `.` can be dropped, and else what
stands before the last part that counts. -/
theorem parent?_cases (p : Path) :
    (p.namedParts = [] ∧ p.parent? = none) ∨
    (p.namedParts = [['.']] ∧ p.mark = ['.'] ∧ p.parent? = some ⟨""⟩) ∨
    ∃ head part, head <+: p.behind ∧ head ≠ ['.'] ∧ namedIn p.behind = namedIn head ++ [part] ∧
      p.parent? = some (ofChars (p.mark ++ head)) := by
  have hkept := namedIn_trimIdle p.behind.reverse
  rw [List.reverse_reverse] at hkept
  cases hbody : trimIdle p.behind.reverse with
  | nil =>
    have hparent := parent?_of_nil hbody
    rw [hbody] at hkept
    by_cases hmark : p.mark = ['.']
    · refine .inr (.inl ⟨?_, hmark, hparent.trans (if_pos hmark)⟩)
      rw [namedParts, if_pos hmark, ← hkept]
      rfl
    · refine .inl ⟨?_, hparent.trans (if_neg hmark)⟩
      rw [namedParts, if_neg hmark, ← hkept]
      rfl
  | cons c rest =>
    rw [hbody] at hkept
    have hsuffix : trimIdle (dropLastPart (c :: rest)) <:+ p.behind.reverse := by
      refine ((trimIdle_suffix _).trans (dropLastPart_suffix _)).trans ?_
      rw [← hbody]
      exact trimIdle_suffix _
    have hlast : counts (lastPart (c :: rest)).reverse = true := by
      rw [← hbody]
      refine counts_lastPart_trimIdle ?_
      rw [hbody]
      exact List.cons_ne_nil _ _
    refine .inr (.inr ⟨_, (lastPart (c :: rest)).reverse, ?_, ?_, ?_, parent?_of_cons hbody⟩)
    · rw [← List.reverse_suffix, List.reverse_reverse]
      exact hsuffix
    · rw [ne_eq, List.reverse_eq_iff]
      exact trimIdle_ne_dot _
    · rw [← hkept, namedIn_reverse, namedIn_trimIdle, List.filter_cons_of_pos hlast,
        List.filter_nil]

/-- A beginning of what stands behind the mark has the same mark, unless it is a `.`. -/
theorem anchor_mark_append {head : List Char} (h : head <+: p.behind) (hdot : head ≠ ['.']) :
    anchor (p.mark ++ head) = anchor p.chars := by
  obtain ⟨rest, hrest⟩ := h
  rw [mark]
  rw [behind] at hrest
  generalize p.chars = cs at *
  revert hrest
  unfold anchor
  split
  · intro _
    rfl
  · intro hrest
    obtain ⟨rfl, -⟩ := List.append_eq_nil_iff.mp hrest
    rfl
  · intro hrest
    cases head with
    | nil => rfl
    | cons c head =>
      obtain rfl : c = '/' := (List.cons.inj hrest).1
      rfl
  · rename_i hroot _ hrelative
    intro hrest
    rw [List.drop_zero] at hrest
    rw [List.take_zero, List.nil_append]
    split
    · exact absurd hrest.symm (hroot _)
    · exact absurd rfl hdot
    · exact absurd hrest.symm (hrelative _)
    · rfl

theorem length_mark (p : Path) : p.mark.length = anchor p.chars := by
  have hle : anchor p.chars ≤ p.chars.length := by
    generalize p.chars = cs
    unfold anchor
    split <;> simp
  rw [mark, List.length_take, Nat.min_eq_left hle]

theorem namedParts_mark_append {head : List Char} (h : head <+: p.behind)
    (hdot : head ≠ ['.']) : (ofChars (p.mark ++ head)).namedParts
      = (if p.mark = ['.'] then [['.']] else []) ++ namedIn head := by
  have hmark : (ofChars (p.mark ++ head)).mark = p.mark := by
    rw [mark, chars_ofChars, anchor_mark_append h hdot, List.take_left' p.length_mark]
  have hbehind : (ofChars (p.mark ++ head)).behind = head := by
    rw [behind, chars_ofChars, anchor_mark_append h hdot, List.drop_left' p.length_mark]
  rw [namedParts, hmark, hbehind]

/-- A beginning starts at the root if the whole does, unless it is empty. -/
theorem isAbsolute_of_prefix (h : q.chars <+: p.chars)
    (hempty : q.chars = [] → p.isAbsolute = false) : q.isAbsolute = p.isAbsolute := by
  obtain ⟨rest, hrest⟩ := h
  cases hchars : q.chars with
  | nil =>
    rw [hempty hchars, isAbsolute, hchars]
    rfl
  | cons c cs =>
    rw [isAbsolute, isAbsolute, ← hrest, hchars]
    rfl

theorem isAbsolute_eq_false (h : p.mark ≠ ['/']) : p.isAbsolute = false := by
  rw [isAbsolute, decide_eq_false_iff_not]
  intro hhead
  obtain ⟨rest, hchars⟩ := List.head?_eq_some_iff.mp hhead
  refine h ?_
  rw [mark, hchars]
  rfl

/-- The parent of a path has the parts of the path but the last, is a beginning of it, and
starts at the root if it does. -/
theorem of_parent?_eq_some (h : p.parent? = some q) :
    q.namedParts = p.namedParts.dropLast ∧ q.chars <+: p.chars ∧
      q.isAbsolute = p.isAbsolute := by
  rcases p.parent?_cases with ⟨-, hnone⟩ | ⟨hparts, hmark, hsome⟩ |
    ⟨head, part, hprefix, hdot, hparts, hsome⟩
  · exact absurd (hnone.symm.trans h) nofun
  · obtain rfl := Option.some.inj (hsome.symm.trans h)
    refine ⟨?_, List.nil_prefix, ?_⟩
    · rw [hparts]
      rfl
    · refine (isAbsolute_eq_false ?_).symm
      rw [hmark]
      decide
  · obtain rfl := Option.some.inj (hsome.symm.trans h)
    have hchars : (ofChars (p.mark ++ head)).chars <+: p.chars := by
      rw [chars_ofChars, ← List.take_append_drop (anchor p.chars) p.chars]
      exact (List.prefix_append_right_inj _).mpr hprefix
    refine ⟨?_, hchars, isAbsolute_of_prefix hchars fun hempty => isAbsolute_eq_false ?_⟩
    · rw [namedParts_mark_append hprefix hdot, namedParts, hparts, ← List.append_assoc,
        List.dropLast_concat]
    · rw [chars_ofChars] at hempty
      rw [(List.append_eq_nil_iff.mp hempty).1]
      decide

theorem parent?_eq_none_iff : p.parent? = none ↔ p.namedParts = [] := by
  rcases p.parent?_cases with ⟨hparts, hnone⟩ | ⟨hparts, -, hsome⟩ |
    ⟨head, part, -, -, hparts, hsome⟩
  · exact ⟨fun _ => hparts, fun _ => hnone⟩
  · rw [hsome, hparts]
    exact ⟨nofun, nofun⟩
  · rw [hsome, namedParts, hparts, ← List.append_assoc]
    exact ⟨nofun, fun h => absurd h (List.concat_ne_nil _ _)⟩

/-! ### Any number of steps -/

/-- What lies some steps above a path has so many parts less. -/
theorem of_above?_eq_some {n : Nat} (h : above? n p = some q) :
    q.namedParts = p.namedParts.take (p.namedParts.length - n) ∧ q.chars <+: p.chars ∧
      q.isAbsolute = p.isAbsolute := by
  induction n generalizing p with
  | zero =>
    obtain rfl := Option.some.inj h
    exact ⟨(List.take_length).symm, List.prefix_refl _, rfl⟩
  | succ n ih =>
    obtain ⟨parent, hparent, habove⟩ := Option.bind_eq_some_iff.mp h
    obtain ⟨hparts, hchars, habsolute⟩ := of_parent?_eq_some hparent
    obtain ⟨hparts', hchars', habsolute'⟩ := ih habove
    refine ⟨?_, hchars'.trans hchars, habsolute'.trans habsolute⟩
    rw [hparts', hparts, List.length_dropLast, List.dropLast_eq_take, List.take_take]
    congr 1
    omega

/-- There is as much above a path as it has parts. -/
theorem isSome_above?_iff (n : Nat) :
    (above? n p).isSome = true ↔ n ≤ p.namedParts.length := by
  induction n generalizing p with
  | zero => exact ⟨fun _ => Nat.zero_le _, fun _ => rfl⟩
  | succ n ih =>
    rw [above?]
    cases hparent : p.parent? with
    | none =>
      rw [parent?_eq_none_iff.mp hparent]
      exact iff_of_false Bool.false_ne_true (Nat.not_succ_le_zero n)
    | some q =>
      have hne : p.namedParts ≠ [] := by
        rw [ne_eq, ← parent?_eq_none_iff, hparent]
        exact Option.some_ne_none q
      have hlength := List.length_pos_iff.mpr hne
      rw [Option.bind_some, ih, (of_parent?_eq_some hparent).1, List.length_dropLast]
      omega

end LuaDiagnostics.Path
