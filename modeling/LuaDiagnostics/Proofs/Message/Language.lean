/-
The language of complaints.

A compiler's output is searched for the pattern

  `(?:.+: )?.+:([0-9]+): (.+) near.*[<'](.*)['>]`

from its first character on, and what the three groups match is the number, the text and
the token.  The search tries all places and, at each, all ways of matching; here it is
shown to come to the cuts of single lines.

* **`parse_language`**: what is read is what the search finds.  It is decided by the
  first line that can be cut, at the rightmost cut of that line, and by the number there.
* The optional beginning of the pattern decides nothing (`search?_barePattern` and
  `search?_outputPattern` are the same).

The proof goes through the pattern from right to left.  At each repetition, a longer run
that the rest of the pattern could match behind would be a cut that has a part further to
the right than the rightmost cut has it.
-/
import LuaDiagnostics.Proofs.Message.Cut
import LuaDiagnostics.Proofs.Text.Pattern

namespace LuaDiagnostics.Message

open Pattern

/-! ### The pattern, from its end -/

/-- What `.` stands for. -/
def isInline (c : Char) : Bool := c ≠ '\n'

/-- The closing mark, `['>]`. -/
def closingPattern : Pattern := .seq (.one isClosing) .empty

/-- The token and what closes it, `(.*)['>]`. -/
def tokenPattern : Pattern := .seq (.group (.repeated 0 isInline)) closingPattern

/-- The marked token, `[<'](.*)['>]`. -/
def markedPattern : Pattern := .seq (.one isOpening) tokenPattern

/-- From the word ` near` on, ` near.*[<'](.*)['>]`. -/
def nearPattern : Pattern := .after nearWord (.seq (.repeated 0 isInline) markedPattern)

/-- From the text on, `(.+) near.*[<'](.*)['>]`. -/
def textPattern : Pattern := .seq (.group (.repeated 1 isInline)) nearPattern

/-- From the number on, `:([0-9]+): ` and the text. -/
def numberPattern : Pattern :=
  .after [':'] (.seq (.group (.repeated 1 isDigit)) (.after [':', ' '] textPattern))

/-- Everything but the process, `.+` and the number. -/
def barePattern : Pattern := .seq (.repeated 1 isInline) numberPattern

/-- The process, `.+: `. -/
def processPattern : Pattern := .seq (.repeated 1 isInline) (.after [':', ' '] .empty)

/-- The whole pattern, in which the process may be missing. -/
def outputPattern : Pattern := .seq (.maybe processPattern) barePattern

/-- Reads the groups of the first match of a pattern. -/
def readBy? (r : Pattern) (output : String) : Option Message :=
  (r.search? output.toList).bind fun w =>
    match w.groups with
    | [digits, text, token] => ofParts? { digits, text, token }
    | _ => none

/-! ### What is matched can be cut -/

theorem begins_closingPattern {cs : List Char} (h : closingPattern.Begins cs) :
    ∃ closing after, cs = closing :: after ∧ isClosing closing = true := by
  obtain ⟨closing, after, hcs, hclosing, -⟩ := begins_one_seq_iff.mp h
  exact ⟨closing, after, hcs, hclosing⟩

theorem begins_markedPattern {cs : List Char} (h : markedPattern.Begins cs) :
    ∃ opening token closing after, cs = opening :: (token ++ closing :: after) ∧
      isOpening opening = true ∧ isClosing closing = true := by
  obtain ⟨opening, rest, rfl, hopening, htoken⟩ := begins_one_seq_iff.mp h
  obtain ⟨token, rest, rfl, -, -, hclosing⟩ :=
    begins_repeated_seq_iff.mp (begins_group_seq_iff.mp htoken)
  obtain ⟨closing, after, rfl, hmark⟩ := begins_closingPattern hclosing
  exact ⟨opening, token, closing, after, rfl, hopening, hmark⟩

theorem begins_nearPattern {cs : List Char} (h : nearPattern.Begins cs) :
    ∃ junk opening token closing after,
      cs = nearWord ++ (junk ++ opening :: (token ++ closing :: after)) ∧
        isOpening opening = true ∧ isClosing closing = true := by
  obtain ⟨rest, rfl, hjunk⟩ := begins_after_iff.mp h
  obtain ⟨junk, rest, rfl, -, -, hmarked⟩ := begins_repeated_seq_iff.mp hjunk
  obtain ⟨opening, token, closing, after, rfl, hmarks⟩ := begins_markedPattern hmarked
  exact ⟨junk, opening, token, closing, after, rfl, hmarks⟩

/-- A line from its beginning to its end. -/
theorem Cut.line_eq (k : Cut) : k.line = k.before ++ ':' :: (k.digits ++ ':' :: ' ' ::
    (k.text ++ (nearWord ++ (k.junk ++ k.opening :: (k.token ++ k.closing :: k.after))))) := by
  simp [line, upToClosing, upToOpening, upToNear, heading]

theorem exists_cut_of_begins_numberPattern {before cs : List Char} (hbefore : before ≠ [])
    (h : numberPattern.Begins cs) : ∃ k : Cut, k.before = before ∧ k.line = before ++ cs := by
  obtain ⟨rest, rfl, hdigits⟩ := begins_after_iff.mp h
  obtain ⟨digits, rest, rfl, hall, hlength, hrest⟩ :=
    begins_repeated_seq_iff.mp (begins_group_seq_iff.mp hdigits)
  obtain ⟨rest, rfl, htext⟩ := begins_after_iff.mp hrest
  obtain ⟨text, rest, rfl, -, hlength', hnear⟩ :=
    begins_repeated_seq_iff.mp (begins_group_seq_iff.mp htext)
  obtain ⟨junk, opening, token, closing, after, rfl, hopening, hclosing⟩ :=
    begins_nearPattern hnear
  refine ⟨⟨before, digits, text, junk, opening, token, closing, after, hbefore,
    List.length_pos_iff.mp hlength, hall, List.length_pos_iff.mp hlength', hopening,
    hclosing⟩, rfl, ?_⟩
  rw [Cut.line_eq]
  rfl

theorem exists_cut_of_begins_barePattern {cs : List Char} (h : barePattern.Begins cs) :
    ∃ k : Cut, k.line = cs := by
  obtain ⟨before, rest, rfl, -, hlength, hnumber⟩ := begins_repeated_seq_iff.mp h
  obtain ⟨k, -, hline⟩ :=
    exists_cut_of_begins_numberPattern (List.length_pos_iff.mp hlength) hnumber
  exact ⟨k, hline⟩

theorem exists_cut_of_begins_outputPattern {cs : List Char} (h : outputPattern.Begins cs) :
    ∃ k : Cut, k.line = cs := by
  rcases begins_maybe_seq_iff.mp h with h | h
  · obtain ⟨w, hw, hrest⟩ := begins_seq_iff.mp h
    obtain ⟨k, hk⟩ := exists_cut_of_begins_barePattern hrest
    exact ⟨k.prepend w.matched, by rw [k.line_prepend, hk, append_of_mem_ways hw]⟩
  · exact exists_cut_of_begins_barePattern h

/-! ### What is matched first -/

section FirstWay

variable {k : Cut}

/-- What `.` has to match is on the line, so no newline is in it. -/
theorem isInline_of_mem (hline : '\n' ∉ k.line) :
    (∀ c ∈ k.before, isInline c = true) ∧ (∀ c ∈ k.text, isInline c = true) ∧
      (∀ c ∈ k.junk, isInline c = true) ∧ (∀ c ∈ k.token, isInline c = true) := by
  have hinline : ∀ c ∈ k.line, isInline c = true := by
    intro c hc
    refine decide_eq_true ?_
    rintro rfl
    exact hline hc
  rw [k.line_eq] at hinline
  refine ⟨fun c hc => hinline c ?_, fun c hc => hinline c ?_, fun c hc => hinline c ?_,
    fun c hc => hinline c ?_⟩ <;> simp [hc]

/-- The token goes up to the last closing mark. -/
theorem head?_ways_tokenPattern (hk : k.IsRightmost) (hline : '\n' ∉ k.line) :
    ∃ w, (tokenPattern.ways (k.token ++ k.closing :: k.after)).head? = some w ∧
      w.groups = [k.token] := by
  have hclosing : (closingPattern.ways (k.closing :: k.after)).head? = some _ :=
    head?_ways_one_seq k.isClosing_closing rfl
  refine ⟨_, head?_ways_group_repeated_seq (isInline_of_mem hline).2.2.2 (Nat.zero_le _)
    hclosing ?_, rfl⟩
  -- A longer token would end at a mark behind the last one.
  intro token rest hcut hlt _ hrest
  obtain ⟨closing, after, rfl, hmark⟩ := begins_closingPattern hrest
  let k' : Cut :=
    { k with token := token, closing := closing, after := after
             isClosing_closing := hmark }
  have hline' : k'.line = k.line := by
    rw [k.line_eq, hcut]
    exact k'.line_eq
  have hle := (hk.le hline').2.2.2
  rw [show k'.upToClosing = k.upToOpening ++ k.opening :: token from rfl, Cut.upToClosing,
    List.length_append, List.length_append, List.length_cons, List.length_cons] at hle
  omega

/-- The opening mark is the last one before that, and ` near` stands where it does. -/
theorem head?_ways_nearPattern (hk : k.IsRightmost) (hline : '\n' ∉ k.line) :
    ∃ w, (nearPattern.ways (nearWord ++
        (k.junk ++ k.opening :: (k.token ++ k.closing :: k.after)))).head? = some w ∧
      w.groups = [k.token] := by
  obtain ⟨w, htoken, hgroups⟩ := head?_ways_tokenPattern hk hline
  have hmarked : (markedPattern.ways (k.opening :: (k.token ++ k.closing :: k.after))).head?
      = some _ := head?_ways_one_seq k.isOpening_opening htoken
  obtain ⟨v, hjunk, hv⟩ : ∃ v, ((Pattern.seq (.repeated 0 isInline) markedPattern).ways
      (k.junk ++ k.opening :: (k.token ++ k.closing :: k.after))).head? = some v ∧
      v.groups = [k.token] := by
    refine ⟨_, head?_ways_repeated_seq (isInline_of_mem hline).2.2.1 (Nat.zero_le _)
      hmarked ?_, hgroups⟩
    -- More before the opening mark would take a mark behind it for it.
    intro junk rest hcut hlt _ hrest
    obtain ⟨opening, token, closing, after, rfl, hmark, hmark'⟩ := begins_markedPattern hrest
    let k' : Cut :=
      { k with junk := junk, opening := opening, token := token, closing := closing
               after := after, isOpening_opening := hmark, isClosing_closing := hmark' }
    have hline' : k'.line = k.line := by
      rw [k.line_eq, hcut]
      exact k'.line_eq
    have hle := (hk.le hline').2.2.1
    rw [show k'.upToOpening = k.upToNear ++ (nearWord ++ junk) from rfl, Cut.upToOpening,
      List.length_append, List.length_append, List.length_append, List.length_append] at hle
    omega
  exact ⟨_, head?_ways_after nearWord hjunk, hv⟩

/-- The text goes up to the last ` near` before that. -/
theorem head?_ways_textPattern (hk : k.IsRightmost) (hline : '\n' ∉ k.line) :
    ∃ w, (textPattern.ways (k.text ++ (nearWord ++
        (k.junk ++ k.opening :: (k.token ++ k.closing :: k.after))))).head? = some w ∧
      w.groups = [k.text, k.token] := by
  obtain ⟨w, hnear, hgroups⟩ := head?_ways_nearPattern hk hline
  refine ⟨_, head?_ways_group_repeated_seq (isInline_of_mem hline).2.1
    (List.length_pos_iff.mpr k.text_ne_nil) hnear ?_, congrArg (k.text :: ·) hgroups⟩
  -- A longer text would end at an occurrence of the word behind the last one.
  intro text rest hcut hlt _ hrest
  obtain ⟨junk, opening, token, closing, after, rfl, hmark, hmark'⟩ :=
    begins_nearPattern hrest
  let k' : Cut :=
    { k with text := text, junk := junk, opening := opening, token := token
             closing := closing, after := after
             text_ne_nil := List.length_pos_iff.mp (Nat.zero_lt_of_lt hlt)
             isOpening_opening := hmark, isClosing_closing := hmark' }
  have hline' : k'.line = k.line := by
    rw [k.line_eq, hcut]
    exact k'.line_eq
  have hle := (hk.le hline').2.1
  rw [show k'.upToNear = k.heading ++ text from rfl, Cut.upToNear, List.length_append,
    List.length_append] at hle
  omega

/-- The digits end at the first character that is none. -/
theorem head?_ways_numberPattern (hk : k.IsRightmost) (hline : '\n' ∉ k.line) :
    ∃ w, (numberPattern.ways (':' :: (k.digits ++ ':' :: ' ' :: (k.text ++ (nearWord ++
        (k.junk ++ k.opening :: (k.token ++ k.closing :: k.after))))))).head? = some w ∧
      w.groups = [k.digits, k.text, k.token] := by
  obtain ⟨w, htext, hgroups⟩ := head?_ways_textPattern hk hline
  set cs := k.text ++ (nearWord ++
    (k.junk ++ k.opening :: (k.token ++ k.closing :: k.after))) with hcs
  have hbehind : ((Pattern.after [':', ' '] textPattern).ways ([':', ' '] ++ cs)).head?
      = some _ := head?_ways_after [':', ' '] htext
  obtain ⟨v, hdigits, hv⟩ : ∃ v, ((Pattern.seq (.group (.repeated 1 isDigit))
      (.after [':', ' '] textPattern)).ways (k.digits ++ ([':', ' '] ++ cs))).head? = some v ∧
      v.groups = [k.digits, k.text, k.token] := by
    refine ⟨_, head?_ways_group_repeated_seq k.isDigit_of_mem
      (List.length_pos_iff.mpr k.digits_ne_nil) hbehind ?_,
      congrArg (k.digits :: ·) hgroups⟩
    intro digits rest hcut hlt hall _
    obtain ⟨s, hs⟩ := List.prefix_of_prefix_length_le (List.prefix_append k.digits _)
      ⟨rest, hcut.symm⟩ hlt.le
    -- A longer run would contain the colon.
    cases s with
    | nil =>
      rw [List.append_nil] at hs
      rw [hs] at hlt
      exact absurd hlt (Nat.lt_irrefl _)
    | cons c s =>
      rw [← hs, List.append_assoc] at hcut
      obtain ⟨rfl, -⟩ := List.cons.inj (List.append_cancel_left hcut)
      exact absurd (hall ':' (by rw [← hs]; simp)) (by decide)
  exact ⟨_, head?_ways_after [':'] hdigits, hv⟩

/-- Without the process, the first way is the rightmost cut. -/
theorem head?_ways_barePattern (hk : k.IsRightmost) (hline : '\n' ∉ k.line) :
    ∃ w, (barePattern.ways k.line).head? = some w ∧
      w.groups = [k.digits, k.text, k.token] := by
  obtain ⟨w, hnumber, hgroups⟩ := head?_ways_numberPattern hk hline
  rw [k.line_eq]
  refine ⟨_, head?_ways_repeated_seq (isInline_of_mem hline).1
    (List.length_pos_iff.mpr k.before_ne_nil) hnumber ?_, hgroups⟩
  -- More before the number would take a number behind it for it.
  intro before rest hcut hlt _ hrest
  obtain ⟨k', rfl, hline'⟩ := exists_cut_of_begins_numberPattern
    (List.length_pos_iff.mp (Nat.zero_lt_of_lt hlt)) hrest
  rw [← hcut, ← k.line_eq] at hline'
  have hle := (hk.le hline').1
  omega

/-- With the process, the first way has the same groups: what stands behind the process
has its rightmost cut where the whole line has it. -/
theorem head?_ways_outputPattern (hk : k.IsRightmost) (hline : '\n' ∉ k.line) :
    ∃ w, (outputPattern.ways k.line).head? = some w ∧
      w.groups = [k.digits, k.text, k.token] := by
  rw [outputPattern, head?_ways_seq, ways, List.findSome?_append]
  cases h : (processPattern.ways k.line).findSome? fun w =>
    (barePattern.ways w.rest).head?.map w.andThen with
  | none =>
    obtain ⟨w, hw, hgroups⟩ := head?_ways_barePattern hk hline
    refine ⟨w, ?_, hgroups⟩
    simp only [List.findSome?_cons, hw, Option.map_some, Option.none_or]
    rfl
  | some w =>
    refine ⟨w, Option.some_or, ?_⟩
    obtain ⟨u, hu, hw⟩ := List.exists_of_findSome?_eq_some h
    obtain ⟨v, hv, rfl⟩ := Option.map_eq_some_iff.mp hw
    have hsplit := append_of_mem_ways hu
    have hplain : processPattern.Plain := ⟨trivial, trivial, trivial, trivial⟩
    obtain ⟨k₁, hk₁⟩ := exists_cut_of_begins_barePattern ⟨v, List.mem_of_mem_head? hv⟩
    obtain ⟨k₂, hk₂, hright⟩ := k₁.exists_isRightmost
    rw [hk₁] at hk₂
    have hrest : '\n' ∉ k₂.line := fun hmem =>
      hline (hsplit ▸ List.mem_append_right _ (hk₂ ▸ hmem))
    obtain ⟨v', hv', hgroups⟩ := head?_ways_barePattern hright hrest
    obtain rfl : v = v' := by
      rw [hk₂, hv] at hv'
      exact Option.some.inj hv'
    have heq : k₂.prepend u.matched = k :=
      (hright.prepend u.matched).eq hk (by rw [k₂.line_prepend, hk₂, hsplit])
    rw [Way.andThen, groups_of_mem_ways hplain hu, hgroups, ← heq]
    rfl

end FirstWay

/-! ### What is searched for -/

/-- What is read off a line, as a search keeps it. -/
def Parts.groups (p : Parts) : List (List Char) := [p.digits, p.text, p.token]

/-- The pattern matches within lines, only what can be cut, and first at the rightmost
cut. -/
structure FindsCuts (r : Pattern) : Prop where
  inline : r.Inline
  exists_cut : ∀ cs, r.Begins cs → ∃ k : Cut, k.line = cs
  first : ∀ k : Cut, k.IsRightmost → '\n' ∉ k.line →
    ∃ w, (r.ways k.line).head? = some w ∧ w.groups = k.parts.groups

theorem inline_barePattern : barePattern.Inline := by
  have hnear : nearPattern.Inline :=
    inline_after (by decide) ⟨rfl, rfl, ⟨rfl, rfl, trivial⟩⟩
  have htext : textPattern.Inline := ⟨rfl, hnear⟩
  exact ⟨rfl, inline_after (by decide) ⟨rfl, inline_after (by decide) htext⟩⟩

theorem findsCuts_barePattern : FindsCuts barePattern :=
  ⟨inline_barePattern, fun _ => exists_cut_of_begins_barePattern,
    fun _ hk hline => head?_ways_barePattern hk hline⟩

theorem findsCuts_outputPattern : FindsCuts outputPattern :=
  ⟨⟨⟨rfl, inline_after (by decide) trivial⟩, inline_barePattern⟩,
    fun _ => exists_cut_of_begins_outputPattern,
    fun _ hk hline => head?_ways_outputPattern hk hline⟩

variable {r : Pattern}

theorem FindsCuts.search?_line (hr : FindsCuts r) {line : List Char} (hline : '\n' ∉ line) :
    (r.search? line).map Way.groups = (partsOfLine? line).map Parts.groups := by
  cases h : partsOfLine? line with
  | some p =>
    obtain ⟨k, rfl, hk, rfl⟩ := partsOfLine?_eq_some_iff.mp h
    obtain ⟨w, hw, hgroups⟩ := hr.first k hk hline
    rw [search?_of_head? hw, Option.map_some, Option.map_some, hgroups]
  | none =>
    rw [partsOfLine?_eq_none_iff] at h
    rw [search?_eq_none, Option.map_none, Option.map_none]
    -- A cut of the end of a line is a cut of the line.
    rintro t ⟨x, rfl⟩ hbegins
    obtain ⟨k, rfl⟩ := hr.exists_cut t hbegins
    exact h (k.prepend x) (k.line_prepend x)

theorem FindsCuts.search?_eq (hr : FindsCuts r) (cs : List Char) :
    (r.search? cs).map Way.groups
      = ((Text.pieces cs).findSome? partsOfLine?).map Parts.groups := by
  induction cs using Text.pieces_induction with
  | last piece hpiece =>
    rw [hr.search?_line hpiece, Text.pieces_of_not_mem hpiece, List.findSome?_singleton]
  | more piece tail hpiece ih =>
    have hfirst := hr.search?_line hpiece
    rw [search?_append_newline hr.inline, Text.pieces_append tail hpiece,
      List.findSome?_cons]
    cases h : partsOfLine? piece with
    | none =>
      rw [h, Option.map_none, Option.map_eq_none_iff] at hfirst
      rw [hfirst, Option.map_none, Option.none_or, ih]
    | some p =>
      rw [h] at hfirst
      obtain ⟨w, hw, hgroups⟩ := Option.map_eq_some_iff.mp hfirst
      rw [hw, Option.map_some, Option.some_or, Option.map_some, Option.map_some]
      exact congrArg some hgroups

theorem FindsCuts.readBy?_eq (hr : FindsCuts r) (output : String) :
    readBy? r output = parse? output := by
  have hsearch := hr.search?_eq output.toList
  rw [readBy?, parse?]
  cases hparts : (Text.pieces output.toList).findSome? partsOfLine? with
  | none =>
    rw [hparts, Option.map_none, Option.map_eq_none_iff] at hsearch
    rw [hsearch]
    rfl
  | some p =>
    rw [hparts] at hsearch
    obtain ⟨w, hw, hgroups⟩ := Option.map_eq_some_iff.mp hsearch
    rw [hw, Option.bind_some, Option.bind_some, hgroups]
    rfl

/-! ### What is read -/

theorem parse?_eq_none {output : String}
    (h : ∀ line ∈ Text.pieces output.toList, ∀ k : Cut, k.line ≠ line) :
    parse? output = none := by
  have hnone : (Text.pieces output.toList).findSome? partsOfLine? = none := by
    rw [List.findSome?_eq_none_iff]
    exact fun line hmem => partsOfLine?_eq_none_iff.mpr (h line hmem)
  rw [parse?, hnone]
  rfl

/-- The first line that can be cut decides, at its rightmost cut. -/
theorem parse?_eq_ofParts? {output : String} {earlier later : List (List Char)} {k : Cut}
    (hpieces : Text.pieces output.toList = earlier ++ k.line :: later)
    (hearlier : ∀ other ∈ earlier, ∀ k : Cut, k.line ≠ other) (hk : k.IsRightmost) :
    parse? output = ofParts? k.parts := by
  have hnone : earlier.findSome? partsOfLine? = none := by
    rw [List.findSome?_eq_none_iff]
    exact fun line hmem => partsOfLine?_eq_none_iff.mpr (hearlier line hmem)
  have hfirst : (Text.pieces output.toList).findSome? partsOfLine? = some k.parts := by
    rw [hpieces, List.findSome?_append, hnone, Option.none_or, List.findSome?_cons,
      partsOfLine?_eq_some_iff.mpr ⟨k, rfl, hk, rfl⟩]
  rw [parse?, hfirst]
  rfl

/-- The output is read at this cut: it is the rightmost one of the first line that can be cut. -/
structure Cut.IsReadFrom (k : Cut) (output : String) : Prop where
  isRightmost : k.IsRightmost
  first : ∃ earlier later, Text.pieces output.toList = earlier ++ k.line :: later ∧
    ∀ other ∈ earlier, ∀ k' : Cut, k'.line ≠ other

theorem exists_isReadFrom {output : String} {m : Message} (h : parse? output = some m) :
    ∃ k : Cut, k.IsReadFrom output ∧ ofParts? k.parts = some m := by
  rw [parse?, Option.bind_eq_some_iff] at h
  obtain ⟨p, hp, hm⟩ := h
  obtain ⟨earlier, line, later, hpieces, hline, hearlier⟩ := List.findSome?_eq_some_iff.mp hp
  obtain ⟨k, rfl, hk, rfl⟩ := partsOfLine?_eq_some_iff.mp hline
  exact ⟨k, ⟨hk, earlier, later, hpieces,
    fun other hmem => partsOfLine?_eq_none_iff.mp (hearlier other hmem)⟩, hm⟩

theorem exists_cut_of_parse?_eq_some {output : String} {m : Message}
    (h : parse? output = some m) :
    ∃ k : Cut, k.line ∈ Text.pieces output.toList ∧ k.IsRightmost ∧
      ofParts? k.parts = some m := by
  obtain ⟨k, ⟨hk, earlier, later, hpieces, -⟩, hm⟩ := exists_isReadFrom h
  exact ⟨k, by simp [hpieces], hk, hm⟩

/-- **The language of complaints.**  A compiler's output is read as the search for the
pattern finds it, with or without the optional beginning of the pattern.  If none of its
lines can be cut there is nothing to read.  Otherwise the first line that can be cut
decides: it has exactly one rightmost cut, and the message is read there if the number is
neither zero nor too large; no other line and no other cut is looked at.  A token never
holds a mark that could open one. -/
theorem parse_language (output : String) :
    parse? output = readBy? outputPattern output ∧
    readBy? barePattern output = readBy? outputPattern output ∧
    ((∀ line ∈ Text.pieces output.toList, ∀ k : Cut, k.line ≠ line) →
      parse? output = none) ∧
    (∀ earlier line later, Text.pieces output.toList = earlier ++ line :: later →
      (∀ other ∈ earlier, ∀ k : Cut, k.line ≠ other) → (∃ k : Cut, k.line = line) →
      ∃ k : Cut, k.line = line ∧ k.IsRightmost ∧
        (∀ k' : Cut, k'.line = line → k'.IsRightmost → k' = k) ∧
        parse? output =
          if 1 ≤ numberOfDigits k.digits ∧ numberOfDigits k.digits ≤ 4294967295 then
            some ⟨numberOfDigits k.digits, .ofList k.text, .ofList k.token⟩
          else none) ∧
    (∀ m, parse? output = some m → '<' ∉ m.token.toList ∧ '\'' ∉ m.token.toList) := by
  refine ⟨(findsCuts_outputPattern.readBy?_eq output).symm, ?_, parse?_eq_none, ?_, ?_⟩
  · rw [findsCuts_barePattern.readBy?_eq, findsCuts_outputPattern.readBy?_eq]
  · rintro earlier line later hpieces hearlier ⟨k, rfl⟩
    obtain ⟨k', hline, hk'⟩ := k.exists_isRightmost
    refine ⟨k', hline, hk', fun k'' hline' hk'' => hk''.eq hk' (hline'.trans hline.symm), ?_⟩
    rw [← hline] at hpieces
    rw [parse?_eq_ofParts? hpieces hearlier hk', ofParts?]
    have hbound : numberOfDigits k'.digits < lineBound ↔
        numberOfDigits k'.digits ≤ 4294967295 := Nat.lt_succ_iff
    simp only [Cut.parts, hbound, Nat.succ_le_iff]
  · intro m hm
    obtain ⟨k, -, hk, hparts⟩ := exists_cut_of_parse?_eq_some hm
    have htoken : m.token.toList = k.token := by
      rw [ofParts?] at hparts
      split at hparts
      · obtain rfl := Option.some.inj hparts
        exact String.toList_ofList
      · exact absurd hparts (by simp)
    rw [htoken]
    exact ⟨fun h => absurd (hk.opening _ h) (by decide),
      fun h => absurd (hk.opening _ h) (by decide)⟩

example : parse? "luac: stdin:12: '=' expected near 'foo'" = some ⟨12, "'=' expected", "foo"⟩ := by
  cbv

end LuaDiagnostics.Message
