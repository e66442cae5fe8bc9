/-
Where a complaint is cut.

A line of a compiler's output is a complaint when it can be cut into something, a number
between `:` and `: `, a text, the word ` near`, anything, a token between its marks, and
anything again.  As all of these may occur more than once, a line has many cuts; the one
that counts has every part as far to the right as it can be.

* **`partsOfLine?_eq_some_iff`**: a line is read at its rightmost cut, and
  **`partsOfLine?_eq_none_iff`**: it is read unless it cannot be cut at all.
* **`IsRightmost.le`**: no part of any other cut lies further to the right, and
  **`IsRightmost.eq`**: there is only one rightmost cut.
* **`IsRightmost.prepend`**: what is written in front of a line does not move its
  rightmost cut.
-/
import LuaDiagnostics.Message.Parser
import LuaDiagnostics.Proofs.Text.Search

namespace LuaDiagnostics.Message

/-! ### Numbers -/

/-- The text ends in a number between `:` and `: ` that has something before it. -/
structure EndsInNumber (cs before digits : List Char) : Prop where
  before_ne_nil : before ≠ []
  digits_ne_nil : digits ≠ []
  isDigit_of_mem : ∀ d ∈ digits, isDigit d = true
  eq : cs = before ++ ':' :: (digits ++ [':', ' '])

/-- The number at the end of a text begins no earlier than one at the end of a part of it. -/
theorem EndsInNumber.before_le {cs s before digits before' digits' : List Char}
    (h : EndsInNumber (cs ++ s) before digits) (h' : EndsInNumber cs before' digits') :
    before'.length ≤ before.length := by
  obtain ⟨-, -, hall, heq⟩ := h
  obtain ⟨-, hdigits', -, rfl⟩ := h'
  rw [List.append_assoc] at heq
  rcases List.append_eq_append_iff.mp heq with ⟨u, rfl, -⟩ | ⟨u, rfl, hu⟩
  · simp
  · cases u with
    | nil => simp
    | cons x u =>
      -- The colon before the earlier number would be the one behind the later number.
      obtain ⟨-, hu⟩ := List.cons.inj hu
      rcases List.append_eq_append_iff.mp hu with ⟨v, rfl, hv⟩ | ⟨v, rfl, hv⟩
      · have hlength := congrArg List.length hv
        have hpos := List.length_pos_iff.mpr hdigits'
        simp only [List.length_append, List.length_cons, List.length_nil] at hlength
        omega
      · cases v with
        | nil =>
          have hlength := congrArg List.length hv
          have hpos := List.length_pos_iff.mpr hdigits'
          simp only [List.length_append, List.length_cons, List.length_nil] at hlength
          omega
        | cons y v =>
          obtain ⟨rfl, -⟩ := List.cons.inj hv
          exact absurd (hall ':' (by simp)) (by decide)

/-- A text that holds a space before its end ends in a number by itself when it does so
behind something else. -/
theorem EndsInNumber.of_append {x cs before digits : List Char}
    (h : EndsInNumber (x ++ cs) before digits) (hspace : ' ' ∈ cs.dropLast) :
    ∃ before', EndsInNumber cs before' digits := by
  obtain ⟨-, hdigits, hall, heq⟩ := h
  have hnumber : ' ' ∉ (':' :: (digits ++ [':', ' '])).dropLast := by
    have hdrop : (':' :: (digits ++ [':', ' '])).dropLast = ':' :: (digits ++ [':']) := by
      rw [show ':' :: (digits ++ [':', ' ']) = ':' :: (digits ++ [':']) ++ [' '] by simp,
        List.dropLast_concat]
    rw [hdrop]
    intro hmem
    rcases List.mem_append.mp ((List.mem_cons.mp hmem).resolve_left (by decide))
      with hmem | hmem
    · exact absurd (hall ' ' hmem) (by decide)
    · exact absurd hmem (by decide)
  rcases List.append_eq_append_iff.mp heq with ⟨u, rfl, hu⟩ | ⟨u, rfl, hu⟩
  · refine ⟨u, ?_, hdigits, hall, hu⟩
    rintro rfl
    rw [List.nil_append] at hu
    rw [hu] at hspace
    exact hnumber hspace
  · have hne : cs ≠ [] := by
      rintro rfl
      exact absurd hspace (by simp)
    rw [hu, List.dropLast_append_of_ne_nil hne] at hnumber
    exact absurd (List.mem_append_right u hspace) hnumber

theorem numberEndingAt?_reverse_eq_some_iff {cs digits : List Char} :
    numberEndingAt? cs.reverse = some digits ↔ ∃ before, EndsInNumber cs before digits := by
  constructor
  · intro h
    rw [numberEndingAt?.eq_def] at h
    split at h
    · rename_i rest hrest
      have hcut : rest.takeWhile isDigit ++ rest.dropWhile isDigit = rest :=
        List.takeWhile_append_dropWhile
      split at h
      · rename_i d ds c before htake hdrop
        obtain rfl := Option.some.inj h
        refine ⟨(c :: before).reverse, by simp, by simp [htake], fun d hd => ?_, ?_⟩
        · exact List.mem_takeWhile_imp (List.mem_reverse.mp hd)
        · calc cs = (' ' :: ':' :: rest).reverse := by rw [← hrest, List.reverse_reverse]
            _ = (' ' :: ':' :: (rest.takeWhile isDigit ++ ':' :: c :: before)).reverse := by
              rw [← hdrop, hcut]
            _ = _ := by simp
      · exact absurd h (by simp)
    · exact absurd h (by simp)
  · rintro ⟨before, hbefore, hdigits, hall, rfl⟩
    have hrev : (before ++ ':' :: (digits ++ [':', ' '])).reverse
        = ' ' :: ':' :: (digits.reverse ++ ':' :: before.reverse) := by
      simp
    have hread : ∀ d ∈ digits.reverse, isDigit d = true := fun d hd =>
      hall d (List.mem_reverse.mp hd)
    have hstop : isDigit ':' = false := by decide
    obtain ⟨c, bs, hc⟩ := List.exists_cons_of_ne_nil (mt List.reverse_eq_nil_iff.mp hbefore)
    obtain ⟨d, ds, hd⟩ := List.exists_cons_of_ne_nil (mt List.reverse_eq_nil_iff.mp hdigits)
    rw [hrev, numberEndingAt?, List.takeWhile_append_of_pos hread,
      List.dropWhile_append_of_pos hread, hc]
    have hback : (d :: ds).reverse = digits := by rw [← hd, List.reverse_reverse]
    simpa [hstop, hd] using hback

theorem numberAndText?_eq_some_iff {passed rev digits text : List Char} :
    numberAndText? passed rev = some (digits, text) ↔
      ∃ us hs, us ≠ [] ∧ rev = us ++ hs ∧ text = us.reverse ++ passed ∧
        numberEndingAt? hs = some digits ∧
        ∀ us' hs', us' ≠ [] → rev = us' ++ hs' → us'.length < us.length →
          numberEndingAt? hs' = none := by
  induction rev generalizing passed with
  | nil =>
    rw [numberAndText?]
    constructor
    · intro h
      exact absurd h (by simp)
    · rintro ⟨us, hs, hus, hrev, -⟩
      exact absurd (List.append_eq_nil_iff.mp hrev.symm).1 hus
  | cons c rest ih =>
    rw [numberAndText?]
    cases hnumber : numberEndingAt? rest with
    | some number =>
      constructor
      · intro h
        obtain ⟨rfl, rfl⟩ : number = digits ∧ c :: passed = text := by simpa using h
        refine ⟨[c], rest, by simp, rfl, by simp, hnumber, fun us' hs' hus' _ hlt => ?_⟩
        have hpos := List.length_pos_iff.mpr hus'
        rw [List.length_singleton] at hlt
        omega
      · rintro ⟨us, hs, hus, hrev, rfl, hdigits, hlast⟩
        -- No shorter text than one character is possible, and that one is.
        obtain ⟨x, xs, rfl⟩ := List.exists_cons_of_ne_nil hus
        rw [List.cons_append] at hrev
        obtain ⟨rfl, rfl⟩ := List.cons.inj hrev
        cases xs with
        | nil =>
          rw [List.nil_append, hdigits] at hnumber
          simp [Option.some.inj hnumber]
        | cons y ys =>
          have hnone := hlast [c] (y :: ys ++ hs) (by simp) rfl (by simp)
          rw [hnumber] at hnone
          exact absurd hnone (by simp)
    | none =>
      rw [ih]
      constructor
      · rintro ⟨us, hs, hus, rfl, rfl, hdigits, hlast⟩
        refine ⟨c :: us, hs, by simp, rfl, by simp, hdigits, ?_⟩
        intro us' hs' hus' hrev hlt
        obtain ⟨x, xs, rfl⟩ := List.exists_cons_of_ne_nil hus'
        rw [List.cons_append] at hrev
        obtain ⟨rfl, hrest⟩ := List.cons.inj hrev
        by_cases hxs : xs = []
        · rw [hxs, List.nil_append] at hrest
          rw [← hrest]
          exact hnumber
        · exact hlast xs hs' hxs hrest (Nat.lt_of_succ_lt_succ hlt)
      · rintro ⟨us, hs, hus, hrev, rfl, hdigits, hlast⟩
        obtain ⟨x, xs, rfl⟩ := List.exists_cons_of_ne_nil hus
        rw [List.cons_append] at hrev
        obtain ⟨rfl, rfl⟩ := List.cons.inj hrev
        have hxs : xs ≠ [] := by
          rintro rfl
          rw [List.nil_append, hdigits] at hnumber
          exact absurd hnumber (by simp)
        refine ⟨xs, hs, hxs, rfl, by simp, hdigits, fun us' hs' hus' hrest hlt => ?_⟩
        exact hlast (c :: us') hs' (by simp) (congrArg (c :: ·) hrest)
          (Nat.succ_lt_succ hlt)

/-- Number and text are cut at the last number that leaves some text. -/
theorem numberAndText?_reverse_eq_some_iff {cs digits text : List Char} :
    numberAndText? [] cs.reverse = some (digits, text) ↔
      text ≠ [] ∧ (∃ heading before, cs = heading ++ text ∧
        EndsInNumber heading before digits) ∧
      ∀ h b d t, t ≠ [] → cs = h ++ t → EndsInNumber h b d → text.length ≤ t.length := by
  rw [numberAndText?_eq_some_iff]
  constructor
  · rintro ⟨us, hs, hus, hrev, rfl, hdigits, hlast⟩
    have hcs : cs = hs.reverse ++ us.reverse := by
      rw [← List.reverse_inj, hrev]
      simp
    rw [← hs.reverse_reverse, numberEndingAt?_reverse_eq_some_iff] at hdigits
    obtain ⟨before, hnumber⟩ := hdigits
    refine ⟨by simpa using hus, ⟨hs.reverse, before, by simpa using hcs, hnumber⟩, ?_⟩
    intro h b d t ht hcut hends
    by_contra hlt
    have hnone := hlast t.reverse h.reverse (by simpa using ht) (by simp [hcut])
      (by simpa using hlt)
    rw [numberEndingAt?_reverse_eq_some_iff.mpr ⟨b, hends⟩] at hnone
    exact absurd hnone (by simp)
  · rintro ⟨htext, ⟨heading, before, rfl, hnumber⟩, hlast⟩
    refine ⟨text.reverse, heading.reverse, by simpa using htext, by simp, by simp,
      numberEndingAt?_reverse_eq_some_iff.mpr ⟨before, hnumber⟩, ?_⟩
    intro us' hs' hus' hrev hlt
    cases hends : numberEndingAt? hs' with
    | none => rfl
    | some d =>
      rw [← hs'.reverse_reverse, numberEndingAt?_reverse_eq_some_iff] at hends
      obtain ⟨b, hends⟩ := hends
      have hcut : heading ++ text = hs'.reverse ++ us'.reverse := by
        rw [← List.reverse_inj, hrev]
        simp
      have hle := hlast _ b d us'.reverse (by simpa using hus') hcut hends
      rw [List.length_reverse] at hlt hle
      omega

/-- Some number and text are found where a text follows a number. -/
theorem numberAndText?_ne_none {heading before digits text : List Char}
    (hnumber : EndsInNumber heading before digits) (htext : text ≠ []) :
    numberAndText? [] (heading ++ text).reverse ≠ none := by
  have hends := numberEndingAt?_reverse_eq_some_iff.mpr ⟨before, hnumber⟩
  have hfound : ∀ us passed, us ≠ [] → numberAndText? passed (us ++ heading.reverse) ≠ none := by
    intro us
    induction us with
    | nil =>
      intro passed hus
      exact absurd rfl hus
    | cons c us ih =>
      intro passed _
      rw [List.cons_append, numberAndText?]
      split
      · simp
      · rename_i hnone
        refine ih (c :: passed) ?_
        rintro rfl
        rw [List.nil_append, hends] at hnone
        exact absurd hnone (by simp)
  rw [List.reverse_append]
  exact hfound text.reverse [] (by simpa using htext)

/-! ### Cuts -/

/-- A line that is a complaint, in its parts. -/
@[ext]
structure Cut where
  before : List Char
  digits : List Char
  text : List Char
  junk : List Char
  opening : Char
  token : List Char
  closing : Char
  after : List Char
  before_ne_nil : before ≠ []
  digits_ne_nil : digits ≠ []
  isDigit_of_mem : ∀ d ∈ digits, isDigit d = true
  text_ne_nil : text ≠ []
  isOpening_opening : isOpening opening = true
  isClosing_closing : isClosing closing = true

namespace Cut

/-- What stands before the text. -/
def heading (k : Cut) : List Char := k.before ++ ':' :: (k.digits ++ [':', ' '])

/-- What stands before the word ` near`. -/
def upToNear (k : Cut) : List Char := k.heading ++ k.text

/-- What stands before the opening mark. -/
def upToOpening (k : Cut) : List Char := k.upToNear ++ (nearWord ++ k.junk)

/-- What stands before the closing mark. -/
def upToClosing (k : Cut) : List Char := k.upToOpening ++ k.opening :: k.token

/-- The line as a whole. -/
def line (k : Cut) : List Char := k.upToClosing ++ k.closing :: k.after

/-- What is read off the line. -/
def parts (k : Cut) : Parts := ⟨k.digits, k.text, k.token⟩

/-- Every part stands as far to the right as it can: the closing mark is the last one of
the line, the opening mark the last one before it, ` near` the last one that ends at or
before the opening mark, and the number the last one with something before it that leaves
some text before ` near`. -/
structure IsRightmost (k : Cut) : Prop where
  closing : ∀ c ∈ k.after, isClosing c = false
  opening : ∀ c ∈ k.token, isOpening c = false
  near : ∀ b a, k.upToOpening = b ++ (nearWord ++ a) → k.junk.length ≤ a.length
  number : ∀ h b d t, t ≠ [] → k.upToNear = h ++ t → EndsInNumber h b d →
    k.text.length ≤ t.length

variable {k k' : Cut}

theorem endsInNumber_heading (k : Cut) : EndsInNumber k.heading k.before k.digits :=
  ⟨k.before_ne_nil, k.digits_ne_nil, k.isDigit_of_mem, rfl⟩

/-- The rightmost cut is the one that the searches from the right find one by one. -/
theorem isRightmost_iff : k.IsRightmost ↔
    Text.splitLastChar? isClosing k.line = some (k.upToClosing, k.closing, k.after) ∧
    Text.splitLastChar? isOpening k.upToClosing = some (k.upToOpening, k.opening, k.token) ∧
    Text.splitLast? nearWord k.upToOpening = some (k.upToNear, k.junk) ∧
    numberAndText? [] k.upToNear.reverse = some (k.digits, k.text) := by
  rw [Text.splitLastChar?_eq_some_iff, Text.splitLastChar?_eq_some_iff,
    Text.splitLast?_eq_some_iff, numberAndText?_reverse_eq_some_iff]
  constructor
  · rintro ⟨hclosing, hopening, hnear, hnumber⟩
    exact ⟨⟨rfl, k.isClosing_closing, hclosing⟩, ⟨rfl, k.isOpening_opening, hopening⟩,
      ⟨rfl, hnear⟩, k.text_ne_nil, ⟨k.heading, k.before, rfl, k.endsInNumber_heading⟩, hnumber⟩
  · rintro ⟨⟨-, -, hclosing⟩, ⟨-, -, hopening⟩, ⟨-, hnear⟩, -, -, hnumber⟩
    exact ⟨hclosing, hopening, hnear, hnumber⟩

/-- A line has only one rightmost cut. -/
theorem IsRightmost.eq (hk : k.IsRightmost) (hk' : k'.IsRightmost) (hline : k.line = k'.line) :
    k = k' := by
  obtain ⟨hclosing, hopening, hnear, hnumber⟩ := isRightmost_iff.mp hk
  obtain ⟨hclosing', hopening', hnear', hnumber'⟩ := isRightmost_iff.mp hk'
  obtain ⟨hupToClosing, hclosing, hafter⟩ : k.upToClosing = k'.upToClosing ∧
      k.closing = k'.closing ∧ k.after = k'.after := by
    simpa [hline, hclosing'] using hclosing.symm
  obtain ⟨hupToOpening, hopening, htoken⟩ : k.upToOpening = k'.upToOpening ∧
      k.opening = k'.opening ∧ k.token = k'.token := by
    simpa [hupToClosing, hopening'] using hopening.symm
  obtain ⟨hupToNear, hjunk⟩ : k.upToNear = k'.upToNear ∧ k.junk = k'.junk := by
    simpa [hupToOpening, hnear'] using hnear.symm
  obtain ⟨hdigits, htext⟩ : k.digits = k'.digits ∧ k.text = k'.text := by
    simpa [hupToNear, hnumber'] using hnumber.symm
  have hbefore : k.before = k'.before := by
    rw [upToNear, upToNear, heading, heading, hdigits, htext] at hupToNear
    simpa using hupToNear
  exact Cut.ext hbefore hdigits htext hjunk hopening htoken hclosing hafter

/-- The searches from the right find something in every line that can be cut, at or
behind the place of the cut. -/
theorem exists_searches (k : Cut) : ∃ s₁ s₂ s₃ closing after opening token junk,
    Text.splitLastChar? isClosing k.line = some (k.upToClosing ++ s₁, closing, after) ∧
    Text.splitLastChar? isOpening (k.upToClosing ++ s₁)
      = some (k.upToOpening ++ s₂, opening, token) ∧
    Text.splitLast? nearWord (k.upToOpening ++ s₂) = some (k.upToNear ++ s₃, junk) := by
  obtain ⟨s₁, closing, after, hclosing⟩ :=
    Text.exists_splitLastChar? k.upToClosing k.after k.isClosing_closing
  obtain ⟨s₂, opening, token, hopening⟩ :=
    Text.exists_splitLastChar? k.upToOpening (k.token ++ s₁) k.isOpening_opening
  obtain ⟨s₃, junk, hnear⟩ := Text.exists_splitLast? nearWord k.upToNear (k.junk ++ s₂)
  refine ⟨s₁, s₂, s₃, closing, after, opening, token, junk, hclosing, ?_, ?_⟩
  · rw [upToClosing, List.append_assoc, List.cons_append]
    exact hopening
  · rw [upToOpening, List.append_assoc, List.append_assoc]
    exact hnear

/-- No part of a cut lies further to the right than in the rightmost cut. -/
theorem IsRightmost.le (hk : k.IsRightmost) (hline : k'.line = k.line) :
    k'.before.length ≤ k.before.length ∧ k'.upToNear.length ≤ k.upToNear.length ∧
      k'.upToOpening.length ≤ k.upToOpening.length ∧
      k'.upToClosing.length ≤ k.upToClosing.length := by
  obtain ⟨hclosing, hopening, hnear, -⟩ := isRightmost_iff.mp hk
  obtain ⟨s₁, s₂, s₃, closing, after, opening, token, junk, hclosing', hopening', hnear'⟩ :=
    k'.exists_searches
  have hupToClosing : k.upToClosing = k'.upToClosing ++ s₁ := by
    rw [hline, hclosing] at hclosing'
    exact congrArg Prod.fst (Option.some.inj hclosing')
  have hupToOpening : k.upToOpening = k'.upToOpening ++ s₂ := by
    rw [← hupToClosing, hopening] at hopening'
    exact congrArg Prod.fst (Option.some.inj hopening')
  have hupToNear : k.upToNear = k'.upToNear ++ s₃ := by
    rw [← hupToOpening, hnear] at hnear'
    exact congrArg Prod.fst (Option.some.inj hnear')
  refine ⟨?_, ?_, ?_, ?_⟩
  · have hcut : k.heading ++ k.text = k'.heading ++ (k'.text ++ s₃) := by
      rw [← List.append_assoc]
      exact hupToNear
    have hle := hk.number _ _ _ _ (List.append_ne_nil_of_left_ne_nil k'.text_ne_nil s₃) hcut
      k'.endsInNumber_heading
    have hlength := congrArg List.length hcut
    rw [List.length_append, List.length_append] at hlength
    obtain ⟨s, hs⟩ := List.prefix_of_prefix_length_le (List.prefix_append k'.heading _)
      ⟨k.text, hcut⟩ (by omega)
    have hends := k.endsInNumber_heading
    rw [← hs] at hends
    exact hends.before_le k'.endsInNumber_heading
  · simp [hupToNear]
  · simp [hupToOpening]
  · simp [hupToClosing]

/-- The cut of a line with something written in front. -/
def prepend (k : Cut) (x : List Char) : Cut :=
  { k with
    before := x ++ k.before
    before_ne_nil := List.append_ne_nil_of_right_ne_nil x k.before_ne_nil }

theorem upToNear_prepend (k : Cut) (x : List Char) :
    (k.prepend x).upToNear = x ++ k.upToNear := by
  simp [upToNear, heading, prepend]

theorem upToOpening_prepend (k : Cut) (x : List Char) :
    (k.prepend x).upToOpening = x ++ k.upToOpening := by
  rw [upToOpening, upToNear_prepend, List.append_assoc]
  rfl

theorem line_prepend (k : Cut) (x : List Char) : (k.prepend x).line = x ++ k.line := by
  rw [line, upToClosing, upToOpening_prepend, List.append_assoc, List.append_assoc, line,
    upToClosing, List.append_assoc]
  rfl

/-- What is written in front of a line does not move its rightmost cut. -/
theorem IsRightmost.prepend (hk : k.IsRightmost) (x : List Char) :
    (k.prepend x).IsRightmost := by
  refine ⟨hk.closing, hk.opening, fun b a hcut => ?_, fun h b d t ht hcut hends => ?_⟩
  · rw [upToOpening_prepend] at hcut
    by_contra hlt
    -- A later occurrence would lie in the line itself.
    have hsuffix : nearWord ++ a <:+ k.upToOpening := by
      refine List.suffix_of_suffix_length_le ⟨b, hcut.symm⟩ (List.suffix_append x _) ?_
      rw [upToOpening]
      simp only [List.length_append]
      have hlt : a.length < k.junk.length := Nat.lt_of_not_le hlt
      omega
    obtain ⟨b', hb'⟩ := hsuffix
    exact hlt (hk.near b' a hb'.symm)
  · rw [upToNear_prepend] at hcut
    by_contra hlt
    have hlt : t.length < k.text.length := Nat.lt_of_not_le hlt
    have htext : k.text <:+ x ++ k.upToNear :=
      ⟨x ++ k.heading, by rw [upToNear, List.append_assoc]⟩
    obtain ⟨s, hs⟩ := List.suffix_of_suffix_length_le ⟨h, hcut.symm⟩ htext hlt.le
    have hheading : h = x ++ (k.heading ++ s) := by
      rw [upToNear, ← hs, ← List.append_assoc, ← List.append_assoc] at hcut
      rw [List.append_cancel_right hcut.symm, List.append_assoc]
    have hne : s ≠ [] := by
      rintro rfl
      rw [List.nil_append] at hs
      rw [hs] at hlt
      exact absurd hlt (Nat.lt_irrefl _)
    rw [hheading] at hends
    obtain ⟨b', hends'⟩ := hends.of_append (by
      rw [List.dropLast_append_of_ne_nil hne]
      exact List.mem_append_left _ (by simp [heading]))
    have hle := hk.number (k.heading ++ s) b' d t ht
      (by rw [List.append_assoc, hs, upToNear]) hends'
    omega

end Cut

open Cut

/-- A line that can be cut is read at its rightmost cut. -/
theorem partsOfLine?_eq_some_iff {line : List Char} {p : Parts} :
    partsOfLine? line = some p ↔ ∃ k : Cut, k.line = line ∧ k.IsRightmost ∧ p = k.parts := by
  constructor
  · intro h
    simp only [partsOfLine?, Option.bind_eq_bind, Option.bind_eq_some_iff, Prod.exists] at h
    obtain ⟨upToClosing, closing, after, hclosing, upToOpening, opening, token, hopening,
      upToNear, junk, hnear, digits, text, hnumber, hp⟩ := h
    obtain ⟨rfl, hmark, hafter⟩ := Text.splitLastChar?_eq_some_iff.mp hclosing
    obtain ⟨rfl, hmark', htoken⟩ := Text.splitLastChar?_eq_some_iff.mp hopening
    obtain ⟨rfl, hjunk⟩ := Text.splitLast?_eq_some_iff.mp hnear
    obtain ⟨htext, ⟨heading, before, rfl, hheading⟩, hlast⟩ :=
      numberAndText?_reverse_eq_some_iff.mp hnumber
    obtain ⟨hbefore, hdigits, hall, rfl⟩ := hheading
    exact ⟨⟨before, digits, text, junk, opening, token, closing, after, hbefore, hdigits,
      hall, htext, hmark', hmark⟩, rfl, ⟨hafter, htoken, hjunk, hlast⟩,
      (Option.some.inj hp).symm⟩
  · rintro ⟨k, rfl, hk, rfl⟩
    obtain ⟨hclosing, hopening, hnear, hnumber⟩ := isRightmost_iff.mp hk
    simp [partsOfLine?, hclosing, hopening, hnear, hnumber, parts]

/-- Only lines that cannot be cut are not read. -/
theorem partsOfLine?_eq_none_iff {line : List Char} :
    partsOfLine? line = none ↔ ∀ k : Cut, k.line ≠ line := by
  constructor
  · rintro h k rfl
    obtain ⟨s₁, s₂, s₃, closing, after, opening, token, junk, hclosing, hopening, hnear⟩ :=
      k.exists_searches
    have hnumber := numberAndText?_ne_none k.endsInNumber_heading
      (List.append_ne_nil_of_left_ne_nil k.text_ne_nil s₃)
    rw [← List.append_assoc] at hnumber
    obtain ⟨⟨digits, text⟩, hnumber'⟩ := Option.ne_none_iff_exists'.mp hnumber
    have hparts : partsOfLine? k.line = some ⟨digits, text, token⟩ := by
      rw [partsOfLine?, hclosing]
      simp only [Option.bind_eq_bind, Option.bind_some, hopening, hnear]
      rw [upToNear, hnumber']
      rfl
    exact absurd (h.symm.trans hparts) (by simp)
  · intro hnone
    cases h : partsOfLine? line with
    | none => rfl
    | some p =>
      obtain ⟨k, hline, -⟩ := partsOfLine?_eq_some_iff.mp h
      exact absurd hline (hnone k)

/-- A line that can be cut has a rightmost cut. -/
theorem Cut.exists_isRightmost (k : Cut) : ∃ k' : Cut, k'.line = k.line ∧ k'.IsRightmost := by
  cases h : partsOfLine? k.line with
  | none => exact absurd rfl (partsOfLine?_eq_none_iff.mp h k)
  | some p =>
    obtain ⟨k', hline, hk', -⟩ := partsOfLine?_eq_some_iff.mp h
    exact ⟨k', hline, hk'⟩

end LuaDiagnostics.Message
