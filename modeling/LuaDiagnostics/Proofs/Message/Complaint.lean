/-
Complaints as compilers print them.

A compiler prints its name, the line, a remark and the token at which it stopped, the token
in its marks.  The same marks, the word ` near` and colons may stand in every part, so it
has to be shown that reading finds the parts again.

* **`parse?_complaint`**: the parts are found again when the token holds no opening mark and
  the remark no number between `:` and `: `.
* **`diagnose_quoted_token`**: a token in quotes leads to its first occurrence on the line,
  or to the whole line when it is not there.  The token `eof` is taken for the end of the
  input.
* **`diagnose_end_of_input`**: of the two spellings of the end of the input, `<eof>` is
  recognised.  In `'<eof>'` the inner mark counts as the opening one, so the token is `eof>`.
-/
import LuaDiagnostics.Proofs.Message.Placement

namespace LuaDiagnostics

namespace Message

/-! ### What is printed -/

/-- What a compiler prints about a line of its input, the token standing in its marks. -/
def complaint (process : String) (line : Nat) (text marked : String) : String :=
  process ++ ": stdin:" ++ line.repr ++ ": " ++ text ++ " near " ++ marked

/-- A token in quotes. -/
def quoted (token : String) : String := "'" ++ token ++ "'"

/-- There is a number between `:` and `: `. -/
def HoldsNumber (cs : List Char) : Prop :=
  ∃ before digits after, digits ≠ [] ∧ (∀ d ∈ digits, isDigit d = true) ∧
    cs = before ++ ':' :: (digits ++ ':' :: ' ' :: after)

/-- The text can be the remark of a complaint: it is not empty, stands on one line and holds
nothing that looks like the number of a line. -/
structure IsRemark (text : String) : Prop where
  ne_empty : text ≠ ""
  newline_not_mem : '\n' ∉ text.toList
  not_holdsNumber : ¬ HoldsNumber text.toList

theorem isRemark_of_not_mem {text : String} (hne : text ≠ "") (hnewline : '\n' ∉ text.toList)
    (hcolon : ':' ∉ text.toList) : IsRemark text := by
  refine ⟨hne, hnewline, ?_⟩
  rintro ⟨before, digits, after, -, -, htext⟩
  exact hcolon (by rw [htext]; simp)

theorem numberOfDigits_toDigits (n : Nat) : numberOfDigits (Nat.toDigits 10 n) = n :=
  Nat.ofDigitChars_ten_toDigits

theorem isDigit_of_mem_toDigits {n : Nat} {c : Char} (h : c ∈ Nat.toDigits 10 n) :
    isDigit c = true :=
  Nat.isDigit_of_mem_toDigits (by decide) (by decide) h

/-- Without the two marks that open tokens, nothing in a token does. -/
theorem opensNothing {token : List Char} (hangle : '<' ∉ token) (hquote : '\'' ∉ token) :
    ∀ c ∈ token, isOpening c = false := by
  intro c hc
  rw [isOpening, Bool.or_eq_false_iff, decide_eq_false_iff_not, decide_eq_false_iff_not]
  constructor
  · rintro rfl
    exact hangle hc
  · rintro rfl
    exact hquote hc

/-! ### The cut of a complaint -/

namespace Cut

variable {k : Cut}

/-- Junk without the last letter of ` near` does not hold the end of that word. -/
theorem near_of_not_mem (h : 'r' ∉ k.junk) (b a : List Char)
    (hcut : k.upToOpening = b ++ (nearWord ++ a)) : k.junk.length ≤ a.length := by
  by_contra hlt
  have hjunk : k.junk <:+ k.upToOpening :=
    ⟨k.upToNear ++ nearWord, by rw [upToOpening, List.append_assoc]⟩
  have hend : 'r' :: a <:+ k.upToOpening := ⟨b ++ " nea".toList, by rw [hcut]; simp [nearWord]⟩
  have hsuffix := List.suffix_of_suffix_length_le hend hjunk (by rw [List.length_cons]; omega)
  exact h (hsuffix.subset List.mem_cons_self)

/-- Behind the number of a cut, another number ends only within the text. -/
theorem number_of_not_holdsNumber (h : ¬ HoldsNumber k.text) (heading before digits t : List Char)
    (_ : t ≠ []) (hcut : k.upToNear = heading ++ t) (hends : EndsInNumber heading before digits) :
    k.text.length ≤ t.length := by
  by_contra hlt
  have htext : k.text <:+ k.upToNear := ⟨k.heading, rfl⟩
  obtain ⟨s, hs⟩ := List.suffix_of_suffix_length_le ⟨heading, hcut.symm⟩ htext (by omega)
  have hne : s ≠ [] := by
    rintro rfl
    rw [List.nil_append] at hs
    rw [hs] at hlt
    exact hlt (Nat.le_refl _)
  -- A space stands before the text, so the other number lies behind that space.
  have hheading : heading = k.before ++ ':' :: (k.digits ++ [':']) ++ ' ' :: s := by
    rw [upToNear, ← hs, ← List.append_assoc] at hcut
    rw [List.append_cancel_right hcut.symm]
    simp [Cut.heading]
  rw [hheading] at hends
  obtain ⟨b, hb, hdigits, hall, heq⟩ := hends.of_append (by
    rw [List.dropLast_cons_of_ne_nil hne]
    exact List.mem_cons_self)
  obtain ⟨c, b, rfl⟩ := List.exists_cons_of_ne_nil hb
  obtain ⟨-, rfl⟩ := List.cons.inj heq
  exact h ⟨b, digits, t, hdigits, hall, by rw [← hs]; simp⟩

/-- The cut at which a complaint was printed.  Before the opening mark of its token there may
be more. -/
def ofComplaint (process : String) (n : Nat) (text : String) (front : List Char)
    (opening : Char) (token : List Char) (closing : Char) (htext : text ≠ "")
    (hopening : isOpening opening = true) (hclosing : isClosing closing = true) : Cut where
  before := process.toList ++ ": stdin".toList
  digits := Nat.toDigits 10 n
  text := text.toList
  junk := ' ' :: front
  opening := opening
  token := token
  closing := closing
  after := []
  before_ne_nil := by simp
  digits_ne_nil := Nat.toDigits_ne_nil
  isDigit_of_mem := fun _ => isDigit_of_mem_toDigits
  text_ne_nil := by simpa using htext
  isOpening_opening := hopening
  isClosing_closing := hclosing

end Cut

/-- A single line is read at its rightmost cut. -/
theorem parse?_of_line {output : String} {k : Cut} (hline : output.toList = k.line)
    (hnewline : '\n' ∉ k.line) (hk : k.IsRightmost) : parse? output = ofParts? k.parts := by
  have hpieces : Text.pieces output.toList = [] ++ k.line :: [] := by
    rw [hline]
    exact Text.pieces_of_not_mem hnewline
  exact parse?_eq_ofParts? hpieces (fun _ h => absurd h List.not_mem_nil) hk

/-- A complaint is read as it was printed, whatever number it has.  Before the opening mark
there may be more, as long as no letter `r` is in it, and the token holds no opening mark. -/
theorem parse?_complaint {process text : String} {n : Nat} {front token : List Char}
    {opening closing : Char} (hprocess : '\n' ∉ process.toList) (htext : IsRemark text)
    (hfront : 'r' ∉ front) (htoken : ∀ c ∈ token, isOpening c = false)
    (hopening : isOpening opening = true) (hclosing : isClosing closing = true)
    (hnewline : '\n' ∉ front ++ opening :: (token ++ [closing])) :
    parse? (complaint process n text (.ofList (front ++ opening :: (token ++ [closing]))))
      = if 0 < n ∧ n < lineBound then some ⟨n, text, .ofList token⟩ else none := by
  set k := Cut.ofComplaint process n text front opening token closing htext.ne_empty hopening
    hclosing with hk
  have hright : k.IsRightmost := by
    refine ⟨fun c hc => absurd hc List.not_mem_nil, htoken, Cut.near_of_not_mem ?_,
      Cut.number_of_not_holdsNumber htext.not_holdsNumber⟩
    simp [hk, Cut.ofComplaint, hfront]
  have hline : (complaint process n text
      (.ofList (front ++ opening :: (token ++ [closing])))).toList = k.line := by
    simp [complaint, hk, Cut.ofComplaint, Cut.line_eq, nearWord]
  have hinline : '\n' ∉ k.line := by
    have hdigits : '\n' ∉ Nat.toDigits 10 n := fun h =>
      absurd (isDigit_of_mem_toDigits h) (by decide)
    simp only [List.mem_append, List.mem_cons, List.not_mem_nil, or_false, not_or] at hnewline
    simp [hk, Cut.ofComplaint, Cut.line_eq, nearWord, hprocess, hdigits, htext.newline_not_mem,
      hnewline]
  rw [parse?_of_line hline hinline hright, ofParts?]
  simp only [Cut.parts, hk, Cut.ofComplaint, numberOfDigits_toDigits, String.ofList_toList]

section
variable {process text token : String} {n : Nat}

theorem parse?_quoted (hprocess : '\n' ∉ process.toList) (htext : IsRemark text)
    (hnewline : '\n' ∉ token.toList) (hquote : '\'' ∉ token.toList)
    (hangle : '<' ∉ token.toList) :
    parse? (complaint process n text (quoted token))
      = if 0 < n ∧ n < lineBound then some ⟨n, text, token⟩ else none := by
  have hmarked : quoted token = .ofList ([] ++ '\'' :: (token.toList ++ ['\''])) := by
    rw [quoted, ← String.toList_inj]
    simp
  rw [hmarked, parse?_complaint hprocess htext List.not_mem_nil (opensNothing hangle hquote)
    (by decide) (by decide) (by simpa using hnewline), String.ofList_toList]

theorem parse?_end_of_input (hprocess : '\n' ∉ process.toList) (htext : IsRemark text) :
    parse? (complaint process n text "<eof>")
      = if 0 < n ∧ n < lineBound then some ⟨n, text, "eof"⟩ else none := by
  have hmarked : "<eof>" = String.ofList ([] ++ '<' :: ("eof".toList ++ ['>'])) := rfl
  have htoken : ∀ c ∈ "eof".toList, isOpening c = false := opensNothing (by decide) (by decide)
  rw [hmarked, parse?_complaint hprocess htext List.not_mem_nil htoken (by decide) (by decide)
    (by decide), String.ofList_toList]

/-- Within quotes, the angle bracket is the last mark that could open the token. -/
theorem parse?_quoted_end_of_input (hprocess : '\n' ∉ process.toList) (htext : IsRemark text) :
    parse? (complaint process n text (quoted "<eof>"))
      = if 0 < n ∧ n < lineBound then some ⟨n, text, "eof>"⟩ else none := by
  have hmarked : quoted "<eof>" = String.ofList (['\''] ++ '<' :: ("eof>".toList ++ ['\''])) := rfl
  have htoken : ∀ c ∈ "eof>".toList, isOpening c = false := opensNothing (by decide) (by decide)
  rw [hmarked, parse?_complaint hprocess htext (by decide) htoken (by decide) (by decide)
    (by decide), String.ofList_toList]

end

end Message

/-! ### Where a token is marked -/

namespace Diagnostic

/-- The range is the first occurrence of the token on the text of line `n`, or all of the
line when the token does not occur there. -/
structure Marks (d : Diagnostic) (n : Nat) (line token : String) : Prop where
  first : ∀ before after, line.toList = before ++ (token.toList ++ after) →
    (∀ b a, line.toList = b ++ (token.toList ++ a) → before.length ≤ b.length) →
    d.range = .onLine (n - 1) before.length (before.length + token.length)
  missing : (∀ b a, line.toList ≠ b ++ (token.toList ++ a)) →
    d.range = .onLine (n - 1) 0 line.length

theorem Marks.range_eq {d : Diagnostic} {n start : Nat} {line token : String}
    (h : d.Marks n line token)
    (hindex : Text.firstIndex? token.toList line.toList = some start) :
    d.range = .onLine (n - 1) start (start + token.length) := by
  obtain ⟨before, after, hcut, rfl, hfirst⟩ := Text.firstIndex?_eq_some_iff.mp hindex
  exact h.first before after hcut hfirst

/-- Where a token is marked, all of the line is, unless the token is a part of it. -/
theorem Marks.whole_iff {d : Diagnostic} {n : Nat} {line token : String}
    (h : d.Marks n line token) :
    d.range = .onLine (n - 1) 0 line.length ↔
      (∀ b a, line.toList ≠ b ++ (token.toList ++ a)) ∨ line = token := by
  cases hindex : Text.firstIndex? token.toList line.toList with
  | none =>
    have hnone := Text.firstIndex?_eq_none_iff.mp hindex
    exact ⟨fun _ => .inl hnone, fun _ => h.missing hnone⟩
  | some start =>
    rw [h.range_eq hindex]
    obtain ⟨before, after, hcut, rfl, hfirst⟩ := Text.firstIndex?_eq_some_iff.mp hindex
    constructor
    · intro hrange
      obtain ⟨hstart, hstop⟩ : before.length = 0 ∧ before.length + token.length = line.length := by
        simpa [Range.onLine] using hrange
      obtain rfl := List.eq_nil_of_length_eq_zero hstart
      have hlength := congrArg List.length hcut
      rw [List.nil_append, List.length_append, String.length_toList, String.length_toList]
        at hlength
      have hafter : after.length = 0 := by omega
      obtain rfl := List.eq_nil_of_length_eq_zero hafter
      refine .inr (String.toList_inj.mp ?_)
      rw [hcut, List.nil_append, List.append_nil]
    · rintro (hnone | rfl)
      · exact absurd hcut (hnone before after)
      · rw [Nat.le_zero.mp (hfirst [] [] (by simp)), Nat.zero_add]

end Diagnostic

namespace Message

/-- On a line that is not too wide, a message becomes a diagnostic: about the whole line at
the end of the input, and else about its token. -/
theorem exists_resolve {lines : List String} {m : Message} {line : String} (hpos : 0 < m.line)
    (hline : lines[m.line - 1]? = some line) (hwidth : line.length < columnBound) :
    ∃ d, resolve lines m = some d ∧ d.message = m.text ∧
      (m.isEof = true → d.range = .onLine (m.line - 1) 0 line.length) ∧
      (m.isEof = false → d.Marks m.line line m.token) := by
  obtain ⟨start, stop, hcolumns⟩ := exists_columns? m hwidth
  have hcovers := covers_of_columns?_eq_some hcolumns
  refine ⟨_, resolve_eq_some_iff.mpr ⟨hpos, line, start, stop, hline, hcolumns, rfl⟩, rfl,
    fun heof => ?_, fun heof => ⟨fun before after hcut hfirst => ?_, fun hnone => ?_⟩⟩
  · obtain ⟨rfl, rfl⟩ := hcovers.whole (.inl (of_decide_eq_true heof))
    rfl
  · obtain ⟨rfl, rfl⟩ := hcovers.eq_of_cut (of_decide_eq_false heof) hcut hfirst
    rfl
  · have hmissing : ¬ m.token.toList <:+: line.toList := by
      rintro ⟨before, after, hcut⟩
      rw [List.append_assoc] at hcut
      exact hnone before after hcut.symm
    obtain ⟨rfl, rfl⟩ := hcovers.whole (.inr hmissing)
    rfl

/-- On a line that is too wide, a message becomes nothing. -/
theorem resolve_eq_none {lines : List String} {m : Message} {line : String}
    (hline : lines[m.line - 1]? = some line) (hwidth : columnBound ≤ line.length) :
    resolve lines m = none := by
  refine Option.eq_none_iff_forall_ne_some.mpr fun d hd => ?_
  obtain ⟨-, text, start, stop, htext, hcolumns, -⟩ := resolve_eq_some_iff.mp hd
  obtain rfl := Option.some.inj (hline.symm.trans htext)
  rw [columns?_eq, if_pos hwidth] at hcolumns
  exact absurd hcolumns (by simp)

end Message

/-! ### Complaints about a document -/

section
variable {lines : List String} {process text token line : String} {n : Nat}

open Message

theorem diagnose_complaint (marked : String) : diagnose lines (complaint process n text marked)
    = (parse? (complaint process n text marked)).bind (resolve lines) := by
  have hne : complaint process n text marked ≠ "" := by
    rw [Ne, ← String.toList_inj]
    simp [complaint]
  rw [diagnose, if_neg (by simpa using hne)]

/-- **What a quoted token leads to.**  Take any complaint about a line of a document, with any
process and any remark of one line without a number between `:` and `: `, and in quotes any
token of one line without quote or opening angle bracket.  It gives a diagnostic with that
remark.  Unless the token is `eof`, the range is the first occurrence of the token on the
line, or the whole line when it does not occur there; for `eof` it is the whole line.  Line
numbers and widths have to be such that they can be written down. -/
theorem diagnose_quoted_token (hprocess : '\n' ∉ process.toList) (htext : IsRemark text)
    (hnewline : '\n' ∉ token.toList) (hquote : '\'' ∉ token.toList)
    (hangle : '<' ∉ token.toList) (hpos : 0 < n) (hline : lines[n - 1]? = some line)
    (hbound : n < lineBound) (hwidth : line.length < columnBound) :
    ∃ d, diagnose lines (complaint process n text (quoted token)) = some d ∧
      d.message = text ∧ (token ≠ endOfInput → d.Marks n line token) ∧
      (token = endOfInput → d.range = .onLine (n - 1) 0 line.length) := by
  rw [diagnose_complaint, parse?_quoted hprocess htext hnewline hquote hangle,
    if_pos ⟨hpos, hbound⟩, Option.bind_some]
  obtain ⟨d, hd, hmessage, heof, hmarks⟩ :=
    exists_resolve (m := ⟨n, text, token⟩) hpos hline hwidth
  exact ⟨d, hd, hmessage, fun htoken => hmarks (decide_eq_false htoken),
    fun htoken => heof (decide_eq_true htoken)⟩

/-- The remark and the line hold most of what separates the parts of a complaint. -/
theorem greater_or_equal_marked : ∃ d,
    diagnose ["if a then", "  b >= 'c' >= 1"]
        (complaint "my luac: 7" 2 "'then' expected near '<1>'" (quoted ">=")) = some d ∧
      d.message = "'then' expected near '<1>'" ∧ d.range = .onLine 1 4 6 := by
  have hremark : IsRemark "'then' expected near '<1>'" :=
    isRemark_of_not_mem (by decide) (by decide) (by decide)
  have hline : ["if a then", "  b >= 'c' >= 1"][2 - 1]? = some "  b >= 'c' >= 1" := rfl
  obtain ⟨d, hd, hmessage, hmarks, -⟩ : ∃ d, diagnose ["if a then", "  b >= 'c' >= 1"]
      (complaint "my luac: 7" 2 "'then' expected near '<1>'" (quoted ">=")) = some d ∧ _ :=
    diagnose_quoted_token (by decide) hremark (by decide) (by decide) (by decide) (by decide)
      hline (by decide) (by decide)
  exact ⟨d, hd, hmessage, (hmarks (by decide)).range_eq (by decide)⟩

/-- What keeps a quoted token from its place: it is the word for the end of the input, it
holds a mark that opens tokens, its line is too wide, or the number of its line too large. -/
theorem quoted_tokens_missed :
    IsRemark "syntax error" ∧
    (∃ d, diagnose ["x = eof eof"] (complaint "luac" 1 "syntax error" (quoted "eof")) = some d ∧
      d.range = .onLine 0 0 11 ∧ ¬ d.Marks 1 "x = eof eof" "eof") ∧
    (∃ d, diagnose ["x = < 1"] (complaint "luac" 1 "syntax error" (quoted "<")) = some d ∧
      d.range = .onLine 0 0 0 ∧ ¬ d.Marks 1 "x = < 1" "<") ∧
    diagnose [.ofList (.replicate columnBound 'x')] (complaint "luac" 1 "syntax error" (quoted "x"))
      = none ∧
    (List.replicate lineBound "x")[lineBound - 1]? = some "x" ∧
    diagnose (.replicate lineBound "x") (complaint "luac" lineBound "syntax error" (quoted "x"))
      = none := by
  have hremark : IsRemark "syntax error" :=
    isRemark_of_not_mem (by decide) (by decide) (by decide)
  have hread : ∀ n, parse? (complaint "luac" n "syntax error" (quoted "x"))
      = if 0 < n ∧ n < lineBound then some ⟨n, "syntax error", "x"⟩ else none := fun n =>
    parse?_quoted (by decide) hremark (by decide) (by decide) (by decide)
  refine ⟨hremark, ?_, ?_, ?_, ?_, ?_⟩
  · have hmissed : diagnose ["x = eof eof"] (complaint "luac" 1 "syntax error" (quoted "eof"))
        = some (.error (.onLine 0 0 11) "syntax error") := by
      rw [diagnose_complaint, parse?_quoted (by decide) hremark (by decide) (by decide)
        (by decide)]
      rfl
    refine ⟨_, hmissed, rfl, fun h => ?_⟩
    have hindex : Text.firstIndex? "eof".toList "x = eof eof".toList = some 4 := by decide
    exact absurd (h.range_eq hindex) (by decide)
  · have hmarked : quoted "<" = .ofList (['\''] ++ '<' :: ([] ++ ['\''])) := rfl
    have hmissed : diagnose ["x = < 1"] (complaint "luac" 1 "syntax error" (quoted "<"))
        = some (.error (.onLine 0 0 0) "syntax error") := by
      rw [diagnose_complaint, hmarked, parse?_complaint (by decide) hremark (by decide)
        (fun _ h => absurd h List.not_mem_nil) (by decide) (by decide) (by decide),
        if_pos ⟨by decide, by decide⟩, Option.bind_some]
      refine resolve_eq_some_iff.mpr ⟨by decide, "x = < 1", 0, 0, rfl, ?_, rfl⟩
      rw [columns?_eq]
      rfl
    refine ⟨_, hmissed, rfl, fun h => ?_⟩
    have hindex : Text.firstIndex? "<".toList "x = < 1".toList = some 4 := by decide
    exact absurd (h.range_eq hindex) (by decide)
  · rw [diagnose_complaint, hread, if_pos ⟨by decide, by decide⟩, Option.bind_some]
    refine resolve_eq_none (List.getElem?_cons_zero) ?_
    rw [String.length_ofList, List.length_replicate]
  · rw [List.getElem?_replicate, if_pos (by decide)]
  · rw [diagnose_complaint, hread, if_neg (fun h => Nat.lt_irrefl _ h.2), Option.bind_none]

/-- **What the end of the input leads to.**  Spelled `<eof>` it is recognised, and the
diagnostic is about the whole line.  Spelled `'<eof>'` it never is: the diagnostic is about
the first `eof>` on the line, and about the whole line exactly when that does not occur there
or is all of it. -/
theorem diagnose_end_of_input (htext : IsRemark text) (hpos : 0 < n)
    (hline : lines[n - 1]? = some line) (hbound : n < lineBound)
    (hwidth : line.length < columnBound) :
    (∃ m, parse? (complaint "luac" n text "<eof>") = some m ∧ m.isEof = true) ∧
    (∃ d, diagnose lines (complaint "luac" n text "<eof>") = some d ∧ d.message = text ∧
      d.range = .onLine (n - 1) 0 line.length) ∧
    (∃ m, parse? (complaint "luajit" n text (quoted "<eof>")) = some m ∧ m.isEof = false) ∧
    (∃ d, diagnose lines (complaint "luajit" n text (quoted "<eof>")) = some d ∧
      d.message = text ∧ d.Marks n line "eof>" ∧
      (d.range = .onLine (n - 1) 0 line.length ↔
        (∀ b a, line.toList ≠ b ++ ("eof>".toList ++ a)) ∨ line = "eof>")) := by
  have hbare : parse? (complaint "luac" n text "<eof>") = some ⟨n, text, "eof"⟩ := by
    rw [parse?_end_of_input (by decide) htext, if_pos ⟨hpos, hbound⟩]
  have hquoted : parse? (complaint "luajit" n text (quoted "<eof>"))
      = some ⟨n, text, "eof>"⟩ := by
    rw [parse?_quoted_end_of_input (by decide) htext, if_pos ⟨hpos, hbound⟩]
  refine ⟨⟨_, hbare, rfl⟩, ?_, ⟨_, hquoted, rfl⟩, ?_⟩
  · rw [diagnose_complaint, hbare, Option.bind_some]
    obtain ⟨d, hd, hmessage, heof, -⟩ :=
      exists_resolve (m := ⟨n, text, "eof"⟩) hpos hline hwidth
    exact ⟨d, hd, hmessage, heof rfl⟩
  · rw [diagnose_complaint, hquoted, Option.bind_some]
    obtain ⟨d, hd, hmessage, -, hmarks⟩ :=
      exists_resolve (m := ⟨n, text, "eof>"⟩) hpos hline hwidth
    exact ⟨d, hd, hmessage, hmarks rfl, (hmarks rfl).whole_iff⟩

/-- The unfinished line ends in a word and an angle bracket. -/
theorem end_of_unfinished_line :
    (∃ d, diagnose ["x = eof>"] (complaint "luac" 1 "unexpected symbol" "<eof>") = some d ∧
      d.range = .onLine 0 0 8) ∧
    (∃ d, diagnose ["x = eof>"] (complaint "luajit" 1 "unexpected symbol" (quoted "<eof>"))
      = some d ∧ d.Marks 1 "x = eof>" "eof>") := by
  have hremark : IsRemark "unexpected symbol" :=
    isRemark_of_not_mem (by decide) (by decide) (by decide)
  have hline : ["x = eof>"][1 - 1]? = some "x = eof>" := rfl
  obtain ⟨-, ⟨d, hd, -, hrange⟩, -, d', hd', -, hmarks, -⟩ :=
    diagnose_end_of_input hremark (by decide) hline (by decide) (by decide)
  exact ⟨⟨d, hd, hrange⟩, d', hd', hmarks⟩

/-- The quoted spelling of the end of the input is not recognised, and what ends the line gets
a range of its own. -/
theorem quoted_end_of_input_missed :
    IsRemark "unexpected symbol" ∧
    (∃ m, parse? (complaint "luajit" 1 "unexpected symbol" (quoted "<eof>")) = some m ∧
      m.isEof = false) ∧
    diagnose ["x = eof>"] (complaint "luajit" 1 "unexpected symbol" (quoted "<eof>"))
      = some (.error (.onLine 0 4 8) "unexpected symbol") := by
  have hremark : IsRemark "unexpected symbol" :=
    isRemark_of_not_mem (by decide) (by decide) (by decide)
  have hread : parse? (complaint "luajit" 1 "unexpected symbol" (quoted "<eof>"))
      = some ⟨1, "unexpected symbol", "eof>"⟩ := by
    rw [parse?_quoted_end_of_input (by decide) hremark, if_pos ⟨by decide, by decide⟩]
  refine ⟨hremark, ⟨_, hread, by decide⟩, ?_⟩
  rw [diagnose_complaint, hread, Option.bind_some]
  refine resolve_eq_some_iff.mpr ⟨by decide, "x = eof>", 4, 8, rfl, ?_, rfl⟩
  rw [columns?_eq]
  rfl

end

end LuaDiagnostics
