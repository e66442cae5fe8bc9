/-
A reader of JSON texts.

The reader goes through a text from the left and never back: what stands at its front tells
which production of the grammar applies.  The first argument of the mutually recursive
functions bounds how deep they call each other.  Every call on a value consumes a character
and every call on items or members leads to a call on a value, so twice the length of the
text is enough (`reads`).

* **`read?_of_spelling`**: a text that spells a value is read as that value.
* **`ElementSpelling.unique`**: so no text spells two values.
-/
import LuaDiagnostics.Proofs.Report.Grammar

namespace LuaDiagnostics.Json

/-! ### The reader -/

/-- The text behind a character that stands at the front, maybe after blanks. -/
def after? (c : Char) (cs : List Char) : Option (List Char) :=
  match cs.dropWhile isBlank with
  | [] => none
  | d :: ds => if d = c then some ds else none

/-- The number at the front of a text, and the text behind it. -/
def readNumber (cs : List Char) : Option (Json × List Char) :=
  let ds := cs.takeWhile Char.isDigit
  if IsNumeral ds then some (.number (Nat.ofDigitChars 10 ds 0), cs.dropWhile Char.isDigit)
  else none

/-- The value of the four hexadecimal digits at the front of a text. -/
def readCode (cs : List Char) : Option (Nat × List Char) :=
  (codeOf? (cs.take 4)).map fun n => (n, cs.drop 4)

/-- The character that two codes stand for, of which the second is at the front of the text. -/
def readLow (high : Nat) : List Char → Option (Char × List Char)
  | '\\' :: 'u' :: cs => do
    let (low, cs) ← readCode cs
    if 0xDC00 ≤ low ∧ low < 0xE000 then
      return (.ofNat (0x10000 + (high - 0xD800) * 0x400 + (low - 0xDC00)), cs)
    else none
  | _ => none

/-- The character whose escape is at the front of a text, after the backslash. -/
def readEscape : List Char → Option (Char × List Char)
  | '"' :: cs => some ('"', cs)
  | '\\' :: cs => some ('\\', cs)
  | '/' :: cs => some ('/', cs)
  | 'b' :: cs => some ('\x08', cs)
  | 'f' :: cs => some ('\x0c', cs)
  | 'n' :: cs => some ('\n', cs)
  | 'r' :: cs => some ('\r', cs)
  | 't' :: cs => some ('\t', cs)
  | 'u' :: cs => do
    let (n, cs) ← readCode cs
    if n < 0xD800 ∨ 0xDFFF < n then return (.ofNat n, cs)
    else if n < 0xDC00 then readLow n cs
    else none
  | _ => none

/-- The character of a string that is at the front of a text. -/
def readChar : List Char → Option (Char × List Char)
  | [] => none
  | c :: cs =>
    if c = '\\' then readEscape cs
    else if 0x20 ≤ c.toNat then some (c, cs)
    else none

/-- The characters up to the next quotation mark. -/
def readChars : Nat → List Char → Option (List Char × List Char)
  | 0, _ => none
  | fuel + 1, cs =>
    if cs.head? = some '"' then some ([], cs.tail)
    else do
      let (c, cs) ← readChar cs
      let (others, cs) ← readChars fuel cs
      return (c :: others, cs)

mutual

/-- The value at the front of a text, maybe after blanks, and the text behind it. -/
def readValue : Nat → List Char → Option (Json × List Char)
  | 0, _ => none
  | fuel + 1, cs =>
    if let some cs := after? '"' cs then do
      let (s, cs) ← readChars fuel cs
      return (.string (.ofList s), cs)
    else if let some cs := after? '[' cs then
      if let some cs := after? ']' cs then some (.array [], cs)
      else do
        let (items, cs) ← readItems fuel cs
        return (.array items, cs)
    else if let some cs := after? '\x7b' cs then
      if let some cs := after? '\x7d' cs then some (.object [], cs)
      else do
        let (members, cs) ← readMembers fuel cs
        return (.object members, cs)
    else readNumber (cs.dropWhile isBlank)

/-- The items up to the end of an array. -/
def readItems : Nat → List Char → Option (List Json × List Char)
  | 0, _ => none
  | fuel + 1, cs => do
    let (v, cs) ← readValue fuel cs
    if let some cs := after? ',' cs then
      let (others, cs) ← readItems fuel cs
      return (v :: others, cs)
    else
      let cs ← after? ']' cs
      return ([v], cs)

/-- The member at the front of a text, maybe after blanks, and the text behind it. -/
def readMember : Nat → List Char → Option ((String × Json) × List Char)
  | 0, _ => none
  | fuel + 1, cs => do
    let (name, cs) ← readChars fuel (← after? '"' cs)
    let (v, cs) ← readValue fuel (← after? ':' cs)
    return ((.ofList name, v), cs)

/-- The members up to the end of an object. -/
def readMembers : Nat → List Char → Option (List (String × Json) × List Char)
  | 0, _ => none
  | fuel + 1, cs => do
    let (m, cs) ← readMember fuel cs
    if let some cs := after? ',' cs then
      let (others, cs) ← readMembers fuel cs
      return (m :: others, cs)
    else
      let cs ← after? '\x7d' cs
      return ([m], cs)

end

/-- The value that a whole text spells. -/
def read? (cs : List Char) : Option Json := do
  let (v, cs) ← readValue (2 * cs.length) cs
  if cs.all isBlank then return v else none

/-! ### Single characters -/

theorem dropWhile_blank {a : List Char} (ha : Blank a) (cs : List Char) :
    (a ++ cs).dropWhile isBlank = cs.dropWhile isBlank :=
  List.dropWhile_append_of_pos ha

theorem after?_self {a : List Char} (ha : Blank a) {c : Char} (hc : isBlank c = false)
    (cs : List Char) : after? c (a ++ c :: cs) = some cs := by
  rw [after?, dropWhile_blank ha, List.dropWhile_cons_of_neg (by simp [hc])]
  exact if_pos rfl

theorem after?_other {a : List Char} (ha : Blank a) {c d : Char} (hd : isBlank d = false)
    (h : d ≠ c) (cs : List Char) : after? c (a ++ d :: cs) = none := by
  rw [after?, dropWhile_blank ha, List.dropWhile_cons_of_neg (by simp [hd])]
  exact if_neg h

theorem length_codeOf? {ds : List Char} {n : Nat} (h : codeOf? ds = some n) : ds.length = 4 := by
  match ds, h with
  | [_, _, _, _], _ => rfl

theorem readCode_append {ds : List Char} {n : Nat} (h : codeOf? ds = some n) (cs : List Char) :
    readCode (ds ++ cs) = some (n, cs) := by
  have hlength := length_codeOf? h
  rw [readCode, List.take_left' hlength, List.drop_left' hlength, h]
  rfl

/-- A spelling of a character is read as that character, whatever stands behind. -/
theorem readChar_of_spelling {c : Char} {ts : List Char} (h : CharSpelling c ts)
    (cs : List Char) : readChar (ts ++ cs) = some (c, cs) := by
  cases h with
  | plain control quotation backslash =>
    rw [List.singleton_append, readChar, if_neg backslash, if_pos control]
  | code digits scalar =>
    show readEscape ('u' :: (_ ++ cs)) = _
    simp only [readEscape, readCode_append digits cs]
    exact if_pos scalar
  | pair first second isHigh isLow =>
    -- the first code is no character of its own, so the reader goes on to the second
    show readEscape ('u' :: (_ ++ cs)) = _
    rw [List.append_assoc]
    simp only [readEscape, readCode_append first]
    show (if _ then _ else _) = _
    rw [if_neg (by omega), if_pos isHigh.2]
    simp only [List.cons_append, readLow, readCode_append second]
    exact if_pos isLow
  | _ => rfl

/-- A spelling of a character does not begin like the end of a string. -/
theorem CharSpelling.head?_ne {c : Char} {ts : List Char} (h : CharSpelling c ts)
    (cs : List Char) : (ts ++ cs).head? ≠ some '"' := by
  cases h with
  | plain control quotation backslash => simpa using quotation
  | _ => simp

theorem CharSpelling.length_pos {c : Char} {ts : List Char} (h : CharSpelling c ts) :
    0 < ts.length := by
  cases h <;> simp

/-- A spelling of some characters is read up to the quotation mark behind it. -/
theorem readChars_of_spelling {cs ts : List Char} (h : CharsSpelling cs ts) (rest : List Char) :
    ∀ fuel, ts.length < fuel → readChars fuel (ts ++ '"' :: rest) = some (cs, rest) := by
  induction h with
  | nil =>
    intro fuel hfuel
    obtain ⟨fuel, rfl⟩ := Nat.exists_eq_add_of_lt hfuel
    rfl
  | @cons c cs ts us head tail ih =>
    intro fuel hfuel
    obtain ⟨fuel, rfl⟩ := Nat.exists_eq_add_of_lt hfuel
    have hpos := head.length_pos
    rw [List.length_append] at *
    rw [readChars, List.append_assoc, if_neg (head.head?_ne _), readChar_of_spelling head]
    simp only [Option.bind_eq_bind, Option.bind_some]
    rw [ih _ (by omega)]
    rfl

/-! ### What a spelling begins with -/

/-- The text does not go on with a digit. -/
def EndsNumber (cs : List Char) : Prop := ∀ d ∈ cs.head?, d.isDigit = false

theorem isDigit_eq_false_of_isBlank {c : Char} (h : isBlank c = true) : c.isDigit = false := by
  simp only [isBlank, Bool.or_eq_true, decide_eq_true_eq] at h
  rcases h with ((rfl | rfl) | rfl) | rfl <;> rfl

theorem isBlank_eq_false_of_isDigit {d : Char} (h : d.isDigit = true) : isBlank d = false :=
  Bool.eq_false_iff.mpr fun hblank => by simp [isDigit_eq_false_of_isBlank hblank] at h

theorem endsNumber_blank {a : List Char} (ha : Blank a) {c : Char} (hc : c.isDigit = false)
    (cs : List Char) : EndsNumber (a ++ c :: cs) := by
  intro d hd
  cases a with
  | nil =>
    obtain rfl : c = d := by simpa using hd
    exact hc
  | cons b a =>
    obtain rfl : b = d := by simpa using hd
    exact isDigit_eq_false_of_isBlank (ha b List.mem_cons_self)

theorem ne_of_isDigit {c d : Char} (h : d.isDigit = true) (hc : c.isDigit = false) : d ≠ c := by
  rintro rfl
  exact absurd h (by simp [hc])

/-- No value begins like the end of an array. -/
theorem Spelling.exists_cons {v : Json} {ts : List Char} (h : Spelling v ts) :
    ∃ c us, ts = c :: us ∧ isBlank c = false ∧ c ≠ ']' := by
  cases h with
  | number numeral =>
    obtain ⟨d, ds, rfl⟩ := List.exists_cons_of_ne_nil numeral.1
    have hd := numeral.2.1 d List.mem_cons_self
    exact ⟨d, ds, rfl, isBlank_eq_false_of_isDigit hd, ne_of_isDigit hd rfl⟩
  | _ => exact ⟨_, _, rfl, rfl, by decide⟩

theorem ItemsSpelling.after?_eq_none {items : List Json} {ts : List Char}
    (h : ItemsSpelling items ts) (cs : List Char) : after? ']' (ts ++ cs) = none := by
  have helement : ∀ {v ts}, ElementSpelling v ts → ∀ cs, after? ']' (ts ++ cs) = none := by
    rintro v _ ⟨before, value, behind⟩ cs
    obtain ⟨c, us, rfl, hblank, hc⟩ := value.exists_cons
    rw [List.append_assoc, List.cons_append]
    exact after?_other before hblank hc _
  cases h with
  | one element => exact helement element cs
  | more element others =>
    rw [List.append_assoc]
    exact helement element _

theorem MembersSpelling.after?_eq_none {members : List (String × Json)} {ts : List Char}
    (h : MembersSpelling members ts) (cs : List Char) : after? '\x7d' (ts ++ cs) = none := by
  have hmember : ∀ {m ts}, MemberSpelling m ts → ∀ cs, after? '\x7d' (ts ++ cs) = none := by
    rintro m _ ⟨before, name, behind, element⟩ cs
    rw [List.append_assoc]
    exact after?_other before rfl (by decide) _
  cases h with
  | one member => exact hmember member cs
  | more member others =>
    rw [List.append_assoc]
    exact hmember member _

theorem readNumber_of_numeral {ds : List Char} (h : IsNumeral ds) {cs : List Char}
    (hcs : EndsNumber cs) :
    readNumber (ds ++ cs) = some (.number (Nat.ofDigitChars 10 ds 0), cs) := by
  have htake : cs.takeWhile Char.isDigit = [] := by
    cases cs with
    | nil => rfl
    | cons c cs => exact List.takeWhile_cons_of_neg (by simp [hcs c rfl])
  have hdrop : cs.dropWhile Char.isDigit = cs := by
    cases cs with
    | nil => rfl
    | cons c cs => exact List.dropWhile_cons_of_neg (by simp [hcs c rfl])
  rw [readNumber, List.takeWhile_append_of_pos h.2.1, List.dropWhile_append_of_pos h.2.1, htake,
    hdrop, List.append_nil]
  exact if_pos h

/-! ### Reading values -/

/-- With so much fuel, the values whose spellings are short enough for it are read. -/
def ReadsValues (fuel : Nat) : Prop :=
  ∀ {v : Json} {a ts rest : List Char}, Spelling v ts → Blank a → EndsNumber rest →
    2 * ts.length ≤ fuel → readValue fuel (a ++ (ts ++ rest)) = some (v, rest)

/-- With so much fuel, the items whose spellings are short enough for it are read. -/
def ReadsItems (fuel : Nat) : Prop :=
  ∀ {items : List Json} {ts : List Char}, ItemsSpelling items ts → 2 * ts.length < fuel →
    ∀ rest, readItems fuel (ts ++ ']' :: rest) = some (items, rest)

/-- With so much fuel, a member whose spelling is short enough for it is read, and what is
left are blanks and what stands behind. -/
def ReadsMember (fuel : Nat) : Prop :=
  ∀ {m : String × Json} {ts : List Char}, MemberSpelling m ts → 2 * ts.length ≤ fuel →
    ∀ {c : Char}, c.isDigit = false → ∀ rest,
      ∃ b, Blank b ∧ readMember fuel (ts ++ c :: rest) = some (m, b ++ c :: rest)

/-- With so much fuel, the members whose spellings are short enough for it are read. -/
def ReadsMembers (fuel : Nat) : Prop :=
  ∀ {members : List (String × Json)} {ts : List Char}, MembersSpelling members ts →
    2 * ts.length < fuel → ∀ rest, readMembers fuel (ts ++ '\x7d' :: rest) = some (members, rest)

/-- One call reads a value if the calls it makes read the items and members inside. -/
theorem ReadsValues.succ {fuel : Nat} (hitems : ReadsItems fuel) (hmembers : ReadsMembers fuel) :
    ReadsValues (fuel + 1) := by
  intro v a ts rest h ha hrest hfuel
  cases h with
  | number numeral =>
    obtain ⟨d, ds, rfl⟩ := List.exists_cons_of_ne_nil numeral.1
    have hd := numeral.2.1 d List.mem_cons_self
    -- a digit opens neither a string nor an array nor an object
    have hother : ∀ c : Char, c.isDigit = false → after? c (a ++ (d :: ds ++ rest)) = none :=
      fun c hc => after?_other ha (isBlank_eq_false_of_isDigit hd) (ne_of_isDigit hd hc) _
    rw [readValue, hother '"' rfl, hother '[' rfl, hother '\x7b' rfl, dropWhile_blank ha,
      List.cons_append, List.dropWhile_cons_of_neg (by simp [isBlank_eq_false_of_isDigit hd])]
    exact readNumber_of_numeral numeral hrest
  | @string cs ts chars =>
    simp only [List.length_cons, List.length_append] at hfuel
    rw [readValue, List.cons_append, List.append_assoc, List.singleton_append, after?_self ha rfl]
    simp only [readChars_of_spelling chars rest fuel (by omega)]
    rfl
  | emptyArray blank =>
    rw [readValue, List.cons_append, List.append_assoc, List.singleton_append,
      after?_other ha rfl (by decide), after?_self ha rfl]
    simp only [after?_self blank (c := ']') rfl]
  | array elements =>
    simp only [List.length_cons, List.length_append] at hfuel
    rw [readValue, List.cons_append, List.append_assoc, List.singleton_append,
      after?_other ha rfl (by decide), after?_self ha rfl]
    simp only [elements.after?_eq_none, hitems elements (by omega) rest]
    rfl
  | emptyObject blank =>
    rw [readValue, List.cons_append, List.append_assoc, List.singleton_append,
      after?_other ha rfl (by decide), after?_other ha rfl (by decide), after?_self ha rfl]
    simp only [after?_self blank (c := '\x7d') rfl]
  | object elements =>
    simp only [List.length_cons, List.length_append] at hfuel
    rw [readValue, List.cons_append, List.append_assoc, List.singleton_append,
      after?_other ha rfl (by decide), after?_other ha rfl (by decide), after?_self ha rfl]
    simp only [elements.after?_eq_none, hmembers elements (by omega) rest]
    rfl

/-- A value with blanks around it is read, and what is left are blanks and what stands behind. -/
theorem ReadsValues.element {fuel : Nat} (hvalues : ReadsValues fuel) {v : Json}
    {ts : List Char} (h : ElementSpelling v ts) (hfuel : 2 * ts.length ≤ fuel) {c : Char}
    (hc : c.isDigit = false) (rest : List Char) :
    ∃ b, Blank b ∧ readValue fuel (ts ++ c :: rest) = some (v, b ++ c :: rest) := by
  obtain @⟨_, a, us, b, before, value, behind⟩ := h
  simp only [List.length_append] at hfuel
  refine ⟨b, behind, ?_⟩
  rw [List.append_assoc, List.append_assoc]
  exact hvalues value before (endsNumber_blank behind hc rest) (by omega)

theorem ReadsItems.succ {fuel : Nat} (hvalues : ReadsValues fuel) (hitems : ReadsItems fuel) :
    ReadsItems (fuel + 1) := by
  intro items ts h hfuel rest
  cases h with
  | one element =>
    obtain ⟨b, hb, hread⟩ := hvalues.element element (by omega) (c := ']') rfl rest
    rw [readItems, hread]
    simp only [Option.bind_eq_bind, Option.bind_some,
      after?_other hb (c := ',') (d := ']') rfl (by decide), after?_self hb (c := ']') rfl]
    rfl
  | @more v vs ts us element others =>
    simp only [List.length_append, List.length_cons] at hfuel
    obtain ⟨b, hb, hread⟩ :=
      hvalues.element element (by omega) (c := ',') rfl (us ++ ']' :: rest)
    rw [readItems, List.append_assoc, List.cons_append, hread]
    simp only [Option.bind_eq_bind, Option.bind_some, after?_self hb (c := ',') rfl,
      hitems others (by omega) rest]
    rfl

theorem ReadsMember.succ {fuel : Nat} (hvalues : ReadsValues fuel) : ReadsMember (fuel + 1) := by
  rintro m _ @⟨cs, ns, a, b, ts, v, before, name, behind, element⟩ hfuel c hc rest
  simp only [List.length_append, List.length_cons] at hfuel
  obtain ⟨d, hd, hread⟩ := hvalues.element element (by omega) hc rest
  refine ⟨d, hd, ?_⟩
  simp only [readMember, List.append_assoc, List.cons_append, after?_self before (c := '"') rfl,
    Option.bind_eq_bind, Option.bind_some, readChars_of_spelling name _ fuel (by omega),
    after?_self behind (c := ':') rfl, hread]
  rfl

theorem ReadsMembers.succ {fuel : Nat} (hmember : ReadsMember fuel)
    (hmembers : ReadsMembers fuel) : ReadsMembers (fuel + 1) := by
  intro members ts h hfuel rest
  cases h with
  | one member =>
    obtain ⟨b, hb, hread⟩ := hmember member (by omega) (c := '\x7d') rfl rest
    rw [readMembers, hread]
    simp only [Option.bind_eq_bind, Option.bind_some,
      after?_other hb (c := ',') (d := '\x7d') rfl (by decide),
      after?_self hb (c := '\x7d') rfl]
    rfl
  | @more m ms ts us member others =>
    simp only [List.length_append, List.length_cons] at hfuel
    obtain ⟨b, hb, hread⟩ := hmember member (by omega) (c := ',') rfl (us ++ '\x7d' :: rest)
    rw [readMembers, List.append_assoc, List.cons_append, hread]
    simp only [Option.bind_eq_bind, Option.bind_some, after?_self hb (c := ',') rfl,
      hmembers others (by omega) rest]
    rfl

/-- Whatever the fuel is, it is enough for what is short enough for it. -/
theorem reads (fuel : Nat) :
    ReadsValues fuel ∧ ReadsItems fuel ∧ ReadsMember fuel ∧ ReadsMembers fuel := by
  induction fuel with
  | zero =>
    -- no spelling is empty, so none is short enough
    refine ⟨fun h _ _ hfuel => ?_, fun _ hfuel => ?_, fun h hfuel => ?_, fun _ hfuel => ?_⟩
    · obtain ⟨c, us, rfl, -⟩ := h.exists_cons
      simp at hfuel
    · omega
    · cases h
      simp at hfuel
    · omega
  | succ fuel ih =>
    obtain ⟨hvalues, hitems, hmember, hmembers⟩ := ih
    exact ⟨ReadsValues.succ hitems hmembers, ReadsItems.succ hvalues hitems,
      ReadsMember.succ hvalues, ReadsMembers.succ hmember hmembers⟩

/-- A text that spells a value is read as that value. -/
theorem read?_of_spelling {v : Json} {ts : List Char} (h : ElementSpelling v ts) :
    read? ts = some v := by
  obtain @⟨_, a, us, b, before, value, behind⟩ := h
  have hrest : EndsNumber b := by
    intro d hd
    exact isDigit_eq_false_of_isBlank (behind d (List.mem_of_head? hd))
  have hread := (reads (2 * (a ++ (us ++ b)).length)).1 value before hrest
    (by simp only [List.length_append]; omega)
  rw [read?, hread]
  exact if_pos (List.all_eq_true.mpr behind)

/-- No text spells two values. -/
theorem ElementSpelling.unique {v w : Json} {ts : List Char} (hv : ElementSpelling v ts)
    (hw : ElementSpelling w ts) : v = w :=
  Option.some.inj ((read?_of_spelling hv).symm.trans (read?_of_spelling hw))

end LuaDiagnostics.Json
