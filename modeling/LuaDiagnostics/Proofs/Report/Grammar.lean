/-
The grammar of JSON texts.

A value has many spellings: blanks may stand between its parts, and a character inside a
string may be escaped in several ways.  The grammar says which texts spell a value, for the
values that reports are made of.

* **`Spelling`** and the relations defined with it: one constructor for each production.
* **`spelling_render`**: what a report prints for a value is a spelling of it, at every
  level of indentation.
-/
import LuaDiagnostics.Report.Json
import Mathlib.Data.Nat.Init

namespace LuaDiagnostics.Json

/-! ### Blanks and numbers -/

/-- Holds of the four characters that may stand between the parts of a value. -/
def isBlank (c : Char) : Bool := c = ' ' || c = '\n' || c = '\r' || c = '\t'

/-- Nothing but blanks. -/
def Blank (cs : List Char) : Prop := ∀ c ∈ cs, isBlank c = true

/-- Decimal digits without a superfluous zero in front. -/
def IsNumeral (ds : List Char) : Prop :=
  ds ≠ [] ∧ (∀ d ∈ ds, d.isDigit = true) ∧ (ds.head? = some '0' → ds.length = 1)

instance : DecidablePred IsNumeral := fun _ => inferInstanceAs (Decidable (_ ∧ _ ∧ _))

/-! ### Strings -/

/-- The value of a hexadecimal digit. -/
def hexValue? (c : Char) : Option Nat :=
  if '0' ≤ c ∧ c ≤ '9' then some (c.toNat - '0'.toNat)
  else if 'a' ≤ c ∧ c ≤ 'f' then some (c.toNat - 'a'.toNat + 10)
  else if 'A' ≤ c ∧ c ≤ 'F' then some (c.toNat - 'A'.toNat + 10)
  else none

/-- The value of four hexadecimal digits. -/
def codeOf? : List Char → Option Nat
  | [a, b, c, d] => do
    return ((← hexValue? a) * 16 + (← hexValue? b)) * 256 + (← hexValue? c) * 16 + (← hexValue? d)
  | _ => none

/-- The text stands for the character inside a string. -/
inductive CharSpelling : Char → List Char → Prop
  | plain {c : Char} (control : 0x20 ≤ c.toNat) (quotation : c ≠ '"') (backslash : c ≠ '\\') :
    CharSpelling c [c]
  | quotation : CharSpelling '"' ['\\', '"']
  | backslash : CharSpelling '\\' ['\\', '\\']
  | slash : CharSpelling '/' ['\\', '/']
  | backspace : CharSpelling '\x08' ['\\', 'b']
  | formFeed : CharSpelling '\x0c' ['\\', 'f']
  | newline : CharSpelling '\n' ['\\', 'n']
  | carriageReturn : CharSpelling '\r' ['\\', 'r']
  | tab : CharSpelling '\t' ['\\', 't']
  | code {ds : List Char} {n : Nat} (digits : codeOf? ds = some n)
      (scalar : n < 0xD800 ∨ 0xDFFF < n) : CharSpelling (.ofNat n) ('\\' :: 'u' :: ds)
  /-- Characters past the first plane take two codes. -/
  | pair {ds es : List Char} {high low : Nat} (first : codeOf? ds = some high)
      (second : codeOf? es = some low) (isHigh : 0xD800 ≤ high ∧ high < 0xDC00)
      (isLow : 0xDC00 ≤ low ∧ low < 0xE000) :
    CharSpelling (.ofNat (0x10000 + (high - 0xD800) * 0x400 + (low - 0xDC00)))
      ('\\' :: 'u' :: (ds ++ '\\' :: 'u' :: es))

/-- The text stands for the characters between the quotation marks of a string. -/
inductive CharsSpelling : List Char → List Char → Prop
  | nil : CharsSpelling [] []
  | cons {c : Char} {cs ts us : List Char} (head : CharSpelling c ts)
      (tail : CharsSpelling cs us) : CharsSpelling (c :: cs) (ts ++ us)

/-! ### Values -/

mutual

/-- The text spells the value, with nothing around it. -/
inductive Spelling : Json → List Char → Prop
  | number {ds : List Char} (numeral : IsNumeral ds) :
    Spelling (.number (Nat.ofDigitChars 10 ds 0)) ds
  | string {cs ts : List Char} (chars : CharsSpelling cs ts) :
    Spelling (.string (.ofList cs)) ('"' :: (ts ++ ['"']))
  | emptyArray {b : List Char} (blank : Blank b) : Spelling (.array []) ('[' :: (b ++ [']']))
  | array {items : List Json} {ts : List Char} (elements : ItemsSpelling items ts) :
    Spelling (.array items) ('[' :: (ts ++ [']']))
  | emptyObject {b : List Char} (blank : Blank b) :
    Spelling (.object []) ('\x7b' :: (b ++ ['\x7d']))
  | object {members : List (String × Json)} {ts : List Char}
      (elements : MembersSpelling members ts) :
    Spelling (.object members) ('\x7b' :: (ts ++ ['\x7d']))

/-- The text spells the value, with blanks around it. -/
inductive ElementSpelling : Json → List Char → Prop
  | mk {v : Json} {a ts b : List Char} (before : Blank a) (value : Spelling v ts)
      (behind : Blank b) : ElementSpelling v (a ++ (ts ++ b))

/-- The text spells the items of an array, of which there are some. -/
inductive ItemsSpelling : List Json → List Char → Prop
  | one {v : Json} {ts : List Char} (element : ElementSpelling v ts) : ItemsSpelling [v] ts
  | more {v : Json} {vs : List Json} {ts us : List Char} (element : ElementSpelling v ts)
      (others : ItemsSpelling vs us) : ItemsSpelling (v :: vs) (ts ++ ',' :: us)

/-- The text spells a name and a value, with blanks around them. -/
inductive MemberSpelling : String × Json → List Char → Prop
  | mk {cs ns a b ts : List Char} {v : Json} (before : Blank a) (name : CharsSpelling cs ns)
      (behind : Blank b) (element : ElementSpelling v ts) :
    MemberSpelling (.ofList cs, v) (a ++ '"' :: (ns ++ '"' :: (b ++ ':' :: ts)))

/-- The text spells the members of an object, of which there are some. -/
inductive MembersSpelling : List (String × Json) → List Char → Prop
  | one {m : String × Json} {ts : List Char} (member : MemberSpelling m ts) :
    MembersSpelling [m] ts
  | more {m : String × Json} {ms : List (String × Json)} {ts us : List Char}
      (member : MemberSpelling m ts) (others : MembersSpelling ms us) :
    MembersSpelling (m :: ms) (ts ++ ',' :: us)

end

/-! ### What is printed for numbers and strings -/

theorem blank_nil : Blank [] := fun _ h => absurd h List.not_mem_nil

theorem blank_newline (level : Nat) : Blank (newline level) := by
  intro c hc
  rcases List.mem_cons.mp hc with rfl | hc
  · rfl
  · rw [List.eq_of_mem_replicate hc]
    rfl

theorem eq_zero_of_head?_toDigits {n : Nat} (h : (Nat.toDigits 10 n).head? = some '0') :
    n = 0 := by
  induction n using Nat.strong_induction_on with
  | _ n ih =>
    by_cases hn : n < 10
    · rw [Nat.toDigits_of_lt_base hn] at h
      have hall : ∀ k < 10, Nat.digitChar k = '0' → k = 0 := by decide
      exact hall n hn (by simpa using h)
    · have hprefix : (Nat.toDigits 10 (n / 10)).head? = some '0' := by
        obtain ⟨d, ds, hds⟩ := List.exists_cons_of_ne_nil (@Nat.toDigits_ne_nil (n / 10) 10)
        rw [Nat.toDigits_of_base_le (by decide) (by omega), hds] at h
        rw [hds]
        exact h
      have hzero := ih (n / 10) (by omega) hprefix
      omega

theorem isNumeral_toDigits (n : Nat) : IsNumeral (Nat.toDigits 10 n) := by
  refine ⟨Nat.toDigits_ne_nil, fun d => Nat.isDigit_of_mem_toDigits (by decide) (by decide),
    fun hhead => ?_⟩
  rw [eq_zero_of_head?_toDigits hhead]
  rfl

theorem spelling_number (n : Nat) : Spelling (.number n) n.repr.toList := by
  have hspelling := Spelling.number (isNumeral_toDigits n)
  rw [Nat.ofDigitChars_ten_toDigits] at hspelling
  rw [Nat.repr_eq_ofList_toDigits, String.toList_ofList]
  exact hspelling

theorem hexValue?_digitChar : ∀ k < 16, hexValue? (Nat.digitChar k) = some k := by decide

/-- Escaping a character spells it. -/
theorem charSpelling_escape (c : Char) : CharSpelling c (escape c) := by
  rw [escape]
  split
  · rename_i h; rw [h]; exact .quotation
  split
  · rename_i h; rw [h]; exact .backslash
  split
  · rename_i h; rw [h]; exact .newline
  split
  · rename_i h; rw [h]; exact .carriageReturn
  split
  · rename_i h; rw [h]; exact .tab
  split
  · rename_i h; rw [h]; exact .backspace
  split
  · rename_i h; rw [h]; exact .formFeed
  split
  · rename_i hcontrol
    have hcode : codeOf? ['0', '0', Nat.digitChar (c.toNat / 16), Nat.digitChar (c.toNat % 16)]
        = some c.toNat := by
      have hzero : hexValue? '0' = some 0 := rfl
      simp only [codeOf?, hzero, hexValue?_digitChar (c.toNat / 16) (by omega),
        hexValue?_digitChar (c.toNat % 16) (by omega)]
      show some _ = some _
      congr 1
      omega
    have hspelling := CharSpelling.code hcode (.inl (by omega))
    rw [Char.ofNat_toNat] at hspelling
    exact hspelling
  · rename_i hquotation hbackslash _ _ _ _ _ hcontrol
    exact .plain (by omega) hquotation hbackslash

theorem charsSpelling_escape (cs : List Char) : CharsSpelling cs (cs.flatMap escape) := by
  induction cs with
  | nil => exact .nil
  | cons c cs ih =>
    rw [List.flatMap_cons]
    exact .cons (charSpelling_escape c) ih

theorem spelling_string (s : String) : Spelling (.string s) (quote s) := by
  have hspelling := Spelling.string (charsSpelling_escape s.toList)
  rw [String.ofList_toList] at hspelling
  exact hspelling

/-! ### What is printed for values -/

/-- A name and its value are printed with one blank between them. -/
theorem memberSpelling_render (name : String) {v : Json} {a ts b : List Char} (ha : Blank a)
    (hv : Spelling v ts) (hb : Blank b) :
    MemberSpelling (name, v) (a ++ (quote name ++ ':' :: ' ' :: (ts ++ b))) := by
  have hspace : Blank [' '] := fun c hc => by rw [List.mem_singleton.mp hc]; rfl
  have hspelling := MemberSpelling.mk ha (charsSpelling_escape name.toList) blank_nil
    (.mk hspace hv hb)
  rw [String.ofList_toList] at hspelling
  simpa [quote] using hspelling

mutual

/-- A value is printed as one of its spellings. -/
theorem spelling_render : ∀ (v : Json) (level : Nat), Spelling v (render level v)
  | .number n, level => by
    rw [render]
    exact spelling_number n
  | .string s, level => by
    rw [render]
    exact spelling_string s
  | .array [], level => by
    rw [render]
    exact .emptyArray blank_nil
  | .array (item :: items), level => by
    have hitems := itemsSpelling_render items (level + 1) (spelling_render item (level + 1))
      (blank_newline (level + 1)) (blank_newline level)
    rw [render]
    simpa using Spelling.array hitems
  | .object [], level => by
    rw [render]
    exact .emptyObject blank_nil
  | .object ((name, value) :: members), level => by
    have hmembers := membersSpelling_render members (level + 1) name
      (spelling_render value (level + 1)) (blank_newline (level + 1)) (blank_newline level)
    rw [render]
    simpa using Spelling.object hmembers

/-- Behind an item, the further items of an array are printed. -/
theorem itemsSpelling_render : ∀ (items : List Json) (level : Nat) {v : Json}
    {a ts b : List Char}, Spelling v ts → Blank a → Blank b →
      ItemsSpelling (v :: items) (a ++ (ts ++ (renderItems level items ++ b)))
  | [], level, v, a, ts, b, hv, ha, hb => by
    rw [renderItems, List.nil_append]
    exact .one (.mk ha hv hb)
  | item :: items, level, v, a, ts, b, hv, ha, hb => by
    have hothers := itemsSpelling_render items level (spelling_render item level)
      (blank_newline level) hb
    rw [renderItems]
    simpa using ItemsSpelling.more (.mk ha hv blank_nil) hothers

/-- Behind a member, the further members of an object are printed. -/
theorem membersSpelling_render : ∀ (members : List (String × Json)) (level : Nat)
    (name : String) {v : Json} {a ts b : List Char}, Spelling v ts → Blank a → Blank b →
      MembersSpelling ((name, v) :: members)
        (a ++ (quote name ++ ':' :: ' ' :: (ts ++ (renderMembers level members ++ b))))
  | [], level, name, v, a, ts, b, hv, ha, hb => by
    rw [renderMembers, List.nil_append]
    exact .one (memberSpelling_render name ha hv hb)
  | (other, value) :: members, level, name, v, a, ts, b, hv, ha, hb => by
    have hothers := membersSpelling_render members level other (spelling_render value level)
      (blank_newline level) hb
    rw [renderMembers]
    simpa using MembersSpelling.more (memberSpelling_render name ha hv blank_nil) hothers

end

end LuaDiagnostics.Json
