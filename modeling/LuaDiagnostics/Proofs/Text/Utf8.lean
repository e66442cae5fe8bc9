/-
Reading what was written as UTF-8.

`decodeLossy` has to make something of any bytes.  On the bytes of a text it gives the
text back, and cutting the bytes at newlines is the same as cutting the text.

* **`decodeLossy_encode`**: decoding undoes encoding;
* **`splitAll_encode`**: the pieces of the bytes are the bytes of the pieces;
* **`lt_iff_toUTF8_lt`**: comparing the bytes of two texts is comparing the texts.

A character has one to four bytes.  For each number of bytes one lemma reads them with
their values as plain numbers (`readChar_one` to `readChar_four`), so what is left for a
character is arithmetic.
-/
import LuaDiagnostics.Compiler.ErrorStream
import LuaDiagnostics.Proofs.Text.Search
import Mathlib.Tactic.Common

namespace LuaDiagnostics.Text

/-! ### Bytes given by their values -/

theorem toNat_byte {n : Nat} (h : n < 256) : (UInt8.ofNat n).toNat = n := by
  rw [UInt8.toNat_ofNat', Nat.mod_eq_of_lt h]

/-- The ranges of the bytes after a leading byte, in terms of its value. -/
theorem continuation_byte {n : Nat} (h : n < 256) :
    continuation (.ofNat n) =
      if n < 0x80 then some []
      else if n < 0xC2 then none
      else if n < 0xE0 then some [(.ofNat 0x80, .ofNat 0xBF)]
      else if n = 0xE0 then some [(.ofNat 0xA0, .ofNat 0xBF), (.ofNat 0x80, .ofNat 0xBF)]
      else if n = 0xED then some [(.ofNat 0x80, .ofNat 0x9F), (.ofNat 0x80, .ofNat 0xBF)]
      else if n < 0xF0 then some [(.ofNat 0x80, .ofNat 0xBF), (.ofNat 0x80, .ofNat 0xBF)]
      else if n = 0xF0 then
        some [(.ofNat 0x90, .ofNat 0xBF), (.ofNat 0x80, .ofNat 0xBF), (.ofNat 0x80, .ofNat 0xBF)]
      else if n < 0xF4 then
        some [(.ofNat 0x80, .ofNat 0xBF), (.ofNat 0x80, .ofNat 0xBF), (.ofNat 0x80, .ofNat 0xBF)]
      else if n = 0xF4 then
        some [(.ofNat 0x80, .ofNat 0x8F), (.ofNat 0x80, .ofNat 0xBF), (.ofNat 0x80, .ofNat 0xBF)]
      else none := by
  simp only [continuation, UInt8.lt_iff_toNat_lt, ← UInt8.toNat_inj, toNat_byte h]
  rfl

/-- The payload of a leading byte, in terms of its value. -/
theorem leadBits_byte {n : Nat} (h : n < 256) :
    leadBits (.ofNat n) =
      if n < 0x80 then n
      else if n < 0xE0 then n - 0xC0
      else if n < 0xF0 then n - 0xE0
      else n - 0xF0 := by
  rw [leadBits, toNat_byte h]

/-- A byte in its range is read. -/
theorem readContinuation_byte {value low high n : Nat} (hlow : low ≤ n) (hhigh : n ≤ high)
    (hbound : high < 256) (ranges : List (UInt8 × UInt8)) (bytes : List UInt8) :
    readContinuation value ((.ofNat low, .ofNat high) :: ranges) (.ofNat n :: bytes)
      = readContinuation (value * 64 + (n - 0x80)) ranges bytes := by
  have hn : n < 256 := by omega
  have hfits : UInt8.ofNat low ≤ .ofNat n ∧ UInt8.ofNat n ≤ .ofNat high := by
    rw [UInt8.le_iff_toNat_le, UInt8.le_iff_toNat_le, toNat_byte hn, toNat_byte hbound,
      toNat_byte (by omega)]
    exact ⟨hlow, hhigh⟩
  rw [readContinuation, if_pos hfits, toNat_byte hn]

theorem readChar_of_readContinuation {lead : UInt8} {ranges : List (UInt8 × UInt8)}
    {bytes rest : List UInt8} {value : Nat} (hlead : continuation lead = some ranges)
    (hread : readContinuation (leadBits lead) ranges bytes = (some value, rest)) :
    readChar lead bytes = (Char.ofNat value, rest) := by
  simp only [readChar, hlead, hread]

/-! ### Characters of one to four bytes -/

variable {n a b d : Nat} (rest : List UInt8)

theorem readChar_one (hn : n < 0x80) : readChar (.ofNat n) rest = (Char.ofNat n, rest) := by
  have hranges := continuation_byte (n := n) (by omega)
  rw [if_pos hn] at hranges
  refine readChar_of_readContinuation hranges ?_
  rw [readContinuation, leadBits_byte (by omega), if_pos hn]

theorem readChar_two (hlow : 0xC2 ≤ n) (hhigh : n < 0xE0) (ha : 0x80 ≤ a ∧ a ≤ 0xBF) :
    readChar (.ofNat n) (.ofNat a :: rest)
      = (Char.ofNat ((n - 0xC0) * 64 + (a - 0x80)), rest) := by
  have hranges := continuation_byte (n := n) (by omega)
  rw [if_neg (by omega), if_neg (by omega), if_pos hhigh] at hranges
  refine readChar_of_readContinuation hranges ?_
  rw [readContinuation_byte ha.1 ha.2 (by decide), readContinuation,
    leadBits_byte (by omega), if_neg (by omega), if_pos hhigh]

/-- The byte after the lead is confined further after two of the leads: it keeps out
over-long forms and surrogates. -/
theorem readChar_three (hlow : 0xE0 ≤ n) (hhigh : n < 0xF0) (ha : 0x80 ≤ a ∧ a ≤ 0xBF)
    (hfirst : n = 0xE0 → 0xA0 ≤ a) (hsurrogate : n = 0xED → a ≤ 0x9F)
    (hb : 0x80 ≤ b ∧ b ≤ 0xBF) :
    readChar (.ofNat n) (.ofNat a :: .ofNat b :: rest)
      = (Char.ofNat (((n - 0xE0) * 64 + (a - 0x80)) * 64 + (b - 0x80)), rest) := by
  have hranges := continuation_byte (n := n) (by omega)
  have hlead := leadBits_byte (n := n) (by omega)
  rw [if_neg (by omega), if_neg (by omega), if_pos hhigh] at hlead
  rw [if_neg (by omega), if_neg (by omega), if_neg (by omega)] at hranges
  by_cases hE0 : n = 0xE0
  · rw [if_pos hE0] at hranges
    refine readChar_of_readContinuation hranges ?_
    rw [hlead, readContinuation_byte (hfirst hE0) ha.2 (by decide),
      readContinuation_byte hb.1 hb.2 (by decide), readContinuation]
  rw [if_neg hE0] at hranges
  by_cases hED : n = 0xED
  · rw [if_pos hED] at hranges
    refine readChar_of_readContinuation hranges ?_
    rw [hlead, readContinuation_byte ha.1 (hsurrogate hED) (by decide),
      readContinuation_byte hb.1 hb.2 (by decide), readContinuation]
  · rw [if_neg hED, if_pos hhigh] at hranges
    refine readChar_of_readContinuation hranges ?_
    rw [hlead, readContinuation_byte ha.1 ha.2 (by decide),
      readContinuation_byte hb.1 hb.2 (by decide), readContinuation]

/-- Here the confined byte keeps out over-long forms and values past the last one. -/
theorem readChar_four (hlow : 0xF0 ≤ n) (hhigh : n ≤ 0xF4) (ha : 0x80 ≤ a ∧ a ≤ 0xBF)
    (hfirst : n = 0xF0 → 0x90 ≤ a) (hlast : n = 0xF4 → a ≤ 0x8F)
    (hb : 0x80 ≤ b ∧ b ≤ 0xBF) (hd : 0x80 ≤ d ∧ d ≤ 0xBF) :
    readChar (.ofNat n) (.ofNat a :: .ofNat b :: .ofNat d :: rest)
      = (Char.ofNat ((((n - 0xF0) * 64 + (a - 0x80)) * 64 + (b - 0x80)) * 64 + (d - 0x80)),
          rest) := by
  have hranges := continuation_byte (n := n) (by omega)
  have hlead := leadBits_byte (n := n) (by omega)
  rw [if_neg (by omega), if_neg (by omega), if_neg (by omega)] at hlead
  rw [if_neg (by omega), if_neg (by omega), if_neg (by omega), if_neg (by omega),
    if_neg (by omega), if_neg (by omega)] at hranges
  by_cases hF0 : n = 0xF0
  · rw [if_pos hF0] at hranges
    refine readChar_of_readContinuation hranges ?_
    rw [hlead, readContinuation_byte (hfirst hF0) ha.2 (by decide),
      readContinuation_byte hb.1 hb.2 (by decide),
      readContinuation_byte hd.1 hd.2 (by decide), readContinuation]
  rw [if_neg hF0] at hranges
  by_cases hF4 : n = 0xF4
  · rw [if_neg (by omega), if_pos hF4] at hranges
    refine readChar_of_readContinuation hranges ?_
    rw [hlead, readContinuation_byte ha.1 (hlast hF4) (by decide),
      readContinuation_byte hb.1 hb.2 (by decide),
      readContinuation_byte hd.1 hd.2 (by decide), readContinuation]
  · rw [if_pos (by omega)] at hranges
    refine readChar_of_readContinuation hranges ?_
    rw [hlead, readContinuation_byte ha.1 ha.2 (by decide),
      readContinuation_byte hb.1 hb.2 (by decide),
      readContinuation_byte hd.1 hd.2 (by decide), readContinuation]

/-- The bytes of a character are read as the character. -/
theorem readChar_utf8EncodeChar (c : Char) (rest : List UInt8) : ∃ lead tail,
    String.utf8EncodeChar c = lead :: tail ∧ readChar lead (tail ++ rest) = (c, rest) := by
  have hvalid : c.val.toNat < 0xD800 ∨ 0xDFFF < c.val.toNat ∧ c.val.toNat < 0x110000 :=
    c.valid
  have hc : Char.ofNat c.val.toNat = c := Char.ofNat_toNat c
  rw [String.utf8EncodeChar]
  generalize c.val.toNat = v at hvalid hc
  by_cases hone : v ≤ 0x7F
  · rw [if_pos hone]
    refine ⟨_, _, rfl, ?_⟩
    rw [List.nil_append, readChar_one rest (by omega), hc]
  rw [if_neg hone]
  by_cases htwo : v ≤ 0x7FF
  · rw [if_pos htwo]
    refine ⟨_, _, rfl, ?_⟩
    rw [List.cons_append, List.nil_append,
      readChar_two rest (by omega) (by omega) (by omega),
      show (v / 64 % 32 + 192 - 0xC0) * 64 + (v % 64 + 128 - 0x80) = v by omega, hc]
  rw [if_neg htwo]
  by_cases hthree : v ≤ 0xFFFF
  · rw [if_pos hthree]
    refine ⟨_, _, rfl, ?_⟩
    rw [List.cons_append, List.cons_append, List.nil_append,
      readChar_three rest (by omega) (by omega) (by omega) (by omega) (by omega) (by omega),
      show ((v / 4096 % 16 + 224 - 0xE0) * 64 + (v / 64 % 64 + 128 - 0x80)) * 64
        + (v % 64 + 128 - 0x80) = v by omega, hc]
  · rw [if_neg hthree]
    refine ⟨_, _, rfl, ?_⟩
    rw [List.cons_append, List.cons_append, List.cons_append, List.nil_append,
      readChar_four rest (by omega) (by omega) (by omega) (by omega) (by omega) (by omega)
        (by omega),
      show (((v / 262144 % 8 + 240 - 0xF0) * 64 + (v / 4096 % 64 + 128 - 0x80)) * 64
        + (v / 64 % 64 + 128 - 0x80)) * 64 + (v % 64 + 128 - 0x80) = v by omega, hc]

/-! ### Texts -/

/-- The bytes of a text. -/
def encode (cs : List Char) : List UInt8 := cs.flatMap String.utf8EncodeChar

theorem decodeLossyOnto_encode (cs read : List Char) :
    decodeLossyOnto read (encode cs) = read.reverse ++ cs := by
  induction cs generalizing read with
  | nil => rw [encode, List.flatMap_nil, decodeLossyOnto, List.append_nil]
  | cons c cs ih =>
    obtain ⟨lead, tail, hbytes, hread⟩ := readChar_utf8EncodeChar c (encode cs)
    have hcons : encode (c :: cs) = lead :: (tail ++ encode cs) := by
      rw [encode, List.flatMap_cons, hbytes, List.cons_append, encode]
    rw [hcons, decodeLossyOnto, hread, ih]
    simp

/-- The bytes of a text are read as the text. -/
theorem decodeLossy_encode (cs : List Char) : decodeLossy (encode cs) = cs :=
  decodeLossyOnto_encode cs []

/-- So they are when nothing but UTF-8 is read. -/
theorem decode?_toByteArray (s : String) : decode? s.toByteArray = some s := by
  rw [decode?, String.fromUTF8?, dif_pos s.isValidUTF8]
  rfl

theorem toList_loop (bytes : ByteArray) (i : Nat) (read : List UInt8) :
    ByteArray.toList.loop bytes i read = read.reverse ++ bytes.data.toList.drop i := by
  -- The induction is on the bytes that are left.
  induction hleft : bytes.size - i generalizing i read with
  | zero =>
    have hend : bytes.data.toList.length ≤ i := by
      show bytes.size ≤ i
      omega
    rw [ByteArray.toList.loop, if_neg (by omega), List.drop_eq_nil_of_le hend,
      List.append_nil]
  | succ left ih =>
    have hi : i < bytes.data.toList.length := by
      show i < bytes.size
      omega
    have hbyte : bytes.get! i = bytes.data.toList[i] := by
      show bytes.data[i]! = _
      rw [getElem!_pos bytes.data i hi]
      rfl
    rw [ByteArray.toList.loop, if_pos (by omega), ih (i + 1) _ (by omega),
      List.drop_eq_getElem_cons hi, hbyte]
    simp

/-- The bytes of a text, as they are listed. -/
theorem toList_toUTF8 (s : String) : s.toUTF8.toList = encode s.toList := by
  have hbytes : s.toUTF8 = (encode s.toList).toByteArray := String.utf8Encode_toList.symm
  rw [hbytes, ByteArray.toList, toList_loop, List.reverse_nil, List.nil_append,
    List.drop_zero, List.toList_data_toByteArray]

/-- The byte of an ASCII character occurs in no other character. -/
theorem eq_of_mem_utf8EncodeChar {c d : Char} (hc : c.val.toNat < 0x80)
    (h : .ofNat c.val.toNat ∈ String.utf8EncodeChar d) : d = c := by
  have hvalue : ∀ n, n < 256 → UInt8.ofNat c.val.toNat = .ofNat n → n = c.val.toNat := by
    intro n hn heq
    have hnat := congrArg UInt8.toNat heq
    rw [toNat_byte hn, toNat_byte (by omega)] at hnat
    exact hnat.symm
  have hbound : d.val.toNat < 0x110000 := by
    rcases d.valid with h | ⟨-, h⟩
    · exact Nat.lt_trans h (by decide)
    · exact h
  rw [String.utf8EncodeChar] at h
  have hd : d.val.toNat = c.val.toNat → d = c := fun hval =>
    Char.ext (UInt32.toNat_inj.mp hval)
  generalize d.val.toNat = v at h hbound hd
  refine hd ?_
  split at h
  · rcases List.mem_singleton.mp h with h
    exact hvalue v (by omega) h
  · -- All bytes of a longer character are at least `0x80`.
    exfalso
    have hlarge : ∃ n, 0x80 ≤ n ∧ n < 256 ∧ UInt8.ofNat c.val.toNat = .ofNat n := by
      split at h
      · simp only [List.mem_cons, List.not_mem_nil, or_false] at h
        rcases h with h | h
        · exact ⟨_, by omega, by omega, h⟩
        · exact ⟨_, by omega, by omega, h⟩
      · split at h
        · simp only [List.mem_cons, List.not_mem_nil, or_false] at h
          rcases h with h | h | h
          · exact ⟨_, by omega, by omega, h⟩
          · exact ⟨_, by omega, by omega, h⟩
          · exact ⟨_, by omega, by omega, h⟩
        · simp only [List.mem_cons, List.not_mem_nil, or_false] at h
          rcases h with h | h | h | h
          · exact ⟨_, by omega, by omega, h⟩
          · exact ⟨_, by omega, by omega, h⟩
          · exact ⟨_, by omega, by omega, h⟩
          · exact ⟨_, by omega, by omega, h⟩
    obtain ⟨n, hlow, hn, heq⟩ := hlarge
    have hsmall := hvalue n hn heq
    omega

theorem mem_encode_iff {c : Char} {cs : List Char} (hc : c.val.toNat < 0x80) :
    .ofNat c.val.toNat ∈ encode cs ↔ c ∈ cs := by
  rw [encode, List.mem_flatMap]
  constructor
  · rintro ⟨d, hd, hmem⟩
    exact eq_of_mem_utf8EncodeChar hc hmem ▸ hd
  · intro hmem
    refine ⟨c, hmem, ?_⟩
    rw [String.utf8EncodeChar, if_pos (by omega)]
    exact List.mem_singleton_self _

theorem newline_not_mem_encode {cs : List Char} (h : '\n' ∉ cs) : '\n'.toUInt8 ∉ encode cs :=
  fun hmem => h ((mem_encode_iff (c := '\n') (by decide)).mp hmem)

/-- Cutting the bytes of a text at newlines is cutting the text. -/
theorem splitAll_encode (cs : List Char) :
    splitAll (· = ErrorStream.newlineByte) (encode cs) = (pieces cs).map encode := by
  have hpiece : ∀ piece : List Char, '\n' ∉ piece →
      ∀ x ∈ encode piece, decide (x = ErrorStream.newlineByte) = false := by
    intro piece hnone x hx
    refine decide_eq_false ?_
    rintro rfl
    exact newline_not_mem_encode hnone hx
  induction cs using pieces_induction with
  | last piece hnone =>
    rw [pieces_of_not_mem hnone, splitAll_of_forall (hpiece piece hnone)]
    rfl
  | more piece tail hnone ih =>
    have hbytes : encode (piece ++ '\n' :: tail)
        = encode piece ++ ErrorStream.newlineByte :: encode tail := by
      rw [encode, List.flatMap_append, List.flatMap_cons]
      rfl
    rw [pieces_append tail hnone, hbytes,
      splitAll_append_cons (hpiece piece hnone) (decide_eq_true rfl), ih]
    rfl

/-! ### Order -/

/-- Bytes given by their values are compared by these. -/
theorem cons_byte_lt_iff {m n : Nat} (hm : m < 256) (hn : n < 256) {as bs : List UInt8} :
    UInt8.ofNat m :: as < UInt8.ofNat n :: bs ↔ m < n ∨ m = n ∧ as < bs := by
  rw [List.cons_lt_cons_iff, UInt8.lt_iff_toNat_lt, ← UInt8.toNat_inj, toNat_byte hm,
    toNat_byte hn]

theorem cons_byte_lt {m n : Nat} (h : m < n) (hn : n < 256) (as bs : List UInt8) :
    UInt8.ofNat m :: as < UInt8.ofNat n :: bs :=
  (cons_byte_lt_iff (Nat.lt_trans h hn) hn).mpr (.inl h)

/-- Numbers to the base 64 differ in their last digits or before them. -/
theorem lt_before_or_last {v w : Nat} (h : v < w) :
    v / 64 < w / 64 ∨ v / 64 = w / 64 ∧ v % 64 < w % 64 := by
  omega

/-- The bytes of a smaller character are smaller, whatever follows: those of a longer
character begin with a larger byte, and characters of one length differ first where their
digits to the base 64 do. -/
theorem utf8EncodeChar_append_lt {c d : Char} (h : c < d) (as bs : List UInt8) :
    String.utf8EncodeChar c ++ as < String.utf8EncodeChar d ++ bs := by
  have hlt : c.val.toNat < d.val.toNat := h
  have hbound : d.val.toNat < 0x110000 := by
    rcases d.valid with h | ⟨-, h⟩
    · exact Nat.lt_trans h (by decide)
    · exact h
  rw [String.utf8EncodeChar, String.utf8EncodeChar]
  generalize c.val.toNat = v at hlt
  generalize d.val.toNat = w at hlt hbound
  by_cases hv1 : v ≤ 0x7F
  · rw [if_pos hv1]
    split
    · exact cons_byte_lt hlt (by omega) _ _
    · split
      · exact cons_byte_lt (by omega) (by omega) _ _
      · split
        · exact cons_byte_lt (by omega) (by omega) _ _
        · exact cons_byte_lt (by omega) (by omega) _ _
  rw [if_neg hv1, if_neg (show ¬ w ≤ 0x7F by omega)]
  by_cases hv2 : v ≤ 0x7FF
  · rw [if_pos hv2]
    split
    · have hdigits : v / 64 % 32 + 192 < w / 64 % 32 + 192 ∨
          v / 64 % 32 + 192 = w / 64 % 32 + 192 ∧ v % 64 + 128 < w % 64 + 128 := by omega
      refine (cons_byte_lt_iff (by omega) (by omega)).mpr (hdigits.imp_right ?_)
      rintro ⟨hlead, hlast⟩
      exact ⟨hlead, cons_byte_lt hlast (by omega) _ _⟩
    · split
      · exact cons_byte_lt (by omega) (by omega) _ _
      · exact cons_byte_lt (by omega) (by omega) _ _
  rw [if_neg hv2, if_neg (show ¬ w ≤ 0x7FF by omega)]
  by_cases hv3 : v ≤ 0xFFFF
  · rw [if_pos hv3]
    split
    · have hdigits : v / 4096 % 16 + 224 < w / 4096 % 16 + 224 ∨
          v / 4096 % 16 + 224 = w / 4096 % 16 + 224 ∧
            (v / 64 % 64 + 128 < w / 64 % 64 + 128 ∨
              v / 64 % 64 + 128 = w / 64 % 64 + 128 ∧ v % 64 + 128 < w % 64 + 128) := by omega
      refine (cons_byte_lt_iff (by omega) (by omega)).mpr (hdigits.imp_right ?_)
      rintro ⟨hlead, hrest⟩
      refine ⟨hlead, (cons_byte_lt_iff (by omega) (by omega)).mpr (hrest.imp_right ?_)⟩
      rintro ⟨hsecond, hlast⟩
      exact ⟨hsecond, cons_byte_lt hlast (by omega) _ _⟩
    · exact cons_byte_lt (by omega) (by omega) _ _
  · rw [if_neg hv3, if_neg (show ¬ w ≤ 0xFFFF by omega)]
    have hdigits : v / 262144 % 8 + 240 < w / 262144 % 8 + 240 ∨
        v / 262144 % 8 + 240 = w / 262144 % 8 + 240 ∧
          (v / 4096 % 64 + 128 < w / 4096 % 64 + 128 ∨
            v / 4096 % 64 + 128 = w / 4096 % 64 + 128 ∧
              (v / 64 % 64 + 128 < w / 64 % 64 + 128 ∨
                v / 64 % 64 + 128 = w / 64 % 64 + 128 ∧ v % 64 + 128 < w % 64 + 128)) := by
      rw [show v / 262144 = v / 64 / 64 / 64 by omega,
        show w / 262144 = w / 64 / 64 / 64 by omega, show v / 4096 = v / 64 / 64 by omega,
        show w / 4096 = w / 64 / 64 by omega]
      rcases lt_before_or_last hlt with hlt | ⟨hbefore, hlast⟩
      · rcases lt_before_or_last hlt with hlt | ⟨hbefore, hlast⟩
        · rcases lt_before_or_last hlt with hlt | ⟨hbefore, hlast⟩
          · omega
          · omega
        · omega
      · omega
    refine (cons_byte_lt_iff (by omega) (by omega)).mpr (hdigits.imp_right ?_)
    rintro ⟨hlead, hrest⟩
    refine ⟨hlead, (cons_byte_lt_iff (by omega) (by omega)).mpr (hrest.imp_right ?_)⟩
    rintro ⟨hsecond, hrest⟩
    refine ⟨hsecond, (cons_byte_lt_iff (by omega) (by omega)).mpr (hrest.imp_right ?_)⟩
    rintro ⟨hthird, hlast⟩
    exact ⟨hthird, cons_byte_lt hlast (by omega) _ _⟩

theorem append_lt_append_iff (front as bs : List UInt8) : front ++ as < front ++ bs ↔ as < bs := by
  induction front with
  | nil => rfl
  | cons b front ih => simp [ih]

/-- Texts are ordered as their bytes are. -/
theorem encode_lt_encode_iff (cs ds : List Char) : encode cs < encode ds ↔ cs < ds := by
  have hcons : ∀ c cs, encode (c :: cs) = String.utf8EncodeChar c ++ encode cs := fun c cs =>
    List.flatMap_cons
  have hnil : ∀ d ds, [] < encode (d :: ds) := fun d ds => by
    obtain ⟨lead, tail, hbytes, -⟩ := readChar_utf8EncodeChar d []
    rw [hcons, hbytes]
    exact List.nil_lt_cons _ _
  induction cs generalizing ds with
  | nil =>
    cases ds with
    | nil => simp [encode]
    | cons d ds => exact iff_of_true (hnil d ds) (List.nil_lt_cons d ds)
  | cons c cs ih =>
    cases ds with
    | nil => simp [encode]
    | cons d ds =>
      rw [List.cons_lt_cons_iff, hcons, hcons]
      rcases Std.lt_trichotomy c d with hlt | rfl | hlt
      · exact iff_of_true (utf8EncodeChar_append_lt hlt _ _) (.inl hlt)
      · refine (append_lt_append_iff _ _ _).trans ((ih ds).trans ?_)
        simp only [Char.lt_irrefl, false_or, true_and]
      · have hback := utf8EncodeChar_append_lt hlt (encode ds) (encode cs)
        refine iff_of_false (fun h => List.lt_asymm h hback) ?_
        rintro (h | ⟨rfl, -⟩)
        · exact Char.lt_asymm h hlt
        · exact Char.lt_irrefl _ hlt

/-- The order of strings is the order of their bytes. -/
theorem lt_iff_toUTF8_lt (s t : String) : s < t ↔ s.toUTF8.toList < t.toUTF8.toList := by
  rw [toList_toUTF8, toList_toUTF8, encode_lt_encode_iff, String.lt_iff]

end LuaDiagnostics.Text
