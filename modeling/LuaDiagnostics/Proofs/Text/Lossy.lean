/-
Decoding bytes that need not be UTF-8.

Bytes below `0x80` are characters of their own, whatever stands around them: no sequence that
begins with a higher byte takes one of them in, and no such sequence gives a character below
`0x80` other than the null character.

* **`decodeLossy_append`**: before such a byte, the bytes may be taken apart and decoded
  separately;
* **`pieces_decodeLossy`**: so cutting at newlines and decoding can be done in either order;
* **`forall_isLineEnd_decodeLossy_iff`**: only the bytes of line ends are decoded to line ends.
-/
import LuaDiagnostics.Proofs.Text.Utf8
import Mathlib.Algebra.Group.Nat.Defs

namespace LuaDiagnostics.Text

/-! ### What may follow a leading byte -/

/-- A byte is one of the 256. -/
theorem forall_byte {motive : UInt8 → Prop} (h : ∀ n < 256, motive (.ofNat n)) (b : UInt8) :
    motive b := by
  have hb := h b.toNat b.toNat_lt
  rwa [UInt8.ofNat_toNat] at hb

/-- The bytes that follow a leading byte are high. -/
theorem high_of_continuation {lead : UInt8} {ranges : List (UInt8 × UInt8)}
    (h : continuation lead = some ranges) : ∀ r ∈ ranges, 0x80 ≤ r.1 := by
  have hall : ∀ lead : UInt8,
      (((continuation lead).getD []).all fun r => decide (0x80 ≤ r.1)) = true :=
    forall_byte (by decide +kernel)
  have hlead := hall lead
  rw [h, Option.getD_some, List.all_eq_true] at hlead
  exact fun r hr => of_decide_eq_true (hlead r hr)

/-- Whatever follows a high leading byte, the value is high: where the lead has no payload, the
first range keeps the short values out. -/
theorem exists_range_of_continuation {lead : UInt8} {ranges : List (UInt8 × UInt8)}
    (hlead : 0x80 ≤ lead) (h : continuation lead = some ranges) :
    ∃ low high more, ranges = (low, high) :: more ∧
      0x80 ≤ (leadBits lead * 64 + (low.toNat - 0x80)) * 64 ^ more.length := by
  have hall : ∀ lead : UInt8, 0x80 ≤ lead → ∀ ranges ∈ continuation lead,
      0x80 ≤ (leadBits lead * 64 + ((ranges.head?.getD (0, 0)).1.toNat - 0x80))
        * 64 ^ ranges.tail.length ∧ ranges ≠ [] :=
    forall_byte (by decide +kernel)
  obtain ⟨hvalue, hne⟩ := hall lead hlead ranges h
  obtain ⟨⟨low, high⟩, more, rfl⟩ := List.exists_cons_of_ne_nil hne
  exact ⟨low, high, more, rfl, hvalue⟩

/-! ### Reading continuation bytes -/

/-- Each byte multiplies the value. -/
theorem le_of_readContinuation {value v : Nat} {ranges : List (UInt8 × UInt8)}
    {bytes rest : List UInt8} (h : readContinuation value ranges bytes = (some v, rest)) :
    value * 64 ^ ranges.length ≤ v := by
  induction ranges generalizing value bytes with
  | nil =>
    rw [readContinuation] at h
    obtain ⟨hv, -⟩ := Prod.mk.inj h
    rw [Option.some.inj hv, List.length_nil, Nat.pow_zero, Nat.mul_one]
  | cons r ranges ih =>
    cases bytes with
    | nil => exact absurd (Prod.mk.inj h).1 (by simp)
    | cons b bytes =>
      rw [readContinuation] at h
      split at h
      · have hle := ih h
        rw [List.length_cons, Nat.pow_succ', ← Nat.mul_assoc]
        exact Nat.le_trans (Nat.mul_le_mul_right _ (Nat.le_add_right _ _)) hle
      · exact absurd (Prod.mk.inj h).1 (by simp)

/-- So does the first one, to which it adds at least what its range begins with. -/
theorem le_of_readContinuation_cons {value v : Nat} {low high : UInt8}
    {ranges : List (UInt8 × UInt8)} {bytes rest : List UInt8}
    (h : readContinuation value ((low, high) :: ranges) bytes = (some v, rest)) :
    (value * 64 + (low.toNat - 0x80)) * 64 ^ ranges.length ≤ v := by
  cases bytes with
  | nil => exact absurd (Prod.mk.inj h).1 (by simp)
  | cons b bytes =>
    rw [readContinuation] at h
    split at h
    · rename_i hrange
      have hlow : low.toNat ≤ b.toNat := UInt8.le_iff_toNat_le.mp hrange.1
      have hle := le_of_readContinuation h
      refine Nat.le_trans (Nat.mul_le_mul_right _ ?_) hle
      omega
    · exact absurd (Prod.mk.inj h).1 (by simp)

/-- Reading does not go past a low byte. -/
theorem readContinuation_append {value : Nat} {ranges : List (UInt8 × UInt8)} {b : UInt8}
    (hranges : ∀ r ∈ ranges, 0x80 ≤ r.1) (hb : b < 0x80) (as bs : List UInt8) :
    readContinuation value ranges (as ++ b :: bs) =
      ((readContinuation value ranges as).1,
        (readContinuation value ranges as).2 ++ b :: bs) := by
  induction ranges generalizing value as with
  | nil => simp only [readContinuation]
  | cons r ranges ih =>
    obtain ⟨low, high⟩ := r
    rw [List.forall_mem_cons] at hranges
    obtain ⟨hlow, hranges⟩ := hranges
    cases as with
    | nil =>
      -- The byte lies below the range, so reading stops in front of it.
      have hfits : ¬ (low ≤ b ∧ b ≤ high) := fun h =>
        UInt8.not_le.mpr hb (UInt8.le_trans hlow h.1)
      simp only [List.nil_append, readContinuation, if_neg hfits]
    | cons a as =>
      rw [List.cons_append, readContinuation, readContinuation]
      split
      · exact ih hranges as
      · rfl

theorem readContinuation_suffix (value : Nat) (ranges : List (UInt8 × UInt8))
    (bytes : List UInt8) : (readContinuation value ranges bytes).2 <:+ bytes := by
  induction ranges generalizing value bytes with
  | nil => exact List.suffix_rfl
  | cons r ranges ih =>
    cases bytes with
    | nil => exact List.suffix_rfl
    | cons b bytes =>
      rw [readContinuation]
      split
      · exact (ih _ _).trans (List.suffix_cons b bytes)
      · exact List.suffix_rfl

/-! ### Reading characters -/

/-- A leading byte is replaced together with those behind it that fitted. -/
theorem readChar_of_continuation {lead : UInt8} {ranges : List (UInt8 × UInt8)}
    (h : continuation lead = some ranges) (bytes : List UInt8) :
    readChar lead bytes =
      (((readContinuation (leadBits lead) ranges bytes).1.map Char.ofNat).getD replacementChar,
        (readContinuation (leadBits lead) ranges bytes).2) := by
  simp only [readChar, h]
  split
  · rename_i hread
    rw [hread]
    rfl
  · rename_i hread
    rw [hread]
    rfl

theorem readChar_of_continuation_eq_none {lead : UInt8} (h : continuation lead = none)
    (bytes : List UInt8) : readChar lead bytes = (replacementChar, bytes) := by
  simp only [readChar, h]

theorem readChar_suffix (lead : UInt8) (bytes : List UInt8) :
    (readChar lead bytes).2 <:+ bytes := by
  cases h : continuation lead with
  | none =>
    have hread := congrArg Prod.snd (readChar_of_continuation_eq_none h bytes)
    exact ⟨[], hread⟩
  | some ranges =>
    rw [readChar_of_continuation h]
    exact readContinuation_suffix _ ranges bytes

/-- A character does not go past a low byte. -/
theorem readChar_append {b : UInt8} (hb : b < 0x80) (lead : UInt8) (as bs : List UInt8) :
    readChar lead (as ++ b :: bs)
      = ((readChar lead as).1, (readChar lead as).2 ++ b :: bs) := by
  cases h : continuation lead with
  | none => rw [readChar_of_continuation_eq_none h, readChar_of_continuation_eq_none h]
  | some ranges =>
    rw [readChar_of_continuation h, readChar_of_continuation h,
      readContinuation_append (high_of_continuation h) hb]

/-- A low byte is a character. -/
theorem readChar_of_lt {lead : UInt8} (h : lead < 0x80) (bytes : List UInt8) :
    readChar lead bytes = (Char.ofNat lead.toNat, bytes) := by
  have hread := readChar_one bytes (UInt8.lt_iff_toNat_lt.mp h)
  rwa [UInt8.ofNat_toNat] at hread

/-- What begins with a high byte has a high value. -/
theorem exists_readChar_eq_ofNat {lead : UInt8} (h : 0x80 ≤ lead) (bytes : List UInt8) :
    ∃ v, 0x80 ≤ v ∧ (readChar lead bytes).1 = Char.ofNat v := by
  have hreplaced : replacementChar = Char.ofNat 0xFFFD := rfl
  cases hlead : continuation lead with
  | none =>
    rw [readChar_of_continuation_eq_none hlead]
    exact ⟨_, by decide, hreplaced⟩
  | some ranges =>
    obtain ⟨low, high, more, rfl, hlow⟩ := exists_range_of_continuation h hlead
    rw [readChar_of_continuation hlead]
    cases hread : readContinuation (leadBits lead) ((low, high) :: more) bytes with
    | mk value rest =>
      -- A sequence that was not completed is replaced, by a character that is not ASCII.
      cases value with
      | none => exact ⟨_, by decide, hreplaced⟩
      | some v => exact ⟨v, Nat.le_trans hlow (le_of_readContinuation_cons hread), rfl⟩

/-- A large value is that of no ASCII character, except that the null character stands for
values that no character has. -/
theorem ofNat_ne {v : Nat} {c : Char} (hv : 0x80 ≤ v) (hc : c.toNat < 0x80) (hnull : c ≠ '\x00') :
    Char.ofNat v ≠ c := by
  rintro rfl
  by_cases hvalid : v.isValidChar
  · have htoNat : (Char.ofNat v).toNat = v := by
      rw [Char.ofNat, dif_pos hvalid]
      rfl
    omega
  · refine hnull ?_
    rw [Char.ofNat, dif_neg hvalid]
    rfl

/-- The bytes of line ends. -/
def isLineEndByte (b : UInt8) : Bool := b = '\r'.toUInt8 || b = '\n'.toUInt8

/-- Only the byte of a line end begins one. -/
theorem isLineEnd_readChar (lead : UInt8) (bytes : List UInt8) :
    isLineEnd (readChar lead bytes).1 = isLineEndByte lead := by
  by_cases h : lead < 0x80
  · have hall : ∀ lead : UInt8, lead < 0x80 →
        isLineEnd (Char.ofNat lead.toNat) = isLineEndByte lead :=
      forall_byte (by decide +kernel)
    rw [readChar_of_lt h, hall lead h]
  · rw [UInt8.not_lt] at h
    obtain ⟨v, hv, hchar⟩ := exists_readChar_eq_ofNat h bytes
    have hbyte : isLineEndByte lead = false := by
      rw [isLineEndByte, Bool.or_eq_false_iff, decide_eq_false_iff_not, decide_eq_false_iff_not]
      constructor
      · rintro rfl
        exact absurd h (by decide)
      · rintro rfl
        exact absurd h (by decide)
    rw [hchar, hbyte, isLineEnd, Bool.or_eq_false_iff, decide_eq_false_iff_not,
      decide_eq_false_iff_not]
    exact ⟨ofNat_ne hv (by decide) (by decide), ofNat_ne hv (by decide) (by decide)⟩

/-! ### Decoding -/

/-- What was read long ago does not matter. -/
theorem decodeLossyOnto_append (onto read : List Char) (bytes : List UInt8) :
    decodeLossyOnto (read ++ onto) bytes = onto.reverse ++ decodeLossyOnto read bytes := by
  induction read, bytes using decodeLossyOnto.induct with
  | case1 read => rw [decodeLossyOnto, decodeLossyOnto, List.reverse_append]
  | case2 read lead bytes ih => rw [decodeLossyOnto, decodeLossyOnto, ← List.cons_append, ih]

theorem decodeLossy_nil : decodeLossy [] = [] := by
  rw [decodeLossy, decodeLossyOnto, List.reverse_nil]

theorem decodeLossy_cons (lead : UInt8) (bytes : List UInt8) :
    decodeLossy (lead :: bytes)
      = (readChar lead bytes).1 :: decodeLossy (readChar lead bytes).2 := by
  rw [decodeLossy, decodeLossyOnto]
  exact decodeLossyOnto_append [(readChar lead bytes).1] [] (readChar lead bytes).2

@[elab_as_elim]
theorem decodeLossy_induction {motive : List UInt8 → Prop} (nil : motive [])
    (cons : ∀ lead bytes, motive (readChar lead bytes).2 → motive (lead :: bytes))
    (bytes : List UInt8) : motive bytes := by
  induction h : bytes.length using Nat.strong_induction_on generalizing bytes with
  | _ n ih =>
    cases bytes with
    | nil => exact nil
    | cons lead bytes =>
      refine cons lead bytes (ih _ ?_ _ rfl)
      rw [← h]
      exact Nat.lt_succ_of_le (readChar_length_le lead bytes)

/-- Before a low byte, bytes may be taken apart. -/
theorem decodeLossy_append {b : UInt8} (hb : b < 0x80) (as bs : List UInt8) :
    decodeLossy (as ++ b :: bs) = decodeLossy as ++ Char.ofNat b.toNat :: decodeLossy bs := by
  induction as using decodeLossy_induction with
  | nil => rw [List.nil_append, decodeLossy_cons, readChar_of_lt hb, decodeLossy_nil]; rfl
  | cons lead as ih =>
    rw [List.cons_append, decodeLossy_cons, readChar_append hb, ih, decodeLossy_cons,
      List.cons_append]

/-- Only the bytes of line ends are decoded to line ends. -/
theorem forall_isLineEnd_decodeLossy_iff {bytes : List UInt8} :
    (∀ c ∈ decodeLossy bytes, isLineEnd c = true) ↔ ∀ b ∈ bytes, isLineEndByte b = true := by
  induction bytes using decodeLossy_induction with
  | nil => simp [decodeLossy_nil]
  | cons lead bytes ih =>
    rw [decodeLossy_cons, List.forall_mem_cons, List.forall_mem_cons, isLineEnd_readChar, ih]
    refine and_congr_right fun hlead => ?_
    -- The byte of a line end is a character, so none of those behind it was taken.
    have hlow : ∀ lead : UInt8, isLineEndByte lead = true → lead < 0x80 :=
      forall_byte (by decide +kernel)
    rw [readChar_of_lt (hlow lead hlead)]

theorem newline_not_mem_decodeLossy {bytes : List UInt8} (h : '\n'.toUInt8 ∉ bytes) :
    '\n' ∉ decodeLossy bytes := by
  induction bytes using decodeLossy_induction with
  | nil => simp [decodeLossy_nil]
  | cons lead bytes ih =>
    rw [List.mem_cons, not_or] at h
    obtain ⟨hlead, hbytes⟩ := h
    rw [decodeLossy_cons, List.mem_cons, not_or]
    refine ⟨fun heq => ?_, ih fun hmem => hbytes ((readChar_suffix lead bytes).subset hmem)⟩
    by_cases hlow : lead < 0x80
    · have hall : ∀ lead : UInt8, lead < 0x80 → '\n' = Char.ofNat lead.toNat →
          '\n'.toUInt8 = lead :=
        forall_byte (by decide +kernel)
      rw [readChar_of_lt hlow] at heq
      exact hlead (hall lead hlow heq)
    · obtain ⟨v, hv, hchar⟩ := exists_readChar_eq_ofNat (UInt8.not_lt.mp hlow) bytes
      rw [hchar] at heq
      exact ofNat_ne hv (by decide) (by decide) heq.symm

/-- Cutting at newlines and decoding can be done in either order. -/
theorem pieces_decodeLossy (bytes : List UInt8) :
    pieces (decodeLossy bytes)
      = (splitAll (· = ErrorStream.newlineByte) bytes).map decodeLossy := by
  have hnone : ∀ piece : List UInt8,
      (∀ x ∈ piece, decide (x = ErrorStream.newlineByte) = false) →
        '\n' ∉ decodeLossy piece :=
    fun piece h => newline_not_mem_decodeLossy fun hmem => absurd (h _ hmem) (by decide)
  induction bytes using splitAll_induction (· = ErrorStream.newlineByte) with
  | last piece h =>
    rw [pieces_of_not_mem (hnone piece h), splitAll_of_forall h, List.map_singleton]
  | more piece c tail h hc ih =>
    rw [splitAll_append_cons h hc, List.map_cons, ← ih]
    obtain rfl := of_decide_eq_true hc
    have hnewline : decodeLossy (piece ++ ErrorStream.newlineByte :: tail)
        = decodeLossy piece ++ '\n' :: decodeLossy tail :=
      decodeLossy_append (by decide) piece tail
    rw [hnewline, pieces_append _ (hnone piece h)]

end LuaDiagnostics.Text
