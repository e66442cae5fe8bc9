/-
Places in the bytes of a text.

Some places in the bytes of a text lie between characters and some within one.  Only the
former may be used to take a text apart, and searching the bytes for those of a word never
finds any of the latter, because the bytes of a character other than the first one cannot
begin a character.

* **`isValid_iff_exists_append`**, **`slice?_of_cut`**: the places between characters are
  those behind the bytes of some first characters, and what stands between two of them can
  be taken out.
* **`exists_cut_of_encode_eq`**: the bytes of a word stand in those of a text only where
  the word stands in the text.
* **`byteIndex?_eq_map`**: so the first place of a word among the bytes is that of its
  first occurrence.
-/
import LuaDiagnostics.Proofs.Text.Utf8
import LuaDiagnostics.Text.Spans

namespace LuaDiagnostics.Text

/-! ### The bytes of parts -/

theorem encode_append (as bs : List Char) : encode (as ++ bs) = encode as ++ encode bs :=
  List.flatMap_append

theorem encode_cons (c : Char) (cs : List Char) :
    encode (c :: cs) = String.utf8EncodeChar c ++ encode cs := List.flatMap_cons

theorem length_encode (cs : List Char) :
    (encode cs).length = (String.ofList cs).utf8ByteSize := by
  have hbytes : (String.ofList cs).toByteArray = (encode cs).toByteArray := by
    rw [String.toByteArray_ofList]
    rfl
  rw [← String.size_toByteArray, hbytes, List.size_toByteArray]

/-- A place between characters is one behind the bytes of the characters before it. -/
theorem isValid_iff_exists_append {text : String} {place : Nat} :
    (⟨place⟩ : String.Pos.Raw).IsValid text ↔
      ∃ before after, text.toList = before ++ after ∧ (encode before).length = place := by
  rw [String.Pos.Raw.isValid_iff_exists_append]
  constructor
  · rintro ⟨before, after, rfl, hplace⟩
    refine ⟨before.toList, after.toList, String.toList_append, ?_⟩
    rw [length_encode, String.ofList_toList]
    exact (congrArg String.Pos.Raw.byteIdx hplace).symm
  · rintro ⟨before, after, htext, rfl⟩
    refine ⟨.ofList before, .ofList after, ?_, ?_⟩
    · rw [← String.ofList_append, ← htext, String.ofList_toList]
    · rw [length_encode]
      rfl

/-- What stands between two places between characters can be taken out. -/
theorem slice?_of_cut {text : String} {before part after : List Char}
    (h : text.toList = before ++ (part ++ after)) :
    slice? text ⟨(encode before).length, (encode before).length + (encode part).length⟩
      = some (.ofList part) := by
  have hstart : (⟨(encode before).length⟩ : String.Pos.Raw).IsValid text :=
    isValid_iff_exists_append.mpr ⟨before, part ++ after, h, rfl⟩
  have hstop :
      (⟨(encode before).length + (encode part).length⟩ : String.Pos.Raw).IsValid text := by
    refine isValid_iff_exists_append.mpr ⟨before ++ part, after, ?_, ?_⟩
    · rw [h, List.append_assoc]
    · rw [encode_append, List.length_append]
  have hbytes : text.toByteArray = (encode before).toByteArray
      ++ ((encode part).toByteArray ++ (encode after).toByteArray) := by
    rw [← String.ofList_toList (s := text), h, String.toByteArray_ofList,
      List.utf8Encode_append, List.utf8Encode_append]
    rfl
  rw [slice?, dif_pos ⟨hstart, hstop, Nat.le_add_right _ _⟩]
  refine congrArg some (String.toByteArray_inj.mp ?_)
  rw [String.toByteArray_extract, String.offset_pos, String.offset_pos, hbytes,
    String.toByteArray_ofList]
  show ByteArray.extract _ ((encode before).length + 0) _ = _
  rw [ByteArray.extract_append_size_add' List.size_toByteArray.symm,
    ByteArray.extract_append_eq_left List.size_toByteArray.symm]
  rfl

/-- So can what stands before such a place. -/
theorem slice?_of_append {text : String} {before after : List Char}
    (h : text.toList = before ++ after) :
    slice? text ⟨0, (encode before).length⟩ = some (.ofList before) := by
  have hcut : text.toList = [] ++ (before ++ after) := h
  have hslice := slice?_of_cut hcut
  rwa [encode, List.flatMap_nil, List.length_nil, Nat.zero_add] at hslice

/-! ### Words among the bytes -/

/-- Of the bytes of a character, only the first can begin one. -/
theorem isUTF8FirstByte_getElem_iff {c : Char} {i : Nat}
    (h : i < (String.utf8EncodeChar c).length) :
    (String.utf8EncodeChar c)[i].IsUTF8FirstByte ↔ i = 0 := by
  have hsize : i < [c].utf8Encode.size := by
    rw [List.utf8Encode_singleton, List.size_toByteArray]
    exact h
  have hfirst : [c].utf8Encode[i].IsUTF8FirstByte ↔ i = 0 :=
    List.isUTF8FirstByte_getElem_utf8Encode_singleton
  simpa only [List.utf8Encode_singleton, List.getElem_toByteArray] using hfirst

/-- Bytes of a text that are cut before a byte that can begin a character are cut between
characters. -/
theorem exists_append_of_encode_eq {cs : List Char} {as bs : List UInt8}
    (h : encode cs = as ++ bs) (hbs : ∀ b ∈ bs.head?, b.IsUTF8FirstByte) :
    ∃ before after, cs = before ++ after ∧ encode before = as ∧ encode after = bs := by
  induction cs generalizing as with
  | nil =>
    obtain ⟨rfl, rfl⟩ := List.append_eq_nil_iff.mp h.symm
    exact ⟨[], [], rfl, rfl, rfl⟩
  | cons c cs ih =>
    rw [encode_cons] at h
    rcases List.append_eq_append_iff.mp h with ⟨inner, rfl, hrest⟩ | ⟨inner, hchar, rfl⟩
    · -- The cut lies behind the first character.
      obtain ⟨before, after, rfl, rfl, hafter⟩ := ih hrest
      exact ⟨c :: before, after, rfl, encode_cons c before, hafter⟩
    · cases inner with
      | nil =>
        rw [List.append_nil] at hchar
        refine ⟨[c], cs, rfl, ?_, rfl⟩
        rw [encode_cons, hchar]
        exact List.append_nil as
      | cons b inner =>
        -- The cut lies before one of the bytes of the first character.
        have hlength : as.length < (String.utf8EncodeChar c).length := by
          rw [hchar, List.length_append, List.length_cons]
          omega
        have hb : (String.utf8EncodeChar c)[as.length] = b := by
          simp only [hchar, List.getElem_append_right (Nat.le_refl as.length), Nat.sub_self,
            List.getElem_cons_zero]
        have hzero := (isUTF8FirstByte_getElem_iff hlength).mp (hb ▸ hbs b rfl)
        obtain rfl := List.eq_nil_of_length_eq_zero hzero
        refine ⟨[], c :: cs, rfl, rfl, ?_⟩
        rw [encode_cons, hchar, List.nil_append]

/-- A text begins with a byte that can begin a character. -/
theorem isUTF8FirstByte_of_mem_head? {cs : List Char} {bs : List UInt8} (h : cs ≠ []) :
    ∀ b ∈ (encode cs ++ bs).head?, b.IsUTF8FirstByte := by
  obtain ⟨c, cs, rfl⟩ := List.exists_cons_of_ne_nil h
  have hlength : 0 < (String.utf8EncodeChar c).length := by
    rw [String.length_utf8EncodeChar]
    exact c.utf8Size_pos
  have hfirst := (isUTF8FirstByte_getElem_iff hlength).mpr rfl
  intro b hb
  rw [encode_cons, List.append_assoc, List.head?_append, List.head?_eq_getElem?,
    List.getElem?_eq_getElem hlength, Option.some_or] at hb
  exact Option.some.inj hb ▸ hfirst

/-- What begins with the bytes of a word begins with the word. -/
theorem exists_append_of_encode_eq_encode_append {cs word : List Char} {bs : List UInt8}
    (h : encode cs = encode word ++ bs) : ∃ after, cs = word ++ after ∧ encode after = bs := by
  have hbytes : word.utf8Encode ++ bs.toByteArray = cs.utf8Encode := by
    show (encode word).toByteArray ++ bs.toByteArray = (encode cs).toByteArray
    rw [h, List.toByteArray_append]
  obtain ⟨after, rfl⟩ := List.isPrefix_of_utf8Encode_append_eq_utf8Encode bs.toByteArray hbytes
  rw [encode_append] at h
  exact ⟨after, rfl, List.append_cancel_left h⟩

/-- The bytes of a word stand in those of a text only where the word does. -/
theorem exists_cut_of_encode_eq {cs word : List Char} {as bs : List UInt8} (hword : word ≠ [])
    (h : encode cs = as ++ (encode word ++ bs)) :
    ∃ before after, cs = before ++ (word ++ after) ∧ encode before = as ∧ encode after = bs := by
  obtain ⟨before, rest, rfl, hbefore, hrest⟩ :=
    exists_append_of_encode_eq h (isUTF8FirstByte_of_mem_head? hword)
  obtain ⟨after, rfl, hafter⟩ := exists_append_of_encode_eq_encode_append hrest
  exact ⟨before, after, rfl, hbefore, hafter⟩

/-! ### The first place of a word -/

/-- A search among the bytes finds the first occurrence. -/
theorem byteIndex?_eq_map (word text : String) :
    byteIndex? word text
      = (splitFirst? word.toList text.toList).map fun cut => (encode cut.1).length := by
  rw [byteIndex?, toList_toUTF8, toList_toUTF8]
  cases hcut : splitFirst? word.toList text.toList with
  | none =>
    rw [splitFirst?_eq_none_iff] at hcut
    refine firstIndex?_eq_none_iff.mpr fun as bs hbytes => ?_
    -- The empty word stands in every text.
    have hword : word.toList ≠ [] := fun hempty => hcut [] text.toList (by rw [hempty]; rfl)
    obtain ⟨before, after, htext, -, -⟩ := exists_cut_of_encode_eq hword hbytes
    exact hcut before after htext
  | some cut =>
    obtain ⟨before, after⟩ := cut
    obtain ⟨htext, hfirst⟩ := splitFirst?_eq_some_iff.mp hcut
    refine firstIndex?_eq_some_iff.mpr ⟨encode before, encode after, ?_, rfl, fun as bs h => ?_⟩
    · rw [htext, encode_append, encode_append]
    by_cases hword : word.toList = []
    · -- The empty word was found at the very beginning.
      have hzero := hfirst [] text.toList (by rw [hword]; rfl)
      obtain rfl := List.eq_nil_of_length_eq_zero (Nat.le_zero.mp hzero)
      exact Nat.zero_le _
    · obtain ⟨before', after', htext', rfl, -⟩ := exists_cut_of_encode_eq hword h
      obtain ⟨behind, rfl⟩ := List.prefix_of_prefix_length_le (htext ▸ List.prefix_append _ _)
        (htext' ▸ List.prefix_append _ _) (hfirst before' after' htext')
      rw [encode_append, List.length_append]
      exact Nat.le_add_right _ _

end LuaDiagnostics.Text
