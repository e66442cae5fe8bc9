/-
The lines of a text and their terminators.

A text is its lines with their terminators between them.  A carriage return before a
newline belongs to the terminator, so a line that ends in a newline alone does not end in
a carriage return, and this makes the cut the only one of its kind.

* **`exists_joined_eq`**, **`joined_injective`**: every text has exactly one cut into lines.
* **`lineSpans_eq`**: one pass over the bytes finds the places of these lines.
* **`texts_eq_lines`**: they are those that are found by cutting at newlines first and
  looking at the pieces afterwards.
* **`Document.line_structure`**: what this comes to for the lines of a document.
-/
import LuaDiagnostics.Document
import LuaDiagnostics.Message.Resolve
import LuaDiagnostics.Proofs.Text.Bytes

namespace LuaDiagnostics

namespace Text

/-! ### Cuts -/

/-- What ends a line. -/
inductive LineEnd
  | newline
  | returnNewline
deriving DecidableEq, Repr

/-- The characters that end a line. -/
def LineEnd.chars : LineEnd → List Char
  | newline => ['\n']
  | returnNewline => ['\r', '\n']

/-- A line with its terminator. -/
@[ext]
structure EndedLine where
  text : List Char
  ending : LineEnd
  newline_not_mem : '\n' ∉ text
  /-- A carriage return before the newline belongs to the terminator. -/
  return_not_last : ending = .newline → text.getLast? ≠ some '\r'

/-- A text that is cut into lines, the last of which has no terminator. -/
@[ext]
structure LineCut where
  front : List EndedLine
  last : List Char
  newline_not_mem : '\n' ∉ last

namespace EndedLine

/-- The line and its terminator. -/
def chars (l : EndedLine) : List Char := l.text ++ l.ending.chars

/-- What stands before the newline. -/
def body (l : EndedLine) : List Char := l.text ++ l.ending.chars.dropLast

theorem chars_eq (l : EndedLine) : l.chars = l.body ++ ['\n'] := by
  rw [chars, body, List.append_assoc]
  cases l.ending <;> rfl

theorem newline_not_mem_body (l : EndedLine) : '\n' ∉ l.body := by
  intro h
  rcases List.mem_append.mp h with h | h
  · exact l.newline_not_mem h
  · cases hending : l.ending <;> simp [hending, LineEnd.chars] at h

/-- What stands before the newline tells where the terminator begins. -/
theorem body_injective : Function.Injective body := by
  have hmixed : ∀ l m : EndedLine, l.ending = .newline → m.ending = .returnNewline →
      l.body ≠ m.body := by
    intro l m hl hm h
    simp only [body, hl, hm, LineEnd.chars, List.dropLast, List.append_nil] at h
    refine l.return_not_last hl ?_
    rw [h, List.getLast?_concat]
  intro l m h
  cases hl : l.ending with
  | newline =>
    cases hm : m.ending with
    | newline =>
      refine EndedLine.ext ?_ (hl.trans hm.symm)
      simpa only [body, hl, hm, LineEnd.chars, List.dropLast, List.append_nil] using h
    | returnNewline => exact absurd h (hmixed l m hl hm)
  | returnNewline =>
    cases hm : m.ending with
    | newline => exact absurd h.symm (hmixed m l hm hl)
    | returnNewline =>
      refine EndedLine.ext ?_ (hl.trans hm.symm)
      simpa only [body, hl, hm, LineEnd.chars, List.dropLast, List.append_cancel_right_eq]
        using h

theorem text_eq_dropFinalReturn (l : EndedLine) : l.text = dropFinalReturn l.body := by
  rw [dropFinalReturn, body]
  cases hl : l.ending with
  | newline =>
    rw [LineEnd.chars, List.dropLast_singleton, List.append_nil, if_neg (l.return_not_last hl)]
  | returnNewline => simp [LineEnd.chars]

theorem exists_body_eq {piece : List Char} (h : '\n' ∉ piece) : ∃ l : EndedLine, l.body = piece := by
  by_cases hlast : piece.getLast? = some '\r'
  · obtain ⟨front, rfl⟩ := List.getLast?_eq_some_iff.mp hlast
    exact ⟨⟨front, .returnNewline, fun hmem => h (List.mem_append_left _ hmem), by simp⟩, rfl⟩
  · exact ⟨⟨piece, .newline, h, fun _ => hlast⟩, List.append_nil piece⟩

end EndedLine

namespace LineCut

/-- The text that was cut. -/
def joined (cut : LineCut) : List Char := cut.front.flatMap EndedLine.chars ++ cut.last

/-- The lines, without terminators. -/
def texts (cut : LineCut) : List (List Char) := cut.front.map EndedLine.text ++ [cut.last]

/-- A further line in front. -/
def cons (l : EndedLine) (cut : LineCut) : LineCut :=
  ⟨l :: cut.front, cut.last, cut.newline_not_mem⟩

/-- Only one line. -/
def single (last : List Char) (h : '\n' ∉ last) : LineCut := ⟨[], last, h⟩

@[elab_as_elim]
theorem induction {motive : LineCut → Prop} (single : ∀ last h, motive (single last h))
    (cons : ∀ l cut, motive cut → motive (cut.cons l)) (cut : LineCut) : motive cut := by
  obtain ⟨front, last, h⟩ := cut
  induction front with
  | nil => exact single last h
  | cons l front ih => exact cons l ⟨front, last, h⟩ ih

theorem joined_cons (l : EndedLine) (cut : LineCut) :
    (cut.cons l).joined = l.body ++ '\n' :: cut.joined := by
  rw [joined, cons, List.flatMap_cons, l.chars_eq, joined]
  simp

theorem joined_single {last : List Char} (h : '\n' ∉ last) : (single last h).joined = last := rfl

/-- Every text can be cut into lines. -/
theorem exists_joined_eq (cs : List Char) : ∃ cut : LineCut, cut.joined = cs := by
  induction cs using pieces_induction with
  | last piece h => exact ⟨single piece h, joined_single h⟩
  | more piece tail h ih =>
    obtain ⟨l, rfl⟩ := EndedLine.exists_body_eq h
    obtain ⟨cut, rfl⟩ := ih
    exact ⟨cut.cons l, joined_cons l cut⟩

/-- No text can be cut into lines in two ways. -/
theorem joined_injective : Function.Injective joined := by
  have hone : ∀ {last} (h : '\n' ∉ last) (l : EndedLine) (cut : LineCut),
      (single last h).joined ≠ (cut.cons l).joined := by
    intro last h l cut heq
    rw [joined_single, joined_cons] at heq
    refine h (heq ▸ ?_)
    simp
  intro cut other h
  induction cut using induction generalizing other with
  | single last hlast =>
    induction other using induction with
    | single last' hlast' => exact LineCut.ext rfl h
    | cons l other _ => exact absurd h (hone hlast l other)
  | cons l cut ih =>
    induction other using induction with
    | single last' hlast' => exact absurd h.symm (hone hlast' l cut)
    | cons m other _ =>
      -- The first newline of both stands in the same place.
      rw [joined_cons, joined_cons] at h
      have hpieces := congrArg pieces h
      rw [pieces_append _ l.newline_not_mem_body, pieces_append _ m.newline_not_mem_body] at hpieces
      obtain rfl := EndedLine.body_injective (List.cons.inj hpieces).1
      rw [List.append_cancel_left_eq, List.cons_inj_right] at h
      rw [ih h]

theorem count_joined (cut : LineCut) : cut.joined.count '\n' = cut.front.length := by
  induction cut using induction with
  | single last h => exact List.count_eq_zero_of_not_mem h
  | cons l cut ih =>
    rw [joined_cons, List.count_append, List.count_eq_zero_of_not_mem l.newline_not_mem_body,
      List.count_cons_self, ih, Nat.zero_add]
    rfl

/-- The lines are the pieces between newlines, each with a final carriage return taken off
unless it is the last. -/
theorem texts_eq_lines (cut : LineCut) : cut.texts = lines cut.joined := by
  induction cut using induction with
  | single last h =>
    rw [joined_single, lines, pieces_of_not_mem h]
    rfl
  | cons l cut ih =>
    have hne : pieces cut.joined ≠ [] := splitAll_ne_nil _ _
    rw [joined_cons, lines, pieces_append _ l.newline_not_mem_body,
      List.dropLast_cons_of_ne_nil hne, List.getLast?_cons_of_ne_nil hne, List.map_cons,
      List.cons_append, ← l.text_eq_dropFinalReturn]
    exact congrArg (l.text :: ·) ih

end LineCut

/-! ### Places -/

/-- Within a line the pass goes on to the next byte. -/
theorem spansOnto_append {done : List Span} {start place : Nat} {before : UInt8}
    {bytes : List UInt8} (h : '\n'.toUInt8 ∉ bytes) (rest : List UInt8) :
    spansOnto done start place before (bytes ++ rest)
      = spansOnto done start (place + bytes.length) (bytes.getLast?.getD before) rest := by
  induction bytes generalizing place before with
  | nil => rfl
  | cons b bytes ih =>
    rw [List.mem_cons, not_or] at h
    obtain ⟨hb, hbytes⟩ := h
    rw [List.cons_append, spansOnto, if_neg (Ne.symm hb), ih hbytes, List.getLast?_cons,
      List.length_cons, Option.getD_some, Nat.add_right_comm, Nat.add_assoc]

/-- The last byte of a text is that of a carriage return only if its last character is one. -/
theorem getLast?_of_getLast?_encode {cs : List Char}
    (h : (encode cs).getLast? = some '\r'.toUInt8) : cs.getLast? = some '\r' := by
  rcases List.eq_nil_or_concat cs with rfl | ⟨front, c, rfl⟩
  · exact absurd h (by simp [encode])
  · have hne : String.utf8EncodeChar c ≠ [] := by
      refine List.ne_nil_of_length_pos ?_
      rw [String.length_utf8EncodeChar]
      exact c.utf8Size_pos
    have hsingle : encode [c] = String.utf8EncodeChar c := List.append_nil _
    rw [List.concat_eq_append, encode_append, hsingle, List.getLast?_append,
      List.getLast?_eq_some_getLast hne, Option.some_or] at h
    have hmem : '\r'.toUInt8 ∈ String.utf8EncodeChar c :=
      Option.some.inj h ▸ List.getLast_mem hne
    obtain rfl : c = '\r' := eq_of_mem_utf8EncodeChar (by decide) hmem
    rw [List.concat_eq_append, List.getLast?_concat]

/-- At its newline, the pass has found a line. -/
theorem spansOnto_line (done : List Span) (start : Nat) (before : UInt8) (l : EndedLine)
    (rest : List UInt8) :
    spansOnto done start start before (encode l.body ++ '\n'.toUInt8 :: rest)
      = spansOnto (⟨start, start + (encode l.text).length⟩ :: done)
          (start + (encode l.chars).length) (start + (encode l.chars).length) '\n'.toUInt8
          rest := by
  have hchars : (encode l.chars).length = (encode l.body).length + 1 := by
    rw [l.chars_eq, encode_append, List.length_append]
    rfl
  rw [spansOnto_append (newline_not_mem_encode l.newline_not_mem_body), spansOnto, if_pos rfl,
    hchars]
  suffices hstop : (if start < start + (encode l.body).length ∧
      (encode l.body).getLast?.getD before = '\r'.toUInt8
      then start + (encode l.body).length - 1 else start + (encode l.body).length)
        = start + (encode l.text).length by
    rw [← hstop]
    rfl
  cases hl : l.ending with
  | newline =>
    have hbody : l.body = l.text := by
      rw [EndedLine.body, hl]
      exact List.append_nil _
    rw [hbody, if_neg]
    rintro ⟨hlt, hreturn⟩
    -- The line is not empty, so the byte before is its own.
    have hne : encode l.text ≠ [] := List.ne_nil_of_length_pos (by omega)
    rw [List.getLast?_eq_some_getLast hne, Option.getD_some] at hreturn
    refine l.return_not_last hl (getLast?_of_getLast?_encode ?_)
    rw [List.getLast?_eq_some_getLast hne, hreturn]
  | returnNewline =>
    have hbody : encode l.body = encode l.text ++ ['\r'.toUInt8] := by
      rw [EndedLine.body, hl, encode_append]
      rfl
    rw [hbody, List.length_append, List.getLast?_concat, if_pos ⟨by simp, rfl⟩]
    rfl

/-- The places of lines, the first of which begins at `start`. -/
def spansFrom (start : Nat) : List EndedLine → List Char → List Span
  | [], last => [⟨start, start + (encode last).length⟩]
  | l :: front, last =>
    ⟨start, start + (encode l.text).length⟩ ::
      spansFrom (start + (encode l.chars).length) front last

theorem spansOnto_joined (done : List Span) (start : Nat) (before : UInt8) (cut : LineCut) :
    spansOnto done start start before (encode cut.joined)
      = done.reverse ++ spansFrom start cut.front cut.last := by
  induction cut using LineCut.induction generalizing done start before with
  | single last h =>
    rw [LineCut.joined_single, ← List.append_nil (encode last),
      spansOnto_append (newline_not_mem_encode h), spansOnto, List.reverse_cons]
    rfl
  | cons l cut ih =>
    have hbytes : encode ('\n' :: cut.joined) = '\n'.toUInt8 :: encode cut.joined := rfl
    rw [LineCut.joined_cons, encode_append, hbytes, spansOnto_line, ih, List.reverse_cons,
      List.append_assoc]
    rfl

/-- One pass over the bytes finds the places of the lines. -/
theorem lineSpans_eq {text : String} {cut : LineCut} (h : cut.joined = text.toList) :
    lineSpans text = spansFrom 0 cut.front cut.last := by
  rw [lineSpans, toList_toUTF8, ← h, spansOnto_joined, List.reverse_nil, List.nil_append]

theorem length_spansFrom (start : Nat) (front : List EndedLine) (last : List Char) :
    (spansFrom start front last).length = front.length + 1 := by
  induction front generalizing start with
  | nil => rfl
  | cons l front ih => rw [spansFrom, List.length_cons, ih, List.length_cons]

theorem le_start_of_mem_spansFrom {start : Nat} {front : List EndedLine} {last : List Char}
    {s : Span} (h : s ∈ spansFrom start front last) : start ≤ s.start := by
  induction front generalizing start with
  | nil =>
    rw [List.mem_singleton.mp h]
  | cons l front ih =>
    rcases List.mem_cons.mp h with rfl | h
    · exact Nat.le_refl _
    · exact Nat.le_trans (Nat.le_add_right _ _) (ih h)

/-- A line ends before the next one begins: there is a newline between them. -/
theorem pairwise_spansFrom (start : Nat) (front : List EndedLine) (last : List Char) :
    (spansFrom start front last).Pairwise fun s t => s.stop < t.start := by
  induction front generalizing start with
  | nil => exact List.pairwise_singleton _ _
  | cons l front ih =>
    refine List.pairwise_cons.mpr ⟨fun t ht => ?_, ih _⟩
    have hstart := le_start_of_mem_spansFrom ht
    have hchars : (encode l.text).length < (encode l.chars).length := by
      rw [EndedLine.chars, encode_append, List.length_append]
      cases l.ending with
      | newline => exact Nat.lt_succ_self _
      | returnNewline => exact Nat.lt_add_of_pos_right Nat.two_pos
    show start + (encode l.text).length < t.start
    omega

/-- At their places stand the lines. -/
theorem map_slice?_spansFrom {text : String} {before : List Char} {cut : LineCut}
    (h : text.toList = before ++ cut.joined) :
    (spansFrom (encode before).length cut.front cut.last).map (slice? text)
      = cut.texts.map fun line => some (String.ofList line) := by
  induction cut using LineCut.induction generalizing before with
  | single last hlast =>
    have hslice : slice? text ⟨(encode before).length, (encode before).length + (encode last).length⟩
        = some (.ofList last) := by
      have hcut : text.toList = before ++ (last ++ []) := by
        rw [h, LineCut.joined_single, List.append_nil]
      exact slice?_of_cut hcut
    exact congrArg (fun slice => [slice]) hslice
  | cons l cut ih =>
    have hcut : text.toList = before ++ (l.text ++ (l.ending.chars ++ cut.joined)) := by
      rw [h, LineCut.joined_cons, List.append_cons, ← l.chars_eq, EndedLine.chars,
        List.append_assoc]
    have hrest : text.toList = (before ++ l.chars) ++ cut.joined := by
      rw [hcut, EndedLine.chars]
      simp
    have htail := ih hrest
    rw [encode_append, List.length_append] at htail
    show slice? text ⟨(encode before).length, (encode before).length + (encode l.text).length⟩ ::
      (spansFrom _ cut.front cut.last).map (slice? text) = _
    rw [slice?_of_cut hcut, htail]
    rfl

theorem isSome_slice?_iff {text : String} {s : Span} :
    (slice? text s).isSome = true ↔ (⟨s.start⟩ : String.Pos.Raw).IsValid text ∧
      (⟨s.stop⟩ : String.Pos.Raw).IsValid text ∧ s.start ≤ s.stop := by
  rw [slice?]
  split
  · rename_i h
    exact iff_of_true rfl h
  · rename_i h
    exact iff_of_false (by simp) h

/-! ### Other terminators -/

/-- The text with a carriage return before every newline. -/
def withReturns (cs : List Char) : List Char :=
  cs.flatMap fun c => if c = '\n' then ['\r', '\n'] else [c]

theorem withReturns_append (as bs : List Char) :
    withReturns (as ++ bs) = withReturns as ++ withReturns bs := List.flatMap_append

theorem withReturns_newline (cs : List Char) :
    withReturns ('\n' :: cs) = '\r' :: '\n' :: withReturns cs := rfl

theorem withReturns_of_not_mem {cs : List Char} (h : '\n' ∉ cs) : withReturns cs = cs := by
  induction cs with
  | nil => rfl
  | cons c cs ih =>
    rw [List.mem_cons, not_or] at h
    obtain ⟨hc, hcs⟩ := h
    rw [withReturns, List.flatMap_cons, if_neg (Ne.symm hc)]
    exact congrArg (c :: ·) (ih hcs)

/-- Where there was no carriage return, those that are added belong to terminators. -/
theorem lines_withReturns {cs : List Char} (h : '\r' ∉ cs) : lines (withReturns cs) = lines cs := by
  -- The text with the carriage returns has a cut of its own, into the same lines.
  have hjoined : ∀ cut : LineCut, '\r' ∉ cut.joined →
      ∃ cut' : LineCut, cut'.joined = withReturns cut.joined ∧ cut'.texts = cut.texts := by
    intro cut hcut
    induction cut using LineCut.induction with
    | single last hlast =>
      exact ⟨.single last hlast, (withReturns_of_not_mem hlast).symm, rfl⟩
    | cons l cut ih =>
      rw [LineCut.joined_cons, List.mem_append, not_or, List.mem_cons, not_or] at hcut
      obtain ⟨hbody, -, hrest⟩ := hcut
      obtain ⟨cut', hjoined, htexts⟩ := ih hrest
      have hl : l.ending = .newline := by
        cases hl : l.ending with
        | newline => rfl
        | returnNewline => exact absurd (by simp [EndedLine.body, hl, LineEnd.chars]) hbody
      have htext : l.body = l.text := by
        rw [EndedLine.body, hl]
        exact List.append_nil _
      let l' : EndedLine := ⟨l.text, .returnNewline, l.newline_not_mem, nofun⟩
      have hbody' : l'.body = l.text ++ ['\r'] := rfl
      refine ⟨cut'.cons l', ?_, congrArg (l.text :: ·) htexts⟩
      rw [LineCut.joined_cons, LineCut.joined_cons, hbody', hjoined, htext, withReturns_append,
        withReturns_newline, withReturns_of_not_mem l.newline_not_mem, List.append_assoc]
      rfl
  obtain ⟨cut, rfl⟩ := LineCut.exists_joined_eq cs
  obtain ⟨cut', hcut', htexts⟩ := hjoined cut h
  rw [← hcut', ← cut'.texts_eq_lines, htexts, cut.texts_eq_lines]

end Text

/-! ### Documents -/

namespace Document

open Text

variable {d : Document} {cut : LineCut}

theorem map_slice?_spans (h : cut.joined = d.text.toList) :
    d.spans.map (slice? d.text) = cut.texts.map fun line => some (String.ofList line) := by
  have hcut : d.text.toList = [] ++ cut.joined := h.symm
  rw [spans, lineSpans_eq h]
  exact map_slice?_spansFrom hcut

theorem lines_eq_texts (h : cut.joined = d.text.toList) :
    d.lines = cut.texts.map String.ofList := by
  have hslices := map_slice?_spans h
  have hjoin : d.lines = (d.spans.map (slice? d.text)).filterMap fun slice => slice := by
    rw [lines, List.filterMap_map]
    rfl
  rw [hjoin, hslices, List.filterMap_map]
  exact congrFun (List.filterMap_eq_map (f := String.ofList)) cut.texts

/-- The lines of a document are those of its text. -/
theorem lines_eq (d : Document) : d.lines = (Text.lines d.text.toList).map String.ofList := by
  obtain ⟨cut, hcut⟩ := LineCut.exists_joined_eq d.text.toList
  rw [lines_eq_texts hcut, cut.texts_eq_lines, hcut]

theorem lineAt?_eq (d : Document) (index : Nat) : d.lineAt? index = d.lines[index]? := by
  obtain ⟨cut, hcut⟩ := LineCut.exists_joined_eq d.text.toList
  have hslice : d.spans[index]?.map (slice? d.text)
      = cut.texts[index]?.map fun line => some (String.ofList line) := by
    rw [← List.getElem?_map, map_slice?_spans hcut, List.getElem?_map]
  rw [lines_eq_texts hcut, lineAt?, List.getElem?_map]
  cases hspan : d.spans[index]? with
  | none =>
    rw [hspan, Option.map_none, eq_comm, Option.map_eq_none_iff] at hslice
    rw [hslice]
    rfl
  | some s =>
    rw [hspan, Option.map_some, eq_comm, Option.map_eq_some_iff] at hslice
    obtain ⟨line, hline, hs⟩ := hslice
    rw [hline, Option.bind_some, ← hs]
    rfl

/-- **The lines of a document.**  There is one more of them than there are newlines in the
text.  Their places are in order, apart from one another, within the text and between
characters.  With their terminators between them they are the text, and no other lines are.
A line is there exactly when its number is at most that of the newlines.  And where the text
holds no carriage return, one before every newline changes no line and no diagnostic. -/
theorem line_structure (d : Document) :
    d.spans.length = d.text.toList.count '\n' + 1 ∧
    (d.spans.Pairwise fun s t => s.stop < t.start) ∧
    (∀ s ∈ d.spans, s.start ≤ s.stop ∧ s.stop ≤ d.text.utf8ByteSize ∧
      (⟨s.start⟩ : String.Pos.Raw).IsValid d.text ∧
      (⟨s.stop⟩ : String.Pos.Raw).IsValid d.text ∧ (slice? d.text s).isSome = true) ∧
    (∃ cut : LineCut, cut.joined = d.text.toList ∧
      d.spans.map (slice? d.text) = cut.texts.map (fun line => some (String.ofList line)) ∧
      ∀ other : LineCut, other.joined = d.text.toList → other = cut) ∧
    (∀ index, d.lineAt? index = d.lines[index]? ∧
      ((d.lineAt? index).isSome = true ↔ index ≤ d.text.toList.count '\n')) ∧
    ('\r' ∉ d.text.toList → ∀ d' : Document, d'.text.toList = withReturns d.text.toList →
      d'.lines = d.lines ∧ ∀ output, diagnose d'.lines output = diagnose d.lines output) := by
  obtain ⟨cut, hcut⟩ := LineCut.exists_joined_eq d.text.toList
  have hspans : d.spans = spansFrom 0 cut.front cut.last := lineSpans_eq hcut
  have hslices := map_slice?_spans hcut
  have hlength : d.spans.length = d.text.toList.count '\n' + 1 := by
    rw [hspans, length_spansFrom, ← hcut, cut.count_joined]
  refine ⟨hlength, ?_, fun s hs => ?_, ⟨cut, hcut, hslices, fun other hother => ?_⟩,
    fun index => ⟨d.lineAt?_eq index, ?_⟩, fun hreturn d' hd' => ?_⟩
  · rw [hspans]
    exact pairwise_spansFrom 0 cut.front cut.last
  · have hslice : slice? d.text s ∈ d.spans.map (slice? d.text) := List.mem_map_of_mem hs
    rw [hslices] at hslice
    obtain ⟨line, -, hline⟩ := List.mem_map.mp hslice
    have hsome : (slice? d.text s).isSome = true := by rw [← hline, Option.isSome_some]
    obtain ⟨hstart, hstop, hle⟩ := isSome_slice?_iff.mp hsome
    exact ⟨hle, hstop.le_utf8ByteSize, hstart, hstop, hsome⟩
  · exact LineCut.joined_injective (hother.trans hcut.symm)
  · have hlines : d.lines.length = d.spans.length := by
      rw [lines_eq_texts hcut, List.length_map, ← List.length_map (slice? d.text), hslices,
        List.length_map]
    rw [d.lineAt?_eq, isSome_getElem?, hlines, hlength, Nat.lt_succ_iff]
  · have hlines : d'.lines = d.lines := by
      rw [d'.lines_eq, d.lines_eq, hd', lines_withReturns hreturn]
    exact ⟨hlines, fun output => by rw [hlines]⟩

end Document

end LuaDiagnostics
