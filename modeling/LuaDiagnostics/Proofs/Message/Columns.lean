/-
The columns that a message is about.

The token of a message is looked for among the bytes of its line, and the range counts
characters.

* **`columns?_eq`**: the bytes are not seen in the columns, which are those of the first
  occurrence among the characters.
* **`Covers`**: the columns are as they should be for the message, and
  **`covers_of_columns?_eq_some`**: they always are.
* **`resolve_exact`**: which messages give a diagnostic, and what it is then.
-/
import LuaDiagnostics.Message.Resolve
import LuaDiagnostics.Proofs.Text.Bytes

namespace LuaDiagnostics

namespace Text

/-- Some columns of a text hold a word where it was cut out. -/
theorem extract_of_cut (before word after : List Char) :
    (before ++ (word ++ after)).extract before.length (before.length + word.length) = word := by
  rw [List.extract_eq_take_drop, List.drop_left, Nat.add_sub_cancel_left, List.take_left]

/-- Columns that hold a word are a place where it can be cut out. -/
theorem eq_cut_of_extract {cs word : List Char} {start stop : Nat}
    (h : cs.extract start stop = word) :
    cs = cs.take start ++ (word ++ (cs.drop start).drop (stop - start)) := by
  rw [← h, List.extract_eq_take_drop, List.take_append_drop, List.take_append_drop]

end Text

namespace Message

/-! ### Columns -/

theorem width?_eq_some_iff {text : String} {n : Nat} :
    width? text = some n ↔ text.length = n ∧ n < columnBound := by
  rw [width?]
  split
  · rename_i hbound
    rw [Option.some.injEq]
    exact ⟨fun h => ⟨h, h ▸ hbound⟩, fun h => h.1⟩
  · rename_i hbound
    refine ⟨fun h => absurd h (by simp), ?_⟩
    rintro ⟨rfl, h⟩
    exact absurd h hbound

theorem width?_eq_none_iff {text : String} : width? text = none ↔ columnBound ≤ text.length := by
  rw [width?, ite_eq_right_iff, ← Nat.not_lt]
  exact ⟨fun h hlt => absurd (h hlt) (by simp), fun h hlt => absurd hlt h⟩

/-- The bytes are not seen in the columns: they are those of the first occurrence of the
token, and a part of the line is not too wide if the line is not. -/
theorem columns?_eq {m : Message} {text : String} :
    m.columns? text =
      if columnBound ≤ text.length then none
      else if m.isEof then some (0, text.length)
      else match Text.firstIndex? m.token.toList text.toList with
        | some start => some (start, start + m.token.length)
        | none => some (0, text.length) := by
  by_cases hbound : columnBound ≤ text.length
  · rw [columns?, width?_eq_none_iff.mpr hbound, if_pos hbound]
    rfl
  have hwhole : width? text = some text.length :=
    width?_eq_some_iff.mpr ⟨rfl, Nat.not_le.mp hbound⟩
  rw [columns?, hwhole, Option.bind_eq_bind, Option.bind_some, if_neg hbound]
  split
  · rfl
  rw [Text.byteIndex?_eq_map, Text.firstIndex?_eq_map]
  cases hcut : Text.splitFirst? m.token.toList text.toList with
  | none => rfl
  | some cut =>
    obtain ⟨before, after⟩ := cut
    obtain ⟨htext, -⟩ := Text.splitFirst?_eq_some_iff.mp hcut
    -- The bytes before the token are those of the characters before it.
    have hslice : Text.slice? text ⟨0, (Text.encode before).length⟩ = some (.ofList before) :=
      Text.slice?_of_append htext
    have hlength := congrArg List.length htext
    rw [String.length_toList, List.length_append, List.length_append, String.length_toList]
      at hlength
    have hbefore : width? (.ofList before) = some before.length :=
      width?_eq_some_iff.mpr ⟨String.length_ofList, by omega⟩
    have htoken : width? m.token = some m.token.length :=
      width?_eq_some_iff.mpr ⟨rfl, by omega⟩
    simp only [Option.map_some, hslice, hbefore, htoken, Option.bind_eq_bind, Option.bind_some]
    rfl

/-- The columns are those of the first occurrence of the token.  They are all of the line when
the token is not there or stands for the end of the input. -/
structure Covers (m : Message) (text : String) (start stop : Nat) : Prop where
  start_le : start ≤ stop
  stop_le : stop ≤ text.length
  extract_eq : m.token ≠ endOfInput → m.token.toList <:+: text.toList →
    text.toList.extract start stop = m.token.toList
  first : m.token ≠ endOfInput → m.token.toList <:+: text.toList →
    ∀ start' stop', text.toList.extract start' stop' = m.token.toList → start ≤ start'
  whole : m.token = endOfInput ∨ ¬ m.token.toList <:+: text.toList →
    start = 0 ∧ stop = text.length

variable {m : Message} {text : String} {start stop : Nat}

/-- The columns are found by cutting the line around the first occurrence. -/
theorem Covers.eq_of_cut (h : m.Covers text start stop) (htoken : m.token ≠ endOfInput)
    {before after : List Char} (hcut : text.toList = before ++ (m.token.toList ++ after))
    (hfirst : ∀ b a, text.toList = b ++ (m.token.toList ++ a) → before.length ≤ b.length) :
    start = before.length ∧ stop = before.length + m.token.length := by
  have hinfix : m.token.toList <:+: text.toList :=
    ⟨before, after, by rw [hcut, List.append_assoc]⟩
  have hextract := h.extract_eq htoken hinfix
  have hle : start ≤ before.length := by
    refine h.first htoken hinfix before.length (before.length + m.token.toList.length) ?_
    rw [hcut, Text.extract_of_cut]
  have hge : before.length ≤ start :=
    Nat.le_trans (hfirst _ _ (Text.eq_cut_of_extract hextract)) (List.length_take_le _ _)
  have hwidth := congrArg List.length hextract
  rw [List.extract_eq_take_drop, List.length_take, List.length_drop, String.length_toList,
    String.length_toList] at hwidth
  have hstart := h.start_le
  have hstop := h.stop_le
  omega

/-- The empty token stands before the first character. -/
theorem Covers.of_token_empty (h : m.Covers text start stop) (htoken : m.token = "") :
    start = 0 ∧ stop = 0 := by
  have hempty : m.token.toList = [] := by rw [htoken, String.toList_empty]
  have hcut : text.toList = [] ++ (m.token.toList ++ text.toList) := by rw [hempty]; rfl
  obtain ⟨hstart, hstop⟩ :=
    h.eq_of_cut (htoken ▸ by decide) hcut fun b a _ => Nat.zero_le b.length
  rw [htoken] at hstop
  exact ⟨hstart, hstop⟩

/-- Columns begin within the line, or before its first character: a token that is found behind
the last one is empty, and an empty token is found before the first. -/
theorem Covers.start_eq_zero_or_lt (h : m.Covers text start stop) :
    start = 0 ∨ start < text.length := by
  by_cases hwhole : m.token = endOfInput ∨ ¬ m.token.toList <:+: text.toList
  · exact .inl (h.whole hwhole).1
  rw [not_or, Classical.not_not] at hwhole
  by_cases hempty : m.token = ""
  · exact .inl (h.of_token_empty hempty).1
  · have hlength := congrArg List.length (h.extract_eq hwhole.1 hwhole.2)
    have hpos : 0 < m.token.length :=
      Nat.pos_of_ne_zero fun hzero => hempty (String.length_eq_zero_iff.mp hzero)
    rw [List.extract_eq_take_drop, List.length_take, List.length_drop, String.length_toList,
      String.length_toList] at hlength
    exact .inr (by omega)

/-- There are columns unless the line is too wide. -/
theorem exists_columns? (m : Message) (h : text.length < columnBound) :
    ∃ start stop, m.columns? text = some (start, stop) := by
  rw [columns?_eq, if_neg (Nat.not_le.mpr h)]
  split
  · exact ⟨_, _, rfl⟩
  · split <;> exact ⟨_, _, rfl⟩

/-- There are no columns on a line that is too wide. -/
theorem length_lt_of_columns?_eq_some (h : m.columns? text = some (start, stop)) :
    text.length < columnBound := by
  rw [columns?_eq] at h
  split at h
  · exact absurd h (by simp)
  · rename_i hbound
    exact Nat.lt_of_not_le hbound

/-- The columns of a message cover what they should. -/
theorem covers_of_columns?_eq_some (h : m.columns? text = some (start, stop)) :
    m.Covers text start stop := by
  rw [columns?_eq] at h
  split at h
  · exact absurd h (by simp)
  split at h
  · rename_i heof
    obtain ⟨rfl, rfl⟩ := Prod.mk.inj (Option.some.inj h)
    have htoken : m.token = endOfInput := of_decide_eq_true heof
    exact ⟨Nat.zero_le _, Nat.le_refl _, fun h => absurd htoken h, fun h => absurd htoken h,
      fun _ => ⟨rfl, rfl⟩⟩
  rename_i heof
  have htoken : m.token ≠ endOfInput := fun htoken => heof (decide_eq_true htoken)
  cases hindex : Text.firstIndex? m.token.toList text.toList with
  | none =>
    rw [hindex] at h
    obtain ⟨rfl, rfl⟩ := Prod.mk.inj (Option.some.inj h)
    have hmissing : ¬ m.token.toList <:+: text.toList := by
      rintro ⟨before, after, htext⟩
      rw [List.append_assoc] at htext
      exact Text.firstIndex?_eq_none_iff.mp hindex before after htext.symm
    exact ⟨Nat.zero_le _, Nat.le_refl _, fun _ h => absurd h hmissing,
      fun _ h => absurd h hmissing, fun _ => ⟨rfl, rfl⟩⟩
  | some index =>
    rw [hindex] at h
    obtain ⟨rfl, rfl⟩ := Prod.mk.inj (Option.some.inj h)
    obtain ⟨before, after, htext, rfl, hfirst⟩ := Text.firstIndex?_eq_some_iff.mp hindex
    have hlength := congrArg List.length htext
    rw [String.length_toList, List.length_append, List.length_append, String.length_toList]
      at hlength
    refine ⟨Nat.le_add_right _ _, by omega, fun _ _ => ?_, fun _ _ start' stop' hextract => ?_,
      ?_⟩
    · rw [htext, ← String.length_toList, Text.extract_of_cut]
    · exact Nat.le_trans (hfirst _ _ (Text.eq_cut_of_extract hextract)) (List.length_take_le _ _)
    · rintro (heof | hmissing)
      · exact absurd heof htoken
      · exact absurd ⟨before, after, by rw [htext, List.append_assoc]⟩ hmissing

/-! ### Diagnostics from messages -/

theorem resolve_eq_some_iff {lines : List String} {m : Message} {d : Diagnostic} :
    resolve lines m = some d ↔
      0 < m.line ∧ ∃ text start stop, lines[m.line - 1]? = some text ∧
        m.columns? text = some (start, stop) ∧
        d = .error (.onLine (m.line - 1) start stop) m.text := by
  rw [resolve]
  by_cases hzero : m.line = 0
  · simp [hzero]
  · simp only [hzero, if_false, Option.bind_eq_bind, Option.bind_some,
      Option.bind_eq_some_iff, Prod.exists]
    constructor
    · rintro ⟨text, htext, start, stop, hcolumns, hd⟩
      exact ⟨Nat.pos_of_ne_zero hzero, text, start, stop, htext, hcolumns,
        (Option.some.inj hd).symm⟩
    · rintro ⟨-, text, start, stop, htext, hcolumns, rfl⟩
      exact ⟨text, htext, start, stop, hcolumns, rfl⟩

/-- **What a message is turned into.**  On lines that are not too wide, a message gives a
diagnostic exactly when the document has its line.  It is an error with the text of the
message and no source, on that line, and it covers the first occurrence of the token, or all
of the line when the token is not there or stands for the end of the input.  An empty token is
found before the first character. -/
theorem resolve_exact {lines : List String} (hwidth : ∀ line ∈ lines, line.length < columnBound)
    (m : Message) :
    ((resolve lines m).isSome = true ↔ 1 ≤ m.line ∧ m.line ≤ lines.length) ∧
    ∀ d, resolve lines m = some d →
      d.message = m.text ∧ d.severity = .error ∧ d.source = "" ∧
      ∃ line start stop, lines[m.line - 1]? = some line ∧
        d.range = .onLine (m.line - 1) start stop ∧ m.Covers line start stop ∧
        (m.token = "" → start = 0 ∧ stop = 0) := by
  constructor
  · rw [Option.isSome_iff_exists]
    constructor
    · rintro ⟨d, hd⟩
      obtain ⟨hpos, line, -, -, hline, -⟩ := resolve_eq_some_iff.mp hd
      obtain ⟨hlt, -⟩ := List.getElem?_eq_some_iff.mp hline
      exact ⟨hpos, by omega⟩
    · rintro ⟨hpos, hle⟩
      have hlt : m.line - 1 < lines.length := by omega
      obtain ⟨start, stop, hcolumns⟩ :=
        exists_columns? m (hwidth lines[m.line - 1] (List.getElem_mem hlt))
      exact ⟨_, resolve_eq_some_iff.mpr
        ⟨hpos, _, start, stop, List.getElem?_eq_getElem hlt, hcolumns, rfl⟩⟩
  · intro d hd
    obtain ⟨-, line, start, stop, hline, hcolumns, rfl⟩ := resolve_eq_some_iff.mp hd
    have hcovers := covers_of_columns?_eq_some hcolumns
    exact ⟨rfl, rfl, rfl, line, start, stop, hline, rfl, hcovers, hcovers.of_token_empty⟩

/-- The letter before the token takes two bytes but one column. -/
theorem accented_letter_counted_once : ∃ d,
    resolve ["s = 'é' + bar + bar"] ⟨1, "attempt", "bar"⟩ = some d ∧
      d.range = .onLine 0 10 13 := by
  have hwidth : ∀ line ∈ ["s = 'é' + bar + bar"], line.length < columnBound := by decide
  obtain ⟨hsome, hexact⟩ := resolve_exact hwidth ⟨1, "attempt", "bar"⟩
  obtain ⟨d, hd⟩ := Option.isSome_iff_exists.mp (hsome.mpr ⟨Nat.le_refl _, Nat.le_refl _⟩)
  obtain ⟨-, -, -, line, start, stop, hline, hrange, hcovers, -⟩ := hexact d hd
  obtain rfl : "s = 'é' + bar + bar" = line := Option.some.inj hline
  have hinfix : "bar".toList <:+: "s = 'é' + bar + bar".toList :=
    ⟨"s = 'é' + ".toList, " + bar".toList, by decide⟩
  have hstart := hcovers.first (by decide) hinfix 10 13 (by decide)
  have honly : ∀ start < 11, ∀ stop < 20,
      "s = 'é' + bar + bar".toList.extract start stop = "bar".toList →
        start = 10 ∧ stop = 13 := by
    decide +kernel
  obtain ⟨rfl, rfl⟩ := honly start (Nat.lt_succ_of_le hstart) stop
    (Nat.lt_succ_of_le hcovers.stop_le) (hcovers.extract_eq (by decide) hinfix)
  exact ⟨d, hd, hrange⟩

end Message

end LuaDiagnostics
