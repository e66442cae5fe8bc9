/-
What stands behind a complaint does not matter.

Output reaches the reader in pieces, and how their ends were trimmed depends on who cut
them.  A line is read up to its last closing mark, so carriage returns behind that have no
effect, and neither have pieces that are empty once they are trimmed.

* **`partsOfLine?_append`**: what holds no closing mark may be appended to a line;
* **`lastDiagnosis_fullLines`**, **`lastDiagnosis_reports`**: the lines of an output and
  the reports of an error stream both say what the bare pieces between the newlines say.
-/
import LuaDiagnostics.Proofs.Compiler.ErrorStream

namespace LuaDiagnostics

namespace Message

/-- A line is read up to its last closing mark. -/
theorem partsOfLine?_append {line after : List Char} (h : ∀ c ∈ after, isClosing c = false) :
    partsOfLine? (line ++ after) = partsOfLine? line := by
  cases hline : Text.splitLastChar? isClosing line with
  | none =>
    have hnone : Text.splitLastChar? isClosing (line ++ after) = none := by
      rw [Text.splitLastChar?_eq_none_iff] at hline ⊢
      intro c hc
      rcases List.mem_append.mp hc with hc | hc
      · exact hline c hc
      · exact h c hc
    simp only [partsOfLine?, hline, hnone]
  | some cut =>
    obtain ⟨before, closing, behind⟩ := cut
    have hcut : Text.splitLastChar? isClosing (line ++ after)
        = some (before, closing, behind ++ after) := by
      rw [Text.splitLastChar?_eq_some_iff] at hline ⊢
      obtain ⟨rfl, hclosing, hbehind⟩ := hline
      refine ⟨by simp, hclosing, fun c hc => ?_⟩
      rcases List.mem_append.mp hc with hc | hc
      · exact hbehind c hc
      · exact h c hc
    simp only [partsOfLine?, hline, hcut, Option.bind_eq_bind, Option.bind_some]

/-- A single line is read as its parts say. -/
theorem parse?_ofList {line : List Char} (h : '\n' ∉ line) :
    parse? (.ofList line) = (partsOfLine? line).bind ofParts? := by
  rw [parse?, String.toList_ofList, Text.pieces_of_not_mem h, List.findSome?_singleton]

end Message

variable {lines : List String}

theorem diagnose_ofList {line : List Char} (h : '\n' ∉ line) :
    diagnose lines (.ofList line)
      = ((Message.partsOfLine? line).bind Message.ofParts?).bind (Message.resolve lines) := by
  rw [diagnose]
  split
  · rename_i hempty
    obtain rfl : line = [] := by simpa using hempty
    rfl
  · rw [Message.parse?_ofList h]

/-! ### Ends of lines -/

theorem isClosing_of_isLineEnd {c : Char} (h : Text.isLineEnd c = true) :
    Message.isClosing c = false := by
  rw [Text.isLineEnd, Bool.or_eq_true, decide_eq_true_iff, decide_eq_true_iff] at h
  rcases h with rfl | rfl
  · decide
  · decide

/-- Line ends behind a line have no effect. -/
theorem diagnose_append {line ends : List Char} (hnewline : '\n' ∉ line ++ ends)
    (hends : ∀ c ∈ ends, Text.isLineEnd c = true) :
    diagnose lines (.ofList (line ++ ends)) = diagnose lines (.ofList line) := by
  have hline : '\n' ∉ line := fun h => hnewline (List.mem_append_left _ h)
  rw [diagnose_ofList hnewline, diagnose_ofList hline,
    Message.partsOfLine?_append fun c hc => isClosing_of_isLineEnd (hends c hc)]

theorem Text.exists_trimLineEnd (cs : List Char) :
    ∃ ends, trimLineEnd cs ++ ends = cs ∧ ∀ c ∈ ends, isLineEnd c = true := by
  refine ⟨(cs.reverse.takeWhile isLineEnd).reverse, ?_, fun c hc => ?_⟩
  · rw [trimLineEnd, ← List.reverse_append, List.takeWhile_append_dropWhile,
      List.reverse_reverse]
  · exact List.mem_takeWhile_imp (List.mem_reverse.mp hc)

theorem Text.exists_dropFinalReturn (cs : List Char) :
    ∃ ends, dropFinalReturn cs ++ ends = cs ∧ ∀ c ∈ ends, isLineEnd c = true := by
  rw [dropFinalReturn]
  split
  · rename_i hlast
    obtain ⟨front, rfl⟩ := List.getLast?_eq_some_iff.mp hlast
    refine ⟨['\r'], by rw [List.dropLast_concat], fun c hc => ?_⟩
    rw [List.mem_singleton.mp hc]
    decide
  · exact ⟨[], List.append_nil cs, fun c hc => absurd hc List.not_mem_nil⟩

theorem diagnose_trimLineEnd {piece : List Char} (h : '\n' ∉ piece) :
    diagnose lines (.ofList (Text.trimLineEnd piece)) = diagnose lines (.ofList piece) := by
  obtain ⟨ends, hcut, hends⟩ := Text.exists_trimLineEnd piece
  rw [← hcut] at h
  rw [← diagnose_append h hends, hcut]

theorem diagnose_dropFinalReturn {piece : List Char} (h : '\n' ∉ piece) :
    diagnose lines (.ofList (Text.dropFinalReturn piece)) = diagnose lines (.ofList piece) := by
  obtain ⟨ends, hcut, hends⟩ := Text.exists_dropFinalReturn piece
  rw [← hcut] at h
  rw [← diagnose_append h hends, hcut]

/-! ### The last diagnostic -/

/-- Pieces may be rewritten one by one into others that say the same. -/
theorem lastDiagnosis_map {f g : List Char → String} {pieces : List (List Char)}
    (h : ∀ piece ∈ pieces, diagnose lines (f piece) = diagnose lines (g piece)) :
    lastDiagnosis lines (pieces.map f) = lastDiagnosis lines (pieces.map g) := by
  induction pieces with
  | nil => rfl
  | cons piece pieces ih =>
    rw [List.forall_mem_cons] at h
    rw [List.map_cons, List.map_cons, lastDiagnosis_cons, lastDiagnosis_cons, ih h.2, h.1]

/-- Empty pieces say nothing. -/
theorem lastDiagnosis_filterMap (pieces : List (List Char)) :
    lastDiagnosis lines
        (pieces.filterMap fun piece => if piece = [] then none else some (String.ofList piece))
      = lastDiagnosis lines (pieces.map String.ofList) := by
  induction pieces with
  | nil => rfl
  | cons piece pieces ih =>
    rw [List.map_cons, lastDiagnosis_cons, List.filterMap_cons]
    by_cases hempty : piece = []
    · have hnone : diagnose lines (.ofList piece) = none := by
        rw [hempty]
        rfl
      rw [if_pos hempty, hnone, Option.or_none]
      exact ih
    · rw [if_neg hempty]
      simp only [lastDiagnosis_cons, ih]

/-- What the lines of an output say. -/
theorem lastDiagnosis_fullLines (cs : List Char) :
    lastDiagnosis lines ((Text.fullLines cs).map String.ofList)
      = lastDiagnosis lines ((Text.pieces cs).map String.ofList) := by
  have hne : Text.pieces cs ≠ [] := Text.splitAll_ne_nil _ cs
  have hcut := List.dropLast_concat_getLast hne
  set first := (Text.pieces cs).dropLast with hfirst
  set last := (Text.pieces cs).getLast hne with hlast
  have hfirstPieces : ∀ piece ∈ first, '\n' ∉ piece := fun piece hpiece =>
    Text.not_mem_of_mem_pieces (List.dropLast_subset _ hpiece)
  have hlines : Text.lines cs = first.map Text.dropFinalReturn ++ [last] := by
    rw [Text.lines, ← hfirst, List.getLast?_eq_some_getLast hne]
    rfl
  -- An empty last line is left out, but it says nothing anyway.
  have hfull : lastDiagnosis lines ((Text.fullLines cs).map String.ofList)
      = lastDiagnosis lines ((Text.lines cs).map String.ofList) := by
    rw [Text.fullLines, hlines, List.getLast?_concat]
    split
    · rename_i hempty
      rw [Option.some.inj hempty, List.dropLast_concat, List.map_append, lastDiagnosis_append]
      rfl
    · rfl
  rw [hfull, hlines, ← hcut, List.map_append, List.map_append, lastDiagnosis_append,
    lastDiagnosis_append, List.map_map]
  refine congrArg _ (lastDiagnosis_map fun piece hpiece => ?_)
  exact diagnose_dropFinalReturn (hfirstPieces piece hpiece)

/-- What an error stream says on which a text was written. -/
theorem lastDiagnosis_reports (cs : List Char) :
    lastDiagnosis lines (ErrorStream.reports (Text.encode cs))
      = lastDiagnosis lines ((Text.pieces cs).map String.ofList) := by
  have hpieces : (Text.splitAll (· = ErrorStream.newlineByte) (Text.encode cs)).map
      (fun piece => Text.trimLineEnd (Text.decodeLossy piece))
      = (Text.pieces cs).map Text.trimLineEnd := by
    rw [Text.splitAll_encode, List.map_map]
    refine List.map_congr_left fun piece _ => ?_
    show Text.trimLineEnd (Text.decodeLossy (Text.encode piece)) = Text.trimLineEnd piece
    rw [Text.decodeLossy_encode]
  rw [ErrorStream.reports, hpieces, lastDiagnosis_filterMap, List.map_map]
  exact lastDiagnosis_map fun piece hpiece =>
    diagnose_trimLineEnd (Text.not_mem_of_mem_pieces hpiece)

end LuaDiagnostics
