/-
What stands around a complaint does not matter.

A complaint seldom comes alone: the name of a process may stand in front of it, and carriage
returns, blanks or further lines behind it.  Any of this may hold the marks, the colons, the
digits and the word ` near` that a complaint is cut at.  In front it does no harm, because a
line is cut from the right; behind, only a closing mark on the same line could.

* **`partsOfLine?_prepend`**, **`partsOfLine?_append`**: a line that can be cut keeps its parts;
* **`pieces_append_eq_cons`**: what is written behind a line goes on with it as far as the first
  newline;
* **`parse?_surrounded`**: a complaint is read the same whatever stands around it.
-/
import LuaDiagnostics.Proofs.Message.Cut
import LuaDiagnostics.Proofs.Message.LineEnds

namespace LuaDiagnostics

/-- What is written behind a line belongs to it up to the first newline, and only what
follows that is on other lines. -/
theorem Text.pieces_append_eq_cons {line : List Char} (after : List Char) (h : '\n' ∉ line) :
    ∃ later, pieces (line ++ after) = (line ++ after.takeWhile (· ≠ '\n')) :: later := by
  have hrest : '\n' ∉ line ++ after.takeWhile (· ≠ '\n') := by
    intro hmem
    rcases List.mem_append.mp hmem with hmem | hmem
    · exact h hmem
    · have hne := List.mem_takeWhile_imp hmem
      exact of_decide_eq_true hne rfl
  have hcut : after.takeWhile (· ≠ '\n') ++ after.dropWhile (· ≠ '\n') = after :=
    List.takeWhile_append_dropWhile
  cases hdrop : after.dropWhile (· ≠ '\n') with
  | nil =>
    rw [hdrop, List.append_nil] at hcut
    rw [hcut] at hrest ⊢
    exact ⟨[], pieces_of_not_mem hrest⟩
  | cons c tail =>
    -- The scan stops at a newline.
    have hc : c = '\n' := by
      have hhead := List.head?_dropWhile_not (· ≠ '\n') after
      rw [hdrop] at hhead
      simpa using hhead
    refine ⟨pieces tail, ?_⟩
    rw [hdrop, hc] at hcut
    conv_lhs => rw [← hcut, ← List.append_assoc]
    exact pieces_append tail hrest

namespace Message

/-- Nothing that is written in front of a line changes what is read off it. -/
theorem partsOfLine?_prepend {line : List Char} {p : Parts} (before : List Char)
    (h : partsOfLine? line = some p) : partsOfLine? (before ++ line) = some p := by
  obtain ⟨k, rfl, hk, rfl⟩ := partsOfLine?_eq_some_iff.mp h
  exact partsOfLine?_eq_some_iff.mpr
    ⟨k.prepend before, k.line_prepend before, hk.prepend before, rfl⟩

/-- If the first line can be cut, no other is looked at. -/
theorem parse?_of_first {output : String} {first : List Char} {later : List (List Char)}
    {p : Parts} (hpieces : Text.pieces output.toList = first :: later)
    (hp : partsOfLine? first = some p) : parse? output = ofParts? p := by
  rw [parse?, hpieces, List.findSome?_cons, hp]
  rfl

/-- **Noise around a complaint.**  A complaint on one line is read the same with any text in
front of it on its line, and with any text behind it that holds no closing mark before its
first newline, or anywhere if it has none. -/
theorem parse?_surrounded {before chunk after : String} {m : Message}
    (hbefore : '\n' ∉ before.toList) (hchunk : '\n' ∉ chunk.toList)
    (hparse : parse? chunk = some m)
    (hafter : ∀ c ∈ after.toList.takeWhile (· ≠ '\n'), c ≠ '\'' ∧ c ≠ '>') :
    parse? (before ++ chunk ++ after) = some m := by
  -- The complaint by itself has parts.
  rw [← String.ofList_toList (s := chunk), parse?_ofList hchunk, Option.bind_eq_some_iff]
    at hparse
  obtain ⟨p, hp, hm⟩ := hparse
  have hclosing : ∀ c ∈ after.toList.takeWhile (· ≠ '\n'), isClosing c = false := by
    intro c hc
    obtain ⟨hquote, hangle⟩ := hafter c hc
    rw [isClosing, decide_eq_false hquote, decide_eq_false hangle, Bool.or_false]
  -- They are those of the first line of the whole.
  have hline : '\n' ∉ before.toList ++ chunk.toList := by
    rw [List.mem_append, not_or]
    exact ⟨hbefore, hchunk⟩
  obtain ⟨later, hpieces⟩ := Text.pieces_append_eq_cons after.toList hline
  rw [← String.toList_append, ← String.toList_append] at hpieces
  have hfirst : partsOfLine?
      ((before ++ chunk).toList ++ after.toList.takeWhile (· ≠ '\n')) = some p := by
    rw [partsOfLine?_append hclosing, String.toList_append]
    exact partsOfLine?_prepend before.toList hp
  rw [parse?_of_first hpieces hfirst, hm]

/-- The text in front and the lines behind both hold what a complaint is cut at. -/
theorem parse?_between_others :
    parse? ("my lua: 7: a near '" ++ "stdin:3: 'end' expected near 'bar'" ++
      " \r\nstdin:9: unexpected symbol near <eof>") = some ⟨3, "'end' expected", "bar"⟩ := by
  have hchunk :
      parse? "stdin:3: 'end' expected near 'bar'" = some ⟨3, "'end' expected", "bar"⟩ := by
    decide +kernel
  have hafter : " \r\nstdin:9: unexpected symbol near <eof>".toList.takeWhile (· ≠ '\n')
      = [' ', '\r'] := by
    decide
  refine parse?_surrounded (by decide) (by decide) hchunk fun c hc => ?_
  rw [hafter, List.mem_cons, List.mem_singleton] at hc
  rcases hc with rfl | rfl
  · decide
  · decide

end Message

end LuaDiagnostics
