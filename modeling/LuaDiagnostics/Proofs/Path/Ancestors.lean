/-
Parents and ancestors of paths.

* **`length_lt_of_parent?`**: a parent is shorter, so there are enough ancestors for any path:
  **`getElem?_ancestors`** finds what lies some steps above, however many.
* **`above?_written`**: of a path that is written with names, from the root or not, the
  ancestors are those written with fewer of them, down to none; **`join_written`** adds one.
-/
import LuaDiagnostics.FileSystem
import Mathlib.Data.List.Basic

namespace LuaDiagnostics.Path

/-- The path that lies some steps above. -/
def above? : Nat → Path → Option Path
  | 0, p => some p
  | n + 1, p => p.parent?.bind (above? n)

/-! ### Parents are shorter -/

theorem length_dropLastPart_lt (c : Char) (rest : List Char) :
    (dropLastPart (c :: rest)).length < (c :: rest).length := by
  have h : ((c :: rest).dropWhile (· ≠ '/')).length ≤ (c :: rest).length :=
    (List.dropWhile_suffix _).length_le
  rw [dropLastPart, List.length_drop, List.length_cons] at *
  omega

theorem dropLastPart_suffix (body : List Char) : dropLastPart body <:+ body :=
  (List.drop_suffix _ _).trans (List.dropWhile_suffix _)

theorem trimIdle_nil : trimIdle [] = [] := by
  rw [trimIdle]

theorem trimIdle_of_idle {c : Char} {rest : List Char}
    (h : lastPart (c :: rest) = [] ∨ lastPart (c :: rest) = ['.']) :
    trimIdle (c :: rest) = trimIdle (dropLastPart (c :: rest)) := by
  rw [trimIdle, if_pos h]

theorem trimIdle_of_not_idle {c : Char} {rest : List Char}
    (h : ¬ (lastPart (c :: rest) = [] ∨ lastPart (c :: rest) = ['.'])) :
    trimIdle (c :: rest) = c :: rest := by
  rw [trimIdle, if_neg h]

/-- Trimming from right to left leaves the beginning. -/
theorem trimIdle_suffix (body : List Char) : trimIdle body <:+ body := by
  induction body using trimIdle.induct with
  | case1 => exact ⟨[], trimIdle_nil⟩
  | case2 c rest hidle ih =>
    rw [trimIdle_of_idle hidle]
    exact ih.trans (dropLastPart_suffix _)
  | case3 c rest hidle => exact ⟨[], trimIdle_of_not_idle hidle⟩

variable {p q : Path}

@[simp] theorem chars_ofChars (cs : List Char) : (ofChars cs).chars = cs := String.toList_ofList

/-- What no trimming removes from a path. -/
def mark (p : Path) : List Char := p.chars.take (anchor p.chars)

/-- What stands behind that. -/
def behind (p : Path) : List Char := p.chars.drop (anchor p.chars)

theorem parent?_of_nil (h : trimIdle p.behind.reverse = []) :
    p.parent? = if p.mark = ['.'] then some ⟨""⟩ else none := by
  rw [behind] at h
  unfold parent?
  dsimp only
  rw [h, mark]

theorem parent?_of_cons {c : Char} {rest : List Char} (h : trimIdle p.behind.reverse = c :: rest) :
    p.parent? = some (ofChars (p.mark ++ (trimIdle (dropLastPart (c :: rest))).reverse)) := by
  rw [behind] at h
  unfold parent?
  dsimp only
  rw [h, mark]

/-- The parent of a path is shorter. -/
theorem length_lt_of_parent? (h : p.parent? = some q) : q.chars.length < p.chars.length := by
  have hwhole := congrArg List.length (List.take_append_drop (anchor p.chars) p.chars)
  rw [List.length_append, ← mark, ← behind] at hwhole
  cases hbody : trimIdle p.behind.reverse with
  | nil =>
    -- Only `.` in front has no part below it and yet a parent.
    rw [parent?_of_nil hbody] at h
    obtain ⟨hmark, hempty⟩ := Option.ite_none_right_eq_some.mp h
    obtain rfl := Option.some.inj hempty
    rw [hmark, List.length_singleton] at hwhole
    have hpos : 0 < p.chars.length := by omega
    exact hpos
  | cons c rest =>
    rw [parent?_of_cons hbody] at h
    obtain rfl := Option.some.inj h
    have hdropped := length_dropLastPart_lt c rest
    have htrimmed := (trimIdle_suffix (dropLastPart (c :: rest))).length_le
    have hbehind := (trimIdle_suffix p.behind.reverse).length_le
    rw [hbody, List.length_reverse] at hbehind
    rw [chars_ofChars, List.length_append, List.length_reverse]
    omega

/-- What lies some steps above is found among sufficiently many ancestors. -/
theorem getElem?_ancestorsUpTo {n : Nat} (h : p.chars.length < n) (k : Nat) :
    (ancestorsUpTo n p)[k]? = above? k p := by
  induction n generalizing p k with
  | zero => exact absurd h (Nat.not_lt_zero _)
  | succ n ih =>
    cases k with
    | zero => rfl
    | succ k =>
      rw [ancestorsUpTo, above?, List.getElem?_cons_succ]
      cases hparent : p.parent? with
      | none => rfl
      | some q =>
        have hlt := length_lt_of_parent? hparent
        exact ih (by omega) k

/-- The ancestors of a path are what lies above it. -/
theorem getElem?_ancestors (p : Path) (k : Nat) : p.ancestors[k]? = above? k p :=
  getElem?_ancestorsUpTo (Nat.lt_succ_self _) k

/-! ### Paths written with names -/

/-- What the parts of a path are called: not nothing, not `.`, and nothing with a slash. -/
structure IsName (name : String) : Prop where
  ne_empty : name ≠ ""
  ne_dot : name ≠ "."
  slash_not_mem : '/' ∉ name.toList

instance (name : String) : Decidable (IsName name) :=
  decidable_of_iff (name ≠ "" ∧ name ≠ "." ∧ '/' ∉ name.toList)
    ⟨fun ⟨hempty, hdot, hslash⟩ => ⟨hempty, hdot, hslash⟩,
      fun h => ⟨h.ne_empty, h.ne_dot, h.slash_not_mem⟩⟩

/-- What stands in front of the names. -/
def front (fromRoot : Bool) : List Char := if fromRoot then ['/'] else []

/-- The path written with names, from the root or not. -/
def written (fromRoot : Bool) (names : List String) : Path :=
  ofChars (front fromRoot ++ ("/".intercalate names).toList)

/-- The characters of names between slashes, from right to left. -/
def backwards (names : List String) : List Char := ("/".intercalate names).toList.reverse

variable {name : String} {names : List String} {fromRoot : Bool}

theorem toList_intercalate_concat (names : List String) (name : String) :
    ("/".intercalate (names ++ [name])).toList
      = if names = [] then name.toList
        else ("/".intercalate names).toList ++ '/' :: name.toList := by
  split
  · rename_i hnames
    rw [hnames, List.nil_append, String.intercalate_singleton]
  · rename_i hnames
    rw [String.intercalate_append_of_ne_nil hnames (List.cons_ne_nil _ _),
      String.intercalate_singleton, String.toList_append, String.toList_append,
      List.append_assoc]
    rfl

theorem backwards_concat (names : List String) (name : String) : backwards (names ++ [name])
    = name.toList.reverse ++ if names = [] then [] else '/' :: backwards names := by
  rw [backwards, toList_intercalate_concat]
  split
  · rw [List.append_nil]
  · rw [List.reverse_append, List.reverse_cons, List.append_assoc, List.singleton_append,
      backwards]

theorem IsName.forall_ne_slash (h : IsName name) :
    ∀ c ∈ name.toList.reverse, decide (c ≠ '/') = true := by
  intro c hc
  refine decide_eq_true fun heq => h.slash_not_mem ?_
  rw [← heq]
  exact List.mem_reverse.mp hc

theorem lastPart_backwards (h : IsName name) (names : List String) :
    lastPart (backwards (names ++ [name])) = name.toList.reverse := by
  rw [backwards_concat, lastPart, List.takeWhile_append_of_pos h.forall_ne_slash]
  split
  · rw [List.takeWhile_nil, List.append_nil]
  · rw [List.takeWhile_cons, if_neg (by decide), List.append_nil]

theorem dropLastPart_backwards (h : IsName name) (names : List String) :
    dropLastPart (backwards (names ++ [name])) = backwards names := by
  rw [backwards_concat, dropLastPart, List.dropWhile_append_of_pos h.forall_ne_slash]
  split
  · rename_i hnames
    rw [hnames]
    rfl
  · rw [List.dropWhile_cons, if_neg (by decide), List.drop_one, List.tail_cons]

theorem trimIdle_of_lastPart {body : List Char} (hempty : lastPart body ≠ [])
    (hdot : lastPart body ≠ ['.']) : trimIdle body = body := by
  cases body with
  | nil => exact trimIdle_nil
  | cons c rest => exact trimIdle_of_not_idle (not_or.mpr ⟨hempty, hdot⟩)

theorem IsName.toList_ne_nil (h : IsName name) : name.toList ≠ [] :=
  fun heq => h.ne_empty (String.toList_eq_nil_iff.mp heq)

theorem IsName.toList_ne_dot (h : IsName name) : name.toList ≠ ['.'] :=
  fun heq => h.ne_dot (String.toList_inj.mp heq)

/-- Names leave nothing to be trimmed. -/
theorem trimIdle_backwards (h : ∀ name ∈ names, IsName name) :
    trimIdle (backwards names) = backwards names := by
  rcases List.eq_nil_or_concat names with rfl | ⟨init, name, hnames⟩
  · rw [show backwards [] = [] from rfl, trimIdle]
  · rw [List.concat_eq_append] at hnames
    subst hnames
    have hname : IsName name := h name (List.mem_append_right _ List.mem_cons_self)
    refine trimIdle_of_lastPart ?_ ?_
    · rw [lastPart_backwards hname]
      exact fun heq => hname.toList_ne_nil (List.reverse_eq_nil_iff.mp heq)
    · rw [lastPart_backwards hname]
      exact fun heq => hname.toList_ne_dot (List.reverse_inj.mp heq)

/-- Nothing that begins with a name has a mark of its own in front. -/
theorem anchor_append (h : IsName name) (tail : List Char) : anchor (name.toList ++ tail) = 0 := by
  have hempty := h.toList_ne_nil
  have hdot := h.toList_ne_dot
  have hslash := h.slash_not_mem
  generalize name.toList = cs at *
  match cs with
  | [] => exact absurd rfl hempty
  | [c] =>
    have hc : c ≠ '.' := fun heq => hdot (heq ▸ rfl)
    have hc' : c ≠ '/' := fun heq => hslash (heq ▸ List.mem_cons_self)
    simp [anchor, hc, hc']
  | c :: d :: rest =>
    have hc : c ≠ '/' := fun heq => hslash (heq ▸ List.mem_cons_self)
    have hd : d ≠ '/' := fun heq => hslash (heq ▸ List.mem_cons_of_mem _ List.mem_cons_self)
    simp [anchor, hc, hd]

theorem anchor_names (h : ∀ name ∈ names, IsName name) :
    anchor ("/".intercalate names).toList = 0 := by
  cases names with
  | nil => rfl
  | cons name rest =>
    have hname := h name List.mem_cons_self
    by_cases hrest : rest = []
    · rw [hrest, String.intercalate_singleton, ← List.append_nil name.toList]
      exact anchor_append hname []
    · rw [String.intercalate_cons_of_ne_nil hrest, String.append_assoc, String.toList_append]
      exact anchor_append hname _

theorem chars_written (fromRoot : Bool) (names : List String) : (written fromRoot names).chars
    = front fromRoot ++ ("/".intercalate names).toList := by
  rw [written, chars_ofChars]

theorem anchor_written (h : ∀ name ∈ names, IsName name) :
    anchor (written fromRoot names).chars = if fromRoot then 1 else 0 := by
  rw [chars_written]
  cases fromRoot with
  | true => rfl
  | false => exact anchor_names h

theorem mark_written (h : ∀ name ∈ names, IsName name) :
    (written fromRoot names).mark = front fromRoot := by
  rw [mark, anchor_written h, chars_written]
  cases fromRoot <;> rfl

/-- Behind the mark stand the names, and nothing that could be trimmed. -/
theorem trimIdle_behind_written (h : ∀ name ∈ names, IsName name) :
    trimIdle (written fromRoot names).behind.reverse = backwards names := by
  have hbehind : (written fromRoot names).behind = ("/".intercalate names).toList := by
    rw [behind, anchor_written h, chars_written]
    cases fromRoot <;> rfl
  rw [hbehind]
  exact trimIdle_backwards h

theorem parent?_written_nil (fromRoot : Bool) : (written fromRoot []).parent? = none := by
  have hnames : ∀ name ∈ ([] : List String), IsName name := fun _ h => absurd h List.not_mem_nil
  rw [parent?_of_nil (trimIdle_behind_written hnames), mark_written hnames]
  cases fromRoot <;> rfl

theorem backwards_concat_ne_nil (h : IsName name) (names : List String) :
    backwards (names ++ [name]) ≠ [] := by
  rw [backwards_concat]
  exact fun heq =>
    h.toList_ne_nil (List.reverse_eq_nil_iff.mp (List.append_eq_nil_iff.mp heq).1)

/-- The parent of a path written with names leaves the last one out. -/
theorem parent?_written_concat (h : ∀ other ∈ names ++ [name], IsName other) :
    (written fromRoot (names ++ [name])).parent? = some (written fromRoot names) := by
  have hname : IsName name := h name (List.mem_append_right _ List.mem_cons_self)
  have hnames : ∀ other ∈ names, IsName other := fun other hother =>
    h other (List.mem_append_left _ hother)
  obtain ⟨c, rest, hbackwards⟩ :=
    List.exists_cons_of_ne_nil (backwards_concat_ne_nil hname names)
  rw [parent?_of_cons ((trimIdle_behind_written h).trans hbackwards), mark_written h,
    ← hbackwards, dropLastPart_backwards hname, trimIdle_backwards hnames, backwards,
    List.reverse_reverse, written]

/-- The ancestors of a path are written with fewer and fewer of its names. -/
theorem above?_written (h : ∀ name ∈ names, IsName name) (n : Nat) :
    above? n (written fromRoot names)
      = if n ≤ names.length then some (written fromRoot (names.take (names.length - n)))
        else none := by
  induction n generalizing names with
  | zero => rw [above?, if_pos (Nat.zero_le _), Nat.sub_zero, List.take_length]
  | succ n ih =>
    rw [above?]
    rcases List.eq_nil_or_concat names with rfl | ⟨init, name, hnames⟩
    · rw [parent?_written_nil]
      exact (if_neg (Nat.not_succ_le_zero n)).symm
    · rw [List.concat_eq_append] at hnames
      subst hnames
      rw [parent?_written_concat h, Option.bind_some,
        ih fun other hother => h other (List.mem_append_left _ hother)]
      simp only [List.length_append, List.length_singleton, Nat.add_le_add_iff_right,
        Nat.add_sub_add_right]
      rw [List.take_append_of_le_length (Nat.sub_le _ _)]

/-- The path of a place is written with its names, from the root. -/
theorem toPath_eq_written (place : Location) : place.toPath = written true place := by
  rw [written, ofChars, String.ofList_append, String.ofList_toList]
  rfl

/-! ### Names in a directory -/

theorem chars_inj : p.chars = q.chars ↔ p = q := by
  constructor
  · intro h
    exact congrArg Path.mk (String.toList_inj.mp h)
  · rintro rfl
    rfl

theorem chars_join (h : q.isAbsolute = false) : (p.join q).chars
    = if p.chars = [] then q.chars
      else if p.chars.getLast? = some '/' then p.chars ++ q.chars
      else p.chars ++ '/' :: q.chars := by
  have hempty : (false = true ∨ p.text = "") ↔ p.chars = [] := by
    rw [chars, String.toList_eq_nil_iff, or_iff_right Bool.false_ne_true]
  rw [join, h]
  simp only [hempty]
  split
  · rfl
  · split
    · exact String.toList_append
    · show (p.text ++ "/" ++ q.text).toList = _
      rw [String.toList_append, String.toList_append, List.append_assoc]
      rfl

/-- What ends with a name does not end with a slash. -/
theorem IsName.getLast?_append (h : IsName name) (cs : List Char) :
    cs ++ name.toList ≠ [] ∧ (cs ++ name.toList).getLast? ≠ some '/' := by
  refine ⟨List.append_ne_nil_of_right_ne_nil _ h.toList_ne_nil, fun hlast => ?_⟩
  rw [List.getLast?_append_of_ne_nil _ h.toList_ne_nil] at hlast
  exact h.slash_not_mem (List.mem_of_getLast? hlast)

/-- A directory has what it has by a name at the path with that name more. -/
theorem join_written (h : ∀ other ∈ names, IsName other) (hname : IsName name) :
    (written fromRoot names).join ⟨name⟩ = written fromRoot (names ++ [name]) := by
  have hrelative : (⟨name⟩ : Path).isAbsolute = false := by
    rw [isAbsolute, decide_eq_false_iff_not]
    exact fun hhead => hname.slash_not_mem (List.mem_of_mem_head? hhead)
  rw [← chars_inj, chars_join hrelative, chars_written, chars_written,
    toList_intercalate_concat]
  rcases List.eq_nil_or_concat names with rfl | ⟨init, last, hnames⟩
  · cases fromRoot <;> rfl
  · rw [List.concat_eq_append] at hnames
    subst hnames
    have hlast : IsName last := h last (List.mem_append_right _ List.mem_cons_self)
    obtain ⟨before, hbefore⟩ : ∃ before, front fromRoot
        ++ ("/".intercalate (init ++ [last])).toList = before ++ last.toList := by
      rw [toList_intercalate_concat]
      split
      · exact ⟨_, rfl⟩
      · refine ⟨front fromRoot ++ (("/".intercalate init).toList ++ ['/']), ?_⟩
        rw [List.append_assoc, List.append_assoc, List.singleton_append]
    obtain ⟨hne, hslash⟩ := hlast.getLast?_append before
    rw [hbefore, if_neg hne, if_neg hslash, if_neg (List.concat_ne_nil _ _), ← hbefore,
      List.append_assoc]
    rfl

end LuaDiagnostics.Path
