/-
What a configuration says.

The settings of a table are read key by key, and every key takes effect, is warned about or
ends the reading.  Read as a whole, a table says less than the order in which this happens:

* **`updatedBy`**: each setting has the value that its key is given, or the one that it had;
* **`applyAll_of_isRight`**, **`applyAll_of_wrong`**: what a reading comes to when all
  settings have values of their kind, and what when one has not;
* **`ofRoot_reads`**: so a document without the table leaves the defaults, and a table gives
  each setting its value or fails at its smallest wrong key, with warnings up to there, and
  nothing else in the document counts.

That a later table changes what an earlier one said (`updatedBy_updatedBy`) is also what a
command line does to a configuration.
-/
import LuaDiagnostics.Settings

namespace LuaDiagnostics

namespace Toml.Members

theorem get?_cons (b : String × Value) (rest : Members) (key : String) :
    get? (b :: rest) key = if b.1 = key then some b.2 else rest.get? key := by
  rw [get?, List.find?_cons]
  by_cases hkey : b.1 = key
  · simp [hkey]
  · simp [hkey, get?]

theorem get?_eq_none {members : Members} {key : String} (h : key ∉ members.map (·.1)) :
    members.get? key = none := by
  induction members with
  | nil => rfl
  | cons b rest ih =>
    rw [List.map_cons, List.mem_cons, not_or] at h
    rw [get?_cons, if_neg (Ne.symm h.1), ih h.2]

end Toml.Members

namespace Settings

/-! ### Keys and their values -/

/-- The kinds of values that settings have. -/
inductive Kind
  | boolean
  | text
deriving DecidableEq, Repr

namespace Kind

/-- Holds of the values of a kind. -/
def fits : Kind → Toml.Value → Bool
  | boolean, .boolean _ => true
  | text, .string _ => true
  | _, _ => false

/-- The error of a key that has no value of the kind. -/
def error : Kind → String → SettingsError
  | boolean, key => .notABoolean key
  | text, key => .notAString key

/-- What a value of the kind is called. -/
def name : Kind → String
  | boolean => "boolean"
  | text => "string"

end Kind

/-- The kind of values that a key has to have; other keys are no settings. -/
def kindOf? : String → Option Kind
  | "enable" => some .boolean
  | "warnOnSave" => some .boolean
  | "interpreter" => some .text
  | "compilerPath" => some .text
  | _ => none

/-- Holds of a key with a value of its kind, and of all keys that are no settings. -/
def isRight (binding : String × Toml.Value) : Bool :=
  (kindOf? binding.1).all fun kind => kind.fits binding.2

/-- What is said about a key with a value that it can have. -/
def warning? : String × Toml.Value → Option SettingsWarning
  | ("interpreter", .string name) =>
    if name = "luac" ∨ name = "luajit" then none else some (.unknownInterpreter name)
  | (key, _) => if kindOf? key = none then some (.unknownSetting key) else none

/-- The truth value that is given, or else one that is there. -/
def booleanOr (b : Bool) : Option Toml.Value → Bool
  | some (.boolean given) => given
  | _ => b

/-- What the text that is given is read as, or else something that is there. -/
def textOr {α : Type} (a : α) (read : String → α) : Option Toml.Value → α
  | some (.string text) => read text
  | _ => a

/-- The settings where each has the value of its key, or else the one that it had.  A name
that no compiler has stands for `luac`, and the empty text for no path. -/
def updatedBy (s : Settings) (value? : String → Option Toml.Value) : Settings :=
  { enable := booleanOr s.enable (value? "enable")
    interpreter := textOr s.interpreter
      (fun name => if name = "luajit" then .luajit else .luac) (value? "interpreter")
    warnOnSave := booleanOr s.warnOnSave (value? "warnOnSave")
    compilerPath := textOr s.compilerPath
      (fun text => if text = "" then none else some ⟨text⟩) (value? "compilerPath") }

/-- Every setting in the table has a value of its kind. -/
def AllRight (table : SortedMap Toml.Value) : Prop :=
  ∀ key value kind, table.get? key = some value → kindOf? key = some kind →
    kind.fits value = true

/-- The key is a setting with a value of another kind than it has to have. -/
def IsWrong (table : SortedMap Toml.Value) (key : String) (kind : Kind) : Prop :=
  kindOf? key = some kind ∧ ∃ value, table.get? key = some value ∧ kind.fits value = false

/-- The key is the smallest one that is wrong. -/
structure IsFirstWrong (table : SortedMap Toml.Value) (key : String) (kind : Kind) : Prop where
  isWrong : IsWrong table key kind
  le_of_isWrong : ∀ other kind', IsWrong table other kind' → key ≤ other

variable {s : Settings} {key : String} {value : Toml.Value} {kind : Kind}
  {table : SortedMap Toml.Value}

theorem Kind.fits_boolean_iff : boolean.fits value = true ↔ ∃ b, value = .boolean b := by
  cases value <;> simp [fits]

theorem Kind.fits_text_iff : text.fits value = true ↔ ∃ t, value = .string t := by
  cases value <;> simp [fits]

theorem isRight_iff :
    isRight (key, value) = true ↔ ∀ kind, kindOf? key = some kind → kind.fits value = true := by
  rw [isRight, Option.all_eq_true]

theorem isRight_eq_false_iff :
    isRight (key, value) = false ↔ ∃ kind, kindOf? key = some kind ∧ kind.fits value = false := by
  rw [isRight, Option.all_eq_false]

/-! ### Updates -/

theorem updatedBy_none (s : Settings) : s.updatedBy (fun _ => none) = s := rfl

/-- Only the keys of settings count. -/
theorem updatedBy_congr {value? value?' : String → Option Toml.Value}
    (h : ∀ key, kindOf? key ≠ none → value? key = value?' key) :
    s.updatedBy value? = s.updatedBy value?' := by
  rw [updatedBy, updatedBy, h "enable" (by decide), h "interpreter" (by decide),
    h "warnOnSave" (by decide), h "compilerPath" (by decide)]

theorem booleanOr_booleanOr (b : Bool) (first : Option Toml.Value) {later : Option Toml.Value}
    (h : ∀ value, later = some value → Kind.boolean.fits value = true) :
    booleanOr (booleanOr b first) later = booleanOr b (later.or first) := by
  cases later with
  | none => rfl
  | some value =>
    obtain ⟨given, rfl⟩ := Kind.fits_boolean_iff.mp (h value rfl)
    rfl

theorem textOr_textOr {α : Type} (a : α) (read : String → α) (first : Option Toml.Value)
    {later : Option Toml.Value} (h : ∀ value, later = some value → Kind.text.fits value = true) :
    textOr (textOr a read first) read later = textOr a read (later.or first) := by
  cases later with
  | none => rfl
  | some value =>
    obtain ⟨given, rfl⟩ := Kind.fits_text_iff.mp (h value rfl)
    rfl

/-- What is said later counts, and what was said first where nothing is said later. -/
theorem updatedBy_updatedBy (s : Settings) (first : String → Option Toml.Value)
    {later : String → Option Toml.Value}
    (h : ∀ key value kind, later key = some value → kindOf? key = some kind →
      kind.fits value = true) :
    (s.updatedBy first).updatedBy later = s.updatedBy fun key => (later key).or (first key) := by
  have hboolean : ∀ key, kindOf? key = some .boolean → ∀ value, later key = some value →
      Kind.boolean.fits value = true := fun key hkey value hvalue => h key value _ hvalue hkey
  have htext : ∀ key, kindOf? key = some .text → ∀ value, later key = some value →
      Kind.text.fits value = true := fun key hkey value hvalue => h key value _ hvalue hkey
  simp only [updatedBy, Settings.mk.injEq]
  exact ⟨booleanOr_booleanOr _ _ (hboolean "enable" rfl),
    textOr_textOr _ _ _ (htext "interpreter" rfl),
    booleanOr_booleanOr _ _ (hboolean "warnOnSave" rfl),
    textOr_textOr _ _ _ (htext "compilerPath" rfl)⟩

/-! ### Single keys -/

theorem ofNameOrDefault_eq (name : String) :
    Interpreter.ofNameOrDefault name = if name = "luajit" then .luajit else .luac := by
  unfold Interpreter.ofNameOrDefault Interpreter.ofName?
  split
  · rfl
  · rfl
  · rename_i hluajit
    rw [if_neg hluajit]
    rfl

theorem warningFor_eq (name : String) :
    Interpreter.warningFor name = warning? ("interpreter", .string name) := by
  unfold Interpreter.warningFor Interpreter.ofName?
  split
  · rename_i i hname
    split at hname
    · rfl
    · rfl
    · exact absurd hname (by simp)
  · rename_i hname
    split at hname
    · exact absurd hname (by simp)
    · exact absurd hname (by simp)
    · rename_i hluac hluajit
      exact (if_neg (not_or.mpr ⟨hluac, hluajit⟩)).symm

theorem expectBoolean_of_not_fits (key : String) (h : Kind.boolean.fits value = false) :
    expectBoolean key value = .error (.notABoolean key) := by
  cases value with
  | boolean b => exact absurd h (by simp [Kind.fits])
  | _ => rfl

theorem expectString_of_not_fits (key : String) (h : Kind.text.fits value = false) :
    expectString key value = .error (.notAString key) := by
  cases value with
  | string text => exact absurd h (by simp [Kind.fits])
  | _ => rfl

/-- The settings have four keys. -/
theorem kindOf?_eq_some (h : kindOf? key = some kind) :
    kind = .boolean ∧ (key = "enable" ∨ key = "warnOnSave") ∨
      kind = .text ∧ (key = "interpreter" ∨ key = "compilerPath") := by
  unfold kindOf? at h
  split at h <;> simp_all

theorem apply_of_kindOf?_eq_none (s : Settings) (value : Toml.Value) (h : kindOf? key = none) :
    s.apply key value = .ok (s, some (.unknownSetting key)) := by
  unfold apply
  split
  · exact absurd h (by decide)
  · exact absurd h (by decide)
  · exact absurd h (by decide)
  · exact absurd h (by decide)
  · rfl

theorem warning?_of_kindOf?_eq_none (value : Toml.Value) (h : kindOf? key = none) :
    warning? (key, value) = some (.unknownSetting key) := by
  unfold warning?
  split
  · rename_i heq
    obtain ⟨rfl, -⟩ := Prod.mk.inj heq
    exact absurd h (by decide)
  · rename_i heq
    obtain ⟨rfl, rfl⟩ := Prod.mk.inj heq
    rw [if_pos h]

/-- A key with a value that it can have takes effect or is warned about. -/
theorem apply_of_isRight (s : Settings) (h : isRight (key, value) = true) :
    s.apply key value
      = .ok (s.updatedBy (findBinding · [(key, value)]), warning? (key, value)) := by
  cases hkind : kindOf? key with
  | none =>
    have hother : ∀ other, kindOf? other ≠ none → findBinding other [(key, value)] = none := by
      intro other hother
      have hne : key ≠ other := by
        rintro rfl
        exact hother hkind
      rw [findBinding, if_neg hne, findBinding]
    rw [apply_of_kindOf?_eq_none s value hkind, warning?_of_kindOf?_eq_none value hkind,
      updatedBy_congr hother, updatedBy_none]
  | some kind =>
    have hfits := isRight_iff.mp h kind hkind
    rcases kindOf?_eq_some hkind with ⟨rfl, rfl | rfl⟩ | ⟨rfl, rfl | rfl⟩
    · obtain ⟨b, rfl⟩ := Kind.fits_boolean_iff.mp hfits
      rfl
    · obtain ⟨b, rfl⟩ := Kind.fits_boolean_iff.mp hfits
      rfl
    · obtain ⟨name, rfl⟩ := Kind.fits_text_iff.mp hfits
      rw [apply, expectString, Except.map, warningFor_eq, ofNameOrDefault_eq]
      rfl
    · obtain ⟨text, rfl⟩ := Kind.fits_text_iff.mp hfits
      rfl

/-- A key with a value that it cannot have ends the reading. -/
theorem apply_of_wrong (s : Settings) (hkind : kindOf? key = some kind)
    (hfits : kind.fits value = false) : s.apply key value = .error (kind.error key) := by
  rcases kindOf?_eq_some hkind with ⟨rfl, rfl | rfl⟩ | ⟨rfl, rfl | rfl⟩
  · rw [apply, expectBoolean_of_not_fits _ hfits]
    rfl
  · rw [apply, expectBoolean_of_not_fits _ hfits]
    rfl
  · rw [apply, expectString_of_not_fits _ hfits]
    rfl
  · rw [apply, expectString_of_not_fits _ hfits]
    rfl

/-! ### All keys of a table -/

theorem findBinding_eq_none {l : List (String × Toml.Value)} (h : ∀ b ∈ l, key ≠ b.1) :
    findBinding key l = none := by
  induction l with
  | nil => rfl
  | cons b rest ih =>
    rw [findBinding, if_neg (Ne.symm (h b List.mem_cons_self))]
    exact ih fun c hc => h c (List.mem_cons_of_mem _ hc)

/-- In a table the first binding of a key is its only one. -/
theorem findBinding_cons {b : String × Toml.Value} {rest : List (String × Toml.Value)}
    (h : Ascending (b :: rest)) (key : String) :
    findBinding key (b :: rest) = (findBinding key rest).or (findBinding key [b]) := by
  by_cases hkey : b.1 = key
  · have hrest : findBinding key rest = none := by
      refine findBinding_eq_none fun c hc heq => String.lt_irrefl key ?_
      have hlt := (List.pairwise_cons.mp h).1 c hc
      rwa [hkey, ← heq] at hlt
    rw [hrest, findBinding, if_pos hkey, findBinding, if_pos hkey]
    rfl
  · rw [findBinding, if_neg hkey, findBinding, if_neg hkey, findBinding, Option.or_none]

theorem filterMap_warning?_cons (b : String × Toml.Value) (rest : List (String × Toml.Value)) :
    (b :: rest).filterMap warning? = (warning? b).toList ++ rest.filterMap warning? := by
  rw [List.filterMap_cons]
  cases warning? b <;> rfl

/-- When every key has a value that it can have, each setting gets its value. -/
theorem applyAll_of_isRight {l : List (String × Toml.Value)} (hl : Ascending l)
    (hright : ∀ b ∈ l, isRight b = true) (s : Settings) :
    s.applyAll l
      = { warnings := l.filterMap warning?, result := .ok (s.updatedBy (findBinding · l)) } := by
  induction l generalizing s with
  | nil => rfl
  | cons b rest ih =>
    have hrest : ∀ c ∈ rest, isRight c = true := fun c hc => hright c (List.mem_cons_of_mem _ hc)
    have hasc : Ascending rest := (List.pairwise_cons.mp hl).2
    have hvalues : ∀ key value kind, findBinding key rest = some value →
        kindOf? key = some kind → kind.fits value = true := fun key value kind hvalue hkind =>
      isRight_iff.mp (hrest _ ((mem_iff_findBinding hasc key value).mpr hvalue)) kind hkind
    rw [applyAll, apply_of_isRight s (hright b List.mem_cons_self)]
    simp only [ih hasc hrest, updatedBy_updatedBy s _ hvalues]
    rw [funext (findBinding_cons hl), filterMap_warning?_cons]

/-- The first key with a value that it cannot have is reported, and of the warnings only
those are there that came before. -/
theorem applyAll_of_wrong {before after : List (String × Toml.Value)}
    (hbefore : ∀ b ∈ before, isRight b = true) (hkind : kindOf? key = some kind)
    (hfits : kind.fits value = false) (s : Settings) :
    s.applyAll (before ++ (key, value) :: after)
      = { warnings := before.filterMap warning?, result := .error (kind.error key) } := by
  induction before generalizing s with
  | nil =>
    rw [List.nil_append, applyAll, apply_of_wrong s hkind hfits]
    rfl
  | cons b rest ih =>
    have hrest : ∀ c ∈ rest, isRight c = true := fun c hc => hbefore c (List.mem_cons_of_mem _ hc)
    rw [List.cons_append, applyAll, apply_of_isRight s (hbefore b List.mem_cons_self)]
    simp only [ih hrest]
    rw [filterMap_warning?_cons]

/-! ### Tables -/

theorem forall_isRight_iff : (∀ b ∈ table.bindings, isRight b = true) ↔ AllRight table := by
  constructor
  · intro h key value kind hvalue hkind
    exact isRight_iff.mp (h _ ((table.mem_bindings_iff key value).mpr hvalue)) kind hkind
  · rintro h ⟨key, value⟩ hb
    exact isRight_iff.mpr fun kind hkind =>
      h key value kind ((table.mem_bindings_iff key value).mp hb) hkind

theorem ofMembers_of_allRight (h : AllRight table) :
    ofMembers table = { warnings := table.bindings.filterMap warning?
                        result := .ok (default.updatedBy table.get?) } :=
  applyAll_of_isRight table.ascending (forall_isRight_iff.mpr h) default

/-- The bindings in front of a key are those with a smaller one. -/
theorem filter_lt_of_ascending {before after : List (String × Toml.Value)}
    (h : Ascending (before ++ (key, value) :: after)) :
    (before ++ (key, value) :: after).filter (fun b => b.1 < key) = before := by
  obtain ⟨-, hafter, hlt⟩ := List.pairwise_append.mp h
  have hbefore : before.filter (fun b => b.1 < key) = before :=
    List.filter_eq_self.mpr fun b hb => decide_eq_true (hlt b hb _ List.mem_cons_self)
  have hrest : ((key, value) :: after).filter (fun b => b.1 < key) = [] := by
    refine List.filter_eq_nil_iff.mpr fun b hb => ?_
    rw [decide_eq_true_eq]
    rcases List.mem_cons.mp hb with rfl | hb
    · exact String.lt_irrefl key
    · exact String.lt_asymm ((List.pairwise_cons.mp hafter).1 b hb)
  rw [List.filter_append, hbefore, hrest, List.append_nil]

theorem ofMembers_of_isFirstWrong (h : IsFirstWrong table key kind) :
    ofMembers table
      = { warnings := (table.bindings.filter fun b => b.1 < key).filterMap warning?
          result := .error (kind.error key) } := by
  obtain ⟨⟨hkind, value, hvalue, hfits⟩, hleast⟩ := h
  obtain ⟨before, after, hbindings⟩ :=
    List.append_of_mem ((table.mem_bindings_iff key value).mpr hvalue)
  have hasc : Ascending (before ++ (key, value) :: after) := hbindings ▸ table.ascending
  have hbefore : ∀ b ∈ before, isRight b = true := by
    rintro ⟨other, given⟩ hb
    cases hright : isRight (other, given) with
    | true => rfl
    | false =>
      -- The key would be wrong and smaller.
      obtain ⟨kind', hkind', hfits'⟩ := isRight_eq_false_iff.mp hright
      have hmem : (other, given) ∈ table.bindings := by
        rw [hbindings]
        exact List.mem_append_left _ hb
      have hwrong : IsWrong table other kind' :=
        ⟨hkind', given, (table.mem_bindings_iff other given).mp hmem, hfits'⟩
      have hlt : other < key := (List.pairwise_append.mp hasc).2.2 _ hb _ List.mem_cons_self
      exact absurd hlt (hleast other kind' hwrong)
  rw [hbindings, filter_lt_of_ascending hasc, ofMembers, hbindings]
  exact applyAll_of_wrong hbefore hkind hfits default

/-- Where something is wrong, some key is the first one. -/
theorem exists_isFirstWrong (h : ¬ AllRight table) :
    ∃ key kind, IsFirstWrong table key kind := by
  obtain ⟨⟨key, value⟩, hfind⟩ : ∃ b, table.bindings.find? (fun b => !isRight b) = some b := by
    refine Option.ne_none_iff_exists'.mp fun hnone => h (forall_isRight_iff.mp fun b hb => ?_)
    simpa using List.find?_eq_none.mp hnone b hb
  obtain ⟨hwrong, before, after, hbindings, hbefore⟩ := List.find?_eq_some_iff_append.mp hfind
  obtain ⟨kind, hkind, hfits⟩ := isRight_eq_false_iff.mp (by simpa using hwrong)
  have hasc : Ascending (before ++ (key, value) :: after) := hbindings ▸ table.ascending
  have hmem : (key, value) ∈ table.bindings := by
    rw [hbindings]
    exact List.mem_append_right _ List.mem_cons_self
  refine ⟨key, kind, ⟨hkind, value, (table.mem_bindings_iff key value).mp hmem, hfits⟩, ?_⟩
  rintro other kind' ⟨hkind', given, hgiven, hfits'⟩
  have hother := (table.mem_bindings_iff other given).mpr hgiven
  rw [hbindings, List.mem_append, List.mem_cons] at hother
  rcases hother with hother | heq | hother
  · have hright := hbefore _ hother
    rw [isRight_eq_false_iff.mpr ⟨kind', hkind', hfits'⟩] at hright
    exact absurd hright (by simp)
  · obtain rfl := (Prod.mk.inj heq).1
    exact Std.le_refl other
  · have hlt := (List.pairwise_cons.mp (List.pairwise_append.mp hasc).2.1).1 _ hother
    exact String.lt_asymm hlt

/-- The members of a table that defines no key twice. -/
theorem get?_sortedMembers {members : Toml.Members} (h : (members.map (·.1)).Nodup)
    (key : String) : (sortedMembers members).get? key = members.get? key := by
  have hinserted : ∀ (members : Toml.Members) (m : SortedMap Toml.Value),
      (members.map (·.1)).Nodup →
      (members.foldl (fun m (b : String × Toml.Value) => m.insert b.1 b.2) m).get? key
        = (members.get? key).or (m.get? key) := by
    intro members
    induction members with
    | nil => exact fun m _ => rfl
    | cons b rest ih =>
      intro m h
      obtain ⟨hnew, hrest⟩ := List.nodup_cons.mp h
      rw [List.foldl_cons, ih _ hrest, SortedMap.get?_insert, Toml.Members.get?_cons]
      by_cases hkey : b.1 = key
      · rw [if_pos hkey, if_pos hkey.symm, Toml.Members.get?_eq_none (hkey ▸ hnew)]
        rfl
      · rw [if_neg hkey, if_neg (Ne.symm hkey)]
  rw [sortedMembers, hinserted members .empty h, SortedMap.get?_empty, Option.or_none]

/-! ### Documents -/

/-- What the settings of a table come to. -/
structure Reads (table : SortedMap Toml.Value) (r : Reading) : Prop where
  /-- They can be used exactly when each has a value of its kind. -/
  ok_iff : (∃ s, r.result = .ok s) ↔ AllRight table
  /-- Then each has the value that it is given or else its default, and everything odd is
  warned about. -/
  of_ok : ∀ s, r.result = .ok s → s = default.updatedBy table.get? ∧
    r.warnings = table.bindings.filterMap warning?
  /-- Otherwise the smallest wrong key is named, and what is odd below it is warned about. -/
  of_error : ∀ e, r.result = .error e → ∃ key kind, IsFirstWrong table key kind ∧
    e = kind.error key ∧ e.message = "lualinter." ++ key ++ " must be a " ++ kind.name ∧
    r.warnings = (table.bindings.filter fun b => b.1 < key).filterMap warning?

theorem Kind.message_error (kind : Kind) (key : String) :
    (kind.error key).message = "lualinter." ++ key ++ " must be a " ++ kind.name := by
  have hword : ∀ word : String, "lualinter." ++ key ++ " must be a " ++ word
      = "lualinter." ++ key ++ (" must be a " ++ word) := fun word => String.append_assoc
  rw [hword]
  cases kind with
  | boolean => rfl
  | text => rfl

theorem reads_ofMembers (table : SortedMap Toml.Value) : Reads table (ofMembers table) := by
  by_cases hright : AllRight table
  · rw [ofMembers_of_allRight hright]
    refine ⟨⟨fun _ => hright, fun _ => ⟨_, rfl⟩⟩, ?_, ?_⟩
    · rintro s ⟨⟩
      exact ⟨rfl, rfl⟩
    · rintro e ⟨⟩
  · obtain ⟨key, kind, hfirst⟩ := exists_isFirstWrong hright
    rw [ofMembers_of_isFirstWrong hfirst]
    refine ⟨⟨?_, fun h => absurd h hright⟩, ?_, ?_⟩
    · rintro ⟨s, ⟨⟩⟩
    · rintro s ⟨⟩
    · rintro e ⟨⟩
      exact ⟨key, kind, hfirst, rfl, kind.message_error key, rfl⟩

theorem ofRoot_of_table {root : SortedMap Toml.Value} {origin : Toml.Origin}
    {members : Toml.Members} (h : root.get? settingsTable = some (.table origin members)) :
    ofRoot root = ofMembers (sortedMembers members) := by
  rw [ofRoot, h]

/-- Tables that agree on the settings come to the same, whatever else they hold. -/
theorem result_ofMembers_congr {table' : SortedMap Toml.Value}
    (h : ∀ key, kindOf? key ≠ none → table'.get? key = table.get? key) :
    (ofMembers table').result = (ofMembers table).result := by
  have hagree : ∀ key kind, kindOf? key = some kind → table'.get? key = table.get? key :=
    fun key kind hkind => h key (by simp [hkind])
  have hwrong : ∀ key kind, IsWrong table' key kind ↔ IsWrong table key kind := by
    intro key kind
    refine and_congr_right fun hkind => ?_
    rw [hagree key kind hkind]
  by_cases hright : AllRight table
  · have hright' : AllRight table' := fun key value kind hvalue hkind =>
      hright key value kind (hagree key kind hkind ▸ hvalue) hkind
    rw [ofMembers_of_allRight hright, ofMembers_of_allRight hright', updatedBy_congr h]
  · obtain ⟨key, kind, hfirst⟩ := exists_isFirstWrong hright
    have hfirst' : IsFirstWrong table' key kind :=
      ⟨(hwrong key kind).mpr hfirst.isWrong, fun other kind' hother =>
        hfirst.le_of_isWrong other kind' ((hwrong other kind').mp hother)⟩
    rw [ofMembers_of_isFirstWrong hfirst, ofMembers_of_isFirstWrong hfirst']

/-- **What a document says.**  Whatever its root table holds: without the table of settings
all of them have their defaults, and an entry that is no table is refused.  Of a table the
settings are read as **`Reads`** says, the entries of which are those of the document.  Two
documents whose tables agree on the settings come to the same, whatever else they hold. -/
theorem ofRoot_reads (root : SortedMap Toml.Value) :
    (root.get? "lualinter" = none → ofRoot root = { warnings := [], result := .ok default }) ∧
    (∀ value, root.get? "lualinter" = some value →
      (∀ origin members, value ≠ .table origin members) →
      ofRoot root = { warnings := [], result := .error .notATable } ∧
      SettingsError.notATable.message = "'lualinter' must be a table") ∧
    (∀ origin members, root.get? "lualinter" = some (.table origin members) →
      Reads (sortedMembers members) (ofRoot root) ∧
      ((members.map (·.1)).Nodup → ∀ key,
        (sortedMembers members).get? key = Toml.Members.get? members key) ∧
      ∀ root' origin' members', root'.get? "lualinter" = some (.table origin' members') →
        (∀ key, kindOf? key ≠ none →
          (sortedMembers members').get? key = (sortedMembers members).get? key) →
        (ofRoot root').result = (ofRoot root).result) ∧
    (∀ text origin members, Toml.document? text = some (.table origin members) →
      sortedMembers members = root → ofToml text = ofRoot root) := by
  refine ⟨fun hnone => ?_, fun value hvalue hother => ⟨?_, rfl⟩,
    fun origin members htable => ⟨?_, get?_sortedMembers, ?_⟩, ?_⟩
  · rw [ofRoot, settingsTable, hnone]
  · rw [ofRoot, settingsTable, hvalue]
    cases value with
    | table origin members => exact absurd rfl (hother origin members)
    | _ => rfl
  · rw [ofRoot_of_table htable]
    exact reads_ofMembers _
  · intro root' origin' members' htable' hagree
    rw [ofRoot_of_table htable, ofRoot_of_table htable']
    exact result_ofMembers_congr hagree
  · rintro text origin members hdocument rfl
    rw [ofToml, hdocument]

/-- A table for examples: one setting has a value of another kind, and two keys are no
settings. -/
def sampleMembers : Toml.Members :=
  [("warnOnSave", .integer 1), ("colour", .boolean true), ("interpreter", .string "lua5.4"),
    ("zone", .boolean true), ("enable", .boolean false)]

/-- A root table with that table. -/
def sampleRoot : SortedMap Toml.Value :=
  SortedMap.empty.insert settingsTable (.table .header sampleMembers)

theorem bindings_sampleMembers : (sortedMembers sampleMembers).bindings
    = [("colour", .boolean true), ("enable", .boolean false), ("interpreter", .string "lua5.4"),
      ("warnOnSave", .integer 1), ("zone", .boolean true)] := by
  rfl

/-- The key that is wrong is named, and the odd ones below it are warned about. -/
theorem ofRoot_sampleRoot :
    (ofRoot sampleRoot).result = .error (.notABoolean "warnOnSave") ∧
    (ofRoot sampleRoot).warnings
      = [.unknownSetting "colour", .unknownInterpreter "lua5.4"] := by
  obtain ⟨-, -, htable, -⟩ := ofRoot_reads sampleRoot
  obtain ⟨hreads, -⟩ := htable .header sampleMembers (by rfl)
  cases hresult : (ofRoot sampleRoot).result with
  | ok s =>
    have hfits := hreads.ok_iff.mp ⟨s, hresult⟩ "warnOnSave" (.integer 1) .boolean rfl rfl
    exact absurd hfits (by decide)
  | error e =>
    obtain ⟨key, kind, hfirst, rfl, -, hwarnings⟩ := hreads.of_error e hresult
    obtain ⟨hkind, value, hvalue, hfits⟩ := hfirst.isWrong
    have hmem := ((sortedMembers sampleMembers).mem_bindings_iff key value).mpr hvalue
    have hwrong := isRight_eq_false_iff.mpr ⟨kind, hkind, hfits⟩
    rw [bindings_sampleMembers] at hmem
    simp only [List.mem_cons, List.not_mem_nil, or_false, Prod.mk.injEq] at hmem
    rcases hmem with ⟨rfl, rfl⟩ | ⟨rfl, rfl⟩ | ⟨rfl, rfl⟩ | ⟨rfl, rfl⟩ | ⟨rfl, rfl⟩
    · exact absurd hwrong (by decide)
    · exact absurd hwrong (by decide)
    · exact absurd hwrong (by decide)
    · cases hkind
      exact ⟨rfl, hwarnings⟩
    · exact absurd hwrong (by decide)

end Settings

end LuaDiagnostics
