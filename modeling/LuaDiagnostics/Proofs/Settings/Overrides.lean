/-
What a command line changes.

The same four settings are given in a table of a configuration and by the flags of a command
line, and two pieces of code say what they mean.  Here a command line is taken as a table of
its own (**`Invocation.value?`**): a flag is a key with a value.

* **`applyTo_eq_updatedBy`**: to override settings is to read that table on top of them;
* **`applyTo_of_loaded`**: so the settings that come of a table and a command line are those
  of the table in which the flags have replaced the keys, each is the flag's, else the
  table's, else the default, and a command line that is applied twice changes nothing more.

Only an empty path of the compiler would mean different things on the two sides, and no
command line names it (`CommandLine.compilerPath_ne_empty`).
-/
import LuaDiagnostics.Proofs.CommandLine.Values
import LuaDiagnostics.Proofs.Settings.Table

namespace LuaDiagnostics

open Settings

namespace Invocation

/-- What the flags give as the value of a key. -/
def value? (i : Invocation) : String → Option Toml.Value
  | "enable" => if i.disable then some (.boolean false) else none
  | "warnOnSave" => if i.warnOnSave then some (.boolean true) else none
  | "interpreter" => i.interpreter.map .string
  | "compilerPath" => i.compilerPath.map fun p => .string p.text
  | _ => none

/-- A table with a key as the flags give it. -/
def replaceIn (i : Invocation) (table : SortedMap Toml.Value) (key : String) :
    SortedMap Toml.Value :=
  match i.value? key with
  | some value => table.insert key value
  | none => table

/-- The keys that flags stand for. -/
def flagKeys : List String := ["enable", "interpreter", "warnOnSave", "compilerPath"]

/-- A table with all settings that the flags give in the stead of its own. -/
def replaceAll (i : Invocation) (table : SortedMap Toml.Value) : SortedMap Toml.Value :=
  flagKeys.foldl i.replaceIn table

variable {i : Invocation} {s : Settings}

/-! ### Flags as a table -/

/-- The flags give every key a value that it can have. -/
theorem fits_of_value?_eq_some {key : String} {value : Toml.Value} {kind : Kind}
    (h : i.value? key = some value) (hkind : kindOf? key = some kind) :
    kind.fits value = true := by
  rcases kindOf?_eq_some hkind with ⟨rfl, rfl | rfl⟩ | ⟨rfl, rfl | rfl⟩
  · obtain ⟨-, ⟨⟩⟩ := Option.ite_none_right_eq_some.mp h
    rfl
  · obtain ⟨-, ⟨⟩⟩ := Option.ite_none_right_eq_some.mp h
    rfl
  · obtain ⟨name, -, rfl⟩ := Option.map_eq_some_iff.mp h
    rfl
  · obtain ⟨p, -, rfl⟩ := Option.map_eq_some_iff.mp h
    rfl

theorem value?_eq_none {key : String} (h : key ∉ flagKeys) : i.value? key = none := by
  unfold value?
  split
  · exact absurd (by decide) h
  · exact absurd (by decide) h
  · exact absurd (by decide) h
  · exact absurd (by decide) h
  · rfl

theorem get?_replaceIn (i : Invocation) (table : SortedMap Toml.Value) (key other : String) :
    (i.replaceIn table key).get? other
      = if other = key then (i.value? other).or (table.get? other) else table.get? other := by
  unfold replaceIn
  by_cases hkey : other = key
  · subst hkey
    rw [if_pos rfl]
    cases i.value? other with
    | none => rfl
    | some value => exact (table.get?_insert other other value).trans (if_pos rfl)
  · rw [if_neg hkey]
    cases i.value? key with
    | none => rfl
    | some value => exact (table.get?_insert key other value).trans (if_neg hkey)

theorem get?_foldl_replaceIn (i : Invocation) (keys : List String)
    (table : SortedMap Toml.Value) (other : String) :
    (keys.foldl i.replaceIn table).get? other
      = if other ∈ keys then (i.value? other).or (table.get? other) else table.get? other := by
  induction keys generalizing table with
  | nil => rfl
  | cons key rest ih =>
    rw [List.foldl_cons, ih, get?_replaceIn]
    by_cases hkey : other = key
    · -- The same value again changes nothing.
      rw [if_pos hkey, if_pos (List.mem_cons.mpr (.inl hkey)), ← Option.or_assoc, Option.or_self,
        ite_self]
    · rw [if_neg hkey]
      simp only [List.mem_cons, or_iff_right hkey]

/-- A table with replaced settings holds what the flags give, and its own values elsewhere. -/
theorem get?_replaceAll (i : Invocation) (table : SortedMap Toml.Value) (key : String) :
    (i.replaceAll table).get? key = (i.value? key).or (table.get? key) := by
  rw [replaceAll, get?_foldl_replaceIn]
  by_cases hkey : key ∈ flagKeys
  · rw [if_pos hkey]
  · rw [if_neg hkey, value?_eq_none hkey, Option.none_or]

/-! ### Overriding settings -/

/-- To override settings is to read what the flags give on top of them. -/
theorem applyTo_eq_updatedBy (h : i.compilerPath ≠ some ⟨""⟩) (s : Settings) :
    i.applyTo s = s.updatedBy i.value? := by
  simp only [applyTo, updatedBy, Settings.mk.injEq]
  refine ⟨?_, ?_, ?_, ?_⟩
  · show _ = booleanOr s.enable (if i.disable then some (.boolean false) else none)
    cases i.disable <;> rfl
  · show _ = textOr s.interpreter _ (i.interpreter.map .string)
    cases i.interpreter with
    | none => rfl
    | some name => exact ofNameOrDefault_eq name
  · show _ = booleanOr s.warnOnSave (if i.warnOnSave then some (.boolean true) else none)
    cases i.warnOnSave <;> rfl
  · show _ = textOr s.compilerPath _ (i.compilerPath.map fun p => .string p.text)
    cases hpath : i.compilerPath with
    | none => rfl
    | some p =>
      have hne : p.text ≠ "" := fun heq => h (hpath.trans (congrArg some (congrArg Path.mk heq)))
      exact (if_neg hne).symm

/-- Overriding settings once more changes nothing. -/
theorem applyTo_applyTo (i : Invocation) (s : Settings) :
    i.applyTo (i.applyTo s) = i.applyTo s := by
  simp only [applyTo, Settings.mk.injEq]
  refine ⟨?_, ?_, ?_, ?_⟩
  · cases i.disable <;> rfl
  · cases i.interpreter <;> rfl
  · cases i.warnOnSave <;> rfl
  · cases i.compilerPath <;> rfl

theorem allRight_replaceAll {table : SortedMap Toml.Value} (h : AllRight table) :
    AllRight (i.replaceAll table) := by
  intro key value kind hvalue hkind
  rw [get?_replaceAll] at hvalue
  rcases Option.or_eq_some_iff.mp hvalue with hflag | ⟨-, htable⟩
  · exact fits_of_value?_eq_some hflag hkind
  · exact h key value kind htable hkind

/-- The settings of a table with replaced keys are those of the table, overridden. -/
theorem ofMembers_replaceAll (h : i.compilerPath ≠ some ⟨""⟩) {table : SortedMap Toml.Value}
    (hright : AllRight table) :
    (ofMembers (i.replaceAll table)).result
      = .ok (i.applyTo (Settings.default.updatedBy table.get?)) := by
  rw [ofMembers_of_allRight (allRight_replaceAll hright), applyTo_eq_updatedBy h,
    updatedBy_updatedBy _ _ fun key value kind => fits_of_value?_eq_some,
    funext (get?_replaceAll i table)]

/-- **A command line and a configuration denote the same settings, and the command line
wins.**  Let a table of settings be loaded.  Once a command line has been applied, each
setting is the one of its flag, or else the one of the table, or else the default.  Loading
the table in which the flags have replaced the keys comes to the same, unless the flags name
the empty path, which no command line does.  Applying a command line twice is applying it
once. -/
theorem applyTo_of_loaded (i : Invocation) {root : SortedMap Toml.Value} {origin : Toml.Origin}
    {members : Toml.Members} (htable : root.get? "lualinter" = some (.table origin members))
    (hloaded : (ofRoot root).result = .ok s) :
    ((i.applyTo s).enable = (if i.disable then false
        else booleanOr true ((sortedMembers members).get? "enable")) ∧
      (i.applyTo s).warnOnSave = (if i.warnOnSave then true
        else booleanOr false ((sortedMembers members).get? "warnOnSave")) ∧
      (i.applyTo s).interpreter = (match i.interpreter with
        | some name => if name = "luajit" then .luajit else .luac
        | none => textOr .luac (fun name => if name = "luajit" then .luajit else .luac)
            ((sortedMembers members).get? "interpreter")) ∧
      (i.applyTo s).compilerPath = (match i.compilerPath with
        | some p => some p
        | none => textOr none (fun text => if text = "" then none else some ⟨text⟩)
            ((sortedMembers members).get? "compilerPath"))) ∧
    (i.compilerPath ≠ some ⟨""⟩ →
      (ofMembers (i.replaceAll (sortedMembers members))).result = .ok (i.applyTo s) ∧
      ∀ root' origin' members', root'.get? "lualinter" = some (.table origin' members') →
        sortedMembers members' = i.replaceAll (sortedMembers members) →
        (ofRoot root').result = .ok (i.applyTo s)) ∧
    (∀ words, CommandLine.parse words = .ok i → i.compilerPath ≠ some ⟨""⟩) ∧
    (∀ t, i.applyTo (i.applyTo t) = i.applyTo t) := by
  have hreads := reads_ofMembers (sortedMembers members)
  rw [ofRoot_of_table htable] at hloaded
  have hright := hreads.ok_iff.mp ⟨s, hloaded⟩
  obtain ⟨rfl, -⟩ := hreads.of_ok s hloaded
  refine ⟨⟨rfl, rfl, ?_, ?_⟩, ?_, fun words => CommandLine.compilerPath_ne_empty,
    i.applyTo_applyTo⟩
  · rw [applyTo]
    cases i.interpreter with
    | none => rfl
    | some name => exact ofNameOrDefault_eq name
  · rw [applyTo]
    cases i.compilerPath <;> rfl
  · intro hpath
    refine ⟨ofMembers_replaceAll hpath hright, fun root' origin' members' htable' hreplaced => ?_⟩
    rw [ofRoot_of_table htable', hreplaced]
    exact ofMembers_replaceAll hpath hright

/-- The words of a command line for examples. -/
def sampleWords : List String :=
  ["--disable", "-i", "lua5.1", "check", "a.lua", "--compiler-path", "/opt/luac"]

/-- What they ask for. -/
def sampleInvocation : Invocation :=
  { configuration := none, interpreter := some "lua5.1", compilerPath := some ⟨"/opt/luac"⟩
    warnOnSave := false, disable := true, format := .human, noColor := false
    activity := .check [⟨"a.lua"⟩] }

/-- A root table for examples. -/
def loadedRoot : SortedMap Toml.Value :=
  SortedMap.empty.insert "lualinter" (.table .header
    [("warnOnSave", .boolean true), ("interpreter", .string "luajit"), ("enable", .boolean true)])

/-- The root table in which the flags have replaced the keys. -/
def replacedRoot : SortedMap Toml.Value :=
  SortedMap.empty.insert "lualinter" (.table .header
    [("enable", .boolean false), ("compilerPath", .string "/opt/luac"),
      ("interpreter", .string "lua5.1"), ("warnOnSave", .boolean true)])

/-- A name that no compiler has is `luac` on both sides. -/
theorem applyTo_sampleInvocation :
    CommandLine.parse sampleWords = .ok sampleInvocation ∧ ∃ s, (ofRoot loadedRoot).result = .ok s ∧
      s.interpreter = .luajit ∧ (sampleInvocation.applyTo s).interpreter = .luac ∧
      (ofRoot replacedRoot).result = .ok (sampleInvocation.applyTo s) := by
  have hparse : CommandLine.parse sampleWords = .ok sampleInvocation := by rfl
  have hloaded : (ofRoot loadedRoot).result = .ok ⟨true, .luajit, true, none⟩ := by rfl
  obtain ⟨⟨-, -, hinterpreter, -⟩, hreplaced, hpath, -⟩ :=
    applyTo_of_loaded sampleInvocation (by rfl) hloaded
  exact ⟨hparse, _, hloaded, rfl, hinterpreter,
    (hreplaced (hpath sampleWords hparse)).2 replacedRoot .header _ (by rfl) (by rfl)⟩

end Invocation

end LuaDiagnostics
