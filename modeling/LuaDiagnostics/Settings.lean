/-
Settings: what the linter is told to do, and how a configuration says it.

* **`ofMembers`** reads the settings of a table, in ascending order of the keys.  Every
  key takes effect, is warned about, or ends the reading with an error, so of several
  wrong keys the smallest is reported.
* **`ofToml`** reads the `lualinter` table of a document; without it all settings have
  their defaults.
-/
import LuaDiagnostics.Interpreter
import LuaDiagnostics.Path
import LuaDiagnostics.SortedMap
import LuaDiagnostics.Toml.DateTable

namespace LuaDiagnostics

/-- The settings of the linter. -/
structure Settings where
  /-- Documents are linted at all. -/
  enable : Bool
  interpreter : Interpreter
  /-- An error in a document that is saved gives a warning. -/
  warnOnSave : Bool
  /-- The program to run; the interpreter still decides on the flags. -/
  compilerPath : Option Path
deriving DecidableEq, Repr

/-- Something odd in a configuration that does not keep it from being used. -/
inductive SettingsWarning
  | unknownInterpreter (name : String)
  | unknownSetting (key : String)
deriving DecidableEq, Repr

/-- Why a configuration cannot be used. -/
inductive SettingsError
  | notToml
  | notATable
  | notABoolean (key : String)
  | notAString (key : String)
deriving DecidableEq, Repr

/-- The table that holds the settings. -/
def settingsTable : String := "lualinter"

namespace SettingsWarning

/-- The wording of a warning. -/
def message : SettingsWarning → String
  | unknownInterpreter name =>
    s!"unknown interpreter {Text.quoted name}, falling back to luac"
  | unknownSetting key => s!"ignoring unknown setting {settingsTable}.{key}"

end SettingsWarning

namespace SettingsError

/-- The wording of an error; of a malformed document only how it begins. -/
def message : SettingsError → String
  | notToml => "TOML parse error"
  | notATable => s!"'{settingsTable}' must be a table"
  | notABoolean key => s!"{settingsTable}.{key} must be a boolean"
  | notAString key => s!"{settingsTable}.{key} must be a string"

end SettingsError

namespace Interpreter

/-- The warning for a name that no compiler has. -/
def warningFor (name : String) : Option SettingsWarning :=
  match ofName? name with
  | some _ => none
  | none => some (.unknownInterpreter name)

end Interpreter

namespace Settings

/-- The settings where nothing is said. -/
def default : Settings :=
  { enable := true, interpreter := .luac, warnOnSave := false, compilerPath := none }

instance : Inhabited Settings := ⟨default⟩

/-- The program that a text names: the empty text names none. -/
def pathOfText (text : String) : Option Path := if text = "" then none else some ⟨text⟩

/-! ### Single settings -/

/-- The truth value that a key has to have. -/
def expectBoolean (key : String) : Toml.Value → Except SettingsError Bool
  | .boolean b => .ok b
  | _ => .error (.notABoolean key)

/-- The text that a key has to have. -/
def expectString (key : String) : Toml.Value → Except SettingsError String
  | .string s => .ok s
  | _ => .error (.notAString key)

/-- Takes one key of the table into account. -/
def apply (s : Settings) (key : String) (value : Toml.Value) :
    Except SettingsError (Settings × Option SettingsWarning) :=
  match key with
  | "enable" => (expectBoolean key value).map fun b => ({ s with enable := b }, none)
  | "warnOnSave" => (expectBoolean key value).map fun b => ({ s with warnOnSave := b }, none)
  | "interpreter" => (expectString key value).map fun name =>
      ({ s with interpreter := .ofNameOrDefault name }, Interpreter.warningFor name)
  | "compilerPath" => (expectString key value).map fun text =>
      ({ s with compilerPath := pathOfText text }, none)
  | _ => .ok (s, some (.unknownSetting key))

/-! ### Tables and documents -/

/-- What came of reading a configuration, and the warnings on the way. -/
structure Reading where
  warnings : List SettingsWarning
  result : Except SettingsError Settings

/-- Takes keys into account one after the other. -/
def applyAll (s : Settings) : List (String × Toml.Value) → Reading
  | [] => { warnings := [], result := .ok s }
  | (key, value) :: rest =>
    match s.apply key value with
    | .error e => { warnings := [], result := .error e }
    | .ok (s, warning) =>
      let reading := s.applyAll rest
      { reading with warnings := warning.toList ++ reading.warnings }

/-- The members of a table in ascending order of their keys. -/
def sortedMembers (members : Toml.Members) : SortedMap Toml.Value :=
  members.foldl (fun m (key, value) => m.insert key value) .empty

/-- Reads the settings of a table. -/
def ofMembers (members : SortedMap Toml.Value) : Reading := applyAll .default members.bindings

/-- Reads the settings of a document's root table. -/
def ofRoot (root : SortedMap Toml.Value) : Reading :=
  match root.get? settingsTable with
  | none => { warnings := [], result := .ok .default }
  | some (.table _ members) => ofMembers (sortedMembers members)
  | some _ => { warnings := [], result := .error .notATable }

/-- Reads the settings of a configuration.  A document that is a date has none. -/
def ofToml (text : String) : Reading :=
  match Toml.document? text with
  | none => { warnings := [], result := .error .notToml }
  | some (.table _ root) => ofRoot (sortedMembers root)
  | some _ => { warnings := [], result := .ok .default }

end Settings

end LuaDiagnostics
