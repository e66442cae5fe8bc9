/-
What can go wrong outside of the documents.
-/
import LuaDiagnostics.FileSystem
import LuaDiagnostics.Settings

namespace LuaDiagnostics

/-- Why a program was not run or a configuration not read. -/
inductive Failure
  | spawn (program : String) (cause : IoError)
  | io (cause : IoError)
  | settings (path : Path) (error : SettingsError)
deriving DecidableEq, Repr

namespace Failure

/-- The wording of a failure. -/
def message : Failure → String
  | spawn program cause => s!"failed to run {program}: {cause.message}"
  | io cause => s!"i/o error: {cause.message}"
  | settings path error => s!"invalid config {path.text}: {error.message}"

/-- The failure of the system below, if there is one. -/
def cause? : Failure → Option IoError
  | spawn _ cause => some cause
  | io cause => some cause
  | settings _ _ => none

end Failure

end LuaDiagnostics
