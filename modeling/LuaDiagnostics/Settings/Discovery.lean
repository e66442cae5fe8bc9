/-
Finding and loading the configuration.

* **`locate?`**: the nearest directory upward that holds a configuration decides, and in
  one directory the plain name goes before the hidden one.  Only regular files count.
* **`load`** reads the settings of a file, **`discover`** those of the file found from
  the current directory.  A file that is found is used or fails; no other one is tried.
-/
import LuaDiagnostics.Failure

namespace LuaDiagnostics

namespace Settings

/-- The names of configurations, the preferred one first. -/
def fileNames : List String := ["lualinter.toml", ".lualinter.toml"]

/-- The first configuration in a directory. -/
def locateIn? (isFile : Path → Bool) (directory : Path) : Option Path :=
  (fileNames.map fun name => directory.join ⟨name⟩).find? isFile

/-- The nearest configuration from a directory upward. -/
def locate? (isFile : Path → Bool) (start : Path) : Option Path :=
  start.ancestors.findSome? (locateIn? isFile)

/-- What came of loading a configuration, and the warnings on the way. -/
structure Loading where
  warnings : List SettingsWarning
  result : Except Failure Settings

/-- Loads the settings of a file. -/
def load (fs : FileSystem) (directory : Location) (path : Path) : Loading :=
  match fs.readText directory path with
  | .error e => { warnings := [], result := .error (.io e) }
  | .ok text =>
    let reading := ofToml text
    { warnings := reading.warnings, result := reading.result.mapError (.settings path) }

/-- Loads the nearest configuration from a directory upward, if there is one, and says
which it was. -/
def discover (fs : FileSystem) (directory : Location) : Loading × Option Path :=
  match locate? (fs.isRegularFile directory) directory.toPath with
  | some path => (load fs directory path, some path)
  | none => ({ warnings := [], result := .ok .default }, none)

end Settings

end LuaDiagnostics
