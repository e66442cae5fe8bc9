/-
The machine that programs run on: its files, the current directory, the search path for
programs, and what compilers do with a source.

* **`lookUp`** finds a program by name: the first executable regular file of that name in
  the directories of the search path.
* **`launch`** starts a command.  Its directory is entered first, and a relative program
  or search path is seen from there.
* **`Rule.respond`** says what a compiler does: the first rule whose trigger occurs in
  the source it reads.
-/
import LuaDiagnostics.Compiler.Command
import LuaDiagnostics.FileSystem

namespace LuaDiagnostics

/-! ### Compilers -/

/-- What a compiler does with sources that contain the trigger. -/
structure Rule where
  trigger : String
  /-- What it writes to its error stream. -/
  errors : ByteArray
  /-- The exit code, or none when it dies of a signal. -/
  exitCode : Option Nat
  /-- It waits at a gate before it writes anything. -/
  hangs : Bool
  /-- It runs on when it has written everything. -/
  hangsAfter : Bool
  /-- Its source is not read at all. -/
  ignoresInput : Bool

namespace Rule

/-- What a compiler does on a source without rule: it finds nothing to complain about. -/
def silent : Rule :=
  { trigger := "", errors := .empty, exitCode := some 0, hangs := false,
    hangsAfter := false, ignoresInput := false }

/-- Holds when compilers do not read their source. -/
def inputIgnored (rules : List Rule) : Bool := rules.any Rule.ignoresInput

/-- What a compiler does with a source. -/
def respond (rules : List Rule) (source : String) : Rule :=
  let read := if inputIgnored rules then [] else source.toList
  (rules.find? fun r => Text.contains r.trigger.toList read).getD silent

/-- Holds of compilers that do not end by themselves. -/
def runsOn (r : Rule) : Bool := r.hangs || r.hangsAfter

end Rule

/-! ### Machines -/

/-- The surroundings in which programs are started. -/
structure Machine where
  files : FileSystem
  /-- The current directory. -/
  directory : Location
  /-- The directories in which programs are looked up, with colons between them. -/
  searchPath : String
  rules : List Rule

namespace Machine

/-- The directories of the search path. -/
def searchDirectories (m : Machine) : List Path :=
  (Text.splitAll (· = ':') m.searchPath.toList).map Path.ofChars

/-- Finds a program by name. -/
def lookUp (m : Machine) (name : String) : Option Path :=
  (m.searchDirectories.map fun d => d.join ⟨name⟩).find? fun candidate =>
    (m.files.regularFile? m.directory candidate).any RegularFile.executable

/-- The directory that a command runs in. -/
def enter (m : Machine) (p : Path) : Except IoError Location := do
  let place ← m.files.follow m.directory p
  match m.files.entry? place with
  | some (.directory _) => .ok place
  | _ => .error .notADirectory

/-- Starts the program at a path as seen from a directory. -/
def execute (m : Machine) (directory : Location) (p : Path) : Except IoError Unit := do
  match ← m.files.find directory p with
  | .file f =>
    if ¬ f.executable then .error .permissionDenied
    else if f.isProgram then .ok ()
    else .error .execFormat
  | _ => .error .permissionDenied

/-- Starts the first program of a search path that can be started.  A missing program or
directory lets the search go on, and so does a missing permission, which is what is
reported in the end. -/
def executeFirst (m : Machine) (directory : Location) (denied : Bool) (last : IoError) :
    List Path → Except IoError Unit
  | [] => .error (if denied then .permissionDenied else last)
  | candidate :: rest =>
    match m.execute directory candidate with
    | .ok () => .ok ()
    | .error .permissionDenied => m.executeFirst directory true .permissionDenied rest
    | .error .notFound => m.executeFirst directory denied .notFound rest
    | .error .notADirectory => m.executeFirst directory denied .notADirectory rest
    | .error e => .error e

/-- Starts a command and answers the directory it runs in. -/
def launch (m : Machine) (c : Command) : Except IoError Location := do
  if c.program.chars.contains '\x00' ∨ c.directory.chars.contains '\x00' then
    .error .nulInCommand
  let directory ← m.enter c.directory
  if c.program.text = "" then .error .notFound
  else if c.program.chars.contains '/' then m.execute directory c.program
  else
    m.executeFirst directory false .notFound
      (m.searchDirectories.map fun d => d.join c.program)
  return directory

end Machine

end LuaDiagnostics
