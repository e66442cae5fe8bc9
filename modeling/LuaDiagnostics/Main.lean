/-
The command line program.

This layer gathers what a run needs, has it done, and prints what it leaves behind.  It
reads the configuration, the files named by the words and standard input.  It starts no
process, so compiler output comes in through `parse`, and for the other activities the
compilers count as missing.  Files are read once, so a watch ends when it has reported
what it found.
-/
import LuaDiagnostics.Program

namespace LuaDiagnostics.Main

/-- The path of a file or directory free of links, if it exists. -/
def realPath? (p : Path) : IO (Option Path) := do
  try
    let real ← IO.FS.realPath p.text
    return some ⟨real.toString⟩
  catch _ => return none

/-- The bytes of a file, if it can be read. -/
def contents? (p : Path) : IO (Option ByteArray) := do
  try
    return some (← IO.FS.readBinFile p.text)
  catch _ => return none

/-- Takes a file into the file system, and a link to it when its path leads over one. -/
def gather (directory : Location) (fs : FileSystem) (p : Path) : IO FileSystem := do
  match ← realPath? p, ← contents? p with
  | some real, some bytes =>
    let fs := fs.apply [] (.write real (.file bytes false) none none)
    match fs.canonical? directory p with
    | some _ => return fs
    | none => return fs.apply directory (.write p (.link real) none none)
  | _, _ => return fs

/-- The paths that an invocation reads: configurations first. -/
def pathsOf (directory : Path) (i : Invocation) : List Path :=
  let configurations := match i.configuration with
    | some p => [p]
    | none => directory.ancestors.flatMap fun d =>
        Settings.fileNames.map fun name => d.join ⟨name⟩
  let files := match i.activity with
    | .check files => files
    | .watch files _ => files
    | .parse file _ => [file]
  configurations ++ files

/-- The files of an invocation as seen from the current directory. -/
def surroundings (words : List String) : IO Surroundings := do
  let directory : Path := ⟨(← IO.currentDir).toString⟩
  let place := FileSystem.steps directory
  let start := FileSystem.empty.apply [] (.write directory .directory none none)
  let (paths, readsInput) := match CommandLine.parse words with
    | .ok i => (pathsOf directory i, match i.activity with
        | .parse _ none => true
        | _ => false)
    | .error _ => ([], false)
  let files ← paths.foldlM (gather place) start
  let input ← if readsInput then (← IO.getStdin).readBinToEnd else pure .empty
  let machine : Machine := { files, directory := place, searchPath := "", rules := [] }
  return { machine, input, outputIsTerminal := ← (← IO.getStdout).isTty,
           errorsAreTerminal := ← (← IO.getStderr).isTty, interruptAfter := none }

end LuaDiagnostics.Main

/-- Runs the program on the words of its command line. -/
def main (words : List String) : IO UInt32 := do
  let ending := LuaDiagnostics.Program.run (← LuaDiagnostics.Main.surroundings words) words
  IO.print ending.output
  IO.eprint ending.errors
  return ending.exitCode.toUInt32
