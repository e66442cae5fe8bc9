/-
Files, directories and symbolic links.

A file system gives each place an entry; a place is the list of names that lead to it
from the root without any link.  A path as people write it is followed name by name:

* **`follow`** reaches a place or says why there is none.  Forty links may be followed
  on the way.
* **`canonical?`**, **`readText`**, **`modified?`** and **`isRegularFile`** are what can
  be asked of a path.
* **`write?`**, **`remove`**, **`rename`**, **`touch`** and **`setExecutable`** are the
  changes.  Writing a file follows links, to a place without an entry too, and keeps the
  entry that is there with new contents.

Every change takes the time of the clock, which is later than all times before it,
unless it brings a time of its own.
-/
import LuaDiagnostics.Path
import LuaDiagnostics.Text.Utf8

namespace LuaDiagnostics

/-! ### Failures -/

/-- Why a path or a program could not be used. -/
inductive IoError
  | notFound
  | execFormat
  | permissionDenied
  | notADirectory
  | isADirectory
  | nameTooLong
  | tooManyLinks
  | invalidUtf8
  | nulInPath
  | nulInCommand
deriving DecidableEq, Repr, Inhabited

namespace IoError

/-- The wording of a failure, with the system's number where it has one. -/
def message : IoError → String
  | notFound => "No such file or directory (os error 2)"
  | execFormat => "Exec format error (os error 8)"
  | permissionDenied => "Permission denied (os error 13)"
  | notADirectory => "Not a directory (os error 20)"
  | isADirectory => "Is a directory (os error 21)"
  | nameTooLong => "File name too long (os error 36)"
  | tooManyLinks => "Too many levels of symbolic links (os error 40)"
  | invalidUtf8 => "stream did not contain valid UTF-8"
  | nulInPath => "file name contained an unexpected NUL byte"
  | nulInCommand => "nul byte found in provided data"

end IoError

/-! ### Entries -/

/-- A time since the epoch. -/
structure Timestamp where
  nanoseconds : Int
deriving DecidableEq, Repr, Inhabited

namespace Timestamp

/-- The time after some seconds and nanoseconds, be they more than a second or not. -/
def after (seconds : Int) (nanoseconds : Nat) : Timestamp :=
  ⟨1000000000 * seconds + nanoseconds⟩

end Timestamp

/-- A regular file. -/
structure RegularFile where
  contents : ByteArray
  /-- May be started as a program. -/
  executable : Bool
  /-- Is a program that the system knows how to start. -/
  isProgram : Bool
  modified : Timestamp

/-- What a place holds. -/
inductive Entry
  | file (file : RegularFile)
  | directory (modified : Timestamp)
  | link (target : Path)

namespace Entry

/-- Holds of directories. -/
def isDirectory : Entry → Bool
  | .directory _ => true
  | _ => false

/-- The entry with another time. -/
def stamped (time : Timestamp) : Entry → Entry
  | .file f => .file { f with modified := time }
  | .directory _ => .directory time
  | .link target => .link target

/-- The entry that, if it is a file, may or may not be started as a program. -/
def withExecutable (executable : Bool) : Entry → Entry
  | .file f => .file { f with executable }
  | entry => entry

end Entry

/-- The names that lead from the root to a place. -/
abbrev Location := List String

namespace Location

/-- The path that names a place from the root. -/
def toPath (place : Location) : Path := ⟨"/" ++ "/".intercalate place⟩

end Location

/-- The entries of a file system, the root apart, and the number of changes so far. -/
structure FileSystem where
  entries : List (Location × Entry)
  changes : Nat

namespace FileSystem

/-- Only the root directory. -/
def empty : FileSystem := ⟨[], 0⟩

instance : Inhabited FileSystem := ⟨empty⟩

/-- The time of a change that brings none of its own. -/
def now (fs : FileSystem) : Timestamp := .after (4000000000 + fs.changes) 0

/-- The entry of a place. -/
def entry? (fs : FileSystem) (place : Location) : Option Entry :=
  if place = [] then some (.directory ⟨0⟩)
  else (fs.entries.find? fun e => e.1 = place).map (·.2)

/-! ### Following paths -/

/-- The names of a path in order.  A slash at the end stands for a last `.`, which only
a directory has. -/
def steps (p : Path) : List String :=
  p.parts.map String.ofList ++ if p.chars.getLast? = some '/' then ["."] else []

/-- The place where a path begins that is seen from a directory. -/
def startOf (directory : Location) (p : Path) : Location :=
  if p.isAbsolute then [] else directory

/-- The longest name of an entry, in bytes. -/
def nameBound : Nat := 255

/-- The length of paths, in bytes, is below this bound. -/
def pathBound : Nat := 4096

/-- The number of links that are followed on the way to a place. -/
def linkBound : Nat := 40

/-- Takes the steps from a place; `links` links may still be followed.  The last step may
lead to a place without an entry where `mayMiss` holds. -/
def walk (fs : FileSystem) (mayMiss : Bool) (links : Nat) (place : Location) :
    List String → Except IoError Location
  | [] => .ok place
  | name :: rest =>
    match fs.entry? place with
    | some (.directory _) =>
      if name = "." then fs.walk mayMiss links place rest
      else if name = ".." then fs.walk mayMiss links place.dropLast rest
      else if nameBound < name.utf8ByteSize then .error .nameTooLong
      else
        match fs.entry? (place ++ [name]) with
        | none => if mayMiss ∧ rest = [] then .ok (place ++ [name]) else .error .notFound
        | some (.link target) =>
          if _ : links = 0 then .error .tooManyLinks
          else
            fs.walk mayMiss (links - 1) (startOf place target) (steps target ++ rest)
        | some _ => fs.walk mayMiss links (place ++ [name]) rest
    | _ => .error .notADirectory
termination_by names => (links, names.length)

/-- The place that a path leads to from a directory, all links followed. -/
def follow (fs : FileSystem) (directory : Location) (p : Path) : Except IoError Location :=
  if p.chars.contains '\x00' then .error .nulInPath
  else if p.text = "" then .error .notFound
  else if pathBound ≤ p.text.utf8ByteSize then .error .nameTooLong
  else fs.walk false linkBound (startOf directory p) (steps p)

/-- A path without a zero character that is neither empty nor too long is followed along its
names. -/
theorem follow_eq_walk (fs : FileSystem) {directory start : Location} {p : Path}
    {names : List String} (hplain : p.chars.contains '\x00' = false ∧ p.text ≠ "" ∧
      ¬ pathBound ≤ p.text.utf8ByteSize)
    (hstart : startOf directory p = start) (hsteps : steps p = names) :
    fs.follow directory p = fs.walk false linkBound start names := by
  obtain ⟨hnul, hempty, hlong⟩ := hplain
  rw [follow, hnul, if_neg Bool.false_ne_true, if_neg hempty, if_neg hlong, hstart, hsteps]

/-- The path of the place that a path leads to, free of links, `.` and `..`. -/
def canonical? (fs : FileSystem) (directory : Location) (p : Path) : Option Path :=
  match fs.follow directory p with
  | .ok place => some place.toPath
  | .error _ => none

/-- The file or directory that a path leads to. -/
def find (fs : FileSystem) (directory : Location) (p : Path) : Except IoError Entry := do
  let place ← fs.follow directory p
  match fs.entry? place with
  | some entry => .ok entry
  | none => .error .notFound

/-- The bytes of a file. -/
def read (fs : FileSystem) (directory : Location) (p : Path) : Except IoError ByteArray := do
  match ← fs.find directory p with
  | .file f => .ok f.contents
  | _ => .error .isADirectory

/-- The text of a file. -/
def readText (fs : FileSystem) (directory : Location) (p : Path) : Except IoError String := do
  match Text.decode? (← fs.read directory p) with
  | some text => .ok text
  | none => .error .invalidUtf8

/-- When the file or directory was last changed, if there is one. -/
def modified? (fs : FileSystem) (directory : Location) (p : Path) : Option Timestamp :=
  match fs.find directory p with
  | .ok (.file f) => some f.modified
  | .ok (.directory modified) => some modified
  | _ => none

/-- The regular file that a path leads to, if it leads to one. -/
def regularFile? (fs : FileSystem) (directory : Location) (p : Path) : Option RegularFile :=
  match fs.find directory p with
  | .ok (.file f) => some f
  | _ => none

/-- Holds when a path leads to a regular file. -/
def isRegularFile (fs : FileSystem) (directory : Location) (p : Path) : Bool :=
  (fs.regularFile? directory p).isSome

/-! ### Changes -/

/-- Gives a place an entry in the stead of the one it had. -/
def setEntry (fs : FileSystem) (place : Location) (entry : Entry) : FileSystem :=
  { fs with entries := (place, entry) :: fs.entries.filter fun e => e.1 ≠ place }

/-- Notes that the names in a directory changed. -/
def stampDirectory (fs : FileSystem) (place : Location) : FileSystem :=
  match fs.entry? place with
  | some (.directory _) => if place = [] then fs else fs.setEntry place (.directory fs.now)
  | _ => fs

/-- Counts a change. -/
def tick (fs : FileSystem) : FileSystem := { fs with changes := fs.changes + 1 }

/-- Takes a place and everything below it away. -/
def removeAt (fs : FileSystem) (place : Location) : FileSystem :=
  { fs with entries := fs.entries.filter fun e => !place.isPrefixOf e.1 }

/-- Makes a place a new entry in its directory. -/
def putAt (fs : FileSystem) (place : Location) (entry : Entry) : FileSystem :=
  (((fs.removeAt place).setEntry place entry).stampDirectory place.dropLast).tick

/-- Goes along the steps from a place and makes the directories that are missing, unless
another entry is in the way. -/
def makeDirectories? (fs : FileSystem) (place : Location) :
    List String → Option (FileSystem × Location)
  | [] => if (fs.entry? place).any Entry.isDirectory then some (fs, place) else none
  | name :: rest =>
    match fs.walk false linkBound place [name], fs.entry? (place ++ [name]) with
    | .ok next, _ => fs.makeDirectories? next rest
    | .error .notFound, none =>
      (fs.putAt (place ++ [name]) (.directory fs.now)).makeDirectories? (place ++ [name]) rest
    | .error _, _ => none

/-- The steps of a path that lead somewhere else. -/
def strides (p : Path) : List String := (steps p).filter (· ≠ ".")

/-- The place of the entry that a path names, a link in the last step not followed.  It
lies in a directory. -/
def placeOf? (fs : FileSystem) (directory : Location) (p : Path) : Option Location :=
  match (strides p).getLast? with
  | none => none
  | some name =>
    match fs.walk false linkBound (startOf directory p) ((strides p).dropLast ++ ["."]) with
    | .ok place => some (place ++ [name])
    | .error _ => none

/-- Gives the file of a place its contents, and makes the file where there is none. -/
def fill? (fs : FileSystem) (place : Location) (contents : ByteArray) (isProgram : Bool) :
    Option FileSystem :=
  match fs.entry? place with
  | none =>
    let file := { contents, executable := false, isProgram, modified := fs.now }
    some (fs.putAt place (.file file))
  | some (.file f) =>
    some (fs.setEntry place (.file { f with contents, isProgram, modified := fs.now })).tick
  | some _ => none

/-- Removes what a path names: a link itself, a directory with everything in it. -/
def remove (fs : FileSystem) (directory : Location) (p : Path) : FileSystem :=
  match fs.placeOf? directory p with
  | none => fs
  | some place =>
    match fs.entry? place with
    | none => fs
    | some _ => ((fs.removeAt place).stampDirectory place.dropLast).tick

/-- Holds when an entry may be moved to a place.  A directory may come in the stead of an
empty directory only, and nothing else in the stead of a directory. -/
def admits (fs : FileSystem) (place : Location) (entry : Entry) : Bool :=
  match fs.entry? place with
  | none => true
  | some present =>
    entry.isDirectory = present.isDirectory
      && fs.entries.all fun e => !(place.isPrefixOf e.1 && e.1 ≠ place)

/-- Takes a place and everything below it to another place. -/
def moveAt (fs : FileSystem) (source target : Location) : FileSystem :=
  let moved := fs.entries.filter fun e => source.isPrefixOf e.1
  let cleared := (fs.removeAt source).removeAt target
  let renamed := moved.map fun e => (target ++ e.1.drop source.length, e.2)
  let placed := { cleared with entries := renamed ++ cleared.entries }
  ((placed.stampDirectory source.dropLast).stampDirectory target.dropLast).tick

/-- Moves what one path names to where another says. -/
def rename (fs : FileSystem) (directory : Location) (p q : Path) : FileSystem :=
  match fs.placeOf? directory p, fs.placeOf? directory q with
  | some source, some target =>
    match fs.entry? source with
    | none => fs
    | some entry =>
      if source.isPrefixOf target || !fs.admits target entry then fs
      else fs.moveAt source target
  | _, _ => fs

/-- Changes the entry that a path leads to. -/
def alter (fs : FileSystem) (directory : Location) (p : Path) (change : Entry → Entry) :
    FileSystem :=
  match fs.follow directory p with
  | .error _ => fs
  | .ok place => (fs.entry? place).elim fs fun entry => fs.setEntry place (change entry)

/-- Sets the time of the file or directory that a path leads to. -/
def touch (fs : FileSystem) (directory : Location) (p : Path) (time : Timestamp) :
    FileSystem :=
  fs.alter directory p (Entry.stamped time)

/-- Says of the file that a path leads to whether it may be started. -/
def setExecutable (fs : FileSystem) (directory : Location) (p : Path) (executable : Bool) :
    FileSystem :=
  fs.alter directory p (Entry.withExecutable executable)

end FileSystem

/-! ### Changes as data -/

/-- What is written where a path says. -/
inductive NewEntry
  | file (contents : ByteArray) (isProgram : Bool)
  | directory
  | link (target : Path)

/-- A change of files. -/
inductive FileChange
  /-- Makes or changes an entry.  It may be said whether the file may be started, and a
  time may be given. -/
  | write (path : Path) (entry : NewEntry) (executable : Option Bool)
      (modified : Option Timestamp)
  | touch (path : Path) (time : Timestamp)
  | remove (path : Path)
  | rename (path target : Path)

namespace FileSystem

/-- Writes where a path says, in directories made as needed.  A file is written at the end
of all links, a directory that is there stays as it is, and a link takes the place of any
other entry. -/
def write? (fs : FileSystem) (directory : Location) (p : Path) :
    NewEntry → Option FileSystem
  | .directory => (fs.makeDirectories? (startOf directory p) (strides p)).map (·.1)
  | .file contents isProgram => do
    let name ← (strides p).getLast?
    let (fs, place) ← fs.makeDirectories? (startOf directory p) (strides p).dropLast
    let place ← (fs.walk true linkBound place [name]).toOption
    fs.fill? place contents isProgram
  | .link target => do
    let name ← (strides p).getLast?
    let (fs, place) ← fs.makeDirectories? (startOf directory p) (strides p).dropLast
    return fs.putAt (place ++ [name]) (.link target)

/-- Carries out a change, with paths as seen from a directory.  What cannot be written is
not. -/
def apply (fs : FileSystem) (directory : Location) : FileChange → FileSystem
  | .write p entry executable modified =>
    match fs.write? directory p entry with
    | none => fs
    | some fs =>
      let fs := executable.elim fs (fs.setExecutable directory p)
      modified.elim fs (fs.touch directory p)
  | .touch p time => fs.touch directory p time
  | .remove p => fs.remove directory p
  | .rename p q => fs.rename directory p q

/-- Carries out changes in order. -/
def applyAll (fs : FileSystem) (directory : Location) (changes : List FileChange) :
    FileSystem :=
  changes.foldl (fun fs change => fs.apply directory change) fs

end FileSystem

end LuaDiagnostics
