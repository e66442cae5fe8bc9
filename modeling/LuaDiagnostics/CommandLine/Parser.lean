/-
Understanding command lines.

A command line has two levels: the words up to the name of an activity, and those after
it.  Options for all activities may stand on both levels, and the later level wins; on
one level an option is given at most once.

The words of a level are read from left to right.  An option that takes a value keeps it
**pending** until the next option or argument begins, and only then is the value looked
at: this decides which of several mistakes is reported.  Behind `--` all words are
arguments.

* **`read`** takes the words of a level.
* **`parse`** understands a whole command line.
-/
import LuaDiagnostics.CommandLine.Invocation
import LuaDiagnostics.Text.Search

namespace LuaDiagnostics

/-- Why there is nothing to do: a mistake, or a question about the program itself. -/
inductive UsageError
  | unknownArgument
  | missingArgument
  | invalidValue
  | notANumber
  | invalidActivity
  | missingActivity
  | repeatedArgument
  | valueForFlag
  | helpAsked
  | versionAsked
  | nothingGiven
deriving DecidableEq, Repr, Inhabited

namespace UsageError

/-- The exit code of a program that ends with this. -/
def exitCode : UsageError → Nat
  | helpAsked => 0
  | versionAsked => 0
  | _ => 2

/-- How the program is called. -/
def synopsis : String :=
  "usage: lualinter [options] (check FILE... | watch FILE... | parse --file FILE [LINE])\n"

/-- What is said about a command line. -/
def message : UsageError → String
  | unknownArgument => "error: unknown argument\n" ++ synopsis
  | missingArgument => "error: an argument is missing\n" ++ synopsis
  | invalidValue => "error: a value is missing or not one of those possible\n" ++ synopsis
  | notANumber => "error: a value is not a number, or too large\n" ++ synopsis
  | invalidActivity => "error: there is no such activity\n" ++ synopsis
  | missingActivity => "error: no activity is given\n" ++ synopsis
  | repeatedArgument => "error: an argument is given twice\n" ++ synopsis
  | valueForFlag => "error: an argument does not take a value\n" ++ synopsis
  | helpAsked => synopsis
  | versionAsked => "lualinter\n"
  | nothingGiven => synopsis

end UsageError

namespace CommandLine

/-! ### Arguments -/

/-- Everything that can be given. -/
inductive Argument
  | configuration
  | interpreter
  | compilerPath
  | warnOnSave
  | disable
  | format
  | noColor
  | interval
  | file
  | help
  | version
  | files
  | line
deriving DecidableEq, Repr

namespace Argument

/-- The argument is followed by a value or is one. -/
def takesValue : Argument → Bool
  | warnOnSave | disable | noColor | help | version => false
  | _ => true

/-- The argument may be given several times. -/
def isList : Argument → Bool
  | files => true
  | _ => false

/-- Times are below this bound. -/
def wordBound : Nat := 0x10000000000000000

/-- Checks one value of an argument. -/
def check (a : Argument) (value : String) : Except UsageError Unit :=
  match a with
  | configuration | compilerPath | file | files =>
    if value = "" then .error .invalidValue else .ok ()
  | format => if (OutputFormat.ofName? value).isNone then .error .invalidValue else .ok ()
  | interval =>
    let digits : List Char := match value.toList with
      | '+' :: rest => rest
      | cs => cs
    let n : Nat := digits.foldl (fun n c => 10 * n + (c.toNat - '0'.toNat)) 0
    if digits ≠ [] ∧ digits.all (fun c => '0' ≤ c ∧ c ≤ '9') ∧ n < wordBound then .ok ()
    else .error .notANumber
  | _ => .ok ()

end Argument

/-- The two levels of a command line. -/
inductive Level
  | top
  | check
  | watch
  | parse
deriving DecidableEq, Repr

namespace Level

/-- The level behind the name of an activity. -/
def ofName? : String → Option Level
  | "check" => some check
  | "watch" => some watch
  | "parse" => some parse
  | _ => none

/-- The option with a long name. -/
def long? (l : Level) : String → Option Argument
  | "config" => some .configuration
  | "interpreter" => some .interpreter
  | "compiler-path" => some .compilerPath
  | "warn-on-save" => some .warnOnSave
  | "disable" => some .disable
  | "format" => some .format
  | "no-color" => some .noColor
  | "help" => some .help
  | "version" => if l = top then some .version else none
  | "interval" => if l = watch then some .interval else none
  | "file" => if l = parse then some .file else none
  | _ => none

/-- The option with a short name. -/
def short? (l : Level) : Char → Option Argument
  | 'c' => some .configuration
  | 'i' => some .interpreter
  | 'f' => some .format
  | 'h' => some .help
  | 'V' => if l = top then some .version else none
  | _ => none

/-- The argument that a word without dashes belongs to. -/
def positional? : Level → Option Argument
  | top => none
  | check => some .files
  | watch => some .files
  | parse => some .line

/-- The argument that cannot be left out. -/
def required? : Level → Option Argument
  | top => none
  | check => some .files
  | watch => some .files
  | parse => some .file

end Level

/-! ### Values given -/

/-- The values that were given on a level. -/
structure Given where
  values : List (Argument × List String)
  /-- The argument that is still open, with its values so far. -/
  pending : Option (Argument × List String)
deriving DecidableEq, Repr

namespace Given

/-- Nothing was given. -/
def nothing : Given := { values := [], pending := none }

/-- The values of an argument. -/
def get? (g : Given) (a : Argument) : Option (List String) :=
  (g.values.find? fun v => v.1 = a).map (·.2)

/-- An argument is there, whatever its values. -/
def has (g : Given) (a : Argument) : Bool := (g.get? a).isSome

/-- Takes an argument with its values, after checking them. -/
def commit (g : Given) (a : Argument) (values : List String) : Except UsageError Given := do
  match a with
  | .help => throw .helpAsked
  | .version => throw .versionAsked
  | _ => pure ()
  if a.takesValue ∧ values = [] then throw .invalidValue
  if g.has a ∧ ¬ a.isList then throw .repeatedArgument
  values.forM a.check
  let before := (g.get? a).getD []
  return { g with values := (a, before ++ values) :: g.values.filter fun v => v.1 ≠ a }

/-- Takes the argument that is still open. -/
def settle (g : Given) : Except UsageError Given :=
  match g.pending with
  | none => .ok g
  | some (a, values) => { g with pending := none }.commit a values

/-- Opens an argument, after taking the one before. -/
def begin (g : Given) (a : Argument) (values : List String) : Except UsageError Given := do
  return { (← g.settle) with pending := some (a, values) }

/-- Takes an argument at once, after the one before. -/
def take (g : Given) (a : Argument) (values : List String) : Except UsageError Given := do
  (← g.settle).commit a values

/-- Adds a word to an argument of its own. -/
def addWord (g : Given) (a : Argument) (word : String) : Except UsageError Given :=
  match g.pending with
  | some (b, values) =>
    if b = a ∧ a.isList then .ok { g with pending := some (a, values ++ [word]) }
    else g.begin a [word]
  | none => g.begin a [word]

/-- The values of two levels, of which the second wins. -/
def updatedWith (g h : Given) : Given :=
  { values := h.values ++ g.values, pending := none }

/-- The last value of an argument. -/
def value? (g : Given) (a : Argument) : Option String := (g.get? a).bind List.getLast?

end Given

/-! ### Words -/

/-- Reads an option with a long name and perhaps a value behind an equals sign.  Answers
whether the next word is its value. -/
def readLong (l : Level) (g : Given) (body : List Char) : Except UsageError (Given × Bool) :=
  let name := body.takeWhile (· ≠ '=')
  let attached := match body.dropWhile (· ≠ '=') with
    | [] => none
    | _ :: value => some (String.ofList value)
  match l.long? (String.ofList name), attached with
  | none, _ => .error .unknownArgument
  | some a, none =>
    if a.takesValue then (g.begin a []).map fun g => (g, true)
    else (g.take a []).map fun g => (g, false)
  | some a, some value =>
    if a.takesValue then (g.take a [value]).map fun g => (g, false)
    else .error .valueForFlag

/-- Reads options with short names, of which the last may have its value attached. -/
def readShort (l : Level) (g : Given) : List Char → Except UsageError (Given × Bool)
  | [] => .ok (g, false)
  | c :: rest =>
    match l.short? c with
    | none => .error .unknownArgument
    | some a =>
      if ¬ a.takesValue then
        match g.take a [] with
        | .error e => .error e
        | .ok g => readShort l g rest
      else
        match rest with
        | [] => (g.begin a []).map fun g => (g, true)
        | '=' :: value => (g.take a [String.ofList value]).map fun g => (g, false)
        | value => (g.take a [String.ofList value]).map fun g => (g, false)

/-- Takes a word as an argument of its level. -/
def readWord (l : Level) (g : Given) (trailing : Bool) (word : String) :
    Except UsageError Given :=
  match l.positional? with
  | none =>
    if trailing ∧ (word = "help" ∨ (Level.ofName? word).isSome) then .error .unknownArgument
    else .error .invalidActivity
  | some a =>
    -- An argument that is no list takes one word only.
    if ¬ a.isList ∧ (g.has a ∨ g.pending.any fun p => p.1 = a) then .error .unknownArgument
    else g.addWord a word

/-- What the words of a level lead to: what they give and, when the name of an activity
ends them, that activity and the words behind it. -/
structure LevelReading where
  given : Given
  next : Option (Level × List String)

/-- The answer to a question about an activity. -/
def helpFor : List String → UsageError
  | [] => .helpAsked
  | [name] =>
    if name = "help" ∨ (Level.ofName? name).isSome then .helpAsked else .invalidActivity
  | _ => .invalidActivity

/-- Reads the words of a level.  `wantsValue` says that the last option still wants its
value, and `trailing` that `--` has been passed. -/
def read (l : Level) (g : Given) (wantsValue trailing : Bool) :
    List String → Except UsageError LevelReading
  | [] => .ok { given := g, next := none }
  | word :: rest =>
    if trailing then
      match readWord l g true word with
      | .error e => .error e
      | .ok g => read l g false true rest
    else if ¬ wantsValue ∧ l = .top ∧ word = "help" then .error (helpFor rest)
    else
      match (if wantsValue ∨ l ≠ .top then none else Level.ofName? word) with
      | some next => .ok { given := g, next := some (next, rest) }
      | none =>
        match word.toList with
        | ['-', '-'] => read l g wantsValue true rest
        | '-' :: '-' :: body =>
          match readLong l g body with
          | .error e => .error e
          | .ok (g, wants) => read l g wants false rest
        | '-' :: c :: body =>
          match readShort l g (c :: body) with
          | .error e => .error e
          | .ok (g, wants) => read l g wants false rest
        | _ =>
          if wantsValue then
            let g := { g with pending := g.pending.map fun p => (p.1, p.2 ++ [word]) }
            read l g false false rest
          else
            match readWord l g false word with
            | .error e => .error e
            | .ok g => read l g false false rest

/-! ### Command lines -/

/-- The number that digits, perhaps behind a plus sign, stand for. -/
def numberOf (text : String) : Nat :=
  (text.toList.filter (· ≠ '+')).foldl (fun n c => 10 * n + (c.toNat - '0'.toNat)) 0

/-- The activity of a level with the values given there. -/
def activityOf (l : Level) (g : Given) : Option Activity :=
  let files := ((g.get? .files).getD []).map Path.mk
  match l with
  | .top => none
  | .check => some (.check files)
  | .watch => some (.watch files (((g.value? .interval).map numberOf).getD defaultInterval))
  | .parse => (g.value? .file).map fun file => .parse ⟨file⟩ (g.value? .line)

/-- The invocation with some values. -/
def invocationOf (g : Given) (activity : Activity) : Invocation :=
  { configuration := (g.value? .configuration).map Path.mk
    interpreter := g.value? .interpreter
    compilerPath := (g.value? .compilerPath).map Path.mk
    warnOnSave := g.has .warnOnSave
    disable := g.has .disable
    format := ((g.value? .format).bind OutputFormat.ofName?).getD .human
    noColor := g.has .noColor
    activity }

/-- Reads the words behind the name of an activity. -/
def parseActivity (l : Level) (words : List String) : Except UsageError Given := do
  let reading ← read l .nothing false false words
  let given ← reading.given.settle
  match l.required? with
  | some a => if given.has a then return given else throw .missingArgument
  | none => return given

/-- Understands a command line.  Mistakes behind the name of an activity are reported
before a value that is still open in front of it. -/
def parse (words : List String) : Except UsageError Invocation := do
  let reading ← read .top .nothing false false words
  match reading.next with
  | none =>
    let given ← reading.given.settle
    if given.values.isEmpty then throw .nothingGiven else throw .missingActivity
  | some (l, rest) =>
    let inner ← parseActivity l rest
    let outer ← reading.given.settle
    match activityOf l inner with
    | some activity => return invocationOf (outer.updatedWith inner) activity
    | none => throw .missingArgument

end CommandLine

end LuaDiagnostics
