/-
TOML values and how a document adds to them.

A table remembers how it came to be, because that decides what may still be added:

* a **header** table was opened by its own header and is filled below it;
* an **implied** table only lies on the way to another header, so it may still get one;
* a **dotted** table was made by a dotted key and is open to further dotted keys of the
  same section;
* an **inline** table is complete where it stands.

`update` goes along a path of keys under these rules, `assign` gives a key its value, and
`openTable` and `openElement` begin the sections of a document.
-/
namespace LuaDiagnostics.Toml

/-- How a table came to be. -/
inductive Origin
  | header
  | implied
  | dotted
  | inline
deriving DecidableEq, Repr

/-- The values of a document.  Numbers with a fraction and times are kept as written, and
the elements of an array of tables stand latest first. -/
inductive Value
  | boolean (b : Bool)
  | string (s : String)
  | integer (n : Int)
  | float (text : String)
  | datetime (text : String)
  | array (items : List Value)
  | table (origin : Origin) (members : List (String × Value))
  | tables (elements : List (List (String × Value)))

/-- The keys of a table with their values, in the order of the document. -/
abbrev Members := List (String × Value)

/-- The value of a key. -/
def Members.get? (members : Members) (key : String) : Option Value :=
  (members.find? fun m => m.1 = key).map (·.2)

/-- Gives a key that is there a new value. -/
def Members.replace (members : Members) (key : String) (value : Value) : Members :=
  members.map fun m => if m.1 = key then (key, value) else m

/-- Gives a key a new value and the last place. -/
def Members.moveLast (members : Members) (key : String) (value : Value) : Members :=
  (members.filter fun m => m.1 ≠ key) ++ [(key, value)]

/-- Gives a key its only value. -/
def Members.define? (members : Members) (key : String) (value : Value) : Option Members :=
  match members.get? key with
  | none => some (members ++ [(key, value)])
  | some _ => none

/-- Changes the table at the end of a path, which is made where it is missing.  A dotted
path does not lead into tables that have their own header. -/
def update (isDotted : Bool) (change : Origin → Members → Option Members) (origin : Origin)
    (members : Members) : List String → Option Members
  | [] => change origin members
  | key :: path =>
    let made := if isDotted then Origin.dotted else Origin.implied
    match members.get? key with
    | none => do
      let inner ← update isDotted change made [] path
      return members ++ [(key, .table made inner)]
    | some (.table .inline _) => none
    | some (.table found inner) => do
      if isDotted ∧ found = .header then none
      let inner ← update isDotted change found inner path
      return members.replace key (.table found inner)
    | some (.tables (last :: earlier)) => do
      let last ← update isDotted change .header last path
      return members.replace key (.tables (last :: earlier))
    | some _ => none

/-- Gives the last key of a path its value.  The keys before it lead through tables made
by dotted keys. -/
def assign (path : List String) (value : Value) (members : Members) : Option Members :=
  match path.getLast?, path.dropLast with
  | none, _ => none
  | some key, [] => members.define? key value
  | some key, way =>
    update true
      (fun origin inner => if origin = .dotted then inner.define? key value else none)
      .header members way

/-- Begins the section of a table.  An implied table has its place from now on where its
header stands. -/
def openTable (path : List String) (root : Members) : Option Members := do
  let key ← path.getLast?
  update false
    (fun _ members =>
      match members.get? key with
      | none => some (members ++ [(key, .table .header [])])
      | some (.table .implied inner) => some (members.moveLast key (.table .header inner))
      | some _ => none)
    .header root path.dropLast

/-- Begins the section of a new element in an array of tables. -/
def openElement (path : List String) (root : Members) : Option Members := do
  let key ← path.getLast?
  update false
    (fun _ members =>
      match members.get? key with
      | none => some (members ++ [(key, .tables [[]])])
      | some (.tables elements) => some (members.replace key (.tables ([] :: elements)))
      | some _ => none)
    .header root path.dropLast

end LuaDiagnostics.Toml
