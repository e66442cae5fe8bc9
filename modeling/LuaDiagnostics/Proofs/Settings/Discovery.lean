/-
The configuration that decides.

* **`locate?_eq_some_iff`**: of the directories from a path upward the nearest one decides that
  holds a configuration, and in it the plain name goes before the hidden one;
  **`locate?_eq_none_iff`**: nothing is found exactly when none of them holds one.
* **`discover_eq_ok_iff`**, **`discover_eq_error_iff`**: the configuration that was found is
  used, or the reason why it cannot be is reported.  No other one is tried, nor are the
  defaults.
* **`nearest_decides`** puts these together, with what lies above a path and which paths lead
  to regular files.
-/
import LuaDiagnostics.Proofs.Path.Parts
import LuaDiagnostics.Proofs.Text.Utf8
import LuaDiagnostics.Settings.Discovery

namespace LuaDiagnostics

/-- A path leads to a regular file when it can be followed and there is one at its end. -/
theorem FileSystem.isRegularFile_iff (fs : FileSystem) (directory : Location) (p : Path) :
    fs.isRegularFile directory p = true ↔
      ∃ place file, fs.follow directory p = .ok place ∧ fs.entry? place = some (.file file) := by
  rw [isRegularFile, regularFile?, find]
  cases fs.follow directory p with
  | error e => simp [bind, Except.bind]
  | ok place =>
    cases hentry : fs.entry? place with
    | none => simp [bind, Except.bind, hentry]
    | some entry => cases entry <;> simp [bind, Except.bind, hentry]

namespace Settings

/-! ### One directory -/

/-- Where a directory has its configuration. -/
def plainIn (directory : Path) : Path := directory.join ⟨"lualinter.toml"⟩

/-- Where a directory has its configuration if that is hidden. -/
def hiddenIn (directory : Path) : Path := directory.join ⟨".lualinter.toml"⟩

theorem isName_fileNames : ∀ name ∈ fileNames, Path.IsName name := by
  decide

/-- Where a directory has its configurations, if the directory is written with names. -/
theorem candidates_written {fromRoot : Bool} {names : List String}
    (h : ∀ name ∈ names, Path.IsName name) :
    plainIn (.written fromRoot names) = .written fromRoot (names ++ ["lualinter.toml"]) ∧
    hiddenIn (.written fromRoot names) = .written fromRoot (names ++ [".lualinter.toml"]) :=
  ⟨Path.join_written h (isName_fileNames _ List.mem_cons_self),
    Path.join_written h (isName_fileNames _ (List.mem_cons_of_mem _ List.mem_cons_self))⟩

/-- A directory holds no configuration. -/
def HoldsNone (isFile : Path → Bool) (directory : Path) : Prop :=
  isFile (plainIn directory) = false ∧ isFile (hiddenIn directory) = false

/-- The configuration of a directory is the plain one if it holds that, and else the hidden
one. -/
def Holds (isFile : Path → Bool) (directory p : Path) : Prop :=
  isFile p = true ∧
    (p = plainIn directory ∨ p = hiddenIn directory ∧ isFile (plainIn directory) = false)

/-- The configuration is that of a directory some steps above, and no directory on the way
holds one. -/
def IsNearest (isFile : Path → Bool) (start p : Path) : Prop :=
  ∃ n directory, start.above? n = some directory ∧ Holds isFile directory p ∧
    ∀ m < n, ∀ nearer, start.above? m = some nearer → HoldsNone isFile nearer

/-- No directory upward holds a configuration. -/
def NoneUpward (isFile : Path → Bool) (start : Path) : Prop :=
  ∀ n directory, start.above? n = some directory → HoldsNone isFile directory

variable {isFile : Path → Bool} {directory start p : Path}

theorem locateIn?_eq (isFile : Path → Bool) (directory : Path) : locateIn? isFile directory
    = if isFile (plainIn directory) then some (plainIn directory)
      else if isFile (hiddenIn directory) then some (hiddenIn directory) else none := by
  show [plainIn directory, hiddenIn directory].find? isFile = _
  rw [List.find?_cons, List.find?_cons, List.find?_nil]
  cases isFile (plainIn directory) <;> cases isFile (hiddenIn directory) <;> rfl

theorem locateIn?_eq_some_iff :
    locateIn? isFile directory = some p ↔ Holds isFile directory p := by
  rw [locateIn?_eq, Holds]
  cases hplain : isFile (plainIn directory) with
  | true =>
    rw [if_pos rfl, Option.some.injEq]
    constructor
    · rintro rfl
      exact ⟨hplain, .inl rfl⟩
    · rintro ⟨-, rfl | ⟨-, hnot⟩⟩
      · rfl
      · exact absurd hnot (by simp)
  | false =>
    rw [if_neg Bool.false_ne_true, Option.ite_none_right_eq_some, Option.some.injEq]
    constructor
    · rintro ⟨hhidden, rfl⟩
      exact ⟨hhidden, .inr ⟨rfl, rfl⟩⟩
    · rintro ⟨hfile, rfl | ⟨rfl, -⟩⟩
      · exact absurd (hplain.symm.trans hfile) (by simp)
      · exact ⟨hfile, rfl⟩

theorem locateIn?_eq_none_iff :
    locateIn? isFile directory = none ↔ HoldsNone isFile directory := by
  rw [locateIn?_eq, HoldsNone]
  cases isFile (plainIn directory) <;> cases isFile (hiddenIn directory) <;> simp

/-! ### All directories upward -/

/-- What is found is the nearest configuration. -/
theorem locate?_eq_some_iff : locate? isFile start = some p ↔ IsNearest isFile start p := by
  rw [locate?, List.findSome?_eq_some_iff]
  constructor
  · rintro ⟨nearer, directory, farther, hancestors, hfound, hnearer⟩
    refine ⟨nearer.length, directory, ?_, locateIn?_eq_some_iff.mp hfound,
      fun m hm other hother => ?_⟩
    · rw [← Path.getElem?_ancestors, hancestors, List.getElem?_append_right (Nat.le_refl _),
        Nat.sub_self, List.getElem?_cons_zero]
    · rw [← Path.getElem?_ancestors, hancestors, List.getElem?_append_left hm] at hother
      exact locateIn?_eq_none_iff.mp (hnearer other (List.mem_of_getElem? hother))
  · rintro ⟨n, directory, habove, hholds, hnearer⟩
    rw [← Path.getElem?_ancestors] at habove
    obtain ⟨hn, hget⟩ := List.getElem?_eq_some_iff.mp habove
    refine ⟨start.ancestors.take n, directory, start.ancestors.drop (n + 1), ?_,
      locateIn?_eq_some_iff.mpr hholds, fun other hother => ?_⟩
    · rw [← hget, ← List.drop_eq_getElem_cons hn, List.take_append_drop]
    · obtain ⟨m, hm⟩ := List.mem_iff_getElem?.mp hother
      obtain ⟨hlt, hget'⟩ := Option.ite_none_right_eq_some.mp (List.getElem?_take.symm.trans hm)
      rw [Path.getElem?_ancestors] at hget'
      exact locateIn?_eq_none_iff.mpr (hnearer m hlt other hget')

/-- Nothing is found exactly when there is nothing to be found. -/
theorem locate?_eq_none_iff : locate? isFile start = none ↔ NoneUpward isFile start := by
  rw [locate?, List.findSome?_eq_none_iff]
  constructor
  · intro hnone n directory habove
    rw [← Path.getElem?_ancestors] at habove
    exact locateIn?_eq_none_iff.mp (hnone directory (List.mem_of_getElem? habove))
  · intro hnone directory hmem
    obtain ⟨n, habove⟩ := List.mem_iff_getElem?.mp hmem
    rw [Path.getElem?_ancestors] at habove
    exact locateIn?_eq_none_iff.mpr (hnone n directory habove)

/-! ### Loading what was found -/

/-- Why a configuration cannot be used: it cannot be read, or it says something wrong. -/
def FailsWith (fs : FileSystem) (directory : Location) (p : Path) (e : Failure) : Prop :=
  (∃ cause, fs.readText directory p = .error cause ∧ e = .io cause) ∨
    ∃ text wrong, fs.readText directory p = .ok text ∧ (ofToml text).result = .error wrong ∧
      e = .settings p wrong

theorem mapError_eq_ok_iff {α ε ε' : Type} {x : Except ε α} {f : ε → ε'} {a : α} :
    x.mapError f = .ok a ↔ x = .ok a := by
  cases x with
  | error cause => exact ⟨nofun, nofun⟩
  | ok b => rw [Except.mapError, Except.ok.injEq, Except.ok.injEq]

theorem mapError_eq_error_iff {α ε ε' : Type} {x : Except ε α} {f : ε → ε'} {e : ε'} :
    x.mapError f = .error e ↔ ∃ cause, x = .error cause ∧ e = f cause := by
  cases x with
  | error cause =>
    constructor
    · intro h
      exact ⟨cause, rfl, (Except.error.inj h).symm⟩
    · rintro ⟨cause', hcause, rfl⟩
      obtain rfl := Except.error.inj hcause
      rfl
  | ok a => exact ⟨nofun, nofun⟩

variable {fs : FileSystem} {place : Location}

theorem load_of_unreadable {cause : IoError} (h : fs.readText place p = .error cause) :
    load fs place p = { warnings := [], result := .error (.io cause) } := by
  rw [load, h]

theorem result_load_of_text {text : String} (h : fs.readText place p = .ok text) :
    (load fs place p).result = (ofToml text).result.mapError (.settings p) := by
  rw [load, h]

theorem load_eq_ok_iff {s : Settings} : (load fs place p).result = .ok s ↔
    ∃ text, fs.readText place p = .ok text ∧ (ofToml text).result = .ok s := by
  cases hread : fs.readText place p with
  | error cause =>
    rw [load_of_unreadable hread]
    exact ⟨nofun, nofun⟩
  | ok text =>
    rw [result_load_of_text hread, mapError_eq_ok_iff]
    constructor
    · intro hresult
      exact ⟨text, rfl, hresult⟩
    · rintro ⟨text', htext, hresult⟩
      obtain rfl := Except.ok.inj htext
      exact hresult

theorem load_eq_error_iff {e : Failure} :
    (load fs place p).result = .error e ↔ FailsWith fs place p e := by
  rw [FailsWith]
  cases hread : fs.readText place p with
  | error cause =>
    rw [load_of_unreadable hread]
    constructor
    · intro h
      exact .inl ⟨cause, rfl, (Except.error.inj h).symm⟩
    · rintro (⟨cause', hcause, rfl⟩ | ⟨_, _, h, _⟩)
      · rw [Except.error.inj hcause]
      · exact nomatch h
  | ok text =>
    rw [result_load_of_text hread, mapError_eq_error_iff]
    constructor
    · rintro ⟨wrong, hwrong, rfl⟩
      exact .inr ⟨text, wrong, rfl, hwrong, rfl⟩
    · rintro (⟨_, h, _⟩ | ⟨text', wrong, htext, hwrong, rfl⟩)
      · exact nomatch h
      · obtain rfl := Except.ok.inj htext
        exact ⟨wrong, hwrong, rfl⟩

theorem discover_of_isNearest (h : IsNearest (fs.isRegularFile place) place.toPath p) :
    discover fs place = (load fs place p, some p) := by
  unfold discover
  simp only [locate?_eq_some_iff.mpr h]

theorem discover_of_noneUpward (h : NoneUpward (fs.isRegularFile place) place.toPath) :
    discover fs place = ({ warnings := [], result := .ok default }, none) := by
  unfold discover
  simp only [locate?_eq_none_iff.mpr h]

/-- Either there is a nearest configuration or there is none. -/
theorem isNearest_or_noneUpward (isFile : Path → Bool) (start : Path) :
    (∃ p, IsNearest isFile start p) ∨ NoneUpward isFile start := by
  cases hlocate : locate? isFile start with
  | none => exact .inr (locate?_eq_none_iff.mp hlocate)
  | some p => exact .inl ⟨p, locate?_eq_some_iff.mp hlocate⟩

theorem IsNearest.unique {q : Path} (hp : IsNearest isFile start p)
    (hq : IsNearest isFile start q) : p = q :=
  Option.some.inj ((locate?_eq_some_iff.mpr hp).symm.trans (locate?_eq_some_iff.mpr hq))

theorem IsNearest.not_noneUpward (h : IsNearest isFile start p) : ¬ NoneUpward isFile start := by
  rw [← locate?_eq_none_iff, locate?_eq_some_iff.mpr h]
  exact Option.some_ne_none p

/-- The nearest configuration is used, or the defaults where there is none. -/
theorem discover_eq_ok_iff {s : Settings} : (discover fs place).1.result = .ok s ↔
    (∃ p text, IsNearest (fs.isRegularFile place) place.toPath p ∧
      fs.readText place p = .ok text ∧ (ofToml text).result = .ok s) ∨
    NoneUpward (fs.isRegularFile place) place.toPath ∧ s = default := by
  rcases isNearest_or_noneUpward (fs.isRegularFile place) place.toPath with ⟨p, hnearest⟩ | hnone
  · rw [discover_of_isNearest hnearest, load_eq_ok_iff]
    constructor
    · rintro ⟨text, hread, hresult⟩
      exact .inl ⟨p, text, hnearest, hread, hresult⟩
    · rintro (⟨q, text, hq, hread, hresult⟩ | ⟨hnone, -⟩)
      · obtain rfl := hnearest.unique hq
        exact ⟨text, hread, hresult⟩
      · exact absurd hnone hnearest.not_noneUpward
  · rw [discover_of_noneUpward hnone]
    constructor
    · intro h
      exact .inr ⟨hnone, (Except.ok.inj h).symm⟩
    · rintro (⟨q, -, hq, -⟩ | ⟨-, rfl⟩)
      · exact absurd hnone hq.not_noneUpward
      · rfl

/-- Only the nearest configuration is ever at fault. -/
theorem discover_eq_error_iff {e : Failure} : (discover fs place).1.result = .error e ↔
    ∃ p, IsNearest (fs.isRegularFile place) place.toPath p ∧ FailsWith fs place p e := by
  rcases isNearest_or_noneUpward (fs.isRegularFile place) place.toPath with ⟨p, hnearest⟩ | hnone
  · rw [discover_of_isNearest hnearest, load_eq_error_iff]
    constructor
    · intro hfails
      exact ⟨p, hnearest, hfails⟩
    · rintro ⟨q, hq, hfails⟩
      obtain rfl := hnearest.unique hq
      exact hfails
  · rw [discover_of_noneUpward hnone]
    constructor
    · exact nofun
    · rintro ⟨q, hq, -⟩
      exact absurd hnone hq.not_noneUpward

theorem discover_snd (fs : FileSystem) (place : Location) :
    (discover fs place).2 = locate? (fs.isRegularFile place) place.toPath := by
  unfold discover
  cases locate? (fs.isRegularFile place) place.toPath <;> rfl

/-- **The nearest configuration decides.**  Let it be known of every path whether it leads to a
regular file, and let the search begin at any path.
* What is found is the configuration of the nearest directory upward that holds one, the plain
  one if it holds both, and nothing is found exactly when no directory upward holds any.
* There are as many directories above a path as it has parts.  Each is a beginning of the path
  without the last of its parts.  If nothing in the path counts for nothing, each is written with
  the names that are left, and what it may hold with one name more.
* In a file system only what ends at a regular file, all links followed, is a configuration, so
  directories and links that lead nowhere are passed over.
* The settings are those that the nearest configuration says, or the defaults where there is
  none.  They are missing exactly when the nearest configuration cannot be read or says
  something wrong, and then it is this that is reported. -/
theorem nearest_decides (isFile : Path → Bool) (start : Path) :
    (∀ p, locate? isFile start = some p ↔ IsNearest isFile start p) ∧
    (locate? isFile start = none ↔ NoneUpward isFile start) ∧
    (∀ n, (start.above? n).isSome = true ↔ n ≤ start.namedParts.length) ∧
    (∀ n directory, start.above? n = some directory →
      directory.namedParts = start.namedParts.take (start.namedParts.length - n) ∧
        directory.chars <+: start.chars ∧ directory.isAbsolute = start.isAbsolute) ∧
    (∀ fromRoot names, (∀ name ∈ names, Path.IsName name) → start = .written fromRoot names →
      ∀ n, start.above? n = if n ≤ names.length
        then some (.written fromRoot (names.take (names.length - n))) else none) ∧
    (∀ fromRoot names, (∀ name ∈ names, Path.IsName name) →
      plainIn (.written fromRoot names) = .written fromRoot (names ++ ["lualinter.toml"]) ∧
      hiddenIn (.written fromRoot names) = .written fromRoot (names ++ [".lualinter.toml"])) ∧
    ∀ fs place,
      (∀ p, FileSystem.isRegularFile fs place p = true ↔
        ∃ target file, fs.follow place p = .ok target ∧ fs.entry? target = some (.file file)) ∧
      (∀ s, (discover fs place).1.result = .ok s ↔
        (∃ p text, IsNearest (fs.isRegularFile place) place.toPath p ∧
          fs.readText place p = .ok text ∧ (ofToml text).result = .ok s) ∨
        NoneUpward (fs.isRegularFile place) place.toPath ∧ s = default) ∧
      (∀ e, (discover fs place).1.result = .error e ↔
        ∃ p, IsNearest (fs.isRegularFile place) place.toPath p ∧ FailsWith fs place p e) ∧
      ∀ p, (discover fs place).2 = some p ↔
        IsNearest (fs.isRegularFile place) place.toPath p := by
  refine ⟨fun p => locate?_eq_some_iff, locate?_eq_none_iff, Path.isSome_above?_iff,
    fun n directory => Path.of_above?_eq_some, ?_, fun fromRoot names => candidates_written,
    fun fs place => ⟨fs.isRegularFile_iff place, fun s => discover_eq_ok_iff,
      fun e => discover_eq_error_iff, fun p => ?_⟩⟩
  · rintro fromRoot names hnames rfl n
    exact Path.above?_written hnames n
  · rw [discover_snd, locate?_eq_some_iff]

/-! ### Names that lead to no file -/

/-- A path from the root is followed along its names. -/
theorem follow_eq_walk (names : List String)
    (h : (p.chars.contains '\x00' = false ∧ p.text ≠ "" ∧
        ¬ FileSystem.pathBound ≤ p.text.utf8ByteSize) ∧
      p.isAbsolute = true ∧ FileSystem.steps p = names) :
    fs.follow place p = fs.walk false FileSystem.linkBound [] names := by
  obtain ⟨hplain, habsolute, hsteps⟩ := h
  refine fs.follow_eq_walk hplain ?_ hsteps
  rw [FileSystem.startOf, habsolute, if_pos rfl]

/-- The current directory for examples. -/
def nestedPlace : Location := ["home", "p", "q"]

/-- Files for examples: the configuration of the current directory is a directory, and in the
directory above one leads nowhere and the hidden one is no TOML.  Farther up there is one that
could be used. -/
def nestedFiles : FileSystem :=
  { entries := [(["home"], .directory ⟨0⟩),
      (["home", "lualinter.toml"], .file ⟨"".toByteArray, false, false, ⟨0⟩⟩),
      (["home", "p"], .directory ⟨0⟩),
      (["home", "p", "lualinter.toml"], .link ⟨"gone"⟩),
      (["home", "p", ".lualinter.toml"], .file ⟨"[lualinter".toByteArray, false, false, ⟨0⟩⟩),
      (["home", "p", "q"], .directory ⟨0⟩),
      (["home", "p", "q", "lualinter.toml"], .directory ⟨0⟩)]
    changes := 0 }

theorem follow_nestedFiles :
    nestedFiles.follow nestedPlace ⟨"/home/p/.lualinter.toml"⟩
      = .ok ["home", "p", ".lualinter.toml"] ∧
    nestedFiles.follow nestedPlace ⟨"/home/p/lualinter.toml"⟩ = .error .notFound ∧
    nestedFiles.follow nestedPlace ⟨"/home/p/q/.lualinter.toml"⟩ = .error .notFound ∧
    nestedFiles.follow nestedPlace ⟨"/home/p/q/lualinter.toml"⟩
      = .ok ["home", "p", "q", "lualinter.toml"] := by
  have hsizes : ∀ name ∈ ["home", "p", "q", "gone", "lualinter.toml", ".lualinter.toml"],
      ¬ FileSystem.nameBound < name.utf8ByteSize := by
    decide
  simp only [List.forall_mem_cons] at hsizes
  have hlink : FileSystem.steps ⟨"gone"⟩ = ["gone"] ∧
      FileSystem.startOf ["home", "p"] ⟨"gone"⟩ = ["home", "p"] ∧ FileSystem.linkBound ≠ 0 := by
    decide
  refine ⟨?_, ?_, ?_, ?_⟩
  · rw [follow_eq_walk ["home", "p", ".lualinter.toml"] (by decide)]
    simp [FileSystem.walk, FileSystem.entry?, nestedFiles, hsizes]
  · rw [follow_eq_walk ["home", "p", "lualinter.toml"] (by decide)]
    simp [FileSystem.walk, FileSystem.entry?, nestedFiles, hsizes, hlink]
  · rw [follow_eq_walk ["home", "p", "q", ".lualinter.toml"] (by decide)]
    simp [FileSystem.walk, FileSystem.entry?, nestedFiles, hsizes]
  · rw [follow_eq_walk ["home", "p", "q", "lualinter.toml"] (by decide)]
    simp [FileSystem.walk, FileSystem.entry?, nestedFiles, hsizes]

theorem isRegularFile_nestedFiles :
    nestedFiles.isRegularFile nestedPlace ⟨"/home/p/.lualinter.toml"⟩ = true ∧
    nestedFiles.isRegularFile nestedPlace ⟨"/home/p/lualinter.toml"⟩ = false ∧
    nestedFiles.isRegularFile nestedPlace ⟨"/home/p/q/.lualinter.toml"⟩ = false ∧
    nestedFiles.isRegularFile nestedPlace ⟨"/home/p/q/lualinter.toml"⟩ = false := by
  obtain ⟨hhidden, hplain, hinnerHidden, hinnerPlain⟩ := follow_nestedFiles
  simp only [FileSystem.isRegularFile, FileSystem.regularFile?, FileSystem.find, hhidden, hplain,
    hinnerHidden, hinnerPlain]
  simp [bind, Except.bind, FileSystem.entry?, nestedFiles]

theorem readText_nestedFiles :
    nestedFiles.readText nestedPlace ⟨"/home/p/.lualinter.toml"⟩ = .ok "[lualinter" := by
  rw [FileSystem.readText, FileSystem.read, FileSystem.find, follow_nestedFiles.1]
  simp [bind, Except.bind, FileSystem.entry?, nestedFiles, Text.decode?_toByteArray]

/-- The malformed configuration is reported, though there is another one farther up. -/
theorem discover_nestedFiles :
    (discover nestedFiles nestedPlace).1.result
      = .error (.settings ⟨"/home/p/.lualinter.toml"⟩ .notToml) ∧
    (discover nestedFiles nestedPlace).2 = some ⟨"/home/p/.lualinter.toml"⟩ := by
  obtain ⟨-, -, -, -, habove, -, hdiscover⟩ :=
    nearest_decides (nestedFiles.isRegularFile nestedPlace) nestedPlace.toPath
  obtain ⟨-, -, herror, hpath⟩ := hdiscover nestedFiles nestedPlace
  obtain ⟨hhidden, hplain, hinnerHidden, hinnerPlain⟩ := isRegularFile_nestedFiles
  have hnames : ∀ name ∈ nestedPlace, Path.IsName name := by decide
  have hnearest : IsNearest (nestedFiles.isRegularFile nestedPlace) nestedPlace.toPath
      ⟨"/home/p/.lualinter.toml"⟩ := by
    refine ⟨1, ⟨"/home/p"⟩, ?_, ⟨hhidden, .inr ⟨by decide, ?_⟩⟩, fun m hm nearer hnearer => ?_⟩
    · rw [habove true nestedPlace hnames (Path.toPath_eq_written _), if_pos (by decide)]
      decide
    · rw [show plainIn ⟨"/home/p"⟩ = ⟨"/home/p/lualinter.toml"⟩ by decide]
      exact hplain
    · obtain rfl : m = 0 := Nat.lt_one_iff.mp hm
      obtain rfl := Option.some.inj hnearer
      rw [HoldsNone, show plainIn nestedPlace.toPath = ⟨"/home/p/q/lualinter.toml"⟩ by decide,
        show hiddenIn nestedPlace.toPath = ⟨"/home/p/q/.lualinter.toml"⟩ by decide]
      exact ⟨hinnerPlain, hinnerHidden⟩
  exact ⟨(herror _).mpr
    ⟨_, hnearest, .inr ⟨"[lualinter", .notToml, readText_nestedFiles, by cbv, rfl⟩⟩,
    (hpath _).mpr hnearest⟩

end Settings

end LuaDiagnostics
