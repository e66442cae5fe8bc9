/-
Files in the course of time.

A watcher sees a file at some moments only, and tells moments apart by the file's time.
What it may conclude from that depends on how times and texts change together.

* **`ChangesAreFresh`** and **`TimesMoveOn`**: a change of a file's text comes with a time
  that the file never had, and one that it will never have again either.
* **`text?_eq_of_since`**: if times move on, a file that has a time has had one text ever
  since it had that time.
* **`NamesAreFixed`**: which documents the watched paths stand for.
-/
import LuaDiagnostics.Proofs.Watch.Watching
import Mathlib.Data.List.Induction

namespace LuaDiagnostics

namespace Watching

variable {scene : Scene} {p : Path}

/-! ### Texts and times -/

/-- The text of a file, if it can be read. -/
def text? (scene : Scene) (files : FileSystem) (p : Path) : Option String :=
  (files.readText scene.machine.directory p).toOption

theorem text?_eq_some_iff {files : FileSystem} {text : String} :
    text? scene files p = some text ↔ files.readText scene.machine.directory p = .ok text := by
  rw [text?]
  cases files.readText scene.machine.directory p with
  | error e => simp [Except.toOption]
  | ok found => simp [Except.toOption]

theorem exists_modified?_of_readText {fs : FileSystem} {directory : Location} {text : String}
    (h : fs.readText directory p = .ok text) :
    ∃ time, fs.modified? directory p = some time := by
  rw [FileSystem.readText, FileSystem.read] at h
  rw [FileSystem.modified?.eq_def]
  cases hfind : fs.find directory p with
  | error e =>
    rw [hfind] at h
    exact absurd h (by simp [bind, Except.bind])
  | ok entry =>
    rw [hfind] at h
    cases entry with
    | file f => exact ⟨f.modified, rfl⟩
    | directory modified => exact ⟨modified, rfl⟩
    | link target => exact absurd h (by simp [bind, Except.bind])

/-- Every change of a file's text, or of whether it can be read, gives the file a time that
it never had before. -/
def ChangesAreFresh (scene : Scene) (moments : List FileSystem) (p : Path) : Prop :=
  ∀ later now before earlier, moments = later ++ now :: before :: earlier →
    text? scene now p ≠ text? scene before p →
      ∀ old ∈ before :: earlier, ∀ time,
        now.modified? scene.machine.directory p = some time →
          old.modified? scene.machine.directory p ≠ some time

/-- Once a file's text has changed, or whether it can be read, the file never again has a
time that it had before. -/
def TimesMoveOn (scene : Scene) (moments : List FileSystem) (p : Path) : Prop :=
  ∀ later now before earlier, moments = later ++ now :: before :: earlier →
    text? scene now p ≠ text? scene before p →
      ∀ new ∈ later ++ [now], ∀ old ∈ before :: earlier, ∀ time,
        new.modified? scene.machine.directory p = some time →
          old.modified? scene.machine.directory p ≠ some time

/-- This moment is not earlier than one at which the file had this time. -/
def Since (scene : Scene) (moments : List FileSystem) (p : Path) (time : Timestamp)
    (files : FileSystem) : Prop :=
  ∃ later earlier, moments = later ++ files :: earlier ∧
    ∃ old ∈ files :: earlier, old.modified? scene.machine.directory p = some time

theorem Since.later {moments : List FileSystem} {time : Timestamp} {files : FileSystem}
    (h : Since scene moments p time files) (new : List FileSystem) :
    Since scene (new ++ moments) p time files := by
  obtain ⟨later, earlier, rfl, hold⟩ := h
  exact ⟨new ++ later, earlier, (List.append_assoc _ _ _).symm, hold⟩

theorem Since.mem {moments : List FileSystem} {time : Timestamp} {files : FileSystem}
    (h : Since scene moments p time files) : files ∈ moments := by
  obtain ⟨later, earlier, rfl, -⟩ := h
  exact List.mem_append_right _ List.mem_cons_self

/-- One change that comes with a new time. -/
theorem timesMoveOn_of_later {now before : FileSystem} {new old : Timestamp}
    (hnew : now.modified? scene.machine.directory p = some new)
    (hold : before.modified? scene.machine.directory p = some old) (hne : new ≠ old) :
    TimesMoveOn scene [now, before] p := by
  intro later now' before' earlier hmoments _ files hfiles files' hfiles' time htime htime'
  cases later with
  | nil =>
    obtain ⟨rfl, hrest⟩ := List.cons.inj hmoments
    obtain ⟨rfl, rfl⟩ := List.cons.inj hrest
    obtain rfl := List.mem_singleton.mp hfiles
    obtain rfl := List.mem_singleton.mp hfiles'
    rw [hnew] at htime
    rw [hold] at htime'
    exact hne (Option.some.inj (htime.trans htime'.symm))
  | cons first later =>
    have hlength := congrArg List.length hmoments
    simp only [List.length_append, List.length_cons, List.length_nil] at hlength
    omega

/-- One change that comes with a new time, before the time alone is changed. -/
theorem changesAreFresh_of_touch {touched now before : FileSystem} {new old : Timestamp}
    (hsame : text? scene touched p = text? scene now p)
    (hnew : now.modified? scene.machine.directory p = some new)
    (hold : before.modified? scene.machine.directory p = some old) (hne : new ≠ old) :
    ChangesAreFresh scene [touched, now, before] p := by
  intro later now' before' earlier hmoments hchanged files hfiles time htime
  cases later with
  | nil =>
    obtain ⟨rfl, hrest⟩ := List.cons.inj hmoments
    obtain ⟨rfl, -⟩ := List.cons.inj hrest
    exact absurd hsame hchanged
  | cons first later =>
    obtain ⟨-, hrest⟩ := List.cons.inj hmoments
    exact timesMoveOn_of_later hnew hold hne later now' before' earlier hrest hchanged now'
      (List.mem_append_right _ List.mem_cons_self) files hfiles time htime

/-- A file that has a time has had one text ever since it had the time. -/
theorem text?_eq_of_since {now files : FileSystem} {past : List FileSystem}
    {time : Timestamp} (htimes : TimesMoveOn scene (now :: past) p)
    (hnow : now.modified? scene.machine.directory p = some time)
    (h : Since scene (now :: past) p time files) : text? scene files p = text? scene now p := by
  obtain ⟨later, earlier, hmoments, old, hold, htime⟩ := h
  -- Go on from the moment to the present, change by change.
  induction later using List.reverseRecOn generalizing files earlier with
  | nil =>
    obtain ⟨rfl, -⟩ := List.cons.inj hmoments
    rfl
  | append_singleton later next ih =>
    rw [List.append_assoc, List.singleton_append] at hmoments
    have hnext : text? scene next p = text? scene now p :=
      ih (files :: earlier) hmoments (List.mem_cons_of_mem _ hold)
    by_contra hchanged
    have hmem : now ∈ later ++ [next] := by
      cases later with
      | nil =>
        obtain ⟨rfl, -⟩ := List.cons.inj hmoments
        exact List.mem_singleton_self _
      | cons first later =>
        obtain ⟨rfl, -⟩ := List.cons.inj hmoments
        exact List.mem_cons_self
    refine htimes later next files earlier hmoments ?_ now hmem old hold time hnow htime
    rw [hnext]
    exact fun heq => hchanged heq.symm

/-! ### Names -/

/-- Distinct watched paths stand for distinct documents, whose names stay the same. -/
structure NamesAreFixed (scene : Scene) (name : Path → DocumentId) (moments : List FileSystem) :
    Prop where
  apart : ∀ p ∈ scene.paths, ∀ q ∈ scene.paths, p ≠ q → p.normal ≠ q.normal
  own : ∀ files ∈ moments, ∀ p ∈ scene.paths, ∀ d,
    Document.load files scene.machine.directory p = .ok d → d.id = name p
  /-- What a path leads to is never a document of another one, also when it leads nowhere. -/
  foreign : ∀ files ∈ moments, ∀ p ∈ scene.paths, ∀ q ∈ scene.paths, p ≠ q →
    DocumentId.ofPath files scene.machine.directory p ≠ name q

end Watching

end LuaDiagnostics
