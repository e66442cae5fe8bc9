/-
Watched files that disappear.

A document is known by the canonical path that its file had when it was read.  When the
file is gone, the watcher forgets the document again by its path, but a path that leads
nowhere names itself: what is forgotten is the path as it is spelled.

* **`removal_silences_iff`**: after a removal nothing stands for the document any more
  exactly when the path was spelled canonically, or when nothing stood for the document
  before.  No relative path is spelled canonically.
* **`relative_path_keeps_its_diagnostics`**: a watched file whose diagnostic outlives it.
-/
import LuaDiagnostics.Proofs.Session.Supersession
import LuaDiagnostics.Proofs.Text.Utf8
import LuaDiagnostics.Watch.Dispatch

namespace LuaDiagnostics

namespace Session.Course

variable {s t : Course}

/-- Nothing stands for the document and no cycle can change that: until a cycle begins for
it, its slot stays empty, and every cycle of the document that ends was superseded. -/
def Silent (s : Course) (id : DocumentId) : Prop :=
  ∀ moves t, s.run? moves = some t → (∀ a ∈ moves, a.begins id = false) →
    t.session.registry.get? id = none ∧
    ∀ c kind result outcome u, c.document.id = id →
      t.step? (.complete c kind result outcome) = some u → outcome = .superseded

theorem silent_iff (hs : Coherent s) {id : DocumentId} :
    s.Silent id ↔ s.session.registry.get? id = none ∧ s.session.holder? id = none := by
  constructor
  · intro hsilent
    obtain ⟨hempty, hsuperseded⟩ := hsilent [] s (run?_nil s) (by simp)
    refine ⟨hempty, ?_⟩
    by_contra hholder
    obtain ⟨g, hg⟩ := Option.ne_none_iff_exists'.mp hholder
    obtain ⟨c, hc, rfl, rfl⟩ := hs.held id g hg
    -- The cycle that holds the place could end now, with any result.
    have hlatest := isLatest_iff.mpr hg
    have hstep : s.step? (.complete c .opened (.ok default) _) = some _ :=
      step?_of_step (.finish hc hlatest rfl)
    have houtcome := hsuperseded c .opened (.ok default) _ _ rfl hstep
    exact (complete_rest .opened (.ok default) hlatest).1 houtcome
  · rintro ⟨hempty, hvacant⟩ moves t hrun hbegins
    obtain ⟨hvacantt, hemptyt⟩ := empty_of_run hrun hbegins hvacant hempty
    refine ⟨hemptyt, ?_⟩
    rintro c kind result outcome u rfl hstep
    cases step_of_step? hstep with
    | late hmem hlate => rfl
    | finish hmem hlatest houtcome =>
      rw [isLatest_iff, hvacantt] at hlatest
      exact absurd hlatest (by simp)

end Session.Course

/-! ### The names of documents -/

/-- A document that was read is named by the place that its path led to. -/
theorem Document.id_of_load {fs : FileSystem} {directory : Location} {p : Path}
    {d : Document} (h : Document.load fs directory p = .ok d) :
    ∃ place : Location, d.id.text = place.toPath.text := by
  cases hfollow : fs.follow directory p with
  | error e =>
    have hload : Document.load fs directory p = .error e := by
      rw [load, FileSystem.readText, FileSystem.read, FileSystem.find, hfollow]
      rfl
    rw [hload] at h
    exact absurd h (by simp)
  | ok place =>
    refine ⟨place, ?_⟩
    rw [load] at h
    cases htext : fs.readText directory p with
    | error e =>
      rw [htext] at h
      exact absurd h (by simp [bind, Except.bind])
    | ok text =>
      rw [htext] at h
      obtain rfl := Except.ok.inj h
      show (DocumentId.ofPath fs directory p).text = place.toPath.text
      rw [DocumentId.ofPath, FileSystem.canonical?, hfollow]
      rfl

theorem Location.isAbsolute_toPath (place : Location) : place.toPath.isAbsolute = true := by
  rw [Path.isAbsolute, Path.chars, toPath, String.toList_append]
  rfl

/-- What is forgotten when a path leads nowhere. -/
theorem Session.dispatch_removed_of_gone (s : Session) {m : Machine} {p : Path}
    (hgone : m.files.canonical? m.directory p = none) :
    (s.dispatch m (.removed p)).1 = s.forget ⟨p.text⟩ := by
  rw [dispatch, prepareEvent, DocumentId.ofPath, hgone]
  rfl

namespace Session.Course

/-- **What a removal comes to.**  Let a document be read from a path at some time, and let
the removal of the path be dealt with, in any course of a session, when the path leads
nowhere.  Then nothing stands for the document any more exactly when the path is spelled
like the document's name, which no relative path is, or when nothing stood for it anyway. -/
theorem removal_silences_iff {settings : Settings} {registry : Registry}
    {moves : List Move} {s : Course} {opened gone : Machine} {p : Path} {d : Document}
    (hrun : (start settings registry).run? moves = some s)
    (hload : Document.load opened.files opened.directory p = .ok d)
    (hgone : gone.files.canonical? gone.directory p = none) :
    (Silent { s with session := (s.session.dispatch gone (.removed p)).1 } d.id ↔
      d.id.text = p.text ∨ s.Silent d.id) ∧
    (p.isAbsolute = false → d.id.text ≠ p.text) := by
  have hs := coherent_of_run hrun (coherent_start settings registry)
  constructor
  · have hid : d.id = ⟨p.text⟩ ↔ d.id.text = p.text := Registry.text_inj.symm
    rw [s.session.dispatch_removed_of_gone hgone,
      silent_iff (coherent_of_step .forget hs), silent_iff hs, get?_registry_forget,
      holder?_forget]
    by_cases htext : d.id.text = p.text
    · rw [if_pos (hid.mpr htext), if_pos (hid.mpr htext)]
      exact ⟨fun _ => .inl htext, fun _ => ⟨rfl, rfl⟩⟩
    · rw [if_neg (hid.not.mpr htext), if_neg (hid.not.mpr htext)]
      exact ⟨.inr, fun h => h.resolve_left htext⟩
  · intro hrelative htext
    -- The name of a document that was read begins at the root.
    obtain ⟨place, hplace⟩ := Document.id_of_load hload
    have habsolute := Location.isAbsolute_toPath place
    rw [Path.isAbsolute, Path.chars, ← hplace, htext] at habsolute
    rw [Path.isAbsolute, Path.chars, habsolute] at hrelative
    exact absurd hrelative (by simp)

/-! ### Two spellings of one file -/

/-- A file that is there at the first look and not at the second is opened and removed. -/
theorem exists_poll_opened_removed {p : Path} {time : Timestamp}
    {modified? modified?' : Path → Option Timestamp}
    (hthere : modified? p = some time) (hgone : modified?' p = none) :
    ∃ w w' : Watcher, (Watcher.new [p]).poll modified? = (w, [.opened p]) ∧
      w.poll modified?' = (w', [.removed p]) := by
  have hseen : (SortedMap.empty : SortedMap Timestamp).get? p.normal = none := rfl
  let seen := SortedMap.empty.insert p.normal time
  refine ⟨⟨[p], seen⟩, ⟨[p], seen.erase p.normal⟩, ?_, ?_⟩
  · simp only [Watcher.poll, Watcher.new, Watcher.lookAll, Watcher.look, hthere, hseen]
    rfl
  · simp only [Watcher.poll, Watcher.lookAll, Watcher.look, hgone, seen,
      SortedMap.get?_insert, if_true]
    rfl

/-- The current directory for examples. -/
def home : Location := ["home"]

/-- Files for examples: the current directory and one file in it. -/
def homeFiles : FileSystem :=
  { entries := [(["home"], .directory ⟨0⟩),
      (["home", "a.lua"], .file ⟨"x = ".toUTF8, false, false, ⟨0⟩⟩)]
    changes := 0 }

/-- A machine for examples, with the files. -/
def homeMachine : Machine :=
  { files := homeFiles, directory := home, searchPath := "", rules := [] }

/-- The same machine when the file was removed. -/
def emptiedMachine : Machine :=
  { files := homeFiles.remove home ⟨"a.lua"⟩, directory := home, searchPath := "", rules := [] }

/-- The document of the file. -/
def homeDocument (p : Path) : Document :=
  { id := ⟨"/home/a.lua"⟩, path := p, language := luaLanguage, text := "x = " }

/-- The first cycle for the document. -/
def homeCycle (p : Path) : PreparedCycle :=
  { generation := 1, document := homeDocument p
    command := (new .default).commandFor homeMachine (homeDocument p) }

/-- Two spellings of the file's path, and the names that they are followed along. -/
theorem follow_home (fs : FileSystem) :
    fs.follow home ⟨"a.lua"⟩ = fs.walk false FileSystem.linkBound ["home"] ["a.lua"] ∧
    fs.follow home ⟨"/home/a.lua"⟩
      = fs.walk false FileSystem.linkBound [] ["home", "a.lua"] := by
  constructor
  · exact fs.follow_eq_walk (by decide) (by decide) (by decide)
  · exact fs.follow_eq_walk (by decide) (by decide) (by decide)

theorem short_names : ¬ FileSystem.nameBound < "home".utf8ByteSize ∧
    ¬ FileSystem.nameBound < "a.lua".utf8ByteSize := by
  decide

theorem follow_homeFiles {p : Path} (hp : p = ⟨"a.lua"⟩ ∨ p = ⟨"/home/a.lua"⟩) :
    homeFiles.follow home p = .ok ["home", "a.lua"] := by
  rcases hp with rfl | rfl
  · rw [(follow_home _).1]
    simp [FileSystem.walk, FileSystem.entry?, homeFiles, short_names]
  · rw [(follow_home _).2]
    simp [FileSystem.walk, FileSystem.entry?, homeFiles, short_names]

theorem files_emptiedMachine :
    emptiedMachine.files = ⟨[(["home"], .directory homeFiles.now)], 1⟩ := by
  have hplace : homeFiles.placeOf? home ⟨"a.lua"⟩ = some ["home", "a.lua"] := by
    rw [FileSystem.placeOf?, show FileSystem.strides ⟨"a.lua"⟩ = ["a.lua"] by decide,
      show FileSystem.startOf home ⟨"a.lua"⟩ = ["home"] by decide]
    simp [FileSystem.walk, FileSystem.entry?, homeFiles]
  show homeFiles.remove home ⟨"a.lua"⟩ = _
  rw [FileSystem.remove, hplace]
  simp [FileSystem.entry?, FileSystem.removeAt, FileSystem.stampDirectory,
    FileSystem.setEntry, FileSystem.tick, FileSystem.now, homeFiles]

theorem follow_emptiedMachine {p : Path} (hp : p = ⟨"a.lua"⟩ ∨ p = ⟨"/home/a.lua"⟩) :
    emptiedMachine.files.follow home p = .error .notFound := by
  rw [files_emptiedMachine]
  rcases hp with rfl | rfl
  · rw [(follow_home _).1]
    simp [FileSystem.walk, FileSystem.entry?, short_names]
  · rw [(follow_home _).2]
    simp [FileSystem.walk, FileSystem.entry?, short_names]

theorem canonical?_emptiedMachine {p : Path} (hp : p = ⟨"a.lua"⟩ ∨ p = ⟨"/home/a.lua"⟩) :
    emptiedMachine.files.canonical? emptiedMachine.directory p = none := by
  show emptiedMachine.files.canonical? home p = none
  rw [FileSystem.canonical?, follow_emptiedMachine hp]

/-- The times of the file before and after it is removed. -/
theorem modified?_homeMachine : homeMachine.files.modified? home ⟨"a.lua"⟩ = some ⟨0⟩ ∧
    emptiedMachine.files.modified? home ⟨"a.lua"⟩ = none := by
  constructor
  · show homeFiles.modified? home ⟨"a.lua"⟩ = some ⟨0⟩
    rw [FileSystem.modified?, FileSystem.find, follow_homeFiles (.inl rfl)]
    simp [bind, Except.bind, FileSystem.entry?, homeFiles]
  · rw [FileSystem.modified?, FileSystem.find, follow_emptiedMachine (.inl rfl)]
    rfl

theorem load_homeMachine {p : Path} (hp : p = ⟨"a.lua"⟩ ∨ p = ⟨"/home/a.lua"⟩) :
    Document.load homeMachine.files homeMachine.directory p = .ok (homeDocument p) := by
  have htext : homeFiles.readText home p = .ok "x = " := by
    rw [FileSystem.readText, FileSystem.read, FileSystem.find, follow_homeFiles hp]
    simp [bind, Except.bind, FileSystem.entry?, homeFiles, Text.decode?_toByteArray]
  have hlanguage : languageOf p = luaLanguage := by
    rcases hp with rfl | rfl
    · cbv
    · cbv
  show Document.load homeFiles home p = .ok (homeDocument p)
  rw [Document.load, htext]
  show Except.ok (Document.create homeFiles home p (languageOf p) "x = ") = _
  rw [hlanguage, Document.create, DocumentId.ofPath, FileSystem.canonical?,
    follow_homeFiles hp]
  rfl

/-- The document is linted, and its diagnostic is published. -/
theorem run?_homeCycle (p : Path) : ∃ s : Course,
    (start .default .empty).run? [.begin homeMachine (homeCycle p),
      .complete (homeCycle p) .opened (.ok (sampleOutcome (some sampleDiagnostic)))
        (.published (sampleDiagnostic.withSource "luac"))] = some s ∧
    s.session.registry.get? (homeDocument p).id
      = some [sampleDiagnostic.withSource "luac"] := by
  have hbegin : Step (start .default .empty) (.begin homeMachine (homeCycle p)) _ :=
    .begin rfl rfl rfl rfl
  have hlatest := (isLatest_of_begin hbegin).2.1
  set result : CycleResult := .ok (sampleOutcome (some sampleDiagnostic)) with hresult
  set begun := (start .default .empty).session.begin (homeCycle p).document.id
  have houtcome : (begun.complete .opened (homeCycle p) result).2
      = .published (sampleDiagnostic.withSource "luac") := by
    rw [complete, if_neg (by simp [hlatest])]
    rfl
  refine ⟨_, run?_cons_eq_some_iff.mpr ⟨_, hbegin, run?_cons_eq_some_iff.mpr
    ⟨_, .finish List.mem_cons_self hlatest houtcome, run?_nil _⟩⟩, ?_⟩
  show (begun.complete .opened (homeCycle p) result).1.registry.get? (homeDocument p).id = _
  rw [get?_registry_complete _ .opened result hlatest, if_pos (by rfl)]
  rfl

/-- A relative path is polled, its document is linted, the file is removed, polled again
and the removal dealt with; the diagnostic still stands. -/
theorem relative_path_keeps_its_diagnostics :
    ∃ (w w' : Watcher) (d : Document) (s : Course),
      (Watcher.new [⟨"a.lua"⟩]).poll (homeMachine.files.modified? home)
        = (w, [.opened ⟨"a.lua"⟩]) ∧
      Document.load homeMachine.files home ⟨"a.lua"⟩ = .ok d ∧
      (start .default .empty).run? [.begin homeMachine (homeCycle ⟨"a.lua"⟩),
        .complete (homeCycle ⟨"a.lua"⟩) .opened
          (.ok (sampleOutcome (some sampleDiagnostic)))
          (.published (sampleDiagnostic.withSource "luac"))] = some s ∧
      (homeCycle ⟨"a.lua"⟩).document = d ∧
      w.poll (emptiedMachine.files.modified? home) = (w', [.removed ⟨"a.lua"⟩]) ∧
      (s.session.dispatch emptiedMachine (.removed ⟨"a.lua"⟩)).1.registry.get? d.id
        = some [sampleDiagnostic.withSource "luac"] := by
  obtain ⟨hthere, hgone⟩ := modified?_homeMachine
  obtain ⟨s, hrun, hslot⟩ := run?_homeCycle ⟨"a.lua"⟩
  obtain ⟨w, w', hopened, hremoved⟩ := exists_poll_opened_removed hthere hgone
  refine ⟨w, w', _, s, hopened, load_homeMachine (.inl rfl), hrun, rfl, hremoved, ?_⟩
  rw [s.session.dispatch_removed_of_gone (canonical?_emptiedMachine (.inl rfl)),
    get?_registry_forget, if_neg (by simp [homeDocument])]
  exact hslot

/-- With the canonical spelling nothing stands for the document any more. -/
theorem canonical_path_silenced : ∃ s : Course,
    (start .default .empty).run? [.begin homeMachine (homeCycle ⟨"/home/a.lua"⟩),
      .complete (homeCycle ⟨"/home/a.lua"⟩) .opened
        (.ok (sampleOutcome (some sampleDiagnostic)))
        (.published (sampleDiagnostic.withSource "luac"))] = some s ∧
    s.session.registry.get? ⟨"/home/a.lua"⟩ ≠ none ∧
    Silent { s with session := (s.session.dispatch emptiedMachine
      (.removed ⟨"/home/a.lua"⟩)).1 } ⟨"/home/a.lua"⟩ := by
  obtain ⟨s, hrun, hslot⟩ := run?_homeCycle ⟨"/home/a.lua"⟩
  have hiff := (removal_silences_iff hrun (load_homeMachine (.inr rfl))
    (canonical?_emptiedMachine (.inr rfl))).1
  exact ⟨s, hrun, by simp [show s.session.registry.get? ⟨"/home/a.lua"⟩ = _ from hslot],
    hiff.mpr (.inl rfl)⟩

end Session.Course

end LuaDiagnostics
