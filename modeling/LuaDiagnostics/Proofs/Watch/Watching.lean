/-
A watch, step by step.

A watcher polls: it looks at one path after the other.  Then it deals with the events in
order: it reads the file, or forgets it, and begins a cycle for what it read.  Between any
two of these steps files may change, and cycles end whenever their compilers do.

* **`Step`** is any of this.  The looks, the reads and the moves of the session are those of
  `Watcher.look`, `Session.prepareEvent` and `Session.Course.step?`.
* **`reaches_polled`**: looks with nothing in between are a `Watcher.poll`.
* **`reaches_linted`**: what was noticed may be read and linted at once.
* **`sound_of_reaches`**: the session goes on as in any course.
-/
import LuaDiagnostics.Proofs.Session.Pool
import LuaDiagnostics.Proofs.Session.Table
import LuaDiagnostics.Proofs.Watch.Polling
import Mathlib.Logic.Relation

namespace LuaDiagnostics

theorem Document.load_eq_ok_iff {fs : FileSystem} {directory : Location} {p : Path}
    {d : Document} : load fs directory p = .ok d ↔
      ∃ text, fs.readText directory p = .ok text ∧
        d = create fs directory p (languageOf p) text := by
  rw [load]
  cases htext : fs.readText directory p with
  | error e => simp [bind, Except.bind]
  | ok text =>
    constructor
    · intro h
      exact ⟨text, rfl, (Except.ok.inj h).symm⟩
    · rintro ⟨_, heq, rfl⟩
      obtain rfl := Except.ok.inj heq
      rfl

/-- What a watch is about. -/
structure Scene where
  settings : Settings
  /-- The machine, with the files that are there at first. -/
  machine : Machine
  paths : List Path
  /-- What the compiler finds in a text. -/
  verdict : String → Option Diagnostic

/-- What a watcher is at. -/
inductive Watching.Phase
  /-- It is to look at these paths. -/
  | polling (rest : List Path)
  /-- It is to deal with these events. -/
  | reacting (rest : List WatchEvent)
  /-- It has read a document and is to begin its cycle, before it deals with these events. -/
  | preparing (document : Document) (rest : List WatchEvent)
deriving DecidableEq

/-- A watcher and its session at work, with all that was seen on the way. -/
structure Watching where
  course : Session.Course
  /-- The times that the watcher remembers. -/
  seen : SortedMap Timestamp
  phase : Watching.Phase
  /-- The times that the latest poll saw. -/
  looked : List (Path × Option Timestamp)
  /-- The events of the latest poll. -/
  found : List WatchEvent
  files : FileSystem
  /-- The files at all earlier moments, latest first. -/
  past : List FileSystem

namespace Watching

variable {scene : Scene} {s t : Watching}

/-- Nothing was looked at. -/
def start (scene : Scene) : Watching :=
  { course := .start scene.settings .empty
    seen := .empty
    phase := .reacting []
    looked := []
    found := []
    files := scene.machine.files
    past := [] }

/-- The files at all moments, latest first. -/
def moments (s : Watching) : List FileSystem := s.files :: s.past

/-- The machine with its files as they are now. -/
def machine (scene : Scene) (s : Watching) : Machine := { scene.machine with files := s.files }

/-- When a file was last changed, as it looks now. -/
def modified? (scene : Scene) (s : Watching) : Path → Option Timestamp :=
  s.files.modified? scene.machine.directory

/-- The events that were noticed and not dealt with. -/
def pending (s : Watching) : List WatchEvent :=
  match s.phase with
  | .polling _ => s.found
  | .reacting rest => rest
  | .preparing _ rest => rest

/-- What may happen next. -/
inductive Step (scene : Scene) (s : Watching) : Watching → Prop
  /-- Files change in whatever way. -/
  | change {files : FileSystem} : Step scene s { s with files, past := s.files :: s.past }
  | poll (hphase : s.phase = .reacting []) :
      Step scene s { s with phase := .polling scene.paths, looked := [], found := [] }
  | look {p : Path} {rest : List Path} {seen : SortedMap Timestamp}
      {event : Option WatchEvent} (hphase : s.phase = .polling (p :: rest))
      (hlook : Watcher.look (s.modified? scene) s.seen p = (seen, event)) :
      Step scene s
        { s with
          seen
          phase := .polling rest
          looked := s.looked ++ [(p, s.modified? scene p)]
          found := s.found ++ event.toList }
  | react (hphase : s.phase = .polling []) : Step scene s { s with phase := .reacting s.found }
  /-- A file cannot be read. -/
  | passOver {e : WatchEvent} {rest : List WatchEvent} {session : Session}
      (hphase : s.phase = .reacting (e :: rest))
      (hread : s.course.session.prepareEvent (s.machine scene) e = (session, none)) :
      Step scene s { s with course := { s.course with session }, phase := .reacting rest }
  /-- A file is gone. -/
  | drop {e : WatchEvent} {rest : List WatchEvent} {session : Session} {id : DocumentId}
      {outcome : LintOutcome} (hphase : s.phase = .reacting (e :: rest))
      (hread : s.course.session.prepareEvent (s.machine scene) e
        = (session, some (.settled id outcome))) :
      Step scene s { s with course := { s.course with session }, phase := .reacting rest }
  | read {e : WatchEvent} {rest : List WatchEvent} {session : Session} {kind : EventKind}
      {d : Document} (hphase : s.phase = .reacting (e :: rest))
      (hread : s.course.session.prepareEvent (s.machine scene) e
        = (session, some (.lint kind d))) :
      Step scene s { s with course := { s.course with session }, phase := .preparing d rest }
  | begin {c : PreparedCycle} {rest : List WatchEvent} {course : Session.Course}
      (hphase : s.phase = .preparing c.document rest)
      (hmove : s.course.step? (.begin (s.machine scene) c) = some course) :
      Step scene s { s with course, phase := .reacting rest }
  | decline {d : Document} {rest : List WatchEvent} {outcome : LintOutcome}
      {course : Session.Course} (hphase : s.phase = .preparing d rest)
      (hmove : s.course.step? (.decline (s.machine scene) d outcome) = some course) :
      Step scene s { s with course, phase := .reacting rest }
  /-- A cycle ends.  If it was not cancelled, its compiler has run. -/
  | finish {c : PreparedCycle} {kind : EventKind} {result : CycleResult}
      {outcome : LintOutcome} {course : Session.Course}
      (hresult : c.generation ∉ s.course.session.cancelled →
        ∃ found, result = .ok found ∧ found.diagnostic = scene.verdict c.document.text)
      (hmove : s.course.step? (.complete c kind result outcome) = some course) :
      Step scene s { s with course }

/-- What any sequence of steps leads to. -/
abbrev Reaches (scene : Scene) : Watching → Watching → Prop := Relation.ReflTransGen (Step scene)

theorem moments_subset_of_step (h : Step scene s t) : s.moments ⊆ t.moments := by
  cases h with
  | change => exact fun files hmem => List.mem_cons_of_mem _ hmem
  | poll hphase => exact List.Subset.refl _
  | look hphase hlook => exact List.Subset.refl _
  | react hphase => exact List.Subset.refl _
  | passOver hphase hread => exact List.Subset.refl _
  | drop hphase hread => exact List.Subset.refl _
  | read hphase hread => exact List.Subset.refl _
  | begin hphase hmove => exact List.Subset.refl _
  | decline hphase hmove => exact List.Subset.refl _
  | finish hresult hmove => exact List.Subset.refl _

/-! ### Looking -/

theorem reaches_lookAll {rest : List Path} (hphase : s.phase = .polling rest) :
    Reaches scene s
      { s with
        seen := (Watcher.lookAll (s.modified? scene) s.seen rest).1
        phase := .polling []
        looked := s.looked ++ rest.map fun p => (p, s.modified? scene p)
        found := s.found ++ (Watcher.lookAll (s.modified? scene) s.seen rest).2 } := by
  induction rest generalizing s with
  | nil =>
    simp only [Watcher.lookAll, List.map_nil, List.append_nil, ← hphase]
    exact .refl
  | cons p rest ih =>
    have hlook : Step scene s _ := .look hphase rfl
    have hrest := ih (s := { s with
      seen := (Watcher.look (s.modified? scene) s.seen p).1
      phase := .polling rest
      looked := s.looked ++ [(p, s.modified? scene p)]
      found := s.found ++ (Watcher.look (s.modified? scene) s.seen p).2.toList }) rfl
    rw [List.append_assoc, List.append_assoc] at hrest
    exact .head hlook hrest

/-- After a poll with nothing in between. -/
def polled (scene : Scene) (s : Watching) : Watching :=
  let (watcher, events) := (⟨scene.paths, s.seen⟩ : Watcher).poll (s.modified? scene)
  { s with
    seen := watcher.seen
    phase := .reacting events
    looked := scene.paths.map fun p => (p, s.modified? scene p)
    found := events }

theorem reaches_polled (hphase : s.phase = .reacting []) : Reaches scene s (s.polled scene) := by
  have hlooks : Reaches scene
      { s with phase := .polling scene.paths, looked := [], found := [] } _ :=
    reaches_lookAll rfl
  exact .tail (.head (.poll hphase) hlooks) (.react rfl)

/-! ### Reading -/

theorem of_prepareEvent_eq_none {u u' : Session} {m : Machine} {e : WatchEvent}
    (h : u.prepareEvent m e = (u', none)) :
    u' = u ∧ e ≠ .removed e.path ∧
      ∃ error, Document.load m.files m.directory e.path = .error error := by
  cases e with
  | removed p => exact absurd (Prod.mk.inj h).2 (by simp)
  | opened p | saved p =>
    obtain ⟨hsession, hnone⟩ := Prod.mk.inj h
    refine ⟨hsession.symm, by simp [WatchEvent.path], ?_⟩
    rw [Session.prepareLint] at hnone
    split at hnone
    · exact absurd hnone (by simp)
    · rename_i error herror
      exact ⟨error, herror⟩

theorem of_prepareEvent_eq_settled {u u' : Session} {m : Machine} {e : WatchEvent}
    {id : DocumentId} {outcome : LintOutcome}
    (h : u.prepareEvent m e = (u', some (.settled id outcome))) :
    u' = u.forget (.ofPath m.files m.directory e.path) ∧ e = .removed e.path ∧
      id = .ofPath m.files m.directory e.path ∧ outcome = .cleared := by
  cases e with
  | removed p =>
    obtain ⟨hsession, hsettled⟩ := Prod.mk.inj h
    obtain ⟨hid, houtcome⟩ := Prepared.settled.inj (Option.some.inj hsettled)
    exact ⟨hsession.symm, rfl, hid.symm, houtcome.symm⟩
  | opened p | saved p =>
    obtain ⟨-, hsettled⟩ := Prod.mk.inj h
    rw [Session.prepareLint] at hsettled
    split at hsettled
    · exact absurd hsettled (by simp)
    · exact absurd hsettled (by simp)

theorem of_prepareEvent_eq_lint {u u' : Session} {m : Machine} {e : WatchEvent}
    {kind : EventKind} {d : Document} (h : u.prepareEvent m e = (u', some (.lint kind d))) :
    u' = u ∧ Document.load m.files m.directory e.path = .ok d := by
  cases e with
  | removed p => exact absurd (Prod.mk.inj h).2 (by simp)
  | opened p | saved p =>
    obtain ⟨hsession, hlint⟩ := Prod.mk.inj h
    refine ⟨hsession.symm, ?_⟩
    rw [Session.prepareLint] at hlint
    split at hlint
    · rename_i document hload
      obtain ⟨-, rfl⟩ := Prepared.lint.inj (Option.some.inj hlint)
      exact hload
    · exact absurd hlint (by simp)

/-! ### The session -/

/-- What a step does to the session is nothing or a move. -/
theorem course_of_step (h : Step scene s t) :
    t.course = s.course ∨ ∃ a, Session.Course.Step s.course a t.course := by
  cases h with
  | change | poll hphase | look hphase hlook | react hphase => exact .inl rfl
  | passOver hphase hread =>
    obtain ⟨rfl, -⟩ := of_prepareEvent_eq_none hread
    exact .inl rfl
  | drop hphase hread =>
    obtain ⟨rfl, -⟩ := of_prepareEvent_eq_settled hread
    exact .inr ⟨_, .forget⟩
  | read hphase hread =>
    obtain ⟨rfl, -⟩ := of_prepareEvent_eq_lint hread
    exact .inl rfl
  | begin hphase hmove => exact .inr ⟨_, Session.Course.step_of_step? hmove⟩
  | decline hphase hmove => exact .inr ⟨_, Session.Course.step_of_step? hmove⟩
  | finish hresult hmove => exact .inr ⟨_, Session.Course.step_of_step? hmove⟩

/-- The session is one of the settings that the scene says. -/
structure Sound (scene : Scene) (course : Session.Course) : Prop where
  coherent : Session.Course.Coherent course
  settings : course.session.settings = scene.settings
  interpreter : ∀ c ∈ course.underWay, c.command.interpreter = scene.settings.interpreter

theorem Sound.of_step {u v : Session.Course} {a : Session.Move} (h : Session.Course.Step u a v)
    (hu : Sound scene u) : Sound scene v := by
  refine ⟨Session.Course.coherent_of_step h hu.coherent,
    (Session.Course.settings_of_step h).trans hu.settings, fun c hc => ?_⟩
  by_cases hold : c ∈ u.underWay
  · exact hu.interpreter c hold
  · obtain ⟨m, rfl⟩ := Session.Course.begin_of_mem_underWay h hold hc
    rw [(Session.Course.isLatest_of_begin h).2.2, hu.settings]

theorem sound_of_reaches (h : Reaches scene (start scene) s) : Sound scene s.course := by
  induction h with
  | refl =>
    refine ⟨Session.Course.coherent_start scene.settings .empty, rfl, fun c hc => ?_⟩
    exact absurd hc List.not_mem_nil
  | tail _ hstep ih =>
    rcases course_of_step hstep with heq | ⟨a, ha⟩
    · rw [heq]
      exact ih
    · exact ih.of_step ha

/-- An event may be dealt with and the cycle end before anything else happens. -/
theorem reaches_linted {e : WatchEvent} {rest : List WatchEvent} {d : Document}
    (hs : Sound scene s.course) (hphase : s.phase = .reacting (e :: rest))
    (hthere : e ≠ .removed e.path)
    (hload : Document.load s.files scene.machine.directory e.path = .ok d)
    (henable : scene.settings.enable = true) (hlua : d.isLua = true) :
    ∃ course, Reaches scene s { s with course, phase := .reacting rest } ∧
      course.underWay = s.course.underWay ∧
      course.session.registry.get? d.id = (scene.verdict d.text).map fun x =>
        [x.withSource scene.settings.interpreter.program] := by
  have hread : ∃ kind, s.course.session.prepareEvent (s.machine scene) e
      = (s.course.session, some (.lint kind d)) := by
    cases e with
    | opened p =>
      refine ⟨.opened, ?_⟩
      rw [Session.prepareEvent, Session.prepareLint]
      simp only [machine, show Document.load s.files _ p = .ok d from hload]
    | saved p =>
      refine ⟨.saved, ?_⟩
      rw [Session.prepareEvent, Session.prepareLint]
      simp only [machine, show Document.load s.files _ p = .ok d from hload]
    | removed p => exact absurd rfl hthere
  obtain ⟨kind, hread⟩ := hread
  set c : PreparedCycle := ⟨s.course.session.nextGeneration, d,
    s.course.session.commandFor (s.machine scene) d⟩
  set result : CycleResult := .ok ⟨scene.verdict d.text, none, 0, false⟩
  have hbegin : Session.Course.Step s.course (.begin (s.machine scene) c) _ :=
    .begin (hs.settings ▸ henable) hlua rfl rfl
  obtain ⟨hmem, hlatest, hinterpreter⟩ := Session.Course.isLatest_of_begin hbegin
  have hfinish : Session.Course.Step _ (.complete c kind result _) _ :=
    .finish hmem hlatest rfl
  refine ⟨_, .head (.read hphase hread) <|
    .head (.begin (c := c) rfl (Session.Course.step?_of_step hbegin)) <|
    .single (.finish (fun _ => ⟨_, rfl, rfl⟩) (Session.Course.step?_of_step hfinish)), ?_, ?_⟩
  · show (c :: s.course.underWay).erase c = s.course.underWay
    rw [List.erase_cons_head]
  · show (Session.complete _ kind c result).1.registry.get? d.id = _
    rw [Session.get?_registry_complete d.id kind result hlatest, if_pos rfl, Session.slotAfter,
      hinterpreter, hs.settings]

/-! ### One file -/

open Session.Course

/-- A path for examples. -/
def samplePath : Path := ⟨"/home/a.lua"⟩

/-- Files for examples: the path leads to a file with a text and a time. -/
def sampleFiles (text : String) (time : Timestamp) : FileSystem :=
  { entries := [(["home"], .directory ⟨0⟩),
      (["home", "a.lua"], .file ⟨text.toUTF8, false, false, time⟩)]
    changes := 0 }

/-- The document of the file. -/
def sampleDocument (text : String) : Document := { homeDocument samplePath with text }

/-- A scene for examples: one path is watched, and one text has an error. -/
def sampleScene : Scene :=
  { settings := .default
    machine := { homeMachine with files := sampleFiles "x = " ⟨0⟩ }
    paths := [samplePath]
    verdict := fun text => if text = "x = " then some sampleDiagnostic else none }

theorem follow_sampleFiles (text : String) (time : Timestamp) :
    (sampleFiles text time).follow home samplePath = .ok ["home", "a.lua"] := by
  rw [samplePath, (follow_home _).2]
  simp [FileSystem.walk, FileSystem.entry?, sampleFiles, short_names]

theorem readText_sampleFiles (text : String) (time : Timestamp) :
    (sampleFiles text time).readText home samplePath = .ok text := by
  rw [FileSystem.readText, FileSystem.read, FileSystem.find, follow_sampleFiles]
  simp [bind, Except.bind, FileSystem.entry?, sampleFiles, Text.decode?_toByteArray]

theorem modified?_sampleFiles (text : String) (time : Timestamp) :
    (sampleFiles text time).modified? home samplePath = some time := by
  rw [FileSystem.modified?, FileSystem.find, follow_sampleFiles]
  simp [bind, Except.bind, FileSystem.entry?, sampleFiles]

theorem load_sampleFiles (text : String) (time : Timestamp) :
    Document.load (sampleFiles text time) home samplePath = .ok (sampleDocument text) := by
  refine Document.load_eq_ok_iff.mpr ⟨text, readText_sampleFiles text time, ?_⟩
  have hlanguage : languageOf samplePath = luaLanguage := by cbv
  rw [Document.create, DocumentId.ofPath, FileSystem.canonical?, follow_sampleFiles, hlanguage]
  rfl

/-- A poll of the one path. -/
theorem polled_sampleScene {text : String} {time : Timestamp}
    (hfiles : s.files = sampleFiles text time) :
    (s.polled sampleScene).phase = .reacting (s.polled sampleScene).found ∧
    (s.polled sampleScene).found = (match s.seen.get? samplePath.normal with
      | none => [.opened samplePath]
      | some before => if before = time then [] else [.saved samplePath]) ∧
    (s.polled sampleScene).looked = [(samplePath, some time)] ∧
    (s.polled sampleScene).seen.get? samplePath.normal = some time := by
  have hnow : s.modified? sampleScene samplePath = some time := by
    rw [modified?, hfiles]
    exact modified?_sampleFiles text time
  have hseen := Watcher.get?_look (s.modified? sampleScene) s.seen samplePath samplePath.normal
  rw [if_pos rfl, hnow] at hseen
  refine ⟨rfl, ?_, ?_, hseen⟩
  · show (Watcher.look (s.modified? sampleScene) s.seen samplePath).2.toList ++ [] = _
    rw [List.append_nil, Watcher.look.eq_def, hnow]
    cases s.seen.get? samplePath.normal with
    | none => rfl
    | some before =>
      by_cases hsame : before = time
      · simp [hsame]
      · simp [hsame]
  · show [(samplePath, s.modified? sampleScene samplePath)] = _
    rw [hnow]

/-- The file is opened, read and linted. -/
theorem reaches_sampleLint : ∃ u : Watching, Reaches sampleScene (start sampleScene) u ∧
    u.phase = .reacting [] ∧ u.files = sampleFiles "x = " ⟨0⟩ ∧ u.past = [] ∧
    u.course.underWay = [] ∧ u.seen.get? samplePath.normal = some ⟨0⟩ ∧
    u.course.session.registry.get? ⟨"/home/a.lua"⟩
      = some [sampleDiagnostic.withSource "luac"] := by
  obtain ⟨hphase, hfound, -, hseen⟩ := polled_sampleScene (s := start sampleScene) rfl
  have hpolled : Reaches sampleScene (start sampleScene) _ := reaches_polled rfl
  have hopened : ((start sampleScene).polled sampleScene).phase
      = .reacting [.opened samplePath] := by
    rw [hphase, hfound]
    rfl
  obtain ⟨course, hlinted, hunderWay, hslot⟩ := reaches_linted (sound_of_reaches hpolled) hopened
    (by simp [WatchEvent.path]) (load_sampleFiles "x = " ⟨0⟩) rfl rfl
  refine ⟨_, hpolled.trans hlinted, rfl, rfl, rfl, hunderWay, hseen, ?_⟩
  exact hslot

/-! ### A compiler -/

/-- A machine for examples, with a file and a compiler that finds an error in every file. -/
def workshop : Machine :=
  { files :=
      { entries := [(["home"], .directory ⟨0⟩),
          (["home", "a.lua"], .file ⟨"x = ".toUTF8, false, false, ⟨0⟩⟩),
          (["home", "luac"], .file ⟨.empty, true, true, ⟨0⟩⟩)]
        changes := 0 }
    directory := home
    searchPath := "/home"
    rules := [⟨"", "luac: stdin:1: unexpected symbol near 'x'\n".toUTF8, some 1, false, false,
      false⟩] }

/-- Where the paths lead that a lint of the file needs. -/
theorem follow_workshop : workshop.files.follow home ⟨"a.lua"⟩ = .ok ["home", "a.lua"] ∧
    workshop.files.follow home ⟨"/home/luac"⟩ = .ok ["home", "luac"] ∧
    workshop.files.follow home ⟨"."⟩ = .ok ["home"] := by
  have hlong : ¬ FileSystem.nameBound < "luac".utf8ByteSize := by decide
  refine ⟨?_, ?_, ?_⟩
  · rw [(follow_home _).1]
    simp [FileSystem.walk, FileSystem.entry?, workshop, short_names]
  · rw [show workshop.files.follow home ⟨"/home/luac"⟩
        = workshop.files.walk false FileSystem.linkBound [] ["home", "luac"] from
      FileSystem.follow_eq_walk _ (by decide) (by decide) (by decide)]
    simp [FileSystem.walk, FileSystem.entry?, workshop, short_names, hlong]
  · rw [show workshop.files.follow home ⟨"."⟩
        = workshop.files.walk false FileSystem.linkBound ["home"] ["."] from
      FileSystem.follow_eq_walk _ (by decide) (by decide) (by decide)]
    simp [FileSystem.walk, FileSystem.entry?, workshop]

theorem modified?_workshop : workshop.files.modified? home ⟨"a.lua"⟩ = some ⟨0⟩ := by
  rw [FileSystem.modified?, FileSystem.find, follow_workshop.1]
  simp [bind, Except.bind, FileSystem.entry?, workshop]

/-- The file is noticed once, and then nothing changes. -/
theorem poll_workshop : ∃ w : Watcher,
    (Watcher.new [⟨"a.lua"⟩]).poll (workshop.files.modified? home) = (w, [.opened ⟨"a.lua"⟩]) ∧
    w.poll (workshop.files.modified? home) = (w, []) := by
  have hthere := modified?_workshop
  have hunseen : (SortedMap.empty : SortedMap Timestamp).get? (Path.normal ⟨"a.lua"⟩) = none := rfl
  set seen := SortedMap.empty.insert (Path.normal ⟨"a.lua"⟩) (⟨0⟩ : Timestamp) with hseen
  have hget : seen.get? (Path.normal ⟨"a.lua"⟩) = some ⟨0⟩ := by
    rw [hseen, SortedMap.get?_insert, if_pos rfl]
  refine ⟨⟨[⟨"a.lua"⟩], seen⟩, ?_, ?_⟩
  · simp only [Watcher.poll, Watcher.new, Watcher.lookAll, Watcher.look, hthere, hunseen]
    rfl
  · simp only [Watcher.poll, Watcher.lookAll, Watcher.look, hthere, hget, if_true]
    rfl

theorem load_workshop :
    Document.load workshop.files workshop.directory ⟨"a.lua"⟩ = .ok (homeDocument ⟨"a.lua"⟩) := by
  have htext : workshop.files.readText home ⟨"a.lua"⟩ = .ok "x = " := by
    rw [FileSystem.readText, FileSystem.read, FileSystem.find, follow_workshop.1]
    simp [bind, Except.bind, FileSystem.entry?, workshop, Text.decode?_toByteArray]
  have hlanguage : languageOf ⟨"a.lua"⟩ = luaLanguage := by cbv
  refine Document.load_eq_ok_iff.mpr ⟨"x = ", htext, ?_⟩
  rw [hlanguage, Document.create, DocumentId.ofPath, FileSystem.canonical?,
    show workshop.directory = home from rfl, follow_workshop.1]
  rfl

/-- The compiler is found and can be started. -/
theorem find_workshop : workshop.files.find home ⟨"/home/luac"⟩
    = .ok (.file ⟨.empty, true, true, ⟨0⟩⟩) := by
  rw [FileSystem.find, follow_workshop.2.1]
  simp [bind, Except.bind, FileSystem.entry?, workshop]

theorem lookUp_workshop : workshop.lookUp "luac" = some ⟨"/home/luac"⟩ := by
  have hcandidates : workshop.searchDirectories.map (fun d => d.join ⟨"luac"⟩)
      = [⟨"/home/luac"⟩] := by decide +kernel
  rw [Machine.lookUp, hcandidates, List.find?_cons_of_pos]
  rw [FileSystem.regularFile?, show workshop.directory = home from rfl, find_workshop]
  rfl

theorem launch_workshop {c : Command} (hprogram : c.program = ⟨"/home/luac"⟩)
    (hdirectory : c.directory = ⟨"."⟩) : workshop.launch c = .ok ["home"] := by
  have henter : workshop.enter ⟨"."⟩ = .ok ["home"] := by
    rw [Machine.enter, show workshop.directory = home from rfl, follow_workshop.2.2]
    simp [bind, Except.bind, FileSystem.entry?, workshop]
  have hexecute : workshop.execute ["home"] ⟨"/home/luac"⟩ = .ok () := by
    rw [Machine.execute, show (["home"] : Location) = home from rfl, find_workshop]
    rfl
  rw [Machine.launch, hprogram, hdirectory, if_neg (by decide), henter]
  simp only [bind, Except.bind]
  rw [if_neg (by decide), if_pos (by decide), hexecute]
  rfl

theorem respond_workshop : Rule.respond workshop.rules "x = " = ⟨"",
    "luac: stdin:1: unexpected symbol near 'x'\n".toUTF8, some 1, false, false, false⟩ := rfl

/-- What the compiler says about the file. -/
theorem compile_workshop (s : Session) (hsettings : s.settings = .default) :
    workshop.compile (s.commandFor workshop (homeDocument ⟨"a.lua"⟩)) (homeDocument ⟨"a.lua"⟩)
      = .ok ⟨some sampleDiagnostic, some 1, 1, false⟩ := by
  have hprogram : (s.commandFor workshop (homeDocument ⟨"a.lua"⟩)).program = ⟨"/home/luac"⟩ := by
    rw [Session.commandFor, hsettings]
    show (workshop.lookUp "luac").getD _ = _
    rw [lookUp_workshop]
    rfl
  have hdirectory : (s.commandFor workshop (homeDocument ⟨"a.lua"⟩)).directory = ⟨"."⟩ := by
    show (homeDocument ⟨"a.lua"⟩).workingDirectory = ⟨"."⟩
    decide +kernel
  have hscan : ErrorStream.scan (homeDocument ⟨"a.lua"⟩).lines
      "luac: stdin:1: unexpected symbol near 'x'\n".toUTF8.toList = ⟨some sampleDiagnostic, 1⟩ := by
    decide +kernel
  rw [Machine.compile, launch_workshop hprogram hdirectory]
  show Except.ok (Cycle.undisturbed _ (Rule.respond workshop.rules "x = ").errors.toList
    (Rule.respond workshop.rules "x = ").exitCode) = _
  rw [respond_workshop, Cycle.undisturbed, hscan]

/-- The file is linted, and its diagnostic is published. -/
theorem lint_workshop : ∃ (begun ended : Session) (c : PreparedCycle),
    (Session.new .default).prepare workshop (homeDocument ⟨"a.lua"⟩) = (begun, .ok c) ∧
    c.document = homeDocument ⟨"a.lua"⟩ ∧
    begun.complete .opened c (workshop.compile c.command c.document)
      = (ended, .published (sampleDiagnostic.withSource "luac")) ∧
    ended.registry = Registry.empty.set ⟨"/home/a.lua"⟩ [sampleDiagnostic.withSource "luac"] := by
  set d : Document := homeDocument ⟨"a.lua"⟩
  set c : PreparedCycle := ⟨1, d, (Session.new .default).commandFor workshop d⟩
  set begun := (Session.new .default).begin d.id
  have hlatest : begun.isLatest c = true := by decide +kernel
  have hverdict : workshop.compile c.command c.document
      = .ok ⟨some sampleDiagnostic, some 1, 1, false⟩ := compile_workshop (.new .default) rfl
  have hcomplete : begun.complete .opened c (workshop.compile c.command c.document)
      = (begun.release d.id).publish .opened c (some sampleDiagnostic) := by
    rw [hverdict, Session.complete, if_neg (by simp [hlatest])]
  exact ⟨begun, _, c, rfl, rfl, hcomplete, rfl⟩

end Watching

end LuaDiagnostics
