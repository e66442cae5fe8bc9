/-
No save is lost.

A watcher tells changes of a file by the file's time alone, and it reads the file some time
after it has looked at that time.  So it may read a text that is newer than the time which
it remembers, and will read it again; but it must not read an older one.  What it remembers
of each path is accounted for at every moment (**`Tracked`**): there is an event still to
be dealt with, or what was read since the look is on its way or shown.

* **`save_not_lost`**: once nothing is pending, the slots show the present texts, provided
  that a file whose text has changed never again has a time from before the change.
* **`old_time_hides_a_save`**: it is not enough that every change of a text comes with a
  new time.
-/
import LuaDiagnostics.Proofs.Watch.History

namespace LuaDiagnostics

namespace Watching

variable {scene : Scene} {s t : Watching} {p : Path}

/-! ### The last event of a path -/

/-- The last of these events that is about the path. -/
def lastOn (p : Path) (events : List WatchEvent) : Option WatchEvent :=
  (events.filter fun e => e.path = p).getLast?

theorem lastOn_cons (p : Path) (e : WatchEvent) (rest : List WatchEvent) :
    lastOn p (e :: rest) = if e.path = p then some ((lastOn p rest).getD e) else lastOn p rest := by
  by_cases hp : e.path = p
  · simp [lastOn, hp, List.getLast?_cons]
  · simp [lastOn, hp]

theorem lastOn_append (p : Path) (events : List WatchEvent) (e : WatchEvent) :
    lastOn p (events ++ [e]) = if e.path = p then some e else lastOn p events := by
  by_cases hp : e.path = p
  · simp [lastOn, hp, List.filter_append]
  · simp [lastOn, hp, List.filter_append]

/-- Only watched paths are looked at, and only they have events. -/
structure Listed (scene : Scene) (s : Watching) : Prop where
  pending : ∀ e ∈ s.pending, e.path ∈ scene.paths
  rest : ∀ rest, s.phase = .polling rest → rest ⊆ scene.paths

theorem listed_of_step (h : Step scene s t) (hs : Listed scene s) : Listed scene t := by
  obtain ⟨hpending, hrest⟩ := hs
  cases h with
  | change => exact ⟨hpending, hrest⟩
  | poll hphase =>
    refine ⟨fun e he => absurd he List.not_mem_nil, fun rest heq => ?_⟩
    obtain rfl := Phase.polling.inj heq
    exact List.Subset.refl _
  | @look p rest seen event hphase hlook =>
    have hp := hrest _ hphase
    rw [pending, hphase] at hpending
    refine ⟨fun e he => ?_, fun rest' heq => ?_⟩
    · rcases List.mem_append.mp he with he | he
      · exact hpending e he
      · obtain rfl : event = some e := Option.mem_toList.mp he
        rw [(Watcher.path_of_look_eq_some (congrArg Prod.snd hlook)).1]
        exact hp List.mem_cons_self
    · obtain rfl := Phase.polling.inj heq
      exact fun q hq => hp (List.mem_cons_of_mem _ hq)
  | react hphase =>
    rw [pending, hphase] at hpending
    exact ⟨hpending, by simp⟩
  | passOver hphase hread | drop hphase hread | read hphase hread =>
    rw [pending, hphase] at hpending
    exact ⟨fun e he => hpending e (List.mem_cons_of_mem _ he), by simp⟩
  | begin hphase hmove | decline hphase hmove =>
    rw [pending, hphase] at hpending
    exact ⟨hpending, by simp⟩
  | finish hresult hmove => exact ⟨hpending, hrest⟩

theorem listed_of_reaches (h : Reaches scene (start scene) s) : Listed scene s := by
  induction h with
  | refl => exact ⟨fun e he => absurd he List.not_mem_nil, by simp [start]⟩
  | tail _ hstep ih => exact listed_of_step hstep ih

/-! ### What is shown of a document -/

/-- What a document's slot shows that was linted. -/
def slotOf (scene : Scene) (d : Document) : Option (List Diagnostic) :=
  (scene.verdict d.text).map fun x => [x.withSource scene.settings.interpreter.program]

/-- The document is shown as linted, or a cycle that will show it holds its place. -/
def Shown (scene : Scene) (course : Session.Course) (d : Document) : Prop :=
  scene.settings.enable = true → d.isLua = true →
    (∃ c ∈ course.underWay, course.session.isLatest c = true ∧ c.document.id = d.id ∧
      c.document.text = d.text) ∨
    course.session.holder? d.id = none ∧ course.session.registry.get? d.id = slotOf scene d

/-- A document stays shown through every move that does not displace its cycle. -/
theorem shown_of_step {u v : Session.Course} {a : Session.Move} {d : Document}
    (hu : Sound scene u) (h : Session.Course.Step u a v) (hdisplaces : a.displaces d.id = false)
    (hresult : ∀ c kind result outcome, a = .complete c kind result outcome →
      c.generation ∉ u.session.cancelled →
        ∃ found, result = .ok found ∧ found.diagnostic = scene.verdict c.document.text)
    (hd : Shown scene u d) : Shown scene v d := by
  intro henable hlua
  rcases hd henable hlua with ⟨c, hc, hlatest, hid, htext⟩ | ⟨hvacant, hslot⟩
  · rcases Session.Course.mem_underWay_or_complete_of_step h hc
      with hcv | ⟨kind, result, outcome, rfl⟩
    · refine .inl ⟨c, hcv, ?_, hid, htext⟩
      rw [Session.Course.isLatest_of_step hu.coherent h hc hcv, hid]
      exact ⟨hlatest, hdisplaces⟩
    · -- The cycle has ended and leaves its result.
      cases h with
      | late hmem hlate => exact absurd (hlatest.symm.trans hlate) (by simp)
      | finish hmem _ houtcome =>
        obtain ⟨found, rfl, hfound⟩ :=
          hresult c kind result outcome rfl ((hu.coherent.free c hc).mp hlatest)
        obtain ⟨-, hholder, -⟩ := Session.complete_rest kind (.ok found) hlatest
        refine .inr ⟨?_, ?_⟩
        · rw [hholder, if_pos hid.symm]
        · rw [Session.get?_registry_complete d.id kind (.ok found) hlatest, if_pos hid.symm,
            Session.slotAfter, hfound, htext, hu.interpreter c hc]
          rfl
  · obtain ⟨hbegins, hforget⟩ := Session.Course.begins_of_displaces hdisplaces
    obtain ⟨hvacant', hslot' | ⟨rfl, -⟩⟩ := Session.Course.vacant_of_step h hbegins hvacant
    · exact .inr ⟨hvacant', hslot'.trans hslot⟩
    · exact absurd rfl hforget

/-! ### What the watcher remembers -/

/-- What was read of a path at a moment has been dealt with or is just being dealt with. -/
def Dealt (scene : Scene) (s : Watching) (p : Path) (files : FileSystem) : Prop :=
  ∀ d, Document.load files scene.machine.directory p = .ok d →
    (∃ rest, s.phase = .preparing d rest) ∨
    (∀ e rest, s.phase = .preparing e rest → e.id ≠ d.id) ∧ Shown scene s.course d

/-- The time that the watcher remembers of a path is accounted for.  If events of the path
are pending, the last of them has the file read again, and the time is one that the file
had.  If none is, the file was read at a moment not earlier than the time. -/
def Tracked (scene : Scene) (s : Watching) (p : Path) : Prop :=
  ∀ time, s.seen.get? p.normal = some time →
    match lastOn p s.pending with
    | some e => e ≠ .removed p ∧
        ∃ old ∈ s.moments, old.modified? scene.machine.directory p = some time
    | none => ∃ files, Since scene s.moments p time files ∧ Dealt scene s p files

/-- Steps that leave the path alone. -/
theorem Tracked.keep (h : Tracked scene s p) (hseen : t.seen.get? p.normal = s.seen.get? p.normal)
    (hlast : lastOn p t.pending = lastOn p s.pending)
    (hmoments : ∃ new, t.moments = new ++ s.moments)
    (hdealt : ∀ files ∈ s.moments, Dealt scene s p files → Dealt scene t p files) :
    Tracked scene t p := by
  intro time htime
  obtain ⟨new, hnew⟩ := hmoments
  have hs := h time (hseen ▸ htime)
  rw [hlast, hnew]
  cases hevent : lastOn p s.pending with
  | some e =>
    rw [hevent] at hs
    obtain ⟨hthere, old, hold, htime⟩ := hs
    exact ⟨hthere, old, List.mem_append_right _ hold, htime⟩
  | none =>
    rw [hevent] at hs
    obtain ⟨files, hsince, hfiles⟩ := hs
    exact ⟨files, hsince.later new, hdealt files hsince.mem hfiles⟩

/-- What was dealt with stays so while the watcher goes on to other paths. -/
theorem Dealt.keep {files : FileSystem} (h : Dealt scene s p files)
    (hidle : ∀ d rest, s.phase ≠ .preparing d rest)
    (hother : ∀ d, Document.load files scene.machine.directory p = .ok d →
      ∀ e rest, t.phase = .preparing e rest → e.id ≠ d.id)
    (hshown : ∀ d, Document.load files scene.machine.directory p = .ok d →
      Shown scene s.course d → Shown scene t.course d) : Dealt scene t p files := by
  intro d hload
  rcases h d hload with ⟨rest, hphase⟩ | ⟨-, hd⟩
  · exact absurd hphase (hidle d rest)
  · exact .inr ⟨hother d hload, hshown d hload hd⟩

/-- A look at the path itself: if there is an event, the time is that of the present. -/
theorem tracked_look {rest : List Path} {q : Path} {seen : SortedMap Timestamp}
    {event : Option WatchEvent} (hphase : s.phase = .polling (q :: rest))
    (hlook : Watcher.look (s.modified? scene) s.seen q = (seen, event))
    (hnormal : p ≠ q → p.normal ≠ q.normal) (h : Tracked scene s p) :
    Tracked scene
      { s with
        seen
        phase := .polling rest
        looked := s.looked ++ [(q, s.modified? scene q)]
        found := s.found ++ event.toList } p := by
  have hseen := Watcher.get?_look (s.modified? scene) s.seen q p.normal
  rw [hlook] at hseen
  have hdealt : ∀ files ∈ s.moments, Dealt scene s p files → Dealt scene
      { s with
        seen
        phase := .polling rest
        looked := s.looked ++ [(q, s.modified? scene q)]
        found := s.found ++ event.toList } p files := by
    intro files _ hfiles
    exact hfiles.keep (by simp [hphase]) (by simp) fun _ _ hd => hd
  by_cases hpq : p = q
  · subst hpq
    rw [if_pos rfl] at hseen
    cases event with
    | none =>
      have hsame := Watcher.eq_of_look_eq_none (congrArg Prod.snd hlook)
      refine h.keep (hseen.trans hsame) ?_ ⟨[], rfl⟩ hdealt
      rw [pending, pending, hphase]
      exact congrArg _ (List.append_nil _)
    | some e =>
      obtain ⟨hpath, hremoved⟩ := Watcher.path_of_look_eq_some (congrArg Prod.snd hlook)
      intro time htime
      have hnow : s.modified? scene p = some time := hseen.symm.trans htime
      show match lastOn p (s.found ++ [e]) with
        | some e => _
        | none => _
      rw [lastOn_append, if_pos hpath]
      refine ⟨fun heq => ?_, s.files, List.mem_cons_self, hnow⟩
      exact absurd ((hremoved heq).symm.trans hnow) (by simp)
  · rw [if_neg (hnormal hpq)] at hseen
    refine h.keep hseen ?_ ⟨[], rfl⟩ hdealt
    rw [pending, pending, hphase]
    cases event with
    | none => exact congrArg _ (List.append_nil _)
    | some e =>
      have hpath := (Watcher.path_of_look_eq_some (congrArg Prod.snd hlook)).1
      show lastOn p (s.found ++ [e]) = lastOn p s.found
      rw [lastOn_append, if_neg]
      rintro rfl
      exact hpq hpath

/-- An event of the path itself is dealt with: the file is read now. -/
theorem tracked_own {e : WatchEvent} {rest : List WatchEvent} (h : Tracked scene s p)
    (hphase : s.phase = .reacting (e :: rest)) (hpath : e.path = p) (hseen : t.seen = s.seen)
    (hpending : t.pending = rest) (hmoments : t.moments = s.moments)
    (hdealt : e ≠ .removed p → Dealt scene t p s.files) : Tracked scene t p := by
  intro time htime
  have hs := h time (hseen ▸ htime)
  rw [pending, hphase] at hs
  simp only [lastOn_cons, if_pos hpath] at hs
  obtain ⟨hthere, old, hold, htime⟩ := hs
  rw [hpending, hmoments]
  cases hlast : lastOn p rest with
  | some e' =>
    rw [hlast] at hthere
    exact ⟨hthere, old, hold, htime⟩
  | none =>
    rw [hlast] at hthere
    exact ⟨s.files, ⟨[], s.past, rfl, old, hold, htime⟩, hdealt hthere⟩

/-- An event of another path is dealt with. -/
theorem tracked_other {e : WatchEvent} {rest : List WatchEvent} (h : Tracked scene s p)
    (hphase : s.phase = .reacting (e :: rest)) (hpath : e.path ≠ p) (hseen : t.seen = s.seen)
    (hpending : t.pending = rest) (hmoments : t.moments = s.moments)
    (hdealt : ∀ files ∈ s.moments, Dealt scene s p files → Dealt scene t p files) :
    Tracked scene t p := by
  refine h.keep (by rw [hseen]) ?_ ⟨[], hmoments⟩ hdealt
  rw [hpending, pending, hphase]
  exact (lastOn_cons p e rest).symm ▸ (if_neg hpath).symm

theorem tracked_of_step {name : Path → DocumentId} (hs : Sound scene s.course)
    (hlisted : Listed scene s) (hnames : NamesAreFixed scene name s.moments)
    (hp : p ∈ scene.paths) (hstep : Step scene s t) (h : Tracked scene s p) :
    Tracked scene t p := by
  cases hstep with
  | @change files => exact h.keep rfl rfl ⟨[files], rfl⟩ fun _ _ hfiles => hfiles
  | poll hphase =>
    refine h.keep rfl ?_ ⟨[], rfl⟩ fun files _ hfiles => ?_
    · rw [pending, pending, hphase]
    · exact hfiles.keep (by simp [hphase]) (by simp) fun _ _ hd => hd
  | look hphase hlook =>
    have hq := hlisted.rest _ hphase List.mem_cons_self
    exact tracked_look hphase hlook (hnames.apart p hp _ hq) h
  | react hphase =>
    refine h.keep rfl ?_ ⟨[], rfl⟩ fun files _ hfiles => ?_
    · rw [pending, pending, hphase]
    · exact hfiles.keep (by simp [hphase]) (by simp) fun _ _ hd => hd
  | @passOver e rest session hphase hread =>
    obtain ⟨rfl, -, error, herror⟩ := of_prepareEvent_eq_none hread
    by_cases hpath : e.path = p
    · refine tracked_own h hphase hpath rfl rfl rfl fun _ d hload => ?_
      rw [← hpath] at hload
      exact absurd (herror.symm.trans hload) (by simp)
    · refine tracked_other h hphase hpath rfl rfl rfl fun files _ hfiles => ?_
      exact hfiles.keep (by simp [hphase]) (by simp) fun _ _ hd => hd
  | @drop e rest session id outcome hphase hread =>
    obtain ⟨rfl, hremoved, -⟩ := of_prepareEvent_eq_settled hread
    by_cases hpath : e.path = p
    · refine tracked_own h hphase hpath rfl rfl rfl fun hthere => ?_
      rw [hpath] at hremoved
      exact absurd hremoved hthere
    · have he := hlisted.pending e (by rw [pending, hphase]; exact List.mem_cons_self)
      have hforeign := hnames.foreign s.files List.mem_cons_self e.path he p hp hpath
      refine tracked_other h hphase hpath rfl rfl rfl fun files hmem hfiles => ?_
      refine hfiles.keep (by simp [hphase]) (by simp) fun d hload hd => ?_
      refine shown_of_step hs .forget ?_ (by simp) hd
      rw [Session.Move.displaces, decide_eq_false_iff_not, hnames.own files hmem p hp d hload]
      exact hforeign
  | @read e rest session kind d hphase hread =>
    obtain ⟨rfl, hdocument⟩ := of_prepareEvent_eq_lint hread
    by_cases hpath : e.path = p
    · refine tracked_own h hphase hpath rfl rfl rfl fun _ d' hload => .inl ⟨rest, ?_⟩
      rw [← hpath] at hload
      rw [Except.ok.inj (hload.symm.trans hdocument)]
    · have he := hlisted.pending e (by rw [pending, hphase]; exact List.mem_cons_self)
      have hforeign := hnames.foreign s.files List.mem_cons_self e.path he p hp hpath
      refine tracked_other h hphase hpath rfl rfl rfl fun files hmem hfiles => ?_
      refine hfiles.keep (by simp [hphase]) (fun d' hload e' rest' heq => ?_) fun _ _ hd => hd
      obtain ⟨rfl, -⟩ := Phase.preparing.inj heq
      obtain ⟨text, -, rfl⟩ := Document.load_eq_ok_iff.mp hdocument
      rw [hnames.own files hmem p hp d' hload]
      exact hforeign
  | @begin c rest course hphase hmove =>
    have hbegin := Session.Course.step_of_step? hmove
    refine h.keep rfl ?_ ⟨[], rfl⟩ fun files _ hfiles d hload => .inr ⟨by simp, ?_⟩
    · rw [pending, pending, hphase]
    rcases hfiles d hload with ⟨rest', hd⟩ | ⟨hne, hd⟩
    · obtain ⟨rfl, -⟩ := Phase.preparing.inj (hphase.symm.trans hd)
      obtain ⟨hmem, hlatest, -⟩ := Session.Course.isLatest_of_begin hbegin
      exact fun _ _ => .inl ⟨c, hmem, hlatest, rfl, rfl⟩
    · refine shown_of_step hs hbegin ?_ (by simp) hd
      rw [Session.Move.displaces, decide_eq_false_iff_not]
      exact hne _ _ hphase
  | @decline d rest outcome course hphase hmove =>
    cases Session.Course.step_of_step? hmove with
    | decline hprepare =>
      refine h.keep rfl ?_ ⟨[], rfl⟩ fun files _ hfiles d' hload => .inr ⟨by simp, ?_⟩
      · rw [pending, pending, hphase]
      rcases hfiles d' hload with ⟨rest', hd⟩ | ⟨-, hd⟩
      · -- The document is none that is linted.
        obtain ⟨rfl, -⟩ := Phase.preparing.inj (hphase.symm.trans hd)
        intro henable hlua
        have hok := (Session.prepare_eq_ok_iff (m := s.machine scene)).mpr
          ⟨hs.settings ▸ henable, hlua, rfl, rfl⟩
        exact absurd (hok.symm.trans hprepare) (by simp)
      · exact hd
  | @finish c kind result outcome course hresult hmove =>
    have hend := Session.Course.step_of_step? hmove
    refine h.keep rfl rfl ⟨[], rfl⟩ fun files _ hfiles d hload => ?_
    refine (hfiles d hload).imp_right fun hd => ⟨hd.1, ?_⟩
    refine shown_of_step hs hend rfl ?_ hd.2
    intro c' kind' result' outcome' heq hflag
    obtain ⟨rfl, -, rfl, -⟩ := Session.Move.complete.inj heq
    exact hresult hflag

theorem tracked_of_reaches {name : Path → DocumentId} (h : Reaches scene (start scene) s)
    (hnames : NamesAreFixed scene name s.moments) (hp : p ∈ scene.paths) :
    Tracked scene s p := by
  induction h with
  | refl =>
    intro time htime
    exact absurd htime (by simp [start])
  | @tail u v hbefore hstep ih =>
    have hsubset := moments_subset_of_step hstep
    have hu : NamesAreFixed scene name u.moments :=
      ⟨hnames.apart, fun files hmem => hnames.own files (hsubset hmem),
        fun files hmem => hnames.foreign files (hsubset hmem)⟩
    exact tracked_of_step (sound_of_reaches hbefore) (listed_of_reaches hbefore) hu hp hstep
      (ih hu)

/-! ### Quiet moments -/

/-- The latest poll saw every watched path as it is now and found no event, all events of
earlier ones have been dealt with, and all cycles have ended. -/
structure IsQuiet (scene : Scene) (s : Watching) : Prop where
  phase : s.phase = .reacting []
  found : s.found = []
  looked : ∀ p ∈ scene.paths, (p, s.modified? scene p) ∈ s.looked
  underWay : s.course.underWay = []

/-- A poll without events has seen what the watcher remembers. -/
theorem looked_of_step (h : Step scene s t)
    (hs : s.found = [] → ∀ q ∈ s.looked, s.seen.get? q.1.normal = q.2) :
    t.found = [] → ∀ q ∈ t.looked, t.seen.get? q.1.normal = q.2 := by
  cases h with
  | poll hphase => exact fun _ q hq => absurd hq List.not_mem_nil
  | @look p rest seen event hphase hlook =>
    intro hfound q hq
    obtain ⟨hfound, hevent⟩ := List.append_eq_nil_iff.mp hfound
    have hevent : event = none := Option.toList_eq_nil_iff.mp hevent
    have hseen := Watcher.get?_look (s.modified? scene) s.seen p q.1.normal
    have hsame := Watcher.eq_of_look_eq_none ((congrArg Prod.snd hlook).trans hevent)
    rw [hlook] at hseen
    rw [hseen]
    rcases List.mem_append.mp hq with hq | hq
    · have hold := hs hfound q hq
      split
      · rename_i hnormal
        rw [hsame, ← hnormal, hold]
      · exact hold
    · obtain rfl := List.mem_singleton.mp hq
      exact if_pos rfl
  | change => exact hs
  | react hphase => exact hs
  | passOver hphase hread => exact hs
  | drop hphase hread => exact hs
  | read hphase hread => exact hs
  | begin hphase hmove => exact hs
  | decline hphase hmove => exact hs
  | finish hresult hmove => exact hs

theorem looked_of_reaches (h : Reaches scene (start scene) s) :
    s.found = [] → ∀ q ∈ s.looked, s.seen.get? q.1.normal = q.2 := by
  induction h with
  | refl => exact fun _ q hq => absurd hq List.not_mem_nil
  | tail _ hstep ih => exact looked_of_step hstep ih

/-- **No save is lost.**  Take any run in which files change at any time, the watcher polls
and deals with the events of each poll, and cycles end in any order.  Let a file whose text
or readability has changed never again have a time from before the change, let distinct
watched paths stand for distinct documents whose names stay the same, and let the compiler
run and say the same about one text at all times.  Then, whenever the latest poll found no
event, no watched file's time has changed since the poll looked at it and all cycles have
ended, the slot of every watched Lua file that can be read shows exactly what linting its
present text gives. -/
theorem save_not_lost {name : Path → DocumentId} {d : Document}
    (hrun : Reaches scene (start scene) s)
    (htimes : ∀ p ∈ scene.paths, TimesMoveOn scene s.moments p)
    (hnames : NamesAreFixed scene name s.moments) (hquiet : s.IsQuiet scene)
    (henable : scene.settings.enable = true) (hp : p ∈ scene.paths)
    (hload : Document.load s.files scene.machine.directory p = .ok d) (hlua : d.isLua = true) :
    s.course.session.registry.get? d.id
      = (scene.verdict d.text).map fun x => [x.withSource scene.settings.interpreter.program] := by
  obtain ⟨text, htext, rfl⟩ := Document.load_eq_ok_iff.mp hload
  obtain ⟨time, htime⟩ := exists_modified?_of_readText htext
  have hseen : s.seen.get? p.normal = some time :=
    (looked_of_reaches hrun hquiet.found _ (hquiet.looked p hp)).trans htime
  have htracked := tracked_of_reaches hrun hnames hp time hseen
  rw [pending, hquiet.phase] at htracked
  obtain ⟨files, hsince, hdealt⟩ := htracked
  -- What was read is what there is.
  have hsame := text?_eq_of_since (htimes p hp) htime hsince
  have hread : files.readText scene.machine.directory p = .ok text := by
    rw [text?_eq_some_iff.mpr htext] at hsame
    exact text?_eq_some_iff.mp hsame
  have hload' := Document.load_eq_ok_iff.mpr ⟨text, hread, rfl⟩
  have hid : (Document.create files scene.machine.directory p (languageOf p) text).id
      = (Document.create s.files scene.machine.directory p (languageOf p) text).id :=
    (hnames.own files hsince.mem p hp _ hload').trans
      (hnames.own s.files List.mem_cons_self p hp _ hload).symm
  rcases hdealt _ hload' with ⟨rest, hphase⟩ | ⟨-, hshown⟩
  · exact absurd (hquiet.phase.symm.trans hphase) (by simp)
  · rcases hshown henable hlua with ⟨c, hc, -⟩ | ⟨-, hslot⟩
    · rw [hquiet.underWay] at hc
      exact absurd hc List.not_mem_nil
    · rw [← hid]
      exact hslot

/-! ### One file -/

open Session.Course

theorem namesAreFixed_sampleScene {moments : List FileSystem}
    (h : ∀ files ∈ moments, ∃ text time, files = sampleFiles text time) :
    NamesAreFixed sampleScene (fun _ => ⟨"/home/a.lua"⟩) moments := by
  have hone : ∀ p ∈ sampleScene.paths, p = samplePath := by
    intro p hp
    exact List.mem_singleton.mp hp
  refine ⟨?_, ?_, ?_⟩
  · intro p hp q hq hne
    exact absurd ((hone p hp).trans (hone q hq).symm) hne
  · intro files hmem p hp d hload
    obtain ⟨text, time, rfl⟩ := h files hmem
    rw [hone p hp] at hload
    obtain rfl := Except.ok.inj (hload.symm.trans (load_sampleFiles text time))
    rfl
  · intro files _ p hp q hq hne
    exact absurd ((hone p hp).trans (hone q hq).symm) hne

/-- A poll that sees the time that is remembered. -/
theorem isQuiet_polled_sampleScene {text : String} {time : Timestamp}
    (hfiles : s.files = sampleFiles text time)
    (hseen : s.seen.get? samplePath.normal = some time) (hunderWay : s.course.underWay = []) :
    (s.polled sampleScene).IsQuiet sampleScene := by
  obtain ⟨hphase, hfound, hlooked, -⟩ := polled_sampleScene hfiles
  have hnone : (s.polled sampleScene).found = [] := by
    rw [hfound, hseen]
    exact if_pos rfl
  refine ⟨hphase.trans (congrArg _ hnone), hnone, ?_, hunderWay⟩
  intro p hp
  obtain rfl := List.mem_singleton.mp hp
  show (_, s.files.modified? home samplePath) ∈ _
  rw [hlooked, hfiles, modified?_sampleFiles]
  exact List.mem_singleton_self _

/-- The file is saved after it was linted, and linted once more. -/
theorem second_save_shown : ∃ u : Watching, Reaches sampleScene (start sampleScene) u ∧
    u.moments = [sampleFiles "x = 1" ⟨5⟩, sampleFiles "x = " ⟨0⟩] ∧
    u.course.session.registry.get? ⟨"/home/a.lua"⟩ = none := by
  obtain ⟨u, hu, huphase, hufiles, hupast, huunderWay, huseen, -⟩ := reaches_sampleLint
  -- The poll after the change notices it.
  set v : Watching := { u with files := sampleFiles "x = 1" ⟨5⟩, past := u.files :: u.past }
  have hv : Reaches sampleScene (start sampleScene) (v.polled sampleScene) :=
    (hu.tail .change).trans (reaches_polled huphase)
  obtain ⟨hphase, hfound, -, hseen⟩ := polled_sampleScene (s := v) rfl
  have hsaved : (v.polled sampleScene).phase = .reacting [.saved samplePath] := by
    rw [hphase, hfound, show v.seen.get? samplePath.normal = _ from huseen]
    simp
  obtain ⟨course, hlinted, hunderWay, -⟩ := reaches_linted (sound_of_reaches hv) hsaved
    (by simp [WatchEvent.path]) (load_sampleFiles "x = 1" ⟨5⟩) rfl rfl
  -- The poll after that finds nothing new.
  set w : Watching := { v.polled sampleScene with course, phase := .reacting [] }
  have hw : Reaches sampleScene (start sampleScene) (w.polled sampleScene) :=
    (hv.trans hlinted).trans (reaches_polled rfl)
  have hmoments : (w.polled sampleScene).moments
      = [sampleFiles "x = 1" ⟨5⟩, sampleFiles "x = " ⟨0⟩] := by
    show _ :: u.files :: u.past = _
    rw [hufiles, hupast]
    rfl
  have htimes : ∀ p ∈ sampleScene.paths,
      TimesMoveOn sampleScene (w.polled sampleScene).moments p := by
    intro p hp
    obtain rfl := List.mem_singleton.mp hp
    rw [hmoments]
    exact timesMoveOn_of_later (modified?_sampleFiles _ _) (modified?_sampleFiles _ _)
      (by decide)
  have hnames : NamesAreFixed sampleScene (fun _ => ⟨"/home/a.lua"⟩)
      (w.polled sampleScene).moments := by
    refine namesAreFixed_sampleScene ?_
    rw [hmoments]
    simp
  have hquiet := isQuiet_polled_sampleScene (s := w) rfl hseen (hunderWay.trans huunderWay)
  refine ⟨_, hw, hmoments, ?_⟩
  exact save_not_lost (d := sampleDocument "x = 1") hw htimes hnames hquiet rfl
    List.mem_cons_self (load_sampleFiles "x = 1" ⟨5⟩) rfl

/-- The file is saved after it was linted, and then gets back its old time.  Every change of
its text came with a new time, and yet its slot shows the earlier text. -/
theorem old_time_hides_a_save : ∃ u : Watching,
    Reaches sampleScene (start sampleScene) u ∧
    Reaches sampleScene u (u.polled sampleScene) ∧
    (∀ p ∈ sampleScene.paths, ChangesAreFresh sampleScene (u.polled sampleScene).moments p) ∧
    NamesAreFixed sampleScene (fun _ => ⟨"/home/a.lua"⟩) (u.polled sampleScene).moments ∧
    (u.polled sampleScene).IsQuiet sampleScene ∧
    sampleScene.settings.enable = true ∧ samplePath ∈ sampleScene.paths ∧
    Document.load (u.polled sampleScene).files sampleScene.machine.directory samplePath
      = .ok (sampleDocument "x = 1") ∧
    (sampleDocument "x = 1").isLua = true ∧
    (u.polled sampleScene).course.session.registry.get? (sampleDocument "x = 1").id
      ≠ (sampleScene.verdict (sampleDocument "x = 1").text).map fun x =>
        [x.withSource sampleScene.settings.interpreter.program] := by
  obtain ⟨u, hu, huphase, hufiles, hupast, huunderWay, huseen, huslot⟩ := reaches_sampleLint
  set v : Watching :=
    { u with
      files := sampleFiles "x = 1" ⟨0⟩
      past := sampleFiles "x = 1" ⟨5⟩ :: u.files :: u.past }
  have hsaved : Step sampleScene u
      { u with files := sampleFiles "x = 1" ⟨5⟩, past := u.files :: u.past } := .change
  have hv : Reaches sampleScene (start sampleScene) v := (hu.tail hsaved).tail .change
  have hmoments : (v.polled sampleScene).moments
      = [sampleFiles "x = 1" ⟨0⟩, sampleFiles "x = 1" ⟨5⟩, sampleFiles "x = " ⟨0⟩] := by
    show _ :: _ :: u.files :: u.past = _
    rw [hufiles, hupast]
    rfl
  refine ⟨v, hv, reaches_polled huphase, ?_, ?_, ?_, rfl, List.mem_cons_self,
    load_sampleFiles "x = 1" ⟨0⟩, rfl, ?_⟩
  · intro p hp
    obtain rfl := List.mem_singleton.mp hp
    rw [hmoments]
    refine changesAreFresh_of_touch ?_ (modified?_sampleFiles _ _) (modified?_sampleFiles _ _)
      (by decide)
    exact (text?_eq_some_iff.mpr (readText_sampleFiles _ _)).trans
      (text?_eq_some_iff.mpr (readText_sampleFiles _ _)).symm
  · refine namesAreFixed_sampleScene ?_
    rw [hmoments]
    simp
  · exact isQuiet_polled_sampleScene (s := v) rfl huseen huunderWay
  · show u.course.session.registry.get? ⟨"/home/a.lua"⟩ ≠ none
    rw [huslot]
    simp

end Watching

end LuaDiagnostics
