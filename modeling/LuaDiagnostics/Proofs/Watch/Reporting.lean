/-
Reporting what the events of a watch come to.

A watch has one loop and many workers.  The loop polls, deals with the events, and goes
through the workers that it has not reported: it takes those that have returned out of
their list and keeps the others.  Meanwhile cycles end and workers return in any order and
at any moment, and others use the session too.  When the loop is told to stop, it cancels
all cycles and goes through the list once more, waiting for each worker.

* **`Step`** is any of this.  What an event is turned into and what happens to the session
  are those of `Session.prepareEvent` and `Session.Course.step?`.
* **`owned_of_reaches`**: every worker has a cycle of its own, and what the worker has to
  say is what that cycle came to.

A poll finds any events and a cycle has any result: nothing here depends on files or
compilers.  A removed file is forgotten in one move, for no outcome depends on when its
slot is emptied.
-/
import LuaDiagnostics.Proofs.Session.Pool
import LuaDiagnostics.Proofs.Watch.Watching

namespace LuaDiagnostics

namespace Reporting

/-- What became of an event. -/
structure Entry where
  /-- The machine as it was when the event was dealt with. -/
  machine : Machine
  event : WatchEvent
  /-- What the event was turned into. -/
  prepared? : Option Prepared
  /-- The cycle that was begun for the event. -/
  cycle? : Option PreparedCycle

/-- What is kept of a worker until it is reported. -/
structure Ticket where
  /-- The place of the worker's event among all events that were dealt with. -/
  place : Nat
  id : DocumentId
deriving DecidableEq

/-- A call, with the event that led to it. -/
structure Report extends Ticket where
  outcome : LintOutcome

/-- What the loop is at. -/
inductive Phase
  | idle
  /-- It is to deal with these events. -/
  | reacting (rest : List WatchEvent)
  /-- It goes through the list of workers and has come to this place in it. -/
  | collecting (wait : Bool) (index : Nat)
  | over

end Reporting

/-- A watch and its session at work, with all that has happened. -/
structure Reporting where
  course : Session.Course
  /-- What has happened to the session. -/
  moves : List Session.Move
  /-- The events of all polls. -/
  polled : List WatchEvent
  /-- What became of the events that were dealt with. -/
  entries : List Reporting.Entry
  /-- What the workers have to say, by the places of their events. -/
  answers : List (Nat × LintOutcome)
  /-- The workers that have returned. -/
  ended : List Nat
  /-- The workers that are not reported yet. -/
  running : List Reporting.Ticket
  reports : List Reporting.Report
  phase : Reporting.Phase

namespace Reporting

variable {settings : Settings} {registry : Registry} {s t : Reporting}

/-- Nothing has happened yet. -/
def start (settings : Settings) (registry : Registry) : Reporting :=
  { course := .start settings registry
    moves := []
    polled := []
    entries := []
    answers := []
    ended := []
    running := []
    reports := []
    phase := .idle }

/-- Something has happened to the session. -/
def moved (s : Reporting) (a : Session.Move) (course : Session.Course) : Reporting :=
  { s with course, moves := s.moves ++ [a] }

/-- An event was dealt with. -/
def noted (s : Reporting) (e : Entry) : Reporting := { s with entries := s.entries ++ [e] }

/-- A worker has something to say. -/
def answered (s : Reporting) (k : Nat) (outcome : LintOutcome) : Reporting :=
  { s with answers := s.answers ++ [(k, outcome)] }

/-- Somebody was told an outcome. -/
def told (s : Reporting) (r : Report) : Reporting := { s with reports := s.reports ++ [r] }

/-- A worker was started for the event that is dealt with. -/
def launched (s : Reporting) (id : DocumentId) : Reporting :=
  { s with running := s.running ++ [⟨s.entries.length, id⟩] }

/-- All cycles were cancelled, and the last pass is to begin. -/
def stopped (s : Reporting) : Reporting :=
  { s.moved .cancelAll { s.course with session := s.course.session.cancelAll } with
    phase := .collecting true 0 }

/-- The events that were noticed and not dealt with. -/
def pending (s : Reporting) : List WatchEvent :=
  match s.phase with
  | .reacting rest => rest
  | _ => []

/-- The calls that the event at a place has led to, in order. -/
def callsFor (s : Reporting) (k : Nat) : List (DocumentId × LintOutcome) :=
  (s.reports.filter (·.place = k)).map fun r => (r.id, r.outcome)

/-- All calls, in order. -/
def calls (s : Reporting) : List (DocumentId × LintOutcome) :=
  s.reports.map fun r => (r.id, r.outcome)

/-- What may happen next. -/
inductive Step (s : Reporting) : Reporting → Prop
  /-- The cycle of a worker ends. -/
  | answer {k : Nat} {e : Entry} {kind : EventKind} {d : Document} {c : PreparedCycle}
      {result : CycleResult} {outcome : LintOutcome} {course : Session.Course}
      (hentry : s.entries[k]? = some e) (hprepared : e.prepared? = some (.lint kind d))
      (hcycle : e.cycle? = some c)
      (hmove : s.course.step? (.complete c kind result outcome) = some course) :
      Step s ((s.moved (.complete c kind result outcome) course).answered k outcome)
  /-- A worker that has something to say returns. -/
  | finish {k : Nat} {outcome : LintOutcome} (hanswer : (k, outcome) ∈ s.answers) :
      Step s { s with ended := s.ended ++ [k] }
  /-- Somebody else uses the session, and leaves the cycles of the workers to them. -/
  | other {a : Session.Move} {course : Session.Course}
      (hother : ∀ e ∈ s.entries, ∀ c, e.cycle? = some c →
        ∀ kind result outcome, a ≠ .complete c kind result outcome)
      (hmove : s.course.step? a = some course) :
      Step s (s.moved a course)
  | poll {events : List WatchEvent} (hphase : s.phase = .idle) :
      Step s { s with polled := s.polled ++ events, phase := .reacting events }
  /-- A file cannot be read. -/
  | passOver {m : Machine} {e : WatchEvent} {rest : List WatchEvent} {session : Session}
      (hphase : s.phase = .reacting (e :: rest))
      (hread : s.course.session.prepareEvent m e = (session, none)) :
      Step s
        { s.noted ⟨m, e, none, none⟩ with
          course := { s.course with session }
          phase := .reacting rest }
  /-- A file is gone. -/
  | drop {m : Machine} {e : WatchEvent} {rest : List WatchEvent} {session : Session}
      {id : DocumentId} {outcome : LintOutcome} (hphase : s.phase = .reacting (e :: rest))
      (hread : s.course.session.prepareEvent m e = (session, some (.settled id outcome))) :
      Step s
        { ((s.moved (.forget id) { s.course with session }).told
            ⟨⟨s.entries.length, id⟩, outcome⟩).noted
              ⟨m, e, some (.settled id outcome), none⟩ with
          phase := .reacting rest }
  /-- A file was read, and a worker begins a cycle for its document.  The machine may
  have changed between the two. -/
  | begin {m m' : Machine} {e : WatchEvent} {rest : List WatchEvent} {session : Session}
      {kind : EventKind} {c : PreparedCycle} {course : Session.Course}
      (hphase : s.phase = .reacting (e :: rest))
      (hread : s.course.session.prepareEvent m e = (session, some (.lint kind c.document)))
      (hmove : Session.Course.step? { s.course with session } (.begin m' c) = some course) :
      Step s
        { ((s.moved (.begin m' c) course).launched c.document.id).noted
              ⟨m, e, some (.lint kind c.document), some c⟩ with
          phase := .reacting rest }
  /-- A file was read, and its document is turned away: the worker has nothing to do. -/
  | decline {m m' : Machine} {e : WatchEvent} {rest : List WatchEvent} {session : Session}
      {kind : EventKind} {d : Document} {outcome : LintOutcome} {course : Session.Course}
      (hphase : s.phase = .reacting (e :: rest))
      (hread : s.course.session.prepareEvent m e = (session, some (.lint kind d)))
      (hmove : Session.Course.step? { s.course with session } (.decline m' d outcome)
        = some course) :
      Step s
        { (((s.moved (.decline m' d outcome) course).launched d.id).answered
            s.entries.length outcome).noted ⟨m, e, some (.lint kind d), none⟩ with
          phase := .reacting rest }
  | collect (hphase : s.phase = .reacting []) :
      Step s { s with phase := .collecting false 0 }
  /-- A worker that has not returned stays in the list. -/
  | keep {index : Nat} {h : Ticket} (hphase : s.phase = .collecting false index)
      (hticket : s.running[index]? = some h) (hgoing : h.place ∉ s.ended) :
      Step s { s with phase := .collecting false (index + 1) }
  /-- A worker that has returned is taken out of the list and reported. -/
  | take {wait : Bool} {index : Nat} {h : Ticket} {outcome : LintOutcome}
      (hphase : s.phase = .collecting wait index) (hticket : s.running[index]? = some h)
      (hended : h.place ∈ s.ended) (hanswer : (h.place, outcome) ∈ s.answers) :
      Step s { s.told ⟨h, outcome⟩ with running := s.running.eraseIdx index }
  | sleep {index : Nat} (hphase : s.phase = .collecting false index)
      (hthrough : s.running.length ≤ index) : Step s { s with phase := .idle }
  | stop (hphase : s.phase = .idle) : Step s s.stopped
  | leave {index : Nat} (hphase : s.phase = .collecting true index)
      (hthrough : s.running.length ≤ index) : Step s { s with phase := .over }

/-- What any sequence of steps leads to. -/
abbrev Reaches : Reporting → Reporting → Prop := Relation.ReflTransGen Step

/-! ### Entries -/

/-- The entry says what any session would turn the event into, and its cycle is one for
the document that was read. -/
structure Entry.IsRead (e : Entry) : Prop where
  prepared : ∀ u : Session, (u.prepareEvent e.machine e.event).2 = e.prepared?
  document : ∀ c, e.cycle? = some c → ∃ kind, e.prepared? = some (.lint kind c.document)

/-- By the moves of a session, the event's worker has this outcome: that of the event's own
cycle, or the one with which its document was turned away. -/
def Entry.ComesTo (e : Entry) (moves : List Session.Move) (outcome : LintOutcome) : Prop :=
  ∃ kind d, e.prepared? = some (.lint kind d) ∧
    match e.cycle? with
    | some c => ∃ result, .complete c kind result outcome ∈ moves
    | none => ∃ m, .decline m d outcome ∈ moves

theorem Entry.ComesTo.mono {e : Entry} {moves more : List Session.Move} {outcome : LintOutcome}
    (h : e.ComesTo moves outcome) (hmore : moves ⊆ more) : e.ComesTo more outcome := by
  obtain ⟨kind, d, hprepared, h⟩ := h
  refine ⟨kind, d, hprepared, ?_⟩
  split at h
  · obtain ⟨result, hmem⟩ := h
    exact ⟨result, hmore hmem⟩
  · obtain ⟨m, hmem⟩ := h
    exact ⟨m, hmore hmem⟩

theorem isRead_of_prepareEvent {u u' : Session} {m : Machine} {e : WatchEvent}
    {prepared? : Option Prepared} {cycle? : Option PreparedCycle}
    (hread : u.prepareEvent m e = (u', prepared?))
    (hdocument : ∀ c, cycle? = some c → ∃ kind, prepared? = some (.lint kind c.document)) :
    Entry.IsRead ⟨m, e, prepared?, cycle?⟩ := by
  refine ⟨fun v => ?_, hdocument⟩
  -- Sessions differ in what they forget, not in what they answer.
  have hsame : (v.prepareEvent m e).2 = (u.prepareEvent m e).2 := by
    cases e with
    | opened p | saved p | removed p => rfl
  exact hsame.trans (congrArg Prod.snd hread)

/-- An entry is an old one or the one that was noted last. -/
theorem getElem?_noted {e d : Entry} {k : Nat} :
    (s.noted e).entries[k]? = some d ↔
      s.entries[k]? = some d ∨ k = s.entries.length ∧ d = e := by
  show (s.entries ++ [e])[k]? = some d ↔ _
  rcases Nat.lt_trichotomy k s.entries.length with hlt | rfl | hgt
  · rw [List.getElem?_append_left hlt]
    exact ⟨.inl, fun h => h.resolve_right fun hlast => absurd hlast.1 (by omega)⟩
  · rw [List.getElem?_concat_length, List.getElem?_eq_none (Nat.le_refl _)]
    simp [eq_comm]
  · rw [List.getElem?_eq_none (by simp; omega), List.getElem?_eq_none (by omega)]
    simp only [reduceCtorEq, false_or, false_iff]
    omega

theorem lt_length_of_getElem? {e : Entry} {k : Nat} (h : s.entries[k]? = some e) :
    k < s.entries.length :=
  (List.getElem?_eq_some_iff.mp h).1

/-! ### What steps keep -/

/-- What a step does to the session is nothing or a move. -/
theorem course_of_step (h : Step s t) :
    t.course = s.course ∨ ∃ a, Session.Course.Step s.course a t.course := by
  cases h with
  | answer hentry hprepared hcycle hmove =>
    exact .inr ⟨_, Session.Course.step_of_step? hmove⟩
  | other hother hmove => exact .inr ⟨_, Session.Course.step_of_step? hmove⟩
  | passOver hphase hread =>
    obtain ⟨rfl, -⟩ := Watching.of_prepareEvent_eq_none hread
    exact .inl rfl
  | drop hphase hread =>
    obtain ⟨rfl, -⟩ := Watching.of_prepareEvent_eq_settled hread
    exact .inr ⟨_, .forget⟩
  | begin hphase hread hmove | decline hphase hread hmove =>
    obtain ⟨rfl, -⟩ := Watching.of_prepareEvent_eq_lint hread
    exact .inr ⟨_, Session.Course.step_of_step? hmove⟩
  | stop hphase => exact .inr ⟨_, .cancelAll⟩
  | finish hanswer | poll hphase | collect hphase | keep hphase hticket hgoing
  | take hphase hticket hended hanswer | sleep hphase hthrough | leave hphase hthrough =>
    exact .inl rfl

theorem cancelled_subset_of_reaches (h : Reaches s t) :
    s.course.session.cancelled ⊆ t.course.session.cancelled := by
  induction h with
  | refl => exact List.Subset.refl _
  | tail _ hstep ih =>
    rcases course_of_step hstep with heq | ⟨a, ha⟩
    · rw [heq]
      exact ih
    · exact List.Subset.trans ih (Session.Course.cancelled_subset_of_step ha)

/-- What became of an event stays known. -/
theorem getElem?_entries_of_step (h : Step s t) {k : Nat} {e : Entry}
    (hentry : s.entries[k]? = some e) : t.entries[k]? = some e := by
  cases h with
  | passOver hphase hread | drop hphase hread | begin hphase hread hmove
  | decline hphase hread hmove => exact getElem?_noted.mpr (.inl hentry)
  | answer hentry' hprepared hcycle hmove | other hother hmove | stop hphase | finish hanswer
  | poll hphase | collect hphase | keep hphase hticket hgoing
  | take hphase hticket hended hanswer | sleep hphase hthrough | leave hphase hthrough =>
    exact hentry

/-! ### Cycles of workers -/

/-- The moves are those of the session, and no two events have one cycle. -/
structure Traced (settings : Settings) (registry : Registry) (s : Reporting) : Prop where
  history : (Session.Course.start settings registry).run? s.moves = some s.course
  read : ∀ e ∈ s.entries, e.IsRead
  begun : ∀ e ∈ s.entries, ∀ c, e.cycle? = some c →
    c.generation < s.course.session.nextGeneration ∧ ∃ m, .begin m c ∈ s.moves
  single : ∀ (j k : Nat) (d e : Entry) (c : PreparedCycle), s.entries[j]? = some d →
    s.entries[k]? = some e → d.cycle? = some c → e.cycle? = some c → j = k

/-- What a worker has to say is what its cycle came to, and it has something to say as soon
as its cycle is over. -/
structure Owned (settings : Settings) (registry : Registry) (s : Reporting) : Prop
    extends Traced settings registry s where
  comes : ∀ (k : Nat) (outcome : LintOutcome), (k, outcome) ∈ s.answers →
    ∃ e, s.entries[k]? = some e ∧ e.ComesTo s.moves outcome
  turnedAway : ∀ (k : Nat) (e : Entry) (kind : EventKind) (d : Document),
    s.entries[k]? = some e → e.prepared? = some (.lint kind d) → e.cycle? = none →
      ∃ outcome, (k, outcome) ∈ s.answers
  underWay_iff : ∀ (k : Nat) (e : Entry) (c : PreparedCycle), s.entries[k]? = some e →
    e.cycle? = some c → (c ∈ s.course.underWay ↔ ∀ outcome, (k, outcome) ∉ s.answers)
  returned : ∀ k ∈ s.ended, ∃ outcome, (k, outcome) ∈ s.answers

theorem Traced.coherent (h : Traced settings registry s) : Session.Course.Coherent s.course :=
  Session.Course.coherent_of_run h.history (Session.Course.coherent_start settings registry)

theorem Traced.lt_nextGeneration (h : Traced settings registry s) {k : Nat} {e : Entry}
    {c : PreparedCycle} (hentry : s.entries[k]? = some e) (hcycle : e.cycle? = some c) :
    c.generation < s.course.session.nextGeneration :=
  (h.begun e (List.mem_of_getElem? hentry) c hcycle).1

theorem Traced.moved (h : Traced settings registry s) {a : Session.Move}
    {course : Session.Course} (hmove : Session.Course.Step s.course a course) :
    Traced settings registry (s.moved a course) where
  history := Session.Course.run?_append_eq_some_iff.mpr ⟨_, h.history,
    Session.Course.run?_cons_eq_some_iff.mpr ⟨_, hmove, Session.Course.run?_nil _⟩⟩
  read := h.read
  begun e he c hc := by
    obtain ⟨hlt, m, hm⟩ := h.begun e he c hc
    exact ⟨Nat.lt_of_lt_of_le hlt (Session.Course.nextGeneration_le_of_step hmove), m,
      List.mem_append_left _ hm⟩
  single := h.single

theorem Traced.noted (h : Traced settings registry s) {e : Entry} (hread : e.IsRead)
    (hcycle : ∀ c, e.cycle? = some c → (∀ d ∈ s.entries, d.cycle? ≠ some c) ∧
      c.generation < s.course.session.nextGeneration ∧ ∃ m, .begin m c ∈ s.moves) :
    Traced settings registry (s.noted e) where
  history := h.history
  read d hd := by
    rcases List.mem_append.mp hd with hd | hd
    · exact h.read d hd
    · exact List.mem_singleton.mp hd ▸ hread
  begun d hd c hc := by
    rcases List.mem_append.mp hd with hd | hd
    · exact h.begun d hd c hc
    · obtain rfl := List.mem_singleton.mp hd
      exact (hcycle c hc).2
  single i j d d' c hi hj hd hd' := by
    rcases getElem?_noted.mp hi with hold | ⟨rfl, rfl⟩
    · rcases getElem?_noted.mp hj with hold' | ⟨-, rfl⟩
      · exact h.single i j d d' c hold hold' hd hd'
      · exact absurd hd ((hcycle c hd').1 d (List.mem_of_getElem? hold))
    · rcases getElem?_noted.mp hj with hold' | ⟨hj, -⟩
      · exact absurd hd' ((hcycle c hd).1 d' (List.mem_of_getElem? hold'))
      · exact hj.symm

theorem owned_start (settings : Settings) (registry : Registry) :
    Owned settings registry (start settings registry) where
  history := rfl
  read e he := absurd he List.not_mem_nil
  begun e he := absurd he List.not_mem_nil
  single j k d e c hd := absurd hd (by simp [start])
  comes k outcome h := absurd h List.not_mem_nil
  turnedAway k e kind d h := absurd h (by simp [start])
  underWay_iff k e c h := absurd h (by simp [start])
  returned k h := absurd h List.not_mem_nil

/-- A move that ends no cycle of a worker. -/
theorem Owned.moved (h : Owned settings registry s) {a : Session.Move}
    {course : Session.Course} (hmove : Session.Course.Step s.course a course)
    (hother : ∀ e ∈ s.entries, ∀ c, e.cycle? = some c →
      ∀ kind result outcome, a ≠ .complete c kind result outcome) :
    Owned settings registry (s.moved a course) where
  toTraced := h.toTraced.moved hmove
  comes k outcome hk := by
    obtain ⟨e, he, hcomes⟩ := h.comes k outcome hk
    exact ⟨e, he, hcomes.mono (List.subset_append_left _ _)⟩
  turnedAway := h.turnedAway
  underWay_iff k e c hentry hcycle := by
    refine Iff.trans ⟨fun hc => ?_, fun hc => ?_⟩ (h.underWay_iff k e c hentry hcycle)
    · by_contra hnot
      exact Session.Course.not_mem_underWay_of_step hmove (h.lt_nextGeneration hentry hcycle)
        hnot hc
    · refine (Session.Course.mem_underWay_or_complete_of_step hmove hc).resolve_right ?_
      rintro ⟨kind, result, outcome, ha⟩
      exact hother e (List.mem_of_getElem? hentry) c hcycle kind result outcome ha
  returned := h.returned

/-- The end of a worker's cycle. -/
theorem Owned.answer (h : Owned settings registry s) {k : Nat} {e : Entry} {kind : EventKind}
    {d : Document} {c : PreparedCycle} {result : CycleResult} {outcome : LintOutcome}
    {course : Session.Course} (hentry : s.entries[k]? = some e)
    (hprepared : e.prepared? = some (.lint kind d)) (hcycle : e.cycle? = some c)
    (hmove : Session.Course.Step s.course (.complete c kind result outcome) course) :
    Owned settings registry
      ((s.moved (.complete c kind result outcome) course).answered k outcome) := by
  have hnodup := List.Nodup.of_map _ h.coherent.distinct
  have htraced := h.toTraced.moved hmove
  refine ⟨⟨htraced.history, htraced.read, htraced.begun, htraced.single⟩, ?_, ?_, ?_, ?_⟩
  · intro j found hj
    rcases List.mem_append.mp hj with hj | hj
    · obtain ⟨e', he', hcomes⟩ := h.comes j found hj
      exact ⟨e', he', hcomes.mono (List.subset_append_left _ _)⟩
    · obtain ⟨rfl, rfl⟩ := Prod.mk.inj (List.mem_singleton.mp hj)
      refine ⟨e, hentry, kind, d, hprepared, ?_⟩
      rw [hcycle]
      exact ⟨result, List.mem_append_right _ List.mem_cons_self⟩
  · intro j e' kind' d' he' hprepared' hnone
    obtain ⟨found, hfound⟩ := h.turnedAway j e' kind' d' he' hprepared' hnone
    exact ⟨found, List.mem_append_left _ hfound⟩
  · intro j e' c' he' hcycle'
    have hunderWay := Pool.underWay_of_complete hmove
    show c' ∈ course.underWay ↔ ∀ found, (j, found) ∉ s.answers ++ [(k, outcome)]
    rw [hunderWay, hnodup.mem_erase_iff, h.underWay_iff j e' c' he' hcycle']
    constructor
    · rintro ⟨hne, hnone⟩ found hfound
      rcases List.mem_append.mp hfound with hfound | hfound
      · exact hnone found hfound
      · obtain ⟨rfl, -⟩ := Prod.mk.inj (List.mem_singleton.mp hfound)
        obtain rfl := Option.some.inj (hentry.symm.trans he')
        exact hne (Option.some.inj (hcycle'.symm.trans hcycle))
    · refine fun hnone => ⟨?_, fun found hfound => hnone found (List.mem_append_left _ hfound)⟩
      rintro rfl
      obtain rfl := h.single j k e' e c' he' hentry hcycle' hcycle
      exact hnone outcome (List.mem_append_right _ List.mem_cons_self)
  · intro j hj
    obtain ⟨found, hfound⟩ := h.returned j hj
    exact ⟨found, List.mem_append_left _ hfound⟩

/-- The places of answers are those of events that were dealt with. -/
theorem Owned.lt_length (h : Owned settings registry s) {k : Nat} {outcome : LintOutcome}
    (hanswer : (k, outcome) ∈ s.answers) : k < s.entries.length := by
  obtain ⟨e, hentry, -⟩ := h.comes k outcome hanswer
  exact lt_length_of_getElem? hentry

/-- An event with which a cycle begins, or none that would lead to a worker. -/
theorem Owned.noted (h : Owned settings registry s) {e : Entry} (hread : e.IsRead)
    (hlint : ∀ kind d, e.prepared? = some (.lint kind d) → e.cycle? ≠ none)
    (hcycle : ∀ c, e.cycle? = some c → c ∈ s.course.underWay ∧
      (∀ d ∈ s.entries, d.cycle? ≠ some c) ∧ ∃ m, .begin m c ∈ s.moves) :
    Owned settings registry (s.noted e) where
  toTraced := h.toTraced.noted hread fun c hc => by
    obtain ⟨hmem, hnew, hbegun⟩ := hcycle c hc
    exact ⟨hnew, h.coherent.below c hmem, hbegun⟩
  comes k outcome hk := by
    obtain ⟨d, hd, hcomes⟩ := h.comes k outcome hk
    exact ⟨d, getElem?_noted.mpr (.inl hd), hcomes⟩
  turnedAway k d kind document hd hprepared hnone := by
    rcases getElem?_noted.mp hd with hd | ⟨rfl, rfl⟩
    · exact h.turnedAway k d kind document hd hprepared hnone
    · exact absurd hnone (hlint kind document hprepared)
  underWay_iff k d c hd hc := by
    rcases getElem?_noted.mp hd with hd | ⟨rfl, rfl⟩
    · exact h.underWay_iff k d c hd hc
    · exact iff_of_true (hcycle c hc).1 fun outcome hk =>
        absurd (h.lt_length hk) (Nat.lt_irrefl _)
  returned := h.returned

/-- An event whose document was turned away. -/
theorem Owned.declined (h : Owned settings registry s) {e : Entry} (hread : e.IsRead)
    (hcycle : e.cycle? = none) {outcome : LintOutcome} (hcomes : e.ComesTo s.moves outcome) :
    Owned settings registry ((s.answered s.entries.length outcome).noted e) where
  toTraced :=
    { h.toTraced.noted hread fun c hc => absurd (hcycle.symm.trans hc) (by simp) with }
  comes k found hk := by
    rcases List.mem_append.mp hk with hk | hk
    · obtain ⟨d, hd, hcomes⟩ := h.comes k found hk
      exact ⟨d, getElem?_noted.mpr (.inl hd), hcomes⟩
    · obtain ⟨rfl, rfl⟩ := Prod.mk.inj (List.mem_singleton.mp hk)
      exact ⟨e, getElem?_noted.mpr (.inr ⟨rfl, rfl⟩), hcomes⟩
  turnedAway k d kind document hd hprepared hnone := by
    rcases getElem?_noted.mp hd with hd | ⟨rfl, rfl⟩
    · obtain ⟨found, hfound⟩ := h.turnedAway k d kind document hd hprepared hnone
      exact ⟨found, List.mem_append_left _ hfound⟩
    · exact ⟨outcome, List.mem_append_right _ List.mem_cons_self⟩
  underWay_iff k d c hd hc := by
    rcases getElem?_noted.mp hd with hd | ⟨rfl, rfl⟩
    · refine (h.underWay_iff k d c hd hc).trans (forall_congr' fun found => not_congr ?_)
      have hne : k ≠ s.entries.length := Nat.ne_of_lt (lt_length_of_getElem? hd)
      show _ ↔ (k, found) ∈ s.answers ++ [(s.entries.length, outcome)]
      simp [hne]
    · exact absurd (hcycle.symm.trans hc) (by simp)
  returned k hk := by
    obtain ⟨found, hfound⟩ := h.returned k hk
    exact ⟨found, List.mem_append_left _ hfound⟩

theorem owned_of_step (hstep : Step s t) (h : Owned settings registry s) :
    Owned settings registry t := by
  cases hstep with
  | answer hentry hprepared hcycle hmove =>
    exact h.answer hentry hprepared hcycle (Session.Course.step_of_step? hmove)
  | @finish k outcome hanswer =>
    refine { h with returned := fun j hj => ?_ }
    rcases List.mem_append.mp hj with hj | hj
    · exact h.returned j hj
    · obtain rfl := List.mem_singleton.mp hj
      exact ⟨outcome, hanswer⟩
  | other hother hmove => exact h.moved (Session.Course.step_of_step? hmove) hother
  | poll hphase => exact { h with }
  | passOver hphase hread =>
    obtain ⟨rfl, -⟩ := Watching.of_prepareEvent_eq_none hread
    exact { h.noted (isRead_of_prepareEvent hread (by simp)) (by simp) (by simp) with }
  | drop hphase hread =>
    obtain ⟨rfl, -, rfl, rfl⟩ := Watching.of_prepareEvent_eq_settled hread
    exact { (h.moved .forget (by simp)).noted (isRead_of_prepareEvent hread (by simp)) (by simp)
      (by simp) with }
  | @begin m m' e rest session kind c course hphase hread hmove =>
    obtain ⟨rfl, -⟩ := Watching.of_prepareEvent_eq_lint hread
    have hbegin := Session.Course.step_of_step? hmove
    have hnew : ∀ d ∈ s.entries, d.cycle? ≠ some c := by
      intro d hd hcycle
      have hlt := (h.begun d hd c hcycle).1
      cases hbegin with
      | begin henable hlua hnumber hcommand => exact absurd hnumber (Nat.ne_of_lt hlt)
    refine { (h.moved hbegin (by simp)).noted (e := ⟨m, e, some (.lint kind c.document), some c⟩)
      (isRead_of_prepareEvent hread ?_) (by simp) ?_ with }
    · rintro _ ⟨⟩
      exact ⟨kind, rfl⟩
    · rintro _ ⟨⟩
      exact ⟨(Session.Course.isLatest_of_begin hbegin).1, hnew, m',
        List.mem_append_right _ List.mem_cons_self⟩
  | @decline m m' e rest session kind d outcome course hphase hread hmove =>
    obtain ⟨rfl, -⟩ := Watching.of_prepareEvent_eq_lint hread
    have hdecline := Session.Course.step_of_step? hmove
    exact { (h.moved hdecline (by simp)).declined
      (e := ⟨m, e, some (.lint kind d), none⟩) (isRead_of_prepareEvent hread (by simp)) rfl
      ⟨kind, d, rfl, m', List.mem_append_right _ List.mem_cons_self⟩ with }
  | collect hphase => exact { h with }
  | keep hphase hticket hgoing => exact { h with }
  | take hphase hticket hended hanswer => exact { h with }
  | sleep hphase hthrough => exact { h with }
  | stop hphase => exact { h.moved .cancelAll (by simp) with }
  | leave hphase hthrough => exact { h with }

theorem owned_of_reaches (h : Reaches (start settings registry) s) :
    Owned settings registry s := by
  induction h with
  | refl => exact owned_start settings registry
  | tail _ hstep ih => exact owned_of_step hstep ih

end Reporting

end LuaDiagnostics
