/-
Every outcome of a watch is reported once.

The statement here puts together what the calls of a watch are in any order of events and
workers (`Kept`), whose outcomes they carry (`Owned`) and what one pass through the list of
workers does (`Collected`), and adds what the stop does:

* **`superseded_of_stopped`**: the cycles that are under way when the watch is told to stop
  come to nothing; **`run_eq`** says so of the loop.
* **`outcomes_reported_once`**: at the end of every watch, every event has led to exactly
  the calls that it is to lead to, and the loop of `Watch.run` is such a watch.
-/
import LuaDiagnostics.Proofs.Watch.Loop
import LuaDiagnostics.Watch.Script

namespace LuaDiagnostics

namespace Reporting

variable {settings : Settings} {registry : Registry} {s t u : Reporting}

/-! ### The stop -/

/-- A cycle that was under way when the watch was told to stop has no effect any more. -/
theorem complete_of_stopped (h : Reaches (start settings registry) s) (hphase : s.phase = .idle)
    (hu : Reaches s.stopped u) {c : PreparedCycle} (hc : c ∈ s.course.underWay)
    (kind : EventKind) (result : CycleResult) :
    u.course.session.complete kind c result = (u.course.session, .superseded) := by
  have hcancelled := ((owned_of_reaches h).coherent.mem_cancelled hc).2
  have hcoherent := (owned_of_reaches ((h.tail (.stop hphase)).trans hu)).coherent
  exact Session.complete_of_not_isLatest kind result
    (hcoherent.isLatest_eq_false (cancelled_subset_of_reaches hu hcancelled))

/-- The worker of such a cycle has only one thing to say. -/
theorem superseded_of_stopped (h : Reaches (start settings registry) s)
    (hphase : s.phase = .idle) (hu : Reaches s.stopped u) {k : Nat} {e : Entry}
    {c : PreparedCycle} (hentry : s.entries[k]? = some e) (hcycle : e.cycle? = some c)
    (hc : c ∈ s.course.underWay) :
    u.entries[k]? = some e ∧ ∀ outcome, (k, outcome) ∈ u.answers → outcome = .superseded := by
  have hstart := h.tail (.stop hphase)
  have hcancelled := ((owned_of_reaches h).coherent.mem_cancelled hc).2
  induction hu with
  | refl =>
    have hnone := ((owned_of_reaches h).underWay_iff k e c hentry hcycle).mp hc
    exact ⟨hentry, fun outcome hanswer => absurd hanswer (hnone outcome)⟩
  | @tail u v hu hstep ih =>
    obtain ⟨hentryu, hsuperseded⟩ := ih
    refine ⟨getElem?_entries_of_step hstep hentryu, fun outcome hanswer => ?_⟩
    have howned := owned_of_reaches (hstart.trans hu)
    cases hstep with
    | @answer j e' kind d c' result found course hentry' hprepared hcycle' hmove =>
      rcases List.mem_append.mp hanswer with hanswer | hanswer
      · exact hsuperseded outcome hanswer
      · obtain ⟨rfl, rfl⟩ := Prod.mk.inj (List.mem_singleton.mp hanswer)
        obtain rfl := Option.some.inj (hentryu.symm.trans hentry')
        obtain rfl := Option.some.inj (hcycle.symm.trans hcycle')
        exact (Session.Course.superseded_of_mem_cancelled howned.coherent
          (cancelled_subset_of_reaches hu hcancelled) (Session.Course.step_of_step? hmove)).1
    | decline hphase' hread hmove =>
      rcases List.mem_append.mp hanswer with hanswer | hanswer
      · exact hsuperseded outcome hanswer
      · obtain ⟨rfl, -⟩ := Prod.mk.inj (List.mem_singleton.mp hanswer)
        exact absurd (lt_length_of_getElem? hentryu) (Nat.lt_irrefl _)
    | other hother hmove | passOver hphase' hread | drop hphase' hread
    | begin hphase' hread hmove | stop hphase' | finish hanswer' | poll hphase'
    | collect hphase' | keep hphase' hticket hgoing | take hphase' hticket hended hanswer'
    | sleep hphase' hthrough | leave hphase' hthrough => exact hsuperseded outcome hanswer

/-- A watch ends only after it was told to stop. -/
theorem exists_stopped (h : Reaches (start settings registry) t)
    (hphase : t.phase = .over ∨ ∃ index, t.phase = .collecting true index) :
    ∃ s, Reaches (start settings registry) s ∧ s.phase = .idle ∧ Reaches s.stopped t := by
  induction h with
  | refl => exact absurd hphase (by simp [start])
  | @tail s t hs hstep ih =>
    -- Either the last pass was under way before, or this is where it begins.
    have hcases : (s.phase = .over ∨ ∃ index, s.phase = .collecting true index) ∨
        s.phase = .idle ∧ t = s.stopped := by
      cases hstep with
      | answer hentry hprepared hcycle hmove | other hother hmove | finish hanswer =>
        exact .inl hphase
      | @take wait index x outcome hphase' hticket hended hanswer => exact .inl hphase
      | leave hphase' hthrough => exact .inl (.inr ⟨_, hphase'⟩)
      | stop hphase' => exact .inr ⟨hphase', rfl⟩
      | poll hphase' | passOver hphase' hread | drop hphase' hread | begin hphase' hread hmove
      | decline hphase' hread hmove | collect hphase' | keep hphase' hticket hgoing
      | sleep hphase' hthrough => simp at hphase
    rcases hcases with hbefore | ⟨hidle, rfl⟩
    · obtain ⟨u, hu, hidle, hreaches⟩ := ih hbefore
      exact ⟨u, hu, hidle, hreaches.tail hstep⟩
    · exact ⟨s, hs, hidle, .refl⟩

section Loop

variable {σ : Type} {o : Observer σ} {record : σ → List (DocumentId × LintOutcome)}

/-- A worker of the loop that has no outcome when all cycles are cancelled is superseded, and
leaves the session as it is. -/
theorem finish_of_stopped (h : Reaches (start settings registry) s) (hphase : s.phase = .idle)
    {x : Ticket} {worker : Worker} (hx : Stands s x worker) :
    worker.finish s.course.session.cancelAll
      = (s.course.session.cancelAll, worker.outcome?.getD .superseded) := by
  rcases worker.settled_or_cycle with ⟨outcome, hjob⟩ | ⟨houtcome, c, hc⟩
  · rw [Worker.finish, Worker.outcome?, hjob]
    rfl
  · obtain ⟨e, d, -, -, hcycle⟩ := hx.event
    obtain ⟨hjob, -, -, hmem⟩ := hcycle c hc
    rw [(Worker.finish_launched hjob).2.2, houtcome]
    exact complete_of_stopped h hphase .refl hmem worker.kind _

/-- The stop of the loop reports the workers that are left, in order, and those without an
outcome as superseded; nothing else happens to the session than that its cycles are
cancelled. -/
theorem run_eq (hrecords : o.Records record) (fuel : Nat) {w : Watch σ}
    (hsession : w.session = .withRegistry settings registry) (hworkers : w.workers = []) :
    (w.run o fuel).workers = [] ∧
      (w.run o fuel).session = (w.rounds o fuel).session.cancelAll ∧
      record (w.run o fuel).observer = record (w.rounds o fuel).observer ++
        (w.rounds o fuel).workers.map fun x => (x.id, x.outcome?.getD .superseded) := by
  obtain ⟨s, hs, hphase, -, -, hfollows⟩ := exists_rounds_of_new hrecords fuel hsession hworkers
  have hfinish : ∀ worker ∈ (w.rounds o fuel).workers,
      worker.finish (w.rounds o fuel).session.cancelAll
        = ((w.rounds o fuel).session.cancelAll, worker.outcome?.getD .superseded) := by
    intro worker hmem
    obtain ⟨x, -, hx⟩ := exists_ticket hfollows.workers hmem
    rw [hfollows.session]
    exact finish_of_stopped hs hphase hx
  obtain ⟨hsession, hrecord⟩ := Watch.foldl_join_eq hrecords
    { w.rounds o fuel with session := (w.rounds o fuel).session.cancelAll } hfinish
  exact ⟨rfl, hsession, hrecord⟩

end Loop

/-! ### The end -/

/-- The calls and the workers at the end of a watch. -/
structure Accounted (settings : Settings) (registry : Registry) (t : Reporting) : Prop
    extends Traced settings registry t where
  nobody : t.running = []
  events : t.polled = t.entries.map Entry.event
  /-- A lint has led to one call, with the document's name and the outcome of its cycle. -/
  linted : ∀ (k : Nat) (e : Entry) (kind : EventKind) (d : Document),
    t.entries[k]? = some e → e.prepared? = some (.lint kind d) →
      ∃ outcome, t.callsFor k = [(d.id, outcome)] ∧ e.ComesTo t.moves outcome
  /-- No cycle has two outcomes. -/
  outcome : ∀ c kind result outcome kind' result' outcome',
    .complete c kind result outcome ∈ t.moves → .complete c kind' result' outcome' ∈ t.moves →
      outcome = outcome'
  /-- A removal has led to one call. -/
  removed : ∀ (k : Nat) (e : Entry) (p : Path), t.entries[k]? = some e →
    e.event = .removed p →
      t.callsFor k = [(.ofPath e.machine.files e.machine.directory p, .cleared)]
  /-- A file that could not be read has led to none. -/
  unreadable : ∀ (k : Nat) (e : Entry), t.entries[k]? = some e → e.prepared? = none →
    t.callsFor k = []
  /-- There are no other calls. -/
  known : ∀ r ∈ t.reports, r.place < t.entries.length

theorem accounted_of_over (h : Reaches (start settings registry) t) (hover : t.phase = .over) :
    Accounted settings registry t := by
  have howned := owned_of_reaches h
  have hkept := kept_of_reaches h
  have hnobody := hkept.drained hover
  refine ⟨howned.toTraced, hnobody, ?_, fun k e kind d hentry hprepared => ?_,
    fun c kind result outcome kind' result' outcome' hmem hmem' => ?_,
    fun k e p hentry hevent => ?_, fun k e hentry hprepared => ?_, hkept.known⟩
  · rw [hkept.events, pending, hover, List.append_nil]
  · have htold := hkept.calls k e hentry
    rw [hprepared] at htold
    rcases htold with ⟨hmem, -⟩ | ⟨-, outcome, hanswer, hcalls⟩
    · exact absurd (hnobody ▸ hmem) List.not_mem_nil
    · obtain ⟨e', hentry', hcomes⟩ := howned.comes k outcome hanswer
      obtain rfl := Option.some.inj (hentry.symm.trans hentry')
      exact ⟨outcome, hcalls, hcomes⟩
  · exact Session.Course.outcome_eq_of_run (Session.Course.coherent_start settings registry)
      howned.history hmem hmem'
  · have hread := (howned.read e (List.mem_of_getElem? hentry)).prepared t.course.session
    have htold := hkept.calls k e hentry
    rw [hevent] at hread
    rw [← hread] at htold
    exact htold
  · have htold := hkept.calls k e hentry
    rw [hprepared] at htold
    exact htold

/-- What the worker of a cycle is reported with that was under way at the stop. -/
theorem callsFor_of_stopped (h : Reaches (start settings registry) s) (hphase : s.phase = .idle)
    (ht : Reaches s.stopped t) (hover : t.phase = .over) {k : Nat} {e : Entry}
    {c : PreparedCycle} (hentry : s.entries[k]? = some e) (hcycle : e.cycle? = some c)
    (hc : c ∈ s.course.underWay) : t.callsFor k = [(c.document.id, .superseded)] := by
  have hreaches := (h.tail (.stop hphase)).trans ht
  have hkept := kept_of_reaches hreaches
  obtain ⟨hentryt, hsuperseded⟩ := superseded_of_stopped h hphase ht hentry hcycle hc
  obtain ⟨kind, hprepared⟩ :=
    ((owned_of_reaches h).read e (List.mem_of_getElem? hentry)).document c hcycle
  have htold := hkept.calls k e hentryt
  rw [hprepared] at htold
  rcases htold with ⟨hmem, -⟩ | ⟨-, outcome, hanswer, hcalls⟩
  · exact absurd (hkept.drained hover ▸ hmem) List.not_mem_nil
  · rw [hcalls, hsuperseded outcome hanswer]

/-- **Every outcome is reported once.**  Whatever the polls find, in whatever order cycles end
and workers return, whoever else uses the session and whenever the watch is told to stop:

* At the end no worker is left, and every event of the polls has led to the calls that it is
  to lead to: a lint to one call with the name of its document and the outcome of its own
  cycle, a removal to one call, a file that could not be read to none.  There are no other
  calls.
* A cycle that was under way when all cycles were cancelled is reported as superseded, and
  its end leaves the session, with the registry, as it is, whatever its result.
* A pass reports the workers that it finds returned, in the order of their start, and leaves
  the others in that order; those that had returned before the pass are among the reported.
* However far a watch has come, it can come to its end.
* The loop with any observer is such a watch: it deals with the events that its polls find,
  each on the machine that the loop has then and with what `Session.prepareEvent` answers
  there; its cycles are those of these events, run on these machines; and the observer
  records the calls.  Every pass of the loop reports the workers that have an outcome, in
  order, and keeps the others in order.  The stop reports whoever is left, as superseded
  where there is no outcome yet, and no worker remains. -/
theorem outcomes_reported_once (settings : Settings) (registry : Registry) :
    (∀ t, Reaches (start settings registry) t → t.phase = .over →
      Accounted settings registry t ∧
        ∃ s, Reaches (start settings registry) s ∧ s.phase = .idle ∧ Reaches s.stopped t) ∧
    (∀ s t, Reaches (start settings registry) s → s.phase = .idle → Reaches s.stopped t →
      t.phase = .over → ∀ (k : Nat) (e : Entry) (c : PreparedCycle), s.entries[k]? = some e →
        e.cycle? = some c → c ∈ s.course.underWay →
          t.callsFor k = [(c.document.id, .superseded)] ∧
          ∀ u, Reaches s.stopped u → ∀ kind result,
            u.course.session.complete kind c result = (u.course.session, .superseded)) ∧
    (∀ s t wait index, Reaches (start settings registry) s → s.phase = .collecting wait 0 →
      Passes s t → t.phase = .collecting wait index → t.running.length ≤ index →
        ∃ found, Collected s t found) ∧
    (∀ s, Reaches (start settings registry) s → ∃ t, Reaches s t ∧ t.phase = .over) ∧
    (∀ (σ : Type) (o : Observer σ) (record : σ → List (DocumentId × LintOutcome)),
      o.Records record →
      (∀ (fuel : Nat) (w : Watch σ), w.session = .withRegistry settings registry →
        w.workers = [] →
          (∃ t, Reaches (start settings registry) t ∧ Mirrors o record fuel w t) ∧
          (w.run o fuel).workers = [] ∧
          (w.run o fuel).session = (w.rounds o fuel).session.cancelAll ∧
          record (w.run o fuel).observer = record (w.rounds o fuel).observer ++
            (w.rounds o fuel).workers.map fun x => (x.id, x.outcome?.getD .superseded)) ∧
      ∀ w : Watch σ, (w.collectDone o).workers = w.workers.filter (·.outcome?.isNone) ∧
        (w.collectDone o).session = w.session ∧
        record (w.collectDone o).observer = record w.observer ++
          w.workers.filterMap fun x => x.outcome?.map (x.id, ·)) := by
  refine ⟨fun t ht hover => ⟨accounted_of_over ht hover, exists_stopped ht (.inl hover)⟩,
    fun s t hs hphase ht hover k e c hentry hcycle hc => ⟨?_, fun u hu kind result => ?_⟩,
    fun s t wait index hs hphase hpasses hindex hthrough => ?_, fun s hs => exists_over hs,
    fun σ o record hrecords => ⟨fun fuel w hsession hworkers => ?_, fun w => ?_⟩⟩
  · exact callsFor_of_stopped hs hphase ht hover hentry hcycle hc
  · exact complete_of_stopped hs hphase hu hc kind result
  · exact collected_of_passes hpasses (kept_of_reaches hs).ordered hphase hindex hthrough
  · exact ⟨exists_run hrecords fuel hsession hworkers, run_eq hrecords fuel hsession hworkers⟩
  · exact w.collect_eq hrecords w.workers

/-- The observer that follows a script records all outcomes. -/
theorem records_scriptObserver (directory : Location) :
    (ScriptState.observer directory).Records fun state => state.outcomes.reverse := by
  intro state files registry id outcome
  show ((state.observe directory files id outcome).1).outcomes.reverse = _
  rw [ScriptState.observe, ← List.reverse_cons]
  split
  · rfl
  · cases state.script with
    | nil => rfl
    | cons changes script => rfl

/-- A file is opened, and its cycle hangs while the workers are looked at. -/
theorem exists_hung : ∃ s, Reaches (start .default .empty) s ∧ s.phase = .collecting false 0 ∧
    s.running = [⟨0, ⟨"/home/a.lua"⟩⟩] ∧ s.ended = [] ∧
    ∃ e, s.entries = [e] ∧ e.cycle? = some (Session.Course.homeCycle ⟨"/home/a.lua"⟩) ∧
      Session.Course.homeCycle ⟨"/home/a.lua"⟩ ∈ s.course.underWay := by
  set p : Path := ⟨"/home/a.lua"⟩
  set c := Session.Course.homeCycle p
  set polled : Reporting :=
    { start .default .empty with polled := [.opened p], phase := .reacting [.opened p] }
  have hpoll : Step (start .default .empty) polled := .poll rfl
  have hread : polled.course.session.prepareEvent Session.Course.homeMachine (.opened p)
      = (polled.course.session, some (.lint .opened c.document)) := by
    rw [Session.prepareEvent, Session.prepareLint,
      Session.Course.load_homeMachine (.inr rfl)]
    rfl
  have hbegin : Session.Course.Step polled.course (.begin Session.Course.homeMachine c) _ :=
    .begin rfl rfl rfl rfl
  have hreact : Step polled _ := .begin rfl hread (Session.Course.step?_of_step hbegin)
  exact ⟨_, .tail (.tail (.single hpoll) hreact) (.collect rfl), rfl, rfl, rfl, _, rfl, rfl,
    List.mem_cons_self⟩

section

open Watching Session.Course

/-- The file is opened, and its worker publishes what the compiler says. -/
theorem start_workshop : ∃ (begun ended : Session) (worker : Worker),
    Worker.start (.new .default) workshop .opened (homeDocument ⟨"a.lua"⟩) = (begun, worker) ∧
    worker.id = ⟨"/home/a.lua"⟩ ∧ worker.outcome? = none ∧ worker.isDone begun = true ∧
    worker.finish begun = (ended, .published (sampleDiagnostic.withSource "luac")) := by
  obtain ⟨begun, ended, c, hprepare, hdocument, hcomplete, -⟩ := lint_workshop
  set worker : Worker := ⟨⟨"/home/a.lua"⟩, .opened, Worker.launch workshop c⟩
  have hstart : Worker.start (.new .default) workshop .opened (homeDocument ⟨"a.lua"⟩)
      = (begun, worker) := by
    rw [Worker.start, hprepare]
    rfl
  have hends : (Rule.respond workshop.rules c.document.text).runsOn = false := by
    rw [hdocument]
    show (Rule.respond workshop.rules "x = ").runsOn = false
    rw [respond_workshop]
    rfl
  obtain ⟨houtcome, -, hfinish⟩ := Worker.finish_launched (w := worker) rfl
  exact ⟨begun, ended, worker, hstart, rfl, houtcome, Worker.isDone_launched rfl hends begun,
    (hfinish begun).trans hcomplete⟩

/-- The loop reports the lint of the file. -/
theorem follow_workshop_eq : (Watch.follow workshop .default [⟨"a.lua"⟩] [] false).1
    = [(⟨"/home/a.lua"⟩, .published (sampleDiagnostic.withSource "luac"))] := by
  obtain ⟨watcher, hopened, hquiet⟩ := poll_workshop
  obtain ⟨begun, ended, worker, hstart, hid, houtcome, hdone, hfinish⟩ := start_workshop
  have hprepared : ∀ s : Session, s.prepareEvent workshop (.opened ⟨"a.lua"⟩)
      = (s, some (.lint .opened (homeDocument ⟨"a.lua"⟩))) := by
    intro s
    rw [Session.prepareEvent, Session.prepareLint, load_workshop]
  have hdirectory : workshop.directory = home := rfl
  set o := ScriptState.observer workshop.directory
  set state : ScriptState := { script := [], outcomes := [], stopped := false }
  set told : ScriptState :=
    { script := [], stopped := true
      outcomes := [(⟨"/home/a.lua"⟩, .published (sampleDiagnostic.withSource "luac"))] }
  set settled : Worker :=
    ⟨⟨"/home/a.lua"⟩, worker.kind, .settled (.published (sampleDiagnostic.withSource "luac"))⟩
  -- The file is noticed, its worker is done when the loop looks again, and then it stops.
  have hfirst : (Watch.mk workshop (.new .default) (.new [⟨"a.lua"⟩]) [] state).round o
      = (⟨workshop, begun, watcher, [worker], state⟩, true) := by
    simp only [Watch.round, Watch.settleDone, Watch.settleAll, hdirectory, hopened,
      List.foldl_cons, List.foldl_nil, Watch.react, hprepared, hstart, Watch.collectDone,
      Watch.collect, List.nil_append, houtcome]
    rfl
  have hsettle : worker.settle begun = (ended, settled) := by
    rw [Worker.settle, if_pos hdone, hfinish]
    show (ended, Worker.mk worker.id worker.kind _) = (ended, settled)
    rw [hid]
  have hsecond : (Watch.mk workshop begun watcher [worker] state).round o
      = (⟨workshop, ended, watcher, [], told⟩, true) := by
    simp only [Watch.round, Watch.settleDone, Watch.settleAll, hdirectory, hquiet, hsettle,
      List.foldl_nil]
    rfl
  show ((Watch.mk workshop (.new .default) (.new [⟨"a.lua"⟩]) [] state).run o
    5).observer.outcomes.reverse = _
  simp only [Watch.run, Watch.rounds, hfirst, hsecond]
  rfl

end

/-- The cycle stays in the list, and the stop ends it; and a loop that follows a script
without changes reports the lint of a file. -/
theorem hung_cycle_reported : ∃ s t found, Reaches (start .default .empty) s ∧
    Collected s { s with phase := .collecting false 1 } found ∧ Reaches s t ∧
    Accounted .default .empty t ∧ t.callsFor 0 = [(⟨"/home/a.lua"⟩, .superseded)] ∧
    ∃ u, Accounted .default .empty u ∧
      (Watch.follow Watching.workshop .default [⟨"a.lua"⟩] [] false).1 = u.calls ∧
      u.calls = [(⟨"/home/a.lua"⟩,
        .published (Session.Course.sampleDiagnostic.withSource "luac"))] := by
  obtain ⟨hends, hstop, hpass, hover, hloop⟩ := outcomes_reported_once .default .empty
  obtain ⟨s, hs, hphase, hrunning, hended, e, hentries, hcycle, hmem⟩ := exists_hung
  set kept : Reporting := { s with phase := .collecting false 1 }
  set idle : Reporting := { s with phase := .idle }
  have hkeep : Step s kept :=
    .keep hphase (by rw [hrunning, List.getElem?_cons_zero]) (by simp [hended])
  have hsleep : Step kept idle := .sleep rfl (by simp [kept, hrunning])
  have hidle : Reaches s idle := .tail (.single hkeep) hsleep
  have hstopped := hidle.tail (.stop rfl)
  obtain ⟨found, hfound⟩ := hpass s kept false 1 hs hphase
    (.single ⟨hkeep, ⟨false, 0, hphase⟩, ⟨false, 1, rfl⟩⟩) rfl (by simp [kept, hrunning])
  obtain ⟨t, ht, hovert⟩ := hover _ (hs.trans hstopped)
  obtain ⟨hcalls, -⟩ := hstop idle t (hs.trans hidle) rfl ht hovert 0 e _
    (by rw [show idle.entries = [e] from hentries]; rfl) hcycle hmem
  obtain ⟨⟨u, hu, hmirrors⟩, -⟩ := (hloop ScriptState _ _
    (records_scriptObserver Watching.workshop.directory)).1 (Watch.scriptRounds [])
    { machine := Watching.workshop, session := .new .default
      watcher := .new [⟨"a.lua"⟩], workers := []
      observer := { script := [], outcomes := [], stopped := false } } rfl rfl
  have hcallsu : (Watch.follow Watching.workshop .default [⟨"a.lua"⟩] [] false).1 = u.calls :=
    hmirrors.record
  exact ⟨s, t, found, hs, hfound, hstopped.trans ht,
    (hends t ((hs.trans hstopped).trans ht) hovert).1, hcalls, u,
    (hends u hu hmirrors.ends).1, hcallsu, hcallsu.symm.trans follow_workshop_eq⟩

end Reporting

end LuaDiagnostics
