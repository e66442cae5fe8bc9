/-
The loop as a watch.

`Watch.run` takes one of the ways that a watch may take: the compilers that end by
themselves do so between two rounds, and the others when all cycles are cancelled.  Here
its parts are found among the steps of a watch, with the list of workers kept in line
(`Stands`) and the session and the calls the same (`Agrees`).  The events are dealt with on
the machines that the loop has (`Watch.dealtIn`), and the session is moved by them alone
(`Deals`):

* **`exists_settled`**: the workers that are done complete their cycles;
* **`exists_reacted_as`**: an event is dealt with;
* **`exists_collected`** and **`exists_joined`**: the workers are reported;
* **`exists_run`**: the whole loop, so that what holds of every watch holds of it.
-/
import LuaDiagnostics.Proofs.Watch.Calls
import LuaDiagnostics.Proofs.Watch.Rounds

namespace LuaDiagnostics

namespace Reporting

variable {settings : Settings} {registry : Registry} {s t u : Reporting}

/-! ### What the loop deals with -/

/-- The event of an entry, with the machine and with what it was turned into. -/
def Entry.dealing (e : Entry) : Dealing := (e.machine, e.event, e.prepared?)

/-- The move is one that the event leads to on the machine on which it was dealt with: a cycle
is begun there, its compiler is run there, or a document is turned away or forgotten. -/
def Entry.Makes (e : Entry) : Session.Move → Prop
  | .begin m c => m = e.machine ∧ e.cycle? = some c
  | .decline m d _ => m = e.machine ∧ e.cycle? = none ∧ ∃ kind, e.prepared? = some (.lint kind d)
  | .complete c kind result _ => e.cycle? = some c ∧ e.prepared? = some (.lint kind c.document) ∧
      result = e.machine.compile c.command c.document
  | .forget id => ∃ outcome, e.prepared? = some (.settled id outcome)
  | .cancelAll => False

/-- From one state to the other the watch deals with these events, and nothing happens to the
session but what events make. -/
structure Deals (s t : Reporting) (dealt : List Dealing) : Prop where
  entries : ∃ more, t.entries = s.entries ++ more ∧ more.map Entry.dealing = dealt
  moves : ∃ more, t.moves = s.moves ++ more ∧ ∀ a ∈ more, ∃ e ∈ t.entries, e.Makes a

theorem Deals.of_eq (hentries : t.entries = s.entries) (hmoves : t.moves = s.moves) :
    Deals s t [] :=
  ⟨⟨[], by rw [hentries, List.append_nil], rfl⟩, ⟨[], by rw [hmoves, List.append_nil], by simp⟩⟩

theorem Deals.trans {dealt more : List Dealing} (h : Deals s t dealt) (h' : Deals t u more) :
    Deals s u (dealt ++ more) := by
  obtain ⟨new, hentries, hdealt⟩ := h.entries
  obtain ⟨new', hentries', hdealt'⟩ := h'.entries
  obtain ⟨moves, hmoves, hmade⟩ := h.moves
  obtain ⟨moves', hmoves', hmade'⟩ := h'.moves
  refine ⟨⟨new ++ new', ?_, ?_⟩, ⟨moves ++ moves', ?_, ?_⟩⟩
  · rw [hentries', hentries, List.append_assoc]
  · rw [List.map_append, hdealt, hdealt']
  · rw [hmoves', hmoves, List.append_assoc]
  · intro a ha
    rcases List.mem_append.mp ha with ha | ha
    · obtain ⟨e, he, hmakes⟩ := hmade a ha
      exact ⟨e, hentries' ▸ List.mem_append_left _ he, hmakes⟩
    · exact hmade' a ha

/-- An event is dealt with, and the session is moved by it or not at all. -/
theorem Deals.of_noted {e : Entry} {moves : List Session.Move}
    (hentries : t.entries = s.entries ++ [e]) (hmoves : t.moves = s.moves ++ moves)
    (hmakes : ∀ a ∈ moves, e.Makes a) : Deals s t [e.dealing] := by
  refine ⟨⟨[e], hentries, rfl⟩, ⟨moves, hmoves, ?_⟩⟩
  intro a ha
  exact ⟨e, hentries ▸ List.mem_append_right _ List.mem_cons_self, hmakes a ha⟩

/-! ### The loop -/

/-- The worker is the one that the ticket is for. -/
structure Stands (s : Reporting) (x : Ticket) (worker : Worker) : Prop where
  id : x.id = worker.id
  event : ∃ e d, s.entries[x.place]? = some e ∧ e.prepared? = some (.lint worker.kind d) ∧
    ∀ c, worker.cycle? = some c → worker.job = Worker.launch e.machine c ∧
      d = c.document ∧ e.cycle? = some c ∧ c ∈ s.course.underWay
  answer : ∀ outcome, worker.outcome? = some outcome → (x.place, outcome) ∈ s.answers

theorem Stands.mono {x : Ticket} {worker : Worker} (h : Stands s x worker)
    (hentries : ∀ (k : Nat) (e : Entry), s.entries[k]? = some e → t.entries[k]? = some e)
    (hunderWay : s.course.underWay ⊆ t.course.underWay) (hanswers : s.answers ⊆ t.answers) :
    Stands t x worker := by
  obtain ⟨e, d, hentry, hprepared, hcycle⟩ := h.event
  refine ⟨h.id, ⟨e, d, hentries _ e hentry, hprepared, fun c hc => ?_⟩,
    fun outcome ho => hanswers (h.answer outcome ho)⟩
  obtain ⟨hjob, hdocument, hcycle, hmem⟩ := hcycle c hc
  exact ⟨hjob, hdocument, hcycle, hunderWay hmem⟩

theorem Stands.of_eq {x : Ticket} {worker : Worker} (h : Stands s x worker)
    (hcourse : t.course = s.course) (hentries : t.entries = s.entries)
    (hanswers : t.answers = s.answers) : Stands t x worker :=
  h.mono (fun _ _ he => hentries ▸ he) (hcourse ▸ List.Subset.refl _)
    (hanswers ▸ List.Subset.refl _)

/-- While these workers go on, the loop stays where it is, and the other workers too. -/
structure Besides (s t : Reporting) (places : List Nat) : Prop where
  reaches : Reaches s t
  running : t.running = s.running
  reports : t.reports = s.reports
  polled : t.polled = s.polled
  phase : t.phase = s.phase
  deals : Deals s t []
  stands : ∀ (x : Ticket) (worker : Worker), x.place ∉ places → Stands s x worker →
    Stands t x worker

theorem Besides.refl (s : Reporting) (places : List Nat) : Besides s s places :=
  ⟨.refl, rfl, rfl, rfl, rfl, .of_eq rfl rfl, fun _ _ _ h => h⟩

theorem Besides.trans {places more : List Nat} (h : Besides s t places)
    (h' : Besides t u more) : Besides s u (places ++ more) where
  reaches := h.reaches.trans h'.reaches
  running := h'.running.trans h.running
  reports := h'.reports.trans h.reports
  polled := h'.polled.trans h.polled
  phase := h'.phase.trans h.phase
  deals := h.deals.trans h'.deals
  stands x worker hx hstands := by
    rw [List.mem_append, not_or] at hx
    exact h'.stands x worker hx.2 (h.stands x worker hx.1 hstands)

/-- A worker has its outcome now, or completes its cycle and has it then. -/
theorem exists_finished (h : Reaches (start settings registry) s) {x : Ticket} {worker : Worker}
    (hstands : Stands s x worker) : ∃ t, Besides s t [x.place] ∧
      t.course.session = (worker.finish s.course.session).1 ∧
      Stands t x { worker with job := .settled (worker.finish s.course.session).2 } := by
  have howned := owned_of_reaches h
  obtain ⟨e, d, hentry, hprepared, hcycle⟩ := hstands.event
  rcases worker.settled_or_cycle with ⟨outcome, hjob⟩ | ⟨-, c, hc⟩
  · have hfinish : worker.finish s.course.session = (s.course.session, outcome) := by
      rw [Worker.finish, hjob]
    rw [hfinish, show ({ worker with job := .settled outcome } : Worker) = worker by
      cases worker; cases hjob; rfl]
    exact ⟨s, .refl s _, rfl, hstands⟩
  · obtain ⟨hjob, rfl, hcycle, hmem⟩ := hcycle c hc
    rw [(Worker.finish_launched hjob).2.2]
    set result : CycleResult := e.machine.compile c.command c.document
    set ending := s.course.session.complete worker.kind c result with hending
    have hmove : s.course.step? (.complete c worker.kind result ending.2)
        = some ⟨ending.1, s.course.underWay.erase c⟩ := if_pos ⟨hmem, rfl⟩
    have hanswer : Step s _ := .answer hentry hprepared hcycle hmove
    refine ⟨_, ⟨.single hanswer, rfl, rfl, rfl, rfl, ⟨⟨[], (List.append_nil _).symm, rfl⟩, _, rfl,
      ?_⟩, fun y other hy hother => ?_⟩, rfl, hstands.id,
      ⟨e, c.document, hentry, hprepared, ?_⟩, ?_⟩
    · intro a ha
      obtain rfl := List.mem_singleton.mp ha
      exact ⟨e, List.mem_of_getElem? hentry, hcycle, hprepared, rfl⟩
    · obtain ⟨e', d', hentry', hprepared', hcycle'⟩ := hother.event
      refine ⟨hother.id, ⟨e', d', hentry', hprepared', fun c' hc' => ?_⟩, fun outcome ho =>
        List.mem_append_left _ (hother.answer outcome ho)⟩
      obtain ⟨hjob', hdocument', hcycle', hmem'⟩ := hcycle' c' hc'
      -- Another event has another cycle.
      have hne : c' ≠ c := by
        rintro rfl
        exact hy (List.mem_singleton.mpr (howned.single _ _ e' e c' hentry' hentry hcycle' hcycle))
      exact ⟨hjob', hdocument', hcycle', (List.mem_erase_of_ne hne).mpr hmem'⟩
    · intro c' hc'
      exact absurd hc' (by simp [Worker.cycle?])
    · intro outcome ho
      obtain rfl := Option.some.inj ho
      exact List.mem_append_right _ List.mem_cons_self

theorem Besides.forall₂ {places : List Nat} (h : Besides s t places) {tickets : List Ticket}
    {workers : List Worker} (hstands : List.Forall₂ (Stands s) tickets workers)
    (hothers : ∀ x ∈ tickets, x.place ∉ places) : List.Forall₂ (Stands t) tickets workers := by
  induction hstands with
  | nil => exact .nil
  | @cons x worker tickets workers hx hrest ih =>
    exact .cons (h.stands x worker (hothers x List.mem_cons_self) hx)
      (ih fun y hy => hothers y (List.mem_cons_of_mem _ hy))

/-- The workers whose compilers have ended complete their cycles. -/
theorem exists_settled (h : Reaches (start settings registry) s) {tickets : List Ticket}
    {workers : List Worker} (hstands : List.Forall₂ (Stands s) tickets workers)
    (hnodup : (tickets.map Ticket.place).Nodup) : ∃ t, Besides s t (tickets.map Ticket.place) ∧
      t.course.session = (Watch.settleAll s.course.session workers).1 ∧
      List.Forall₂ (Stands t) tickets (Watch.settleAll s.course.session workers).2 := by
  induction tickets generalizing s workers with
  | nil =>
    cases hstands
    exact ⟨s, .refl s _, rfl, .nil⟩
  | cons x tickets ih =>
    obtain - | @⟨_, worker, _, workers, hx, hrest⟩ := hstands
    obtain ⟨hnew, hnodup⟩ := List.nodup_cons.mp hnodup
    -- The first worker, then the rest.
    have hfirst : ∃ u, Besides s u [x.place] ∧
        u.course.session = (worker.settle s.course.session).1 ∧
        Stands u x (worker.settle s.course.session).2 := by
      rw [Worker.settle]
      split
      · exact exists_finished h hx
      · exact ⟨s, .refl s _, rfl, hx⟩
    obtain ⟨u, hu, hsession, hsettled⟩ := hfirst
    have hothers : ∀ y ∈ tickets, y.place ∉ [x.place] := fun y hy hplace =>
      hnew (List.mem_singleton.mp hplace ▸ List.mem_map_of_mem hy)
    obtain ⟨t, ht, hsession', hstands⟩ :=
      ih (h.trans hu.reaches) (hu.forall₂ hrest hothers) hnodup
    rw [hsession] at hsession' hstands
    exact ⟨t, hu.trans ht, hsession', .cons (ht.stands _ _ hnew hsettled) hstands⟩

variable {σ : Type} {o : Observer σ} {record : σ → List (DocumentId × LintOutcome)}
  {before : List (DocumentId × LintOutcome)} {w : Watch σ}

/-- The watch has the session and has made the calls. -/
structure Agrees (record : σ → List (DocumentId × LintOutcome))
    (before : List (DocumentId × LintOutcome)) (s : Reporting) (w : Watch σ) : Prop where
  session : w.session = s.course.session
  record : record w.observer = before ++ s.calls

/-- A report leaves the session as it is and is a call. -/
theorem Agrees.report (hrecords : o.Records record) (h : Agrees record before s w)
    {r : Report} (hcourse : t.course.session = s.course.session)
    (hreports : t.reports = s.reports ++ [r]) :
    Agrees record before t (w.report o r.id r.outcome) where
  session := h.session.trans hcourse.symm
  record := by
    rw [hrecords.report, h.record, calls, calls, hreports, List.map_append, List.append_assoc]
    rfl

/-- The watch has the workers too. -/
structure Follows (record : σ → List (DocumentId × LintOutcome))
    (before : List (DocumentId × LintOutcome)) (s : Reporting) (w : Watch σ) : Prop
    extends Agrees record before s w where
  workers : List.Forall₂ (Stands s) s.running w.workers

theorem exists_ticket {tickets : List Ticket} {workers : List Worker}
    (h : List.Forall₂ (Stands s) tickets workers) {worker : Worker} (hmem : worker ∈ workers) :
    ∃ x ∈ tickets, Stands s x worker := by
  induction h with
  | nil => exact absurd hmem List.not_mem_nil
  | @cons x first tickets workers hx hrest ih =>
    rcases List.mem_cons.mp hmem with rfl | hmem
    · exact ⟨x, List.mem_cons_self, hx⟩
    · obtain ⟨y, hy, hstands⟩ := ih hmem
      exact ⟨y, List.mem_cons_of_mem _ hy, hstands⟩

/-- A document was read: its worker is started, with a cycle or without. -/
theorem exists_started (h : Follows record before s w) {e : WatchEvent}
    {rest : List WatchEvent} {kind : EventKind} {d : Document}
    (hphase : s.phase = .reacting (e :: rest))
    (hread : s.course.session.prepareEvent w.machine e
      = (s.course.session, some (.lint kind d))) :
    ∃ t, Step s t ∧ t.phase = .reacting rest ∧ t.polled = s.polled ∧
      Deals s t [(w.machine, e, some (.lint kind d))] ∧
      Follows record before t
        { w with
          session := (Worker.start s.course.session w.machine kind d).1
          workers := w.workers ++ [(Worker.start s.course.session w.machine kind d).2] } := by
  have hnoted : ∀ (x : Entry) (k : Nat) (e : Entry), s.entries[k]? = some e →
      (s.noted x).entries[k]? = some e := fun x k e he => getElem?_noted.mpr (.inl he)
  rcases hprepare : s.course.session.prepare w.machine d with ⟨next, outcome | c⟩
  · obtain rfl := Session.session_of_prepare_eq_error hprepare
    simp only [Worker.start, hprepare]
    refine ⟨_, .decline hphase hread (Session.Course.step?_of_step (.decline hprepare)), rfl,
      rfl, .of_noted (e := ⟨w.machine, e, some (.lint kind d), none⟩) rfl rfl ?_, ⟨rfl, h.record⟩,
      List.rel_append (h.workers.imp fun x worker hx => ?_) ?_⟩
    · intro a ha
      obtain rfl := List.mem_singleton.mp ha
      exact ⟨rfl, rfl, kind, rfl⟩
    · exact hx.mono (hnoted _) (List.Subset.refl _) (List.subset_append_left _ _)
    · refine .cons ⟨rfl, ⟨_, d, getElem?_noted.mpr (.inr ⟨rfl, rfl⟩), rfl, ?_⟩, ?_⟩ .nil
      · intro c hc
        exact absurd hc (by simp [Worker.cycle?])
      · intro found hfound
        obtain rfl := Option.some.inj hfound
        exact List.mem_append_right _ List.mem_cons_self
  · obtain ⟨henable, hlua, rfl, rfl⟩ := Session.prepare_eq_ok_iff.mp hprepare
    simp only [Worker.start, hprepare]
    set c : PreparedCycle := ⟨s.course.session.nextGeneration, d,
      s.course.session.commandFor w.machine d⟩
    have hbegin : Step s _ := .begin (c := c) hphase hread
      (Session.Course.step?_of_step (.begin (m := w.machine) henable hlua rfl rfl))
    obtain ⟨hnone, hcycle, -⟩ := Worker.finish_launched
      (w := { id := d.id, kind, job := Worker.launch w.machine c }) rfl
    refine ⟨_, hbegin, rfl, rfl,
      .of_noted (e := ⟨w.machine, e, some (.lint kind d), some c⟩) rfl rfl ?_, ⟨rfl, h.record⟩,
      List.rel_append (h.workers.imp fun x worker hx => ?_) ?_⟩
    · intro a ha
      obtain rfl := List.mem_singleton.mp ha
      exact ⟨rfl, rfl⟩
    · exact hx.mono (hnoted _) (List.subset_cons_self _ _) (List.Subset.refl _)
    · refine .cons ⟨rfl, ⟨_, d, getElem?_noted.mpr (.inr ⟨rfl, rfl⟩), rfl, ?_⟩, ?_⟩ .nil
      · intro c' hc'
        obtain rfl := Option.some.inj (hcycle.symm.trans hc')
        exact ⟨rfl, rfl, rfl, List.mem_cons_self⟩
      · intro found hfound
        exact absurd (hnone.symm.trans hfound) (by simp)

/-- The watch deals with an event. -/
theorem exists_reacted_as (hrecords : o.Records record) (h : Follows record before s w)
    {e : WatchEvent} {rest : List WatchEvent} (hphase : s.phase = .reacting (e :: rest)) :
    ∃ t, Step s t ∧ t.phase = .reacting rest ∧ t.polled = s.polled ∧
      Deals s t [(w.machine, e, (w.session.prepareEvent w.machine e).2)] ∧
      Follows record before t (w.react o e) := by
  have hnoted : ∀ (x : Entry) (k : Nat) (e : Entry), s.entries[k]? = some e →
      (s.noted x).entries[k]? = some e := fun x k e he => getElem?_noted.mpr (.inl he)
  rcases hread : w.session.prepareEvent w.machine e
    with ⟨session, - | ⟨kind, d⟩ | ⟨id, outcome⟩⟩
  · simp only [Watch.react, hread]
    refine ⟨_, .passOver hphase (h.session ▸ hread), rfl, rfl,
      .of_noted (e := ⟨w.machine, e, none, none⟩) rfl
        (show s.moves = s.moves ++ [] from (List.append_nil _).symm) (by simp),
      ⟨rfl, h.record⟩, ?_⟩
    exact h.workers.imp fun _ _ hx =>
      hx.mono (hnoted _) (List.Subset.refl _) (List.Subset.refl _)
  · have hread' := h.session ▸ hread
    obtain ⟨rfl, -⟩ := Watching.of_prepareEvent_eq_lint hread'
    simp only [Watch.react, hread]
    exact exists_started h hphase hread'
  · simp only [Watch.react, hread]
    have hnow : Agrees record before { s with course := { s.course with session } }
        { w with session } := ⟨rfl, h.record⟩
    have hdrop : Step s _ := .drop hphase (h.session ▸ hread)
    refine ⟨_, hdrop, rfl, rfl,
      .of_noted (e := ⟨w.machine, e, some (.settled id outcome), none⟩) rfl rfl ?_, ?_,
      h.workers.imp fun _ _ hx =>
        hx.mono (hnoted _) (List.Subset.refl _) (List.Subset.refl _)⟩
    · intro a ha
      obtain rfl := List.mem_singleton.mp ha
      exact ⟨outcome, rfl⟩
    · exact hnow.report hrecords (r := ⟨⟨s.entries.length, id⟩, outcome⟩) rfl rfl

theorem exists_reacted_to (hrecords : o.Records record) {events : List WatchEvent}
    (h : Follows record before s w) (hphase : s.phase = .reacting events) :
    ∃ t, Reaches s t ∧ t.phase = .reacting [] ∧ t.polled = s.polled ∧
      Deals s t (w.dealtWith o events) ∧
      Follows record before t (events.foldl (Watch.react o) w) := by
  induction events generalizing s w with
  | nil => exact ⟨s, .refl, hphase, rfl, .of_eq rfl rfl, h⟩
  | cons e rest ih =>
    obtain ⟨u, hu, hrest, hpolled, hdeals, hfollows⟩ := exists_reacted_as hrecords h hphase
    obtain ⟨t, ht, hphase, hpolled', hdeals', hfollows⟩ := ih hfollows hrest
    exact ⟨t, .head hu ht, hphase, hpolled'.trans hpolled, hdeals.trans hdeals', hfollows⟩

/-- The loop goes on by itself: the session and the workers stay where they are, but for
those that return. -/
structure GoesOn (s t : Reporting) : Prop where
  reaches : Reaches s t
  course : t.course = s.course
  moves : t.moves = s.moves
  polled : t.polled = s.polled
  entries : t.entries = s.entries
  answers : t.answers = s.answers

theorem GoesOn.trans (h : GoesOn s t) (h' : GoesOn t u) : GoesOn s u where
  reaches := h.reaches.trans h'.reaches
  course := h'.course.trans h.course
  moves := h'.moves.trans h.moves
  polled := h'.polled.trans h.polled
  entries := h'.entries.trans h.entries
  answers := h'.answers.trans h.answers

theorem GoesOn.deals (h : GoesOn s t) : Deals s t [] :=
  .of_eq h.entries h.moves

theorem Stands.goesOn {x : Ticket} {worker : Worker} (hx : Stands s x worker)
    (h : GoesOn s t) : Stands t x worker :=
  hx.of_eq h.course h.entries h.answers

/-- A worker that has its outcome returns, just in time, and is reported. -/
theorem exists_taken (hrecords : o.Records record) {wait : Bool} {index : Nat} {x : Ticket}
    {outcome : LintOutcome} (hphase : s.phase = .collecting wait index)
    (hticket : s.running[index]? = some x) (hanswer : (x.place, outcome) ∈ s.answers)
    (hagrees : Agrees record before s w) :
    ∃ t, GoesOn s t ∧ t.phase = s.phase ∧ t.running = s.running.eraseIdx index ∧
      Agrees record before t (w.report o x.id outcome) := by
  have hfinish := Step.finish hanswer
  have htake := Step.take (s := { s with ended := s.ended ++ [x.place] }) hphase hticket
    (List.mem_append_right _ List.mem_cons_self) hanswer
  exact ⟨_, ⟨.tail (.single hfinish) htake, rfl, rfl, rfl, rfl, rfl⟩, rfl, rfl,
    hagrees.report hrecords (r := ⟨x, outcome⟩) rfl rfl⟩

/-- The watch goes through the rest of its list, after the workers that it has kept. -/
theorem exists_collected (hrecords : o.Records record) (h : Reaches (start settings registry) s)
    {kept tickets : List Ticket} {workers : List Worker}
    (hphase : s.phase = .collecting false kept.length) (hrunning : s.running = kept ++ tickets)
    (hagrees : Agrees record before s w) (hstands : List.Forall₂ (Stands s) tickets workers) :
    ∃ t left, GoesOn s t ∧ t.running = kept ++ left ∧
      t.phase = .collecting false t.running.length ∧
      Agrees record before t (w.collect o workers).1 ∧
      List.Forall₂ (Stands t) left (w.collect o workers).2 := by
  induction workers generalizing s w kept tickets with
  | nil =>
    cases hstands
    refine ⟨s, [], ⟨.refl, rfl, rfl, rfl, rfl, rfl⟩, hrunning, ?_, hagrees, .nil⟩
    rw [hphase, hrunning, List.append_nil]
  | cons worker workers ih =>
    obtain ⟨x, tickets, hx, hrest, rfl⟩ := List.forall₂_cons_right_iff.mp hstands
    have hticket : s.running[kept.length]? = some x := by
      rw [hrunning, List.getElem?_append_right (Nat.le_refl _), Nat.sub_self]
      rfl
    cases houtcome : worker.outcome? with
    | some outcome =>
      obtain ⟨u, hu, hphase', hrunning', hagrees⟩ :=
        exists_taken hrecords hphase hticket (hx.answer outcome houtcome) hagrees
      rw [hrunning, List.eraseIdx_append_of_length_le (Nat.le_refl _), Nat.sub_self,
        List.eraseIdx_cons_zero] at hrunning'
      obtain ⟨t, left, ht, hleft, hthrough, hagrees, hstands⟩ := ih (h.trans hu.reaches)
        (hphase'.trans hphase) hrunning' hagrees (hrest.imp fun _ _ hy => hy.goesOn hu)
      simp only [Watch.collect, houtcome, ← hx.id]
      exact ⟨t, left, hu.trans ht, hleft, hthrough, hagrees, hstands⟩
    | none =>
      have hgoing : x.place ∉ s.ended := by
        intro hended
        have howned := owned_of_reaches h
        obtain ⟨outcome, hanswer⟩ := howned.returned _ hended
        obtain ⟨e, d, hentry, -, hcycle⟩ := hx.event
        rcases worker.settled_or_cycle with ⟨found, hjob⟩ | ⟨-, c, hc⟩
        · rw [Worker.outcome?, hjob] at houtcome
          exact absurd houtcome (by simp)
        · obtain ⟨-, -, hcycle, hmem⟩ := hcycle c hc
          exact (howned.underWay_iff _ e c hentry hcycle).mp hmem outcome hanswer
      set u : Reporting := { s with phase := .collecting false (kept.length + 1) }
      have hkeep : Step s u := .keep hphase hticket hgoing
      have hu : GoesOn s u := ⟨.single hkeep, rfl, rfl, rfl, rfl, rfl⟩
      obtain ⟨t, left, ht, hleft, hthrough, hagrees, hstands⟩ := ih (h.tail hkeep)
        (show u.phase = .collecting false (kept ++ [x]).length by simp [u]) (by simp [u, hrunning])
        ⟨hagrees.session, hagrees.record⟩ (hrest.imp fun _ _ hy => hy.goesOn hu)
      have hgone := hu.trans ht
      simp only [Watch.collect, houtcome]
      refine ⟨t, x :: left, hgone, ?_, hthrough, hagrees, .cons (hx.goesOn hgone) hstands⟩
      rw [hleft, List.append_assoc]
      rfl

/-- The workers are joined one after the other. -/
theorem exists_joined (hrecords : o.Records record) (h : Reaches (start settings registry) s)
    {workers : List Worker} (hphase : s.phase = .collecting true 0)
    (hagrees : Agrees record before s w)
    (hstands : List.Forall₂ (Stands s) s.running workers) :
    ∃ t, Reaches s t ∧ t.phase = .over ∧ t.polled = s.polled ∧ Deals s t [] ∧
      Agrees record before t (workers.foldl (Watch.join o) w) := by
  induction workers generalizing s w with
  | nil =>
    have hnone := List.forall₂_nil_right_iff.mp hstands
    exact ⟨_, .single (.leave hphase (by simp [hnone])), rfl, rfl, .of_eq rfl rfl,
      hagrees.session, hagrees.record⟩
  | cons worker workers ih =>
    obtain ⟨x, tickets, hx, hrest, hrunning⟩ := List.forall₂_cons_right_iff.mp hstands
    obtain ⟨u, hu, hsession, hfinished⟩ := exists_finished h hx
    rw [← hagrees.session] at hsession hfinished
    have hothers : ∀ y ∈ tickets, y.place ∉ [x.place] := by
      intro y hy hplace
      have hordered := (kept_of_reaches h).ordered
      rw [hrunning, List.map_cons] at hordered
      have hlt := (List.pairwise_cons.mp hordered).1 y.place (List.mem_map_of_mem hy)
      rw [List.mem_singleton.mp hplace] at hlt
      exact Nat.lt_irrefl _ hlt
    have hagreesu : Agrees record before u { w with session := (worker.finish w.session).1 } := by
      refine ⟨hsession.symm, ?_⟩
      rw [calls, hu.reports]
      exact hagrees.record
    obtain ⟨v, hv, hphase', hrunning', hagreesv⟩ := exists_taken hrecords
      (hu.phase.trans hphase) (by rw [hu.running, hrunning]; rfl) (hfinished.answer _ rfl) hagreesu
    rw [hu.running, hrunning, List.eraseIdx_cons_zero] at hrunning'
    have hstands' : List.Forall₂ (Stands v) v.running workers := by
      rw [hrunning']
      exact (hu.forall₂ hrest hothers).imp fun _ _ hy => hy.goesOn hv
    rw [hx.id] at hagreesv
    obtain ⟨t, ht, hover, hpolled, hdeals, hagrees⟩ := ih ((h.trans hu.reaches).trans hv.reaches)
      (hphase'.trans (hu.phase.trans hphase)) hagreesv hstands'
    exact ⟨t, (hu.reaches.trans hv.reaches).trans ht, hover,
      hpolled.trans (hv.polled.trans hu.polled), (hu.deals.trans hv.deals).trans hdeals, hagrees⟩

/-- The watch does a round. -/
theorem exists_round (hrecords : o.Records record) (hs : Reaches (start settings registry) s)
    (h : Follows record before s w) (hphase : s.phase = .idle) :
    ∃ t, Reaches s t ∧ t.phase = .idle ∧ t.polled = s.polled ++ w.found ∧
      Deals s t (w.polled.dealtWith o w.found) ∧ Follows record before t (w.round o).1 := by
  -- What ended since the last round,
  have hnodup := (kept_of_reaches hs).ordered.imp Nat.ne_of_lt
  obtain ⟨u, hu, hsession, hsettled⟩ := exists_settled hs h.workers hnodup
  rw [← h.session] at hsession hsettled
  -- the events of a poll,
  set polled : Reporting :=
    { u with polled := u.polled ++ w.found, phase := .reacting w.found } with hpolled
  have hpoll : Step u polled := .poll (hu.phase.trans hphase)
  have hlooked : Follows record before polled w.polled := by
    refine ⟨⟨hsession.symm, ?_⟩, ?_⟩
    · rw [calls, hpolled, hu.reports]
      exact h.record
    · rw [hpolled, hu.running]
      exact hsettled.imp fun _ _ hx => hx.of_eq rfl rfl rfl
  obtain ⟨v, hv, hreacted, hpolled', hdeals, hfollows⟩ :=
    exists_reacted_to hrecords hlooked rfl
  -- and the reports.
  set collecting : Reporting := { v with phase := .collecting false 0 } with hcollecting
  have hreaches : Reaches s collecting :=
    ((hu.reaches.tail hpoll).trans hv).tail (.collect hreacted)
  obtain ⟨t, left, ht, hleft, hthrough, hagrees, hstands⟩ := exists_collected hrecords
    (hs.trans hreaches)
    (show collecting.phase = .collecting false ([] : List Ticket).length from rfl) rfl
    ⟨hfollows.session, hfollows.record⟩
    (hfollows.workers.imp fun _ _ hx => hx.of_eq (t := collecting) rfl rfl rfl)
  set asleep : Reporting := { t with phase := .idle }
  have hsleep : Step t asleep := .sleep hthrough (Nat.le_refl _)
  refine ⟨asleep, (hreaches.trans ht.reaches).tail hsleep, rfl, ?_, ?_,
    ⟨⟨hagrees.session, hagrees.record⟩, ?_⟩⟩
  · show t.polled = _
    rw [ht.polled, hcollecting, hpolled', hpolled, hu.polled]
  · have hbegun : Deals s polled [] := hu.deals.trans (.of_eq rfl rfl)
    have hreported : Deals v asleep [] := .of_eq ht.entries ht.moves
    simpa using (hbegun.trans hdeals).trans hreported
  · show List.Forall₂ _ t.running _
    rw [hleft]
    exact hstands.imp fun _ _ hx => hx.of_eq rfl rfl rfl

theorem exists_rounds (hrecords : o.Records record) (hs : Reaches (start settings registry) s)
    (h : Follows record before s w) (hphase : s.phase = .idle) (fuel : Nat) :
    ∃ t, Reaches s t ∧ t.phase = .idle ∧ t.polled = s.polled ++ w.foundIn o fuel ∧
      Deals s t (w.dealtIn o fuel) ∧ Follows record before t (w.rounds o fuel) := by
  induction fuel generalizing s w with
  | zero => exact ⟨s, .refl, hphase, (List.append_nil _).symm, .of_eq rfl rfl, h⟩
  | succ fuel ih =>
    simp only [Watch.rounds, Watch.foundIn, Watch.dealtIn]
    split
    · exact ⟨s, .refl, hphase, (List.append_nil _).symm, .of_eq rfl rfl, h⟩
    · obtain ⟨u, hu, hidle, hpolled, hdeals, hfollows⟩ := exists_round hrecords hs h hphase
      split
      · obtain ⟨t, ht, hidle, hpolled', hdeals', hfollows⟩ := ih (hs.trans hu) hfollows hidle
        refine ⟨t, hu.trans ht, hidle, ?_, hdeals.trans hdeals', hfollows⟩
        rw [hpolled', hpolled, List.append_assoc]
      · exact ⟨u, hu, hidle, hpolled, hdeals, hfollows⟩

/-- The watch is that of the loop, from its beginning to its end: it deals with the events that
the loop deals with, on the machines that the loop has then; nothing moves the session but
these events and the one stop; and the observer is told of the calls. -/
structure Mirrors (o : Observer σ) (record : σ → List (DocumentId × LintOutcome)) (fuel : Nat)
    (w : Watch σ) (t : Reporting) : Prop where
  ends : t.phase = .over
  polled : t.polled = w.foundIn o fuel
  dealt : t.entries.map Entry.dealing = w.dealtIn o fuel
  moves : ∃ earlier later, t.moves = earlier ++ .cancelAll :: later ∧
    ∀ a ∈ earlier ++ later, ∃ e ∈ t.entries, e.Makes a
  session : (w.run o fuel).session = t.course.session
  record : record (w.run o fuel).observer = record w.observer ++ t.calls

/-- Before the loop stops, it follows a watch that has nothing left to deal with. -/
theorem exists_rounds_of_new (hrecords : o.Records record) (fuel : Nat)
    (hsession : w.session = .withRegistry settings registry) (hworkers : w.workers = []) :
    ∃ s, Reaches (start settings registry) s ∧ s.phase = .idle ∧ s.polled = w.foundIn o fuel ∧
      Deals (start settings registry) s (w.dealtIn o fuel) ∧
      Follows record (record w.observer) s (w.rounds o fuel) := by
  have hstart : Follows record (record w.observer) (start settings registry) w :=
    ⟨⟨hsession, (List.append_nil _).symm⟩, hworkers ▸ List.Forall₂.nil⟩
  exact exists_rounds hrecords .refl hstart rfl fuel

/-- The loop, to its end, is a watch. -/
theorem exists_run (hrecords : o.Records record) (fuel : Nat)
    (hsession : w.session = .withRegistry settings registry) (hworkers : w.workers = []) :
    ∃ t, Reaches (start settings registry) t ∧ Mirrors o record fuel w t := by
  obtain ⟨s, hs, hphase, hpolled, hdeals, hfollows⟩ :=
    exists_rounds_of_new hrecords fuel hsession hworkers
  have hstop := Step.stop hphase
  have hagrees : Agrees record (record w.observer) s.stopped
      { w.rounds o fuel with session := (w.rounds o fuel).session.cancelAll } :=
    ⟨congrArg Session.cancelAll hfollows.session, hfollows.record⟩
  obtain ⟨t, ht, hover, hpolled', hjoins, hagrees⟩ :=
    exists_joined hrecords (hs.tail hstop) rfl hagrees
      (hfollows.workers.imp fun _ _ hx =>
        hx.mono (t := s.stopped) (fun _ _ he => he) (List.Subset.refl _) (List.Subset.refl _))
  have hentries : t.entries = s.entries := by
    obtain ⟨more, hentries, hnone⟩ := hjoins.entries
    rwa [List.map_eq_nil_iff.mp hnone, List.append_nil] at hentries
  refine ⟨t, (hs.tail hstop).trans ht, hover, hpolled'.trans hpolled, ?_, ?_, hagrees.session,
    hagrees.record⟩
  · obtain ⟨more, hmore, hdealt⟩ := hdeals.entries
    rw [hentries, hmore]
    exact hdealt
  · obtain ⟨earlier, hearlier, hmade⟩ := hdeals.moves
    obtain ⟨later, hlater, hmade'⟩ := hjoins.moves
    refine ⟨earlier, later, ?_, fun a ha => ?_⟩
    · rw [hlater, show s.stopped.moves = s.moves ++ [.cancelAll] from rfl, hearlier]
      simp [start]
    · rcases List.mem_append.mp ha with ha | ha
      · rw [hentries]
        exact hmade a ha
      · exact hmade' a ha

end Reporting

end LuaDiagnostics
