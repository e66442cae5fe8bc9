/-
The rounds of the loop.

What a loop does is said here of the loop itself: which events its polls find (`foundIn`), on
which machines and with what answer it deals with them (`dealtIn`), and whom it reports.

* **`Worker.finish_launched`**: a worker completes its cycle with what comes of running the
  command on the machine on which it was launched.
* **`collect_eq`**: a pass reports the workers that have an outcome and keeps the others.
* **`foldl_join_eq`**: the last pass reports everyone.
-/
import LuaDiagnostics.Proofs.Session.Pool
import LuaDiagnostics.Watch.Loop

namespace LuaDiagnostics

/-! ### Workers -/

/-- The cycle that a worker is to complete. -/
def Worker.cycle? (w : Worker) : Option PreparedCycle :=
  match w.job with
  | .settled _ => none
  | .stillborn c _ => some c
  | .running c _ => some c

/-- A worker has an outcome, or there is a cycle that it is to complete. -/
theorem Worker.settled_or_cycle (w : Worker) :
    (∃ outcome, w.job = .settled outcome) ∨ w.outcome? = none ∧ ∃ c, w.cycle? = some c := by
  obtain ⟨id, kind, outcome | ⟨c, failure⟩ | ⟨c, rule⟩⟩ := w
  · exact .inl ⟨outcome, rfl⟩
  · exact .inr ⟨rfl, c, rfl⟩
  · exact .inr ⟨rfl, c, rfl⟩

/-- A worker that was launched on a machine is to complete its cycle with what comes of running
the command there. -/
theorem Worker.finish_launched {w : Worker} {m : Machine} {c : PreparedCycle}
    (h : w.job = launch m c) : w.outcome? = none ∧ w.cycle? = some c ∧
      ∀ s, w.finish s = s.complete w.kind c (m.compile c.command c.document) := by
  rw [launch] at h
  rw [Worker.outcome?, Worker.cycle?]
  cases hlaunch : m.launch c.command with
  | ok place =>
    simp only [hlaunch] at h
    refine ⟨by rw [h], by rw [h], ?_⟩
    intro s
    simp only [Worker.finish, h, Machine.compile, hlaunch]
  | error e =>
    simp only [hlaunch] at h
    refine ⟨by rw [h], by rw [h], ?_⟩
    intro s
    simp only [Worker.finish, h, Machine.compile, hlaunch]

/-- Such a worker has nothing to wait for if the compiler ends by itself. -/
theorem Worker.isDone_launched {w : Worker} {m : Machine} {c : PreparedCycle}
    (h : w.job = launch m c) (hends : (Rule.respond m.rules c.document.text).runsOn = false)
    (s : Session) : w.isDone s = true := by
  rw [launch] at h
  cases hlaunch : m.launch c.command with
  | ok place =>
    simp only [hlaunch] at h
    simp only [isDone, h, hends, Bool.not_false, Bool.true_or]
  | error e =>
    simp only [hlaunch] at h
    simp only [isDone, h]

/-- The observer keeps a record of what it is told. -/
def Observer.Records {σ : Type} (o : Observer σ) (record : σ → List (DocumentId × LintOutcome)) :
    Prop :=
  ∀ state files registry id outcome,
    record (o.observe state files registry id outcome).1 = record state ++ [(id, outcome)]

theorem Observer.Records.report {σ : Type} {o : Observer σ}
    {record : σ → List (DocumentId × LintOutcome)} (h : o.Records record) (w : Watch σ)
    (id : DocumentId) (outcome : LintOutcome) :
    record (w.report o id outcome).observer = record w.observer ++ [(id, outcome)] :=
  h w.observer w.machine.files w.session.registry id outcome

/-- An event, with the machine that the loop has when it deals with it and with what the event
is turned into there. -/
abbrev Dealing : Type := Machine × WatchEvent × Option Prepared

namespace Watch

variable {σ : Type}

/-! ### Events -/

/-- The events that a poll finds now. -/
def found (w : Watch σ) : List WatchEvent :=
  (w.watcher.poll (w.machine.files.modified? w.machine.directory)).2

/-- The events that the polls of at most `fuel` rounds find. -/
def foundIn (o : Observer σ) : Nat → Watch σ → List WatchEvent
  | 0, _ => []
  | fuel + 1, w =>
    if o.wantsStop w.observer then []
    else if (w.round o).2 then w.found ++ foundIn o fuel (w.round o).1
    else w.found

/-- The watch of a round when it has polled. -/
def polled (w : Watch σ) : Watch σ :=
  { w.settleDone with
    watcher := (w.watcher.poll (w.machine.files.modified? w.machine.directory)).1 }

/-- Dealing with events one after the other.  A report in between may change the machine. -/
def dealtWith (o : Observer σ) (w : Watch σ) : List WatchEvent → List Dealing
  | [] => []
  | e :: rest =>
    (w.machine, e, (w.session.prepareEvent w.machine e).2) :: (w.react o e).dealtWith o rest

/-- Dealing with the events that the polls of at most `fuel` rounds find. -/
def dealtIn (o : Observer σ) : Nat → Watch σ → List Dealing
  | 0, _ => []
  | fuel + 1, w =>
    if o.wantsStop w.observer then []
    else if (w.round o).2 then w.polled.dealtWith o w.found ++ dealtIn o fuel (w.round o).1
    else w.polled.dealtWith o w.found

/-! ### Reports -/

variable {o : Observer σ} {record : σ → List (DocumentId × LintOutcome)}

/-- A pass of the loop reports the workers that have an outcome, in order, and keeps the others
in order. -/
theorem collect_eq (hrecords : o.Records record) (w : Watch σ) (workers : List Worker) :
    (w.collect o workers).2 = workers.filter (·.outcome?.isNone) ∧
      (w.collect o workers).1.session = w.session ∧
      record (w.collect o workers).1.observer
        = record w.observer ++ workers.filterMap fun x => x.outcome?.map (x.id, ·) := by
  induction workers generalizing w with
  | nil => exact ⟨rfl, rfl, (List.append_nil _).symm⟩
  | cons worker rest ih =>
    cases houtcome : worker.outcome? with
    | some outcome =>
      obtain ⟨hkept, hsession, hrecord⟩ := ih (w.report o worker.id outcome)
      simp only [collect, houtcome, List.filter_cons, List.filterMap_cons, Option.map_some,
        Option.isNone_some, Bool.false_eq_true, if_false]
      refine ⟨hkept, hsession, ?_⟩
      rw [hrecord, hrecords.report, List.append_assoc, List.singleton_append]
    | none =>
      obtain ⟨hkept, hsession, hrecord⟩ := ih w
      simp only [collect, houtcome, List.filter_cons, List.filterMap_cons, Option.map_none,
        Option.isNone_none, if_true, hkept]
      exact ⟨trivial, hsession, hrecord⟩

/-- Workers whose ends leave the session as it is are joined and reported one after the
other. -/
theorem foldl_join_eq (hrecords : o.Records record) {workers : List Worker}
    {answer : Worker → LintOutcome} (w : Watch σ)
    (hfinish : ∀ x ∈ workers, x.finish w.session = (w.session, answer x)) :
    (workers.foldl (join o) w).session = w.session ∧
      record (workers.foldl (join o) w).observer
        = record w.observer ++ workers.map fun x => (x.id, answer x) := by
  induction workers generalizing w with
  | nil => exact ⟨rfl, (List.append_nil _).symm⟩
  | cons worker rest ih =>
    have hjoin : w.join o worker = w.report o worker.id (answer worker) := by
      rw [join, hfinish worker List.mem_cons_self]
    obtain ⟨hsession, hrecord⟩ := ih (w.report o worker.id (answer worker)) fun x hx =>
      hfinish x (List.mem_cons_of_mem _ hx)
    rw [List.foldl_cons, hjoin]
    refine ⟨hsession, ?_⟩
    rw [hrecord, hrecords.report, List.append_assoc]
    rfl

end Watch

end LuaDiagnostics
