/-
Linting several documents at once.

A **batch** is a list of documents with all that their linting depends on.  A **pool** of
workers lints it: each worker begins the cycle of its document and ends it at some later
time, then sends its outcome, and the outcomes arrive one by one and are put where their
documents stand.  Every order of these steps is possible.

* **`assigned_of_reaches`**: the workers that run and the cycles under way are the same;
* **`exists_step`** and **`exists_isOver`**: no pool gets stuck, and none goes on for ever
  (`left_lt_of_step`);
* **`reaches_inOrder`**: one order is to take the documents one after the other.

A cycle that was cancelled may have lost its compiler at any moment, so it ends with any
result whatever.
-/
import LuaDiagnostics.Proofs.Session.Supersession
import LuaDiagnostics.Session.Worker
import Mathlib.Algebra.GroupWithZero.Nat
import Mathlib.Logic.Relation

namespace LuaDiagnostics

/-- What comes of running a command on a document. -/
abbrev Compilation := Command → Document → CycleResult

/-- What comes of running a command on a machine. -/
def Machine.compile (m : Machine) : Compilation := fun c d =>
  match m.launch c with
  | .ok _ =>
    let rule := Rule.respond m.rules d.text
    .ok (Cycle.undisturbed d.lines rule.errors.toList rule.exitCode)
  | .error e => .error (.spawn c.displayName e)

/-! ### One document after the other -/

namespace Session

/-- Lints a document and waits for the result. -/
def lintWith (s : Session) (m : Machine) (compile : Compilation) (d : Document) :
    Session × LintOutcome :=
  match s.prepare m d with
  | (s, .error outcome) => (s, outcome)
  | (s, .ok c) => s.complete .opened c (compile c.command c.document)

/-- Lints documents one after the other. -/
def lintAllWith (s : Session) (m : Machine) (compile : Compilation) :
    List Document → Session × List LintOutcome
  | [] => (s, [])
  | d :: rest =>
    let (s, outcome) := s.lintWith m compile d
    let (s, outcomes) := s.lintAllWith m compile rest
    (s, outcome :: outcomes)

theorem handle_eq_lintWith (s : Session) (m : Machine) (d : Document) :
    s.handle m .opened d = s.lintWith m m.compile d := by
  rcases hprepare : s.prepare m d with ⟨t, outcome | c⟩
  · simp only [handle, Worker.start, lintWith, hprepare, Worker.finish]
  · simp only [handle, Worker.start, lintWith, hprepare, Worker.launch, Machine.compile]
    cases m.launch c.command with
    | ok place => rfl
    | error e => rfl

theorem lintAll_eq_lintAllWith (s : Session) (m : Machine) (documents : List Document) :
    s.lintAll m documents = s.lintAllWith m m.compile documents := by
  induction documents generalizing s with
  | nil => rfl
  | cons d rest ih => simp only [lintAll, lintAllWith, handle_eq_lintWith, ih]

end Session

/-! ### Batches -/

/-- Documents to be linted, with all that their linting depends on. -/
structure Batch where
  settings : Settings
  machine : Machine
  compile : Compilation
  documents : List Document

namespace Batch

/-- Holds of the documents that get a cycle. -/
def lints (b : Batch) (d : Document) : Bool := b.settings.enable && d.isLua

/-- The command that checks a document. -/
def command (b : Batch) (d : Document) : Command :=
  (Session.new b.settings).commandFor b.machine d

/-- What the compiler says about a document. -/
def verdict (b : Batch) (d : Document) : CycleResult := b.compile (b.command d) d

/-- What a document comes to by itself. -/
def outcomeOf (b : Batch) (d : Document) : LintOutcome :=
  if ¬ b.settings.enable then .disabled
  else if ¬ d.isLua then .skipped
  else Session.outcomeAfter b.settings.interpreter.program (b.verdict d)

/-- What a document's slot shows by itself. -/
def slotOf (b : Batch) (d : Document) : Option (List Diagnostic) :=
  match b.verdict d with
  | .error _ => none
  | .ok found =>
    found.diagnostic.map fun x => [x.withSource b.settings.interpreter.program]

/-- Documents of one name are judged alike. -/
def IsUniform (b : Batch) : Prop :=
  ∀ d ∈ b.documents, ∀ e ∈ b.documents, b.lints d = true → b.lints e = true → d.id = e.id →
    b.verdict d = b.verdict e

/-- Another document has the name of the one at this place. -/
def HasRival (b : Batch) (i : Nat) : Prop :=
  ∃ (j : Nat) (d e : Document), j ≠ i ∧ b.documents[i]? = some d ∧ b.documents[j]? = some e ∧
    d.id = e.id

/-- The batch linted one document after the other. -/
def inOrder (b : Batch) : Session × List LintOutcome :=
  (Session.new b.settings).lintAllWith b.machine b.compile b.documents

variable {b : Batch} {d : Document}

theorem outcomeOf_of_lints (h : b.lints d = true) :
    b.outcomeOf d = Session.outcomeAfter b.settings.interpreter.program (b.verdict d) := by
  rw [lints, Bool.and_eq_true] at h
  rw [outcomeOf, if_neg (by simp [h.1]), if_neg (by simp [h.2])]

theorem outcomeOf_ne_superseded (b : Batch) (d : Document) : b.outcomeOf d ≠ .superseded := by
  rw [outcomeOf]
  split
  · simp
  split
  · simp
  rw [Session.outcomeAfter.eq_def]
  split
  · simp
  · split
    · simp
    · simp

/-- Documents of one name come to the same and show the same. -/
theorem IsUniform.outcomeOf_eq (hb : b.IsUniform) {e : Document} (hd : d ∈ b.documents)
    (he : e ∈ b.documents) (hlints : b.lints d = true) (hlints' : b.lints e = true)
    (hid : d.id = e.id) : b.outcomeOf d = b.outcomeOf e ∧ b.slotOf d = b.slotOf e := by
  have hverdict := hb d hd e he hlints hlints' hid
  constructor
  · rw [outcomeOf_of_lints hlints, outcomeOf_of_lints hlints', hverdict]
  · rw [slotOf, slotOf, hverdict]

/-- Documents of different names stand at different places. -/
theorem ne_of_id_ne {i j : Nat} {e : Document} (hd : b.documents[i]? = some d)
    (he : b.documents[j]? = some e) (hid : d.id ≠ e.id) : i ≠ j := by
  rintro rfl
  exact hid (congrArg Document.id (Option.some.inj (hd.symm.trans he)))

theorem not_hasRival (hnodup : (b.documents.map Document.id).Nodup) (i : Nat) :
    ¬ b.HasRival i := by
  rintro ⟨j, d, e, hne, hd, he, hid⟩
  have hj : (b.documents.map Document.id)[j]? = some d.id := by
    rw [List.getElem?_map, he, hid]
    rfl
  have hi : (b.documents.map Document.id)[i]? = some d.id := by
    rw [List.getElem?_map, hd]
    rfl
  exact hne ((List.getElem?_inj (List.getElem?_eq_some_iff.mp hj).1 hnodup).mp
    (hj.trans hi.symm))

end Batch

/-! ### Pools -/

/-- How far the worker of a document has come. -/
inductive Pool.Stage
  | waiting
  | running (cycle : PreparedCycle)
  /-- The outcome was sent. -/
  | ended (outcome : LintOutcome)
deriving DecidableEq

/-- Workers on a batch, one for each document. -/
structure Pool where
  course : Session.Course
  stages : List Pool.Stage
  /-- The outcomes on their way, with the places of their documents. -/
  messages : List (Nat × LintOutcome)
  /-- The outcomes that have arrived, where their documents stand. -/
  outcomes : List LintOutcome

namespace Pool

/-- Nothing has begun; a document without outcome counts as superseded. -/
def start (b : Batch) : Pool :=
  { course := .start b.settings .empty
    stages := b.documents.map fun _ => .waiting
    messages := []
    outcomes := b.documents.map fun _ => .superseded }

/-- What a worker or an outcome may do next. -/
inductive Step (b : Batch) (p : Pool) : Pool → Prop
  | begin {i : Nat} {c : PreparedCycle} {course : Session.Course}
      (hdocument : b.documents[i]? = some c.document) (hstage : p.stages[i]? = some .waiting)
      (hmove : p.course.step? (.begin b.machine c) = some course) :
      Step b p { p with course, stages := p.stages.set i (.running c) }
  | decline {i : Nat} {d : Document} {outcome : LintOutcome} {course : Session.Course}
      (hdocument : b.documents[i]? = some d) (hstage : p.stages[i]? = some .waiting)
      (hmove : p.course.step? (.decline b.machine d outcome) = some course) :
      Step b p
        { p with
          course
          stages := p.stages.set i (.ended outcome)
          messages := (i, outcome) :: p.messages }
  /-- A compiler that was not killed says what it has to say. -/
  | finish {i : Nat} {c : PreparedCycle} {result : CycleResult} {outcome : LintOutcome}
      {course : Session.Course} (hstage : p.stages[i]? = some (.running c))
      (hresult : c.generation ∉ p.course.session.cancelled →
        result = b.compile c.command c.document)
      (hmove : p.course.step? (.complete c .opened result outcome) = some course) :
      Step b p
        { p with
          course
          stages := p.stages.set i (.ended outcome)
          messages := (i, outcome) :: p.messages }
  | receive {i : Nat} {outcome : LintOutcome} (hmessage : (i, outcome) ∈ p.messages) :
      Step b p
        { p with
          messages := p.messages.erase (i, outcome)
          outcomes := p.outcomes.set i outcome }

/-- What any order of steps leads to. -/
abbrev Reaches (b : Batch) : Pool → Pool → Prop := Relation.ReflTransGen (Step b)

/-- All workers are done and all outcomes have arrived. -/
def IsOver (p : Pool) : Prop := (∀ t ∈ p.stages, ∃ outcome, t = .ended outcome) ∧ p.messages = []

/-- Another task takes the place of one. -/
theorem getElem?_set_eq_some_iff {stages : List Stage} {i : Nat} {old : Stage}
    (hold : stages[i]? = some old) (new : Stage) (j : Nat) (t : Stage) :
    (stages.set i new)[j]? = some t ↔ j = i ∧ t = new ∨ j ≠ i ∧ stages[j]? = some t := by
  have hi : i < stages.length := (List.getElem?_eq_some_iff.mp hold).1
  rw [List.getElem?_set]
  by_cases hj : j = i
  · rw [if_pos hj.symm, if_pos hi]
    simp [hj, eq_comm]
  · rw [if_neg (Ne.symm hj)]
    simp [hj]

variable {b : Batch} {p q : Pool}

/-! ### Workers and cycles -/

/-- The running workers and the cycles under way are the same, one worker for each
cycle. -/
structure Assigned (b : Batch) (p : Pool) : Prop where
  coherent : Session.Course.Coherent p.course
  settings : p.course.session.settings = b.settings
  length_stages : p.stages.length = b.documents.length
  running : ∀ (i : Nat) (c : PreparedCycle), p.stages[i]? = some (.running c) →
    c ∈ p.course.underWay ∧ b.documents[i]? = some c.document ∧ b.lints c.document = true ∧
      c.command = b.command c.document
  occupied : ∀ c ∈ p.course.underWay, ∃ i : Nat, p.stages[i]? = some (.running c)
  single : ∀ (i j : Nat) (c : PreparedCycle), p.stages[i]? = some (.running c) →
    p.stages[j]? = some (.running c) → i = j

theorem assigned_start (b : Batch) : Assigned b (start b) := by
  have hnone : ∀ (i : Nat) (c : PreparedCycle), (start b).stages[i]? ≠ some (.running c) := by
    intro i c h
    rw [start, List.getElem?_map, Option.map_eq_some_iff] at h
    obtain ⟨d, -, h⟩ := h
    exact absurd h (by simp)
  refine ⟨Session.Course.coherent_start b.settings .empty, rfl, List.length_map _, ?_, ?_, ?_⟩
  · intro i c h
    exact absurd h (hnone i c)
  · intro c hc
    exact absurd hc List.not_mem_nil
  · intro i j c h
    exact absurd h (hnone i c)

/-- The end of a cycle takes it from those under way. -/
theorem underWay_of_complete {s t : Session.Course} {c : PreparedCycle} {kind : EventKind}
    {result : CycleResult} {outcome : LintOutcome}
    (h : Session.Course.Step s (.complete c kind result outcome) t) :
    t.underWay = s.underWay.erase c := by
  cases h with
  | late hmem hlate => rfl
  | finish hmem hlatest houtcome => rfl

/-- The begin of a cycle for a document of the batch, in the batch's terms. -/
theorem Assigned.begin_of_step {c : PreparedCycle} {course : Session.Course}
    (hp : Assigned b p) (h : Session.Course.Step p.course (.begin b.machine c) course) :
    course = ⟨p.course.session.begin c.document.id, c :: p.course.underWay⟩ ∧
      b.lints c.document = true ∧ c.command = b.command c.document ∧
      c ∉ p.course.underWay := by
  cases h with
  | begin henable hlua hnumber hcommand =>
    rw [hp.settings] at henable
    refine ⟨rfl, by rw [Batch.lints, henable, hlua]; rfl, ?_, fun hmem => ?_⟩
    · rw [hcommand, Session.commandFor, hp.settings]
      rfl
    · have hlt := hp.coherent.below c hmem
      omega

/-- A document is turned away when the batch does not lint it. -/
theorem Assigned.decline_of_step {d : Document} {outcome : LintOutcome}
    {course : Session.Course} (hp : Assigned b p)
    (h : Session.Course.Step p.course (.decline b.machine d outcome) course) :
    course = p.course ∧ b.lints d = false ∧ outcome = b.outcomeOf d := by
  cases h with
  | decline hprepare =>
    rw [Session.prepare, hp.settings] at hprepare
    refine ⟨rfl, ?_⟩
    rw [Batch.lints, Batch.outcomeOf]
    by_cases henable : b.settings.enable = true
    · rw [if_neg (by simp [henable])] at hprepare
      by_cases hlua : d.isLua = true
      · rw [if_neg (by simp [hlua])] at hprepare
        exact absurd (Prod.mk.inj hprepare).2 (by simp)
      · rw [if_pos hlua] at hprepare
        obtain rfl := Except.error.inj (Prod.mk.inj hprepare).2
        simp [henable, hlua]
    · rw [if_pos henable] at hprepare
      obtain rfl := Except.error.inj (Prod.mk.inj hprepare).2
      simp [henable]

theorem assigned_of_step (h : Step b p q) (hp : Assigned b p) : Assigned b q := by
  cases h with
  | @begin i c course hdocument hstage hmove =>
    have hstep := Session.Course.step_of_step? hmove
    obtain ⟨rfl, hlints, hcommand, hnew⟩ := hp.begin_of_step hstep
    have hset := getElem?_set_eq_some_iff hstage (.running c)
    refine ⟨Session.Course.coherent_of_step hstep hp.coherent,
      (Session.Course.settings_of_step hstep).trans hp.settings,
      (List.length_set ..).trans hp.length_stages, ?_, ?_, ?_⟩
    · intro j e he
      rcases (hset j _).mp he with ⟨rfl, heq⟩ | ⟨-, he⟩
      · obtain rfl := Stage.running.inj heq
        exact ⟨List.mem_cons_self, hdocument, hlints, hcommand⟩
      · obtain ⟨hmem, hrest⟩ := hp.running j e he
        exact ⟨List.mem_cons_of_mem _ hmem, hrest⟩
    · intro e he
      rcases List.mem_cons.mp he with rfl | he
      · exact ⟨i, (hset i _).mpr (.inl ⟨rfl, rfl⟩)⟩
      · obtain ⟨j, hj⟩ := hp.occupied e he
        refine ⟨j, (hset j _).mpr (.inr ⟨?_, hj⟩)⟩
        rintro rfl
        exact absurd (hstage.symm.trans hj) (by simp)
    · -- No other worker runs a cycle that has only just begun.
      intro j k e hj hk
      rcases (hset j _).mp hj with ⟨rfl, heq⟩ | ⟨-, hold⟩
      · obtain rfl := Stage.running.inj heq
        rcases (hset k _).mp hk with ⟨rfl, -⟩ | ⟨-, hold⟩
        · rfl
        · exact absurd (hp.running k e hold).1 hnew
      · rcases (hset k _).mp hk with ⟨rfl, heq⟩ | ⟨-, hold'⟩
        · obtain rfl := Stage.running.inj heq
          exact absurd (hp.running j e hold).1 hnew
        · exact hp.single j k e hold hold'
  | @decline i d outcome course hdocument hstage hmove =>
    obtain ⟨rfl, -⟩ := hp.decline_of_step (Session.Course.step_of_step? hmove)
    have hset := fun j c => getElem?_set_eq_some_iff hstage (.ended outcome) j (.running c)
    have hold : ∀ (j : Nat) (c : PreparedCycle),
        (p.stages.set i (.ended outcome))[j]? = some (.running c) →
          p.stages[j]? = some (.running c) := by
      intro j c hj
      exact (((hset j c).mp hj).resolve_left (by simp)).2
    refine ⟨hp.coherent, hp.settings, (List.length_set ..).trans hp.length_stages, ?_, ?_, ?_⟩
    · intro j c hj
      exact hp.running j c (hold j c hj)
    · intro c hc
      obtain ⟨j, hj⟩ := hp.occupied c hc
      refine ⟨j, (hset j c).mpr (.inr ⟨?_, hj⟩)⟩
      rintro rfl
      exact absurd (hstage.symm.trans hj) (by simp)
    · intro j k c hj hk
      exact hp.single j k c (hold j c hj) (hold k c hk)
  | @finish i c result outcome course hstage hresult hmove =>
    have hstep := Session.Course.step_of_step? hmove
    have hunderWay := underWay_of_complete hstep
    have hnodup := List.Nodup.of_map _ hp.coherent.distinct
    have hset := fun j e => getElem?_set_eq_some_iff hstage (.ended outcome) j (.running e)
    have hold : ∀ (j : Nat) (e : PreparedCycle),
        (p.stages.set i (.ended outcome))[j]? = some (.running e) →
          j ≠ i ∧ p.stages[j]? = some (.running e) := by
      intro j e hj
      exact ((hset j e).mp hj).resolve_left (by simp)
    refine ⟨Session.Course.coherent_of_step hstep hp.coherent,
      (Session.Course.settings_of_step hstep).trans hp.settings,
      (List.length_set ..).trans hp.length_stages, ?_, ?_, ?_⟩
    · intro j e hj
      obtain ⟨hne, hj⟩ := hold j e hj
      obtain ⟨hmem, hrest⟩ := hp.running j e hj
      refine ⟨?_, hrest⟩
      show e ∈ course.underWay
      rw [hunderWay, List.mem_erase_of_ne]
      · exact hmem
      · rintro rfl
        exact hne (hp.single j i e hj hstage)
    · intro e he
      have hmem : e ∈ p.course.underWay.erase c := hunderWay ▸ he
      obtain ⟨hne, hmem⟩ := hnodup.mem_erase_iff.mp hmem
      obtain ⟨j, hj⟩ := hp.occupied e hmem
      refine ⟨j, (hset j e).mpr (.inr ⟨?_, hj⟩)⟩
      rintro rfl
      exact hne (Stage.running.inj (Option.some.inj (hj.symm.trans hstage)))
    · intro j k e hj hk
      exact hp.single j k e (hold j e hj).2 (hold k e hk).2
  | receive hmessage =>
    obtain ⟨hcoherent, hsettings, hlength, hrunning, hoccupied, hsingle⟩ := hp
    exact ⟨hcoherent, hsettings, hlength, hrunning, hoccupied, hsingle⟩

theorem assigned_of_reaches (h : Reaches b (start b) p) : Assigned b p := by
  induction h with
  | refl => exact assigned_start b
  | tail _ hstep ih => exact assigned_of_step hstep ih

/-! ### Ends -/

/-- A pool that is not over can go on. -/
theorem exists_step (ha : Assigned b p) (hgoing : ¬ p.IsOver) : ∃ q, Step b p q := by
  rw [IsOver, Classical.not_and_iff_not_or_not] at hgoing
  rcases hgoing with hstages | hmessages
  · rw [not_forall] at hstages
    obtain ⟨t, ht⟩ := hstages
    obtain ⟨hmem, hnotOver⟩ := Classical.not_imp.mp ht
    obtain ⟨i, hi⟩ := List.getElem?_of_mem hmem
    cases t with
    | waiting =>
      have hlength : i < b.documents.length := by
        rw [← ha.length_stages]
        exact (List.getElem?_eq_some_iff.mp hi).1
      have hd := List.getElem?_eq_getElem hlength
      rcases hprepare : p.course.session.prepare b.machine b.documents[i]
        with ⟨session, outcome | c⟩
      · obtain rfl := Session.session_of_prepare_eq_error hprepare
        exact ⟨_, .decline hd hi (Session.Course.step?_of_step (.decline hprepare))⟩
      · obtain ⟨henable, hlua, -, rfl⟩ := Session.prepare_eq_ok_iff.mp hprepare
        have hbegin := Session.Course.Step.begin (s := p.course) (m := b.machine)
          (c := ⟨_, b.documents[i], p.course.session.commandFor b.machine b.documents[i]⟩)
          henable hlua rfl rfl
        exact ⟨_, .begin hd hi (Session.Course.step?_of_step hbegin)⟩
    | running c =>
      have hcomplete : p.course.step? (.complete c .opened (b.compile c.command c.document) _)
          = some _ := if_pos ⟨(ha.running i c hi).1, rfl⟩
      exact ⟨_, .finish hi (fun _ => rfl) hcomplete⟩
    | ended outcome => exact absurd ⟨outcome, rfl⟩ hnotOver
  · obtain ⟨⟨i, outcome⟩, hmem⟩ := List.exists_mem_of_ne_nil _ hmessages
    exact ⟨_, .receive hmem⟩

/-- The steps that a worker has before it. -/
def Stage.left : Stage → Nat
  | .waiting => 3
  | .running _ => 2
  | .ended _ => 0

/-- The steps that a pool has before it at most. -/
def left (p : Pool) : Nat := (p.stages.map Stage.left).sum + p.messages.length

theorem sum_left_set {stages : List Stage} {i : Nat} {old : Stage}
    (hold : stages[i]? = some old) (new : Stage) :
    ((stages.set i new).map Stage.left).sum + old.left
      = (stages.map Stage.left).sum + new.left := by
  induction stages generalizing i with
  | nil => simp at hold
  | cons t rest ih =>
    cases i with
    | zero =>
      obtain rfl : t = old := by simpa using hold
      simp only [List.set_cons_zero, List.map_cons, List.sum_cons]
      omega
    | succ i =>
      have hrest := ih (i := i) (by simpa using hold)
      simp only [List.set_cons_succ, List.map_cons, List.sum_cons]
      omega

/-- Every step uses up one of those that are left. -/
theorem left_lt_of_step (h : Step b p q) : q.left < p.left := by
  cases h with
  | @begin i c course hdocument hstage hmove =>
    have hsum := sum_left_set hstage (.running c)
    simp only [left, Stage.left] at hsum ⊢
    omega
  | @decline i d outcome course hdocument hstage hmove =>
    have hsum := sum_left_set hstage (.ended outcome)
    simp only [left, Stage.left, List.length_cons] at hsum ⊢
    omega
  | @finish i c result outcome course hstage hresult hmove =>
    have hsum := sum_left_set hstage (.ended outcome)
    simp only [left, Stage.left, List.length_cons] at hsum ⊢
    omega
  | receive hmessage =>
    have hlength := List.length_erase_of_mem hmessage
    have hpos := List.length_pos_of_mem hmessage
    simp only [left]
    omega

/-- However far a pool has come, its work comes to an end. -/
theorem exists_isOver (h : Reaches b (start b) p) : ∃ q, Reaches b p q ∧ q.IsOver := by
  induction hleft : p.left using Nat.strongRecOn generalizing p with
  | ind n ih =>
    by_cases hover : p.IsOver
    · exact ⟨p, .refl, hover⟩
    · obtain ⟨q, hq⟩ := exists_step (assigned_of_reaches h) hover
      obtain ⟨r, hr, hend⟩ := ih q.left (hleft ▸ left_lt_of_step hq) (h.tail hq) rfl
      exact ⟨r, .head hq hr, hend⟩

/-! ### One order -/

/-- A worker may do all its work at once. -/
theorem reaches_lintWith (session : Session) {stages : List Stage}
    (outcomes : List LintOutcome) {i : Nat} {d : Document} (hd : b.documents[i]? = some d)
    (hstage : stages[i]? = some .waiting) :
    Reaches b ⟨⟨session, []⟩, stages, [], outcomes⟩
      ⟨⟨(session.lintWith b.machine b.compile d).1, []⟩,
        stages.set i (.ended (session.lintWith b.machine b.compile d).2), [],
        outcomes.set i (session.lintWith b.machine b.compile d).2⟩ := by
  have hi : i < stages.length := (List.getElem?_eq_some_iff.mp hstage).1
  rcases hprepare : session.prepare b.machine d with ⟨next, outcome | c⟩
  · obtain rfl := (Session.session_of_prepare_eq_error hprepare).symm
    have hdecline : Step b ⟨⟨session, []⟩, stages, [], outcomes⟩ _ :=
      .decline hd hstage (Session.Course.step?_of_step (.decline hprepare))
    have hreceive := Step.receive (b := b)
      (p := ⟨⟨session, []⟩, stages.set i (.ended outcome), [(i, outcome)], outcomes⟩)
      List.mem_cons_self
    rw [List.erase_cons_head] at hreceive
    simp only [Session.lintWith, hprepare]
    exact .tail (.single hdecline) hreceive
  · obtain ⟨henable, hlua, rfl, rfl⟩ := Session.prepare_eq_ok_iff.mp hprepare
    simp only [Session.lintWith, hprepare]
    set c : PreparedCycle := ⟨session.nextGeneration, d, session.commandFor b.machine d⟩ with hc
    set ending := (session.begin d.id).complete .opened c (b.compile c.command c.document)
    have hbegin : Step b ⟨⟨session, []⟩, stages, [], outcomes⟩ _ :=
      .begin (c := c) hd hstage (Session.Course.step?_of_step (.begin henable hlua rfl rfl))
    have hfinish : Step b
        ⟨⟨session.begin d.id, [c]⟩, stages.set i (.running c), [], outcomes⟩
        ⟨⟨ending.1, []⟩, (stages.set i (.running c)).set i (.ended ending.2),
          [(i, ending.2)], outcomes⟩ := by
      refine .finish (List.getElem?_set_self hi) (fun _ => rfl) ?_
      rw [Session.Course.step?, if_pos ⟨List.mem_cons_self, rfl⟩, List.erase_cons_head]
    have hreceive := Step.receive (b := b) (p := ⟨⟨ending.1, []⟩,
      (stages.set i (.running c)).set i (.ended ending.2), [(i, ending.2)], outcomes⟩)
      List.mem_cons_self
    rw [List.erase_cons_head] at hreceive
    rw [List.set_set] at hfinish hreceive
    exact .tail (.tail (.single hbegin) hfinish) hreceive

/-- The pool in which these outcomes have arrived and these documents are waiting. -/
def between (session : Session) (outcomes : List LintOutcome) (rest : List Document) : Pool :=
  { course := ⟨session, []⟩
    stages := outcomes.map .ended ++ rest.map fun _ => .waiting
    messages := []
    outcomes := outcomes ++ rest.map fun _ => .superseded }

theorem reaches_between {session : Session} {outcomes : List LintOutcome} {d : Document}
    {rest : List Document} (hd : b.documents[outcomes.length]? = some d) :
    Reaches b (between session outcomes (d :: rest))
      (between (session.lintWith b.machine b.compile d).1
        (outcomes ++ [(session.lintWith b.machine b.compile d).2]) rest) := by
  have hstage :
      (between session outcomes (d :: rest)).stages[outcomes.length]? = some .waiting := by
    simp [between]
  have hset := reaches_lintWith session (between session outcomes (d :: rest)).outcomes hd hstage
  have hstages : ∀ outcome, (between session outcomes (d :: rest)).stages.set outcomes.length
      (.ended outcome) = (outcomes ++ [outcome]).map .ended ++ rest.map fun _ => .waiting := by
    intro outcome
    simp [between]
  have houtcomes : ∀ outcome, (between session outcomes (d :: rest)).outcomes.set outcomes.length
      outcome = outcomes ++ [outcome] ++ rest.map fun _ => .superseded := by
    intro outcome
    simp [between]
  rw [hstages, houtcomes] at hset
  exact hset

theorem reaches_lintAllWith (session : Session) (outcomes : List LintOutcome)
    (done : List Document) {rest : List Document} (hdocuments : b.documents = done ++ rest)
    (hlength : outcomes.length = done.length) :
    Reaches b (between session outcomes rest)
      (between (session.lintAllWith b.machine b.compile rest).1
        (outcomes ++ (session.lintAllWith b.machine b.compile rest).2) []) := by
  induction rest generalizing session outcomes done with
  | nil =>
    simp only [Session.lintAllWith, List.append_nil]
    exact .refl
  | cons d rest ih =>
    have hd : b.documents[outcomes.length]? = some d := by
      rw [hdocuments, hlength, List.getElem?_append_right (Nat.le_refl _), Nat.sub_self]
      rfl
    set next := session.lintWith b.machine b.compile d with hnext
    have hrest := ih next.1 (outcomes ++ [next.2]) (done ++ [d])
      (by rw [hdocuments, List.append_assoc, List.singleton_append]) (by simp [hlength])
    rw [List.append_assoc, List.singleton_append] at hrest
    exact (reaches_between hd).trans hrest

/-- The documents may be linted one after the other. -/
theorem reaches_inOrder (b : Batch) :
    ∃ p, Reaches b (start b) p ∧ p.IsOver ∧ p.course.session = b.inOrder.1 ∧
      p.outcomes = b.inOrder.2 := by
  refine ⟨_, reaches_lintAllWith (.new b.settings) [] [] rfl rfl, ⟨?_, rfl⟩, rfl, ?_⟩
  · intro t ht
    rw [between, List.map_nil, List.append_nil] at ht
    obtain ⟨outcome, -, rfl⟩ := List.mem_map.mp ht
    exact ⟨outcome, rfl⟩
  · exact List.append_nil _

end Pool

end LuaDiagnostics
