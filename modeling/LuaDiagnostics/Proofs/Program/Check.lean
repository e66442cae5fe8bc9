/-
Checking files on many threads.

The activity `check` reads its files in order and hands the documents to a pool of workers.
Its exit code and its report for programs are made of what the pool leaves behind, so they
are those of linting the documents one after the other.

* **`check_independent_of_order`**: every order of the pool's steps leads to one exit code
  and one registry, and says when the exit code is 1 and what the registry lists.
* **`documents_loadAll`**: the documents are those of the files that can be read, in order;
* **`complaints_ne_empty_iff`**: the files that cannot be read count as well.

The outcomes themselves may differ: which of the documents with one name are superseded
depends on the order.
-/
import LuaDiagnostics.Program
import LuaDiagnostics.Proofs.Session.Effects
import LuaDiagnostics.Proofs.Watch.Watching

namespace LuaDiagnostics

/-! ### Single documents -/

namespace Batch

variable {b : Batch} {d : Document}

/-- The compiler found an error in a document. -/
def Finds (b : Batch) (d : Document) (x : Diagnostic) : Prop :=
  b.lints d = true ∧ ∃ found, b.verdict d = .ok found ∧ found.diagnostic = some x

/-- The compiler could not be run on a document. -/
def Fails (b : Batch) (d : Document) : Prop :=
  b.lints d = true ∧ ∃ failure, b.verdict d = .error failure

theorem isFailing_outcomeOf_iff :
    Program.isFailing (b.outcomeOf d) = true ↔ b.Fails d ∨ ∃ x, b.Finds d x := by
  cases hlints : b.lints d with
  | true =>
    rw [outcomeOf_of_lints hlints, Session.outcomeAfter.eq_def]
    cases hverdict : b.verdict d with
    | error failure => simp [Program.isFailing, Fails, hlints, hverdict]
    | ok found =>
      cases hfound : found.diagnostic with
      | none => simp [Program.isFailing, Fails, Finds, hlints, hverdict, hfound]
      | some x => simp [Program.isFailing, Finds, hlints, hverdict, hfound]
  | false =>
    -- It comes to `disabled` or `skipped`.
    have hnot : Program.isFailing (b.outcomeOf d) = false := by
      rw [lints, Bool.and_eq_false_iff] at hlints
      rw [outcomeOf]
      rcases hlints with henable | hlua
      · rw [if_pos (by simp [henable])]
        rfl
      · split
        · rfl
        · rw [if_pos (by simp [hlua])]
          rfl
    simp [hnot, Fails, Finds, hlints]

theorem slotOf_eq_some_iff {ds : List Diagnostic} :
    b.lints d = true ∧ b.slotOf d = some ds ↔
      ∃ x, b.Finds d x ∧ ds = [x.withSource b.settings.interpreter.program] := by
  cases hverdict : b.verdict d with
  | error failure => simp [slotOf, Finds, hverdict]
  | ok found =>
    have hslot : b.slotOf d
        = found.diagnostic.map fun x => [x.withSource b.settings.interpreter.program] := by
      rw [slotOf, hverdict]
    rw [hslot, Option.map_eq_some_iff]
    constructor
    · rintro ⟨hlints, x, hx, rfl⟩
      exact ⟨x, ⟨hlints, found, hverdict, hx⟩, rfl⟩
    · rintro ⟨x, ⟨hlints, answer, hanswer, hx⟩, rfl⟩
      obtain rfl := Except.ok.inj (hverdict.symm.trans hanswer)
      exact ⟨hlints, x, hx, rfl⟩

end Batch

namespace Program

/-! ### Exit codes -/

/-- The exit code of a check that complained about files and came to these outcomes. -/
def exitCodeOf (complaints : String) (outcomes : List LintOutcome) : Nat :=
  if complaints ≠ "" ∨ outcomes.any isFailing then 1 else 0

theorem exitCodeOf_eq_one_iff {complaints : String} {outcomes : List LintOutcome} :
    exitCodeOf complaints outcomes = 1 ↔
      complaints ≠ "" ∨ ∃ outcome ∈ outcomes, isFailing outcome = true := by
  rw [← List.any_eq_true, exitCodeOf]
  split
  · rename_i hfailing
    exact iff_of_true rfl hfailing
  · rename_i hfine
    exact iff_of_false (by omega) hfine

theorem exitCodeOf_eq_iff {complaints : String} {xs ys : List LintOutcome} :
    exitCodeOf complaints xs = exitCodeOf complaints ys ↔
      (exitCodeOf complaints xs = 1 ↔ exitCodeOf complaints ys = 1) := by
  have hcode : ∀ outcomes,
      exitCodeOf complaints outcomes = 0 ∨ exitCodeOf complaints outcomes = 1 := by
    intro outcomes
    rw [exitCodeOf]
    split
    · exact .inr rfl
    · exact .inl rfl
  have hx := hcode xs
  have hy := hcode ys
  omega

/-- The documents of a check are those of the files that can be read, in order. -/
theorem documents_loadAll (m : Machine) (files : List Path) :
    (loadAll m files).1
      = files.filterMap fun file => (Document.load m.files m.directory file).toOption := by
  induction files with
  | nil => rfl
  | cons file rest ih =>
    rw [List.filterMap_cons, ← ih, loadAll]
    cases Document.load m.files m.directory file with
    | ok d => rfl
    | error e => rfl

/-- A check complains exactly when some file cannot be read. -/
theorem complaints_ne_empty_iff (m : Machine) (files : List Path) :
    (loadAll m files).2 ≠ "" ↔
      ∃ file ∈ files, ∃ e, Document.load m.files m.directory file = .error e := by
  induction files with
  | nil => simp [loadAll]
  | cons file rest ih =>
    rw [List.exists_mem_cons_iff, ← ih, loadAll]
    cases hload : Document.load m.files m.directory file with
    | ok d => simp
    | error e => simp [toString]

variable {b : Batch} {p : Pool}

/-- When a pool is over, some outcome is a failing one exactly when some document comes to
a failing one by itself. -/
theorem exists_isFailing_iff (hb : b.IsUniform) (h : Pool.Reaches b (.start b) p)
    (hover : p.IsOver) :
    (∃ outcome ∈ p.outcomes, isFailing outcome = true) ↔
      ∃ d ∈ b.documents, b.Fails d ∨ ∃ x, b.Finds d x := by
  constructor
  · rintro ⟨outcome, hmem, hfailing⟩
    have hne : outcome ≠ .superseded := by
      rintro rfl
      exact absurd hfailing (by simp [isFailing])
    obtain ⟨d, hd, rfl⟩ := (Pool.mem_outcomes_of_isOver hb h hover hne).mp hmem
    exact ⟨d, hd, Batch.isFailing_outcomeOf_iff.mp hfailing⟩
  · rintro ⟨d, hd, hfailing⟩
    have hne := b.outcomeOf_ne_superseded d
    exact ⟨_, (Pool.mem_outcomes_of_isOver hb h hover hne).mpr ⟨d, hd, rfl⟩,
      Batch.isFailing_outcomeOf_iff.mpr hfailing⟩

/-- **Checking does not depend on the order.**  Let documents be linted on a fresh session
by a pool of workers, in any order of its steps, and let the compiler say the same about
documents of one name.  Then

* the pool can go on until all is over, and its steps come to an end;
* the exit code and the registry are those of linting the documents one after the other;
* the exit code is 1 exactly when there are complaints about files or a document that is
  linted has a diagnostic by itself or its compiler cannot be run;
* the snapshot lists exactly the names of the documents that have a diagnostic by
  themselves, with that diagnostic;
* if no two documents share a name, all outcomes are those of linting one after the other.

A check of files lints the documents of those that can be read, in order.  If these are the
documents, it ends with this exit code and this report, and it complains exactly about the
files that cannot be read. -/
theorem check_independent_of_order (hb : b.IsUniform) (h : Pool.Reaches b (.start b) p) :
    (∃ q, Pool.Reaches b p q ∧ q.IsOver) ∧ (∀ q, Pool.Step b p q → q.left < p.left) ∧
    (¬ p.IsOver → ∃ q, Pool.Step b p q) ∧
    (p.IsOver →
      (∀ complaints, exitCodeOf complaints p.outcomes = exitCodeOf complaints b.inOrder.2) ∧
      p.course.session.registry = b.inOrder.1.registry ∧
      (∀ complaints, exitCodeOf complaints p.outcomes = 1 ↔
        complaints ≠ "" ∨ ∃ d ∈ b.documents, b.Fails d ∨ ∃ x, b.Finds d x) ∧
      (∀ id ds, (id, ds) ∈ p.course.session.registry.snapshot ↔
        ∃ d ∈ b.documents, d.id = id ∧
          ∃ x, b.Finds d x ∧ ds = [x.withSource b.settings.interpreter.program]) ∧
      ((b.documents.map Document.id).Nodup → p.outcomes = b.inOrder.2) ∧
      (∀ s v errorColor files, s.machine = b.machine → b.compile = b.machine.compile →
        (loadAll s.machine files).1 = b.documents →
        b.documents = files.filterMap (fun file =>
          (Document.load s.machine.files s.machine.directory file).toOption) ∧
        (check s (.new b.settings) v errorColor files).exitCode
          = exitCodeOf (loadAll s.machine files).2 p.outcomes ∧
        (v.format = .json → (check s (.new b.settings) v errorColor files).output
          = View.registry p.course.session.registry) ∧
        ((loadAll s.machine files).2 ≠ "" ↔ ∃ file ∈ files, ∃ e,
          Document.load s.machine.files s.machine.directory file = .error e))) := by
  refine ⟨Pool.exists_isOver h, fun q => Pool.left_lt_of_step,
    Pool.exists_step (Pool.assigned_of_reaches h), fun hover => ?_⟩
  -- Linting in order is what another pool comes to.
  obtain ⟨r, hr, hoverr, hsession, houtcomes⟩ := Pool.reaches_inOrder b
  have hone : ∀ complaints, exitCodeOf complaints p.outcomes = 1 ↔
      complaints ≠ "" ∨ ∃ d ∈ b.documents, b.Fails d ∨ ∃ x, b.Finds d x := by
    intro complaints
    rw [exitCodeOf_eq_one_iff, exists_isFailing_iff hb h hover]
  have hcode : ∀ complaints,
      exitCodeOf complaints p.outcomes = exitCodeOf complaints b.inOrder.2 := by
    intro complaints
    rw [exitCodeOf_eq_iff, hone, ← houtcomes, exitCodeOf_eq_one_iff,
      exists_isFailing_iff hb hr hoverr]
  have hregistry : p.course.session.registry = b.inOrder.1.registry := by
    rw [← hsession]
    refine Registry.ext_get fun id => Option.ext fun ds => ?_
    rw [Pool.get?_registry_of_isOver hb h hover, Pool.get?_registry_of_isOver hb hr hoverr]
  refine ⟨hcode, hregistry, hone, ?_, ?_, ?_⟩
  · intro id ds
    rw [Registry.mem_snapshot_iff, Pool.get?_registry_of_isOver hb h hover]
    simp only [Batch.slotOf_eq_some_iff]
  · intro hnodup
    rw [← houtcomes, Pool.outcomes_eq_of_isOver hb h hover hnodup,
      Pool.outcomes_eq_of_isOver hb hr hoverr hnodup]
  · intro s v errorColor files hmachine hcompile hdocuments
    have hinOrder : (Session.new b.settings).lintAll s.machine (loadAll s.machine files).1
        = b.inOrder := by
      rw [Session.lintAll_eq_lintAllWith, hdocuments, hmachine, ← hcompile]
      rfl
    refine ⟨hdocuments.symm.trans (documents_loadAll s.machine files), ?_, ?_,
      complaints_ne_empty_iff s.machine files⟩
    · rw [hcode, ← hinOrder]
      rfl
    · intro hjson
      rw [hregistry, ← hinOrder, check]
      simp only [hjson]

/-- Two documents of one name in which the compiler finds an error. -/
def sampleBatch : Batch :=
  { settings := .default
    machine := Session.Course.sampleMachine
    compile := fun _ _ =>
      .ok (Session.Course.sampleOutcome (some Session.Course.sampleDiagnostic))
    documents := [Session.Course.sampleDocument, Session.Course.sampleDocument] }

open Session.Course in
/-- Both cycles begin before one of them ends, so the first is superseded. -/
theorem reaches_sampleBatch : ∃ p, Pool.Reaches sampleBatch (.start sampleBatch) p ∧
    p.IsOver ∧
    p.outcomes = [.superseded, .published (sampleDiagnostic.withSource "luac")] := by
  obtain ⟨s, hrun, hunderWay, hlate, hlatest⟩ := run?_two_samples
  obtain ⟨s₁, hbegin₁, hrest⟩ := run?_cons_eq_some_iff.mp hrun
  obtain ⟨s₂, hbegin₂, hend⟩ := run?_cons_eq_some_iff.mp hrest
  obtain rfl := Option.some.inj hend
  set result : CycleResult := .ok (sampleOutcome (some sampleDiagnostic))
  have hmem₁ : sampleCycle 1 ∈ s₂.underWay := by simp [hunderWay]
  have hmem₂ : sampleCycle 2 ∈ s₂.underWay.erase (sampleCycle 1) := by
    simp [hunderWay, sampleCycle]
  have hcomplete₁ : Step s₂ (.complete (sampleCycle 1) .opened result .superseded) _ :=
    .late hmem₁ hlate
  have hcomplete₂ : Step { s₂ with underWay := s₂.underWay.erase (sampleCycle 1) }
      (.complete (sampleCycle 2) .opened result _) _ :=
    .finish hmem₂ hlatest (Session.outcome_complete _ _ hlatest)
  refine ⟨_, .head (.begin (i := 0) rfl rfl (step?_of_step hbegin₁)) <|
    .head (.begin (i := 1) rfl rfl (step?_of_step hbegin₂)) <|
    .head (.finish (i := 0) rfl (fun _ => rfl) (step?_of_step hcomplete₁)) <|
    .head (.finish (i := 1) rfl (fun _ => rfl) (step?_of_step hcomplete₂)) <|
    .head (.receive List.mem_cons_self) <| .single (.receive List.mem_cons_self), ⟨?_, rfl⟩, rfl⟩
  intro t ht
  rcases List.mem_cons.mp ht with rfl | ht
  · exact ⟨_, rfl⟩
  · exact ⟨_, List.mem_singleton.mp ht⟩

/-- A file that can be read, and in which the compiler of the machine finds an error. -/
def workshopBatch : Batch :=
  { settings := .default
    machine := Watching.workshop
    compile := Watching.workshop.compile
    documents := [Session.Course.homeDocument ⟨"a.lua"⟩] }

open Session.Course in
theorem inOrder_workshopBatch : workshopBatch.inOrder.1.registry
      = Registry.empty.set ⟨"/home/a.lua"⟩ [sampleDiagnostic.withSource "luac"] ∧
    workshopBatch.inOrder.2 = [.published (sampleDiagnostic.withSource "luac")] := by
  obtain ⟨begun, ended, c, hprepare, -, hcomplete, hregistry⟩ := Watching.lint_workshop
  have hinOrder : workshopBatch.inOrder
      = (ended, [.published (sampleDiagnostic.withSource "luac")]) := by
    show (Session.new .default).lintAllWith Watching.workshop Watching.workshop.compile
      [homeDocument ⟨"a.lua"⟩] = _
    simp only [Session.lintAllWith, Session.lintWith, hprepare, hcomplete]
  rw [hinOrder]
  exact ⟨hregistry, rfl⟩

/-- In this order the first of the two cycles is superseded, and the check fails all the same;
and a check of a file with an error fails and has its diagnostic in the report. -/
theorem check_sampleBatch : (∃ p, Pool.Reaches sampleBatch (.start sampleBatch) p ∧
      p.IsOver ∧ p.outcomes.head? = some .superseded ∧
      exitCodeOf "" sampleBatch.inOrder.2 = 1 ∧
      p.course.session.registry = sampleBatch.inOrder.1.registry) ∧
    ∃ p, Pool.Reaches workshopBatch (.start workshopBatch) p ∧ p.IsOver ∧
      ∀ s v errorColor, s.machine = Watching.workshop → v.format = .json →
        (check s (.new .default) v errorColor [⟨"a.lua"⟩]).exitCode = 1 ∧
        (check s (.new .default) v errorColor [⟨"a.lua"⟩]).output
          = report [(⟨"/home/a.lua"⟩, [Session.Course.sampleDiagnostic.withSource "luac"])]
            ++ "\n" := by
  refine ⟨?_, ?_⟩
  · obtain ⟨p, hp, hover, houtcomes⟩ := reaches_sampleBatch
    have huniform : sampleBatch.IsUniform := fun _ _ _ _ _ _ _ => rfl
    obtain ⟨hcode, hregistry, -⟩ := (check_independent_of_order huniform hp).2.2.2 hover
    refine ⟨p, hp, hover, by rw [houtcomes]; rfl, ?_, hregistry⟩
    rw [← hcode, houtcomes]
    rfl
  · obtain ⟨p, hp, hover, -, houtcomes⟩ := Pool.reaches_inOrder workshopBatch
    have huniform : workshopBatch.IsUniform := by
      intro d hd e he _ _ _
      rw [List.mem_singleton.mp hd, List.mem_singleton.mp he]
    obtain ⟨-, hregistry, -, -, -, hcheck⟩ :=
      (check_independent_of_order huniform hp).2.2.2 hover
    obtain ⟨hslots, hpublished⟩ := inOrder_workshopBatch
    refine ⟨p, hp, hover, fun s v errorColor hmachine hjson => ?_⟩
    have hdocuments : loadAll s.machine [⟨"a.lua"⟩] = (workshopBatch.documents, "") := by
      rw [hmachine, loadAll, Watching.load_workshop]
      rfl
    obtain ⟨-, hcode, hreport, -⟩ :=
      hcheck s v errorColor [⟨"a.lua"⟩] hmachine rfl (congrArg Prod.fst hdocuments)
    refine ⟨?_, ?_⟩
    · refine hcode.trans ?_
      rw [hdocuments, houtcomes, hpublished]
      rfl
    · refine (hreport hjson).trans ?_
      rw [hregistry, hslots]
      rfl

end Program

end LuaDiagnostics
