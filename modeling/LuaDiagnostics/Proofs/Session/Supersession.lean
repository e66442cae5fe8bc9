/-
The newest cycle of a document wins.

A session only compares the number of a cycle that ends with the one in its table.  The
statements here say what that comes to over every course, in terms of the moves alone:

* **`outcome_ne_superseded_iff`**: a cycle has an effect exactly when nothing displaced it
  between its beginning and its end;
* **`registry_converges`**: once all cycles have ended, the slot of a document shows the
  cycle that was begun for it last, in whatever order the cycles ended.

Both come from what a single move does to the place of a document (`isLatest_of_step`,
`vacant_of_step`).
-/
import LuaDiagnostics.Proofs.Session.Course

namespace LuaDiagnostics

namespace Session.Course

variable {s t : Course} {a : Move} {moves : List Move} {c : PreparedCycle}

theorem settings_of_step (h : Step s a t) : t.session.settings = s.session.settings := by
  cases h with
  | begin henable hlua hnumber hcommand => exact s.session.settings_begin _
  | decline hprepare => rfl
  | late hmem hlate => rfl
  | @finish c kind result outcome hmem hlatest houtcome =>
    obtain ⟨-, -, -, -, hsettings⟩ := complete_rest kind result hlatest
    exact hsettings
  | @forget id => exact s.session.settings_forget id
  | cancelAll => rfl

theorem settings_of_run (hrun : s.run? moves = some t) :
    t.session.settings = s.session.settings :=
  run_keeps (P := fun u => u.session.settings = s.session.settings)
    (fun _ _ _ _ h hu => (settings_of_step h).trans hu) hrun rfl

/-! ### Cycles under way -/

theorem nextGeneration_le_of_step (h : Step s a t) :
    s.session.nextGeneration ≤ t.session.nextGeneration := by
  rw [nextGeneration_of_step h]
  exact Nat.le_add_right _ _

/-- A number that was given out comes back with no other cycle. -/
theorem not_mem_underWay_of_step (h : Step s a t)
    (hnumber : c.generation < s.session.nextGeneration) (hc : c ∉ s.underWay) :
    c ∉ t.underWay := by
  cases h with
  | begin henable hlua hbegun hcommand =>
    rintro hmem
    rcases List.mem_cons.mp hmem with rfl | hmem
    · omega
    · exact hc hmem
  | decline hprepare => exact hc
  | late hmem hlate => exact fun h => hc (List.mem_of_mem_erase h)
  | finish hmem hlatest houtcome => exact fun h => hc (List.mem_of_mem_erase h)
  | forget => exact hc
  | cancelAll => exact hc

theorem not_mem_underWay_of_run (hrun : s.run? moves = some t)
    (hnumber : c.generation < s.session.nextGeneration) (hc : c ∉ s.underWay) :
    c ∉ t.underWay :=
  (run_keeps (P := fun u => c.generation < u.session.nextGeneration ∧ c ∉ u.underWay)
    (fun _ _ _ _ h hu => ⟨Nat.lt_of_lt_of_le hu.1 (nextGeneration_le_of_step h),
      not_mem_underWay_of_step h hu.1 hu.2⟩) hrun ⟨hnumber, hc⟩).2

/-- A cycle stays under way until its own end. -/
theorem mem_underWay_or_complete_of_step (h : Step s a t) (hc : c ∈ s.underWay) :
    c ∈ t.underWay ∨ ∃ kind result outcome, a = .complete c kind result outcome := by
  cases h with
  | begin henable hlua hnumber hcommand => exact .inl (List.mem_cons_of_mem _ hc)
  | decline hprepare => exact .inl hc
  | @late d kind result hmem hlate =>
    by_cases heq : c = d
    · exact .inr ⟨kind, result, .superseded, heq ▸ rfl⟩
    · exact .inl ((List.mem_erase_of_ne heq).mpr hc)
  | @finish d kind result outcome hmem hlatest houtcome =>
    by_cases heq : c = d
    · exact .inr ⟨kind, result, outcome, heq ▸ rfl⟩
    · exact .inl ((List.mem_erase_of_ne heq).mpr hc)
  | forget => exact .inl hc
  | cancelAll => exact .inl hc

theorem exists_complete_of_run (hrun : s.run? moves = some t) (hc : c ∈ s.underWay)
    (hdone : c ∉ t.underWay) :
    ∃ kind result outcome, Move.complete c kind result outcome ∈ moves := by
  induction moves generalizing s with
  | nil =>
    obtain rfl := Option.some.inj hrun
    exact absurd hc hdone
  | cons a moves ih =>
    obtain ⟨u, hu, hrest⟩ := run?_cons_eq_some_iff.mp hrun
    rcases mem_underWay_or_complete_of_step hu hc with hc | ⟨kind, result, outcome, rfl⟩
    · obtain ⟨kind, result, outcome, hmem⟩ := ih hrest hc
      exact ⟨kind, result, outcome, List.mem_cons_of_mem _ hmem⟩
    · exact ⟨kind, result, outcome, List.mem_cons_self⟩

/-! ### The place of a document -/

/-- A cycle that stays under way keeps its place through every move that does not
displace it, and a place that it lost does not come back. -/
theorem isLatest_of_step (hs : Coherent s) (h : Step s a t) (hc : c ∈ s.underWay)
    (hct : c ∈ t.underWay) :
    t.session.isLatest c = true ↔
      s.session.isLatest c = true ∧ a.displaces c.document.id = false := by
  rw [isLatest_iff, isLatest_iff]
  cases h with
  | @begin m d henable hlua hnumber hcommand =>
    rw [holder?_begin, Move.displaces, decide_eq_false_iff_not]
    by_cases hid : c.document.id = d.document.id
    · have hlt := hs.below c hc
      have hne : ¬ some s.session.nextGeneration = some c.generation := fun heq => by
        have hgeneration := Option.some.inj heq
        omega
      rw [if_pos hid]
      exact ⟨fun h => absurd h hne, fun h => absurd hid.symm h.2⟩
    · rw [if_neg hid]
      exact ⟨fun h => ⟨h, fun h => hid h.symm⟩, fun h => h.1⟩
  | decline hprepare => exact (and_iff_left rfl).symm
  | late hmem hlate => exact (and_iff_left rfl).symm
  | @finish d kind result outcome hmem hlatest houtcome =>
    obtain ⟨-, hholder, -, -, -⟩ := complete_rest kind result hlatest
    rw [hholder]
    by_cases hid : c.document.id = d.document.id
    · -- Were `c` the latest too, it would be `d`, which is no longer under way.
      have hnot : ¬ s.session.holder? c.document.id = some c.generation := fun hlatestc => by
        have heq := hs.eq_of_isLatest hc hmem hid (isLatest_iff.mpr hlatestc) hlatest
        exact hs.not_mem_erase d (heq ▸ hct)
      rw [if_pos hid]
      exact ⟨fun h => absurd h (by simp), fun h => absurd h.1 hnot⟩
    · rw [if_neg hid]
      exact (and_iff_left rfl).symm
  | @forget id =>
    rw [holder?_forget, Move.displaces, decide_eq_false_iff_not]
    by_cases hid : c.document.id = id
    · rw [if_pos hid]
      exact ⟨fun h => absurd h (by simp), fun h => absurd hid.symm h.2⟩
    · rw [if_neg hid]
      exact ⟨fun h => ⟨h, fun h => hid h.symm⟩, fun h => h.1⟩
  | cancelAll =>
    rw [holder?_cancelAll]
    exact ⟨fun h => absurd h (by simp), fun h => absurd h.2 (by simp [Move.displaces])⟩

theorem isLatest_of_run (hs : Coherent s) (hrun : s.run? moves = some t)
    (hc : c ∈ s.underWay) (hct : c ∈ t.underWay) :
    t.session.isLatest c = true ↔
      s.session.isLatest c = true ∧ ∀ a ∈ moves, a.displaces c.document.id = false := by
  induction moves generalizing s with
  | nil =>
    obtain rfl := Option.some.inj hrun
    simp
  | cons a moves ih =>
    obtain ⟨u, hu, hrest⟩ := run?_cons_eq_some_iff.mp hrun
    have hcu : c ∈ u.underWay := by
      by_contra hcu
      have hnumber := Nat.lt_of_lt_of_le (hs.below c hc) (nextGeneration_le_of_step hu)
      exact not_mem_underWay_of_run hrest hnumber hcu hct
    rw [ih (coherent_of_step hu hs) hrest hcu, isLatest_of_step hs hu hc hcu,
      List.forall_mem_cons, and_assoc]

/-- A cycle that has just begun holds the place of its document. -/
theorem isLatest_of_begin {m : Machine} (h : Step s (.begin m c) t) :
    c ∈ t.underWay ∧ t.session.isLatest c = true ∧
      c.command.interpreter = s.session.settings.interpreter := by
  cases h with
  | begin henable hlua hnumber hcommand =>
    refine ⟨List.mem_cons_self, ?_, ?_⟩
    · rw [isLatest_iff, holder?_begin, if_pos rfl, hnumber]
    · rw [hcommand]
      rfl

/-- **The newest trigger wins.**  In every course, a cycle that ends is not superseded
exactly when, since it began, no cycle began for its document, the document was not
forgotten and the cycles were not all cancelled.  A superseded cycle leaves the session
as it was, whatever its result. -/
theorem outcome_ne_superseded_iff {settings : Settings} {registry : Registry}
    {earlier between : List Move} {m : Machine} {kind : EventKind} {result : CycleResult}
    {outcome : LintOutcome}
    (hrun : (start settings registry).run? (earlier ++ .begin m c :: between) = some s)
    (hstep : s.step? (.complete c kind result outcome) = some t) :
    (outcome ≠ .superseded ↔ ∀ a ∈ between, a.displaces c.document.id = false) ∧
      (outcome = .superseded → t.session = s.session) := by
  obtain ⟨u, hearlier, hrest⟩ := run?_append_eq_some_iff.mp hrun
  obtain ⟨v, hbegin, hbetween⟩ := run?_cons_eq_some_iff.mp hrest
  have hv := coherent_of_step hbegin
    (coherent_of_run hearlier (coherent_start settings registry))
  obtain ⟨hcv, hlatestv, -⟩ := isLatest_of_begin hbegin
  -- While the cycle is under way, its place is lost exactly by what displaces it.
  have hlatest : c ∈ s.underWay → (s.session.isLatest c = true ↔
      ∀ a ∈ between, a.displaces c.document.id = false) := fun hcs => by
    rw [isLatest_of_run hv hbetween hcv hcs, and_iff_right hlatestv]
  cases step_of_step? hstep with
  | late hmem hlate =>
    have hnot := (hlatest hmem).not.mp (by simp [hlate])
    exact ⟨⟨fun h => absurd rfl h, fun h => absurd h hnot⟩, fun _ => rfl⟩
  | finish hmem hlatests houtcome =>
    obtain ⟨hne, -⟩ := complete_rest kind result hlatests
    rw [houtcome] at hne
    exact ⟨⟨fun _ => (hlatest hmem).mp hlatests, fun _ => hne⟩, fun h => absurd h hne⟩

/-- A document for examples. -/
def sampleDocument : Document :=
  { id := ⟨"a.lua"⟩, path := ⟨"a.lua"⟩, language := luaLanguage, text := "" }

/-- An empty machine for examples. -/
def sampleMachine : Machine :=
  { files := .empty, directory := [], searchPath := "", rules := [] }

/-- A cycle for examples. -/
def sampleCycle (generation : Nat) : PreparedCycle :=
  { generation, document := sampleDocument
    command := (new .default).commandFor sampleMachine sampleDocument }

/-- A diagnostic for examples. -/
def sampleDiagnostic : Diagnostic := .error (.onLine 0 0 1) "unexpected symbol"

/-- What a cycle for examples finds. -/
def sampleOutcome (diagnostic : Option Diagnostic) : Cycle.Outcome :=
  { diagnostic, exitCode := some 0, errorLines := 0, cancelled := false }

/-- Two cycles begin for one document, and the second takes the place. -/
theorem run?_two_samples : ∃ s : Course,
    (start .default .empty).run?
      [.begin sampleMachine (sampleCycle 1), .begin sampleMachine (sampleCycle 2)] = some s ∧
    s.underWay = [sampleCycle 2, sampleCycle 1] ∧
    s.session.isLatest (sampleCycle 1) = false ∧
    s.session.isLatest (sampleCycle 2) = true := by
  refine ⟨_, run?_cons_eq_some_iff.mpr ⟨_, .begin rfl rfl rfl rfl,
    run?_cons_eq_some_iff.mpr ⟨_, .begin rfl rfl rfl rfl, run?_nil _⟩⟩, rfl, ?_, ?_⟩
  · rw [← Bool.not_eq_true, isLatest_iff, holder?_begin, if_pos (by rfl)]
    decide
  · rw [isLatest_iff, holder?_begin, if_pos (by rfl)]
    rfl

theorem first_sample_superseded : ∃ s t : Course,
    (start .default .empty).run? ([] ++ .begin sampleMachine (sampleCycle 1)
      :: [.begin sampleMachine (sampleCycle 2)]) = some s ∧
    s.step? (.complete (sampleCycle 1) .saved (.ok (sampleOutcome none)) .superseded)
      = some t ∧
    t.session = s.session := by
  obtain ⟨s, hrun, hunderWay, hlate, -⟩ := run?_two_samples
  have hmem : sampleCycle 1 ∈ s.underWay := by simp [hunderWay]
  have hstep : s.step? (.complete (sampleCycle 1) .saved (.ok (sampleOutcome none))
      .superseded) = some _ := step?_of_step (.late hmem hlate)
  rw [← List.nil_append (_ :: _)] at hrun
  exact ⟨s, _, hrun, hstep, (outcome_ne_superseded_iff hrun hstep).2 rfl⟩

/-! ### The slot of a document -/

/-- Where no cycle holds the place of a document, none gets it and the slot stays as it
is, except that the document may be forgotten, until a cycle begins for it. -/
theorem vacant_of_step {id : DocumentId} (h : Step s a t) (hbegins : a.begins id = false)
    (hvacant : s.session.holder? id = none) :
    t.session.holder? id = none ∧
      (t.session.registry.get? id = s.session.registry.get? id ∨
        a = .forget id ∧ t.session.registry.get? id = none) := by
  cases h with
  | @begin m c henable hlua hnumber hcommand =>
    have hid : ¬ id = c.document.id := fun heq => by
      rw [Move.begins, decide_eq_false_iff_not] at hbegins
      exact hbegins heq.symm
    refine ⟨?_, .inl ?_⟩
    · rw [holder?_begin, if_neg hid]
      exact hvacant
    · rw [registry_begin]
  | decline hprepare => exact ⟨hvacant, .inl rfl⟩
  | late hmem hlate => exact ⟨hvacant, .inl rfl⟩
  | @finish c kind result outcome hmem hlatest houtcome =>
    obtain ⟨-, hholder, -, -, -⟩ := complete_rest kind result hlatest
    have hid : ¬ id = c.document.id := by
      rintro rfl
      rw [isLatest_iff, hvacant] at hlatest
      exact absurd hlatest (by simp)
    refine ⟨?_, .inl ?_⟩
    · rw [hholder, if_neg hid]
      exact hvacant
    · rw [get?_registry_complete id kind result hlatest, if_neg hid]
  | @forget other =>
    rw [holder?_forget, get?_registry_forget]
    by_cases hid : id = other
    · rw [if_pos hid, if_pos hid, hid]
      exact ⟨rfl, .inr ⟨rfl, rfl⟩⟩
    · rw [if_neg hid, if_neg hid]
      exact ⟨hvacant, .inl rfl⟩
  | cancelAll => exact ⟨rfl, .inl rfl⟩

/-- An empty slot that no cycle can fill stays empty until a cycle begins. -/
theorem empty_of_run {id : DocumentId} (hrun : s.run? moves = some t)
    (hbegins : ∀ a ∈ moves, a.begins id = false) (hvacant : s.session.holder? id = none)
    (hempty : s.session.registry.get? id = none) :
    t.session.holder? id = none ∧ t.session.registry.get? id = none := by
  refine run_keeps (P := fun u => u.session.holder? id = none ∧
    u.session.registry.get? id = none) (fun a ha u v h hu => ?_) hrun ⟨hvacant, hempty⟩
  obtain ⟨hvacantv, hslot | ⟨-, hslot⟩⟩ := vacant_of_step h (hbegins a ha) hu.1
  · exact ⟨hvacantv, hslot.trans hu.2⟩
  · exact ⟨hvacantv, hslot⟩

theorem begins_of_displaces {id : DocumentId} (h : a.displaces id = false) :
    a.begins id = false ∧ a ≠ .forget id := by
  cases a with
  | begin m c => exact ⟨h, by simp⟩
  | decline m d outcome => exact ⟨rfl, by simp⟩
  | complete c kind result outcome => exact ⟨rfl, by simp⟩
  | forget other =>
    refine ⟨rfl, fun heq => ?_⟩
    obtain rfl := Move.forget.inj heq
    simp [Move.displaces] at h
  | cancelAll => exact ⟨rfl, by simp⟩

/-- A slot that no cycle can fill stays as it is while nothing displaces. -/
theorem slot_of_run {id : DocumentId} (hrun : s.run? moves = some t)
    (hdisplaces : ∀ a ∈ moves, a.displaces id = false)
    (hvacant : s.session.holder? id = none) :
    t.session.registry.get? id = s.session.registry.get? id := by
  refine (run_keeps (P := fun u => u.session.holder? id = none ∧
    u.session.registry.get? id = s.session.registry.get? id)
    (fun a ha u v h hu => ?_) hrun ⟨hvacant, rfl⟩).2
  obtain ⟨hbegins, hforget⟩ := begins_of_displaces (hdisplaces a ha)
  obtain ⟨hvacantv, hslot | ⟨heq, -⟩⟩ := vacant_of_step h hbegins hu.1
  · exact ⟨hvacantv, hslot.trans hu.2⟩
  · exact absurd heq hforget

/-- The slot after a cycle that held its place to its end and found something to say. -/
theorem slot_of_last_begin {settings : Settings} {found : Cycle.Outcome} {kind : EventKind}
    {outcome : LintOutcome} (hs : Coherent s) (hc : c ∈ s.underWay)
    (hlatest : s.session.isLatest c = true)
    (hinterpreter : c.command.interpreter = settings.interpreter)
    (hrun : s.run? moves = some t)
    (hdisplaces : ∀ a ∈ moves, a.displaces c.document.id = false)
    (hmem : Move.complete c kind (.ok found) outcome ∈ moves) :
    t.session.registry.get? c.document.id
      = found.diagnostic.map fun d => [d.withSource settings.interpreter.program] := by
  obtain ⟨before, after, rfl⟩ := List.append_of_mem hmem
  obtain ⟨u, hbefore, hrest⟩ := run?_append_eq_some_iff.mp hrun
  obtain ⟨v, hend, hafter⟩ := run?_cons_eq_some_iff.mp hrest
  rw [List.forall_mem_append, List.forall_mem_cons] at hdisplaces
  obtain ⟨hdisplacesBefore, -, hdisplacesAfter⟩ := hdisplaces
  cases hend with
  | late hcu hlate =>
    have hlatestu := (isLatest_of_run hs hbefore hc hcu).mpr ⟨hlatest, hdisplacesBefore⟩
    exact absurd (hlatestu.symm.trans hlate) (by simp)
  | finish hcu hlatestu houtcome =>
    obtain ⟨-, hholder, -, -, -⟩ := complete_rest kind (.ok found) hlatestu
    have hvacant := hholder c.document.id
    rw [if_pos rfl] at hvacant
    rw [slot_of_run hafter hdisplacesAfter hvacant,
      get?_registry_complete c.document.id kind (.ok found) hlatestu, if_pos rfl, slotAfter,
      hinterpreter]

/-- **Convergence.**  Take a course in which all cycles have ended.  If the last move that
concerned the place of a document was the beginning of a cycle whose compiler could be
run, the slot of the document shows exactly what that cycle found, in whatever order the
cycles ended.  If no cycle was begun since the document was forgotten, the slot is
empty. -/
theorem registry_converges {settings : Settings} {registry : Registry}
    (hrun : (start settings registry).run? moves = some t) (hdone : t.underWay = [])
    (id : DocumentId) :
    (∀ earlier m c later, moves = earlier ++ .begin m c :: later → c.document.id = id →
      (∀ a ∈ later, a.displaces id = false) →
        (∃ kind result outcome, Move.complete c kind result outcome ∈ later) ∧
        ∀ kind found outcome, Move.complete c kind (.ok found) outcome ∈ later →
          t.session.registry.get? id
            = found.diagnostic.map fun d => [d.withSource settings.interpreter.program]) ∧
    (∀ earlier later, moves = earlier ++ .forget id :: later →
      (∀ a ∈ later, a.begins id = false) → t.session.registry.get? id = none) := by
  constructor
  · rintro earlier m c later rfl rfl hdisplaces
    obtain ⟨u, hearlier, hrest⟩ := run?_append_eq_some_iff.mp hrun
    obtain ⟨v, hbegin, hlater⟩ := run?_cons_eq_some_iff.mp hrest
    have hv := coherent_of_step hbegin
      (coherent_of_run hearlier (coherent_start settings registry))
    obtain ⟨hcv, hlatest, hinterpreter⟩ := isLatest_of_begin hbegin
    have hsettings : u.session.settings = settings := settings_of_run hearlier
    rw [hsettings] at hinterpreter
    refine ⟨exists_complete_of_run hlater hcv (by simp [hdone]), ?_⟩
    intro kind found outcome hmem
    exact slot_of_last_begin hv hcv hlatest hinterpreter hlater hdisplaces hmem
  · rintro earlier later rfl hbegins
    obtain ⟨u, -, hrest⟩ := run?_append_eq_some_iff.mp hrun
    obtain ⟨v, hforget, hlater⟩ := run?_cons_eq_some_iff.mp hrest
    cases hforget with
    | forget =>
      refine (empty_of_run hlater hbegins ?_ ?_).2
      · rw [holder?_forget, if_pos rfl]
      · rw [get?_registry_forget, if_pos rfl]

theorem second_sample_stays : ∃ t : Course,
    (start .default .empty).run?
      ([.begin sampleMachine (sampleCycle 1), .begin sampleMachine (sampleCycle 2)] ++
        [.complete (sampleCycle 2) .opened (.ok (sampleOutcome (some sampleDiagnostic)))
          (.published (sampleDiagnostic.withSource "luac")),
        .complete (sampleCycle 1) .opened (.ok (sampleOutcome none)) .superseded]) = some t ∧
    t.underWay = [] ∧
    t.session.registry.get? sampleDocument.id
      = some [sampleDiagnostic.withSource "luac"] := by
  obtain ⟨s, hrun, hunderWay, hlate, hlatest⟩ := run?_two_samples
  set finished := s.session.complete .opened (sampleCycle 2)
    (.ok (sampleOutcome (some sampleDiagnostic))) with hfinished
  have houtcome : finished.2 = .published (sampleDiagnostic.withSource "luac") := by
    rw [hfinished, complete, if_neg (by simp [hlatest])]
    rfl
  -- Once the second cycle has ended, nobody holds the place.
  obtain ⟨-, hholder, -, -, -⟩ := complete_rest .opened
    (.ok (sampleOutcome (some sampleDiagnostic))) hlatest
  have hlate' : finished.1.isLatest (sampleCycle 1) = false := by
    rw [← Bool.not_eq_true, isLatest_iff, hholder, if_pos (by rfl)]
    simp
  have hmem : sampleCycle 1 ∈ s.underWay.erase (sampleCycle 2) := by
    simp [hunderWay, sampleCycle]
  have hfinish := Step.finish (by simp [hunderWay]) hlatest houtcome
  have hlast : Step ⟨finished.1, s.underWay.erase (sampleCycle 2)⟩
      (.complete (sampleCycle 1) .opened (.ok (sampleOutcome none)) .superseded) _ :=
    .late hmem hlate'
  have hall := run?_append_eq_some_iff.mpr ⟨s, hrun, run?_cons_eq_some_iff.mpr
    ⟨_, hfinish, run?_cons_eq_some_iff.mpr ⟨_, hlast, run?_nil _⟩⟩⟩
  have hdone : ((s.underWay.erase (sampleCycle 2)).erase (sampleCycle 1)) = [] := by
    simp [hunderWay]
  refine ⟨_, hall, hdone, ?_⟩
  have hslot := (registry_converges hall hdone sampleDocument.id).1
    [.begin sampleMachine (sampleCycle 1)] sampleMachine (sampleCycle 2) _ rfl rfl
    (by simp [Move.displaces])
  exact hslot.2 _ _ _ List.mem_cons_self

end Session.Course

end LuaDiagnostics
