/-
The table of cycles.

Four moves write to the table, and each of them has to pair what it takes out with a
cancellation or with the end of a cycle.  The statements here say that they do so, in
every course from the start:

* **`mem_underWay_iff`**: the cycles under way are those that the moves have begun and not
  ended;
* **`table_invariant`**: the table holds exactly the running cycles that were not
  cancelled, each under its own document and with a number of its own.

Flags are never taken back (`cancelled_subset_of_run`), so what the table says about a
cancelled cycle at one time binds all later times.
-/
import LuaDiagnostics.Proofs.Session.Supersession

namespace LuaDiagnostics

namespace Session.Course

variable {s t : Course} {a : Move} {moves : List Move} {c : PreparedCycle}

/-! ### Running cycles -/

/-- The moves have begun the cycle and not ended it. -/
def IsRunning (moves : List Move) (c : PreparedCycle) : Prop :=
  (∃ m, Move.begin m c ∈ moves) ∧
    ∀ kind result outcome, Move.complete c kind result outcome ∉ moves

/-- A cycle that ends is no longer under way. -/
theorem not_mem_underWay_of_complete {kind : EventKind} {result : CycleResult}
    {outcome : LintOutcome} (hs : Coherent s)
    (h : Step s (.complete c kind result outcome) t) :
    c.generation < t.session.nextGeneration ∧ c ∉ t.underWay := by
  cases h with
  | late hmem hlate => exact ⟨hs.below c hmem, hs.not_mem_erase c⟩
  | finish hmem hlatest houtcome =>
    obtain ⟨-, -, hnext, -, -⟩ := complete_rest kind result hlatest
    refine ⟨?_, hs.not_mem_erase c⟩
    show c.generation < (s.session.complete kind c result).1.nextGeneration
    rw [hnext]
    exact hs.below c hmem

/-- A cycle that comes under way has just begun. -/
theorem begin_of_mem_underWay (h : Step s a t) (hc : c ∉ s.underWay) (hct : c ∈ t.underWay) :
    ∃ m, a = .begin m c := by
  cases h with
  | @begin m d henable hlua hnumber hcommand =>
    rcases List.mem_cons.mp hct with rfl | hct
    · exact ⟨m, rfl⟩
    · exact absurd hct hc
  | decline hprepare => exact absurd hct hc
  | late hmem hlate => exact absurd (List.mem_of_mem_erase hct) hc
  | finish hmem hlatest houtcome => exact absurd (List.mem_of_mem_erase hct) hc
  | forget => exact absurd hct hc
  | cancelAll => exact absurd hct hc

theorem mem_underWay_iff_of_run (hs : Coherent s) (hrun : s.run? moves = some t) :
    c ∈ t.underWay ↔ (c ∈ s.underWay ∨ ∃ m, Move.begin m c ∈ moves) ∧
      ∀ kind result outcome, Move.complete c kind result outcome ∉ moves := by
  induction moves generalizing s with
  | nil =>
    obtain rfl := Option.some.inj hrun
    simp
  | cons a moves ih =>
    obtain ⟨u, hu, hrest⟩ := run?_cons_eq_some_iff.mp hrun
    have hcu := ih (coherent_of_step hu hs) hrest
    constructor
    · intro hct
      obtain ⟨hbegun, hrunning⟩ := hcu.mp hct
      constructor
      · rcases hbegun with hmem | ⟨m, hm⟩
        · by_cases hc : c ∈ s.underWay
          · exact .inl hc
          · obtain ⟨m, rfl⟩ := begin_of_mem_underWay hu hc hmem
            exact .inr ⟨m, List.mem_cons_self⟩
        · exact .inr ⟨m, List.mem_cons_of_mem _ hm⟩
      · intro kind result outcome hmem
        rcases List.mem_cons.mp hmem with rfl | hmem
        · -- It would have left the cycles under way for good.
          obtain ⟨hnumber, hgone⟩ := not_mem_underWay_of_complete hs hu
          exact not_mem_underWay_of_run hrest hnumber hgone hct
        · exact hrunning kind result outcome hmem
    · rintro ⟨hbegun, hrunning⟩
      refine hcu.mpr ⟨?_, fun kind result outcome hmem =>
        hrunning kind result outcome (List.mem_cons_of_mem _ hmem)⟩
      rcases hbegun with hc | ⟨m, hm⟩
      · rcases mem_underWay_or_complete_of_step hu hc with hc | ⟨kind, result, outcome, rfl⟩
        · exact .inl hc
        · exact absurd List.mem_cons_self (hrunning kind result outcome)
      · rcases List.mem_cons.mp hm with rfl | hm
        · exact .inl (isLatest_of_begin hu).1
        · exact .inr ⟨m, hm⟩

/-- What a course has under way is what its moves have begun and not ended. -/
theorem mem_underWay_iff {settings : Settings} {registry : Registry}
    (hrun : (start settings registry).run? moves = some t) :
    c ∈ t.underWay ↔ IsRunning moves c := by
  rw [mem_underWay_iff_of_run (coherent_start settings registry) hrun, IsRunning]
  simp [start]

/-- A cycle that has ended does not end again. -/
theorem not_complete_of_run (hrun : s.run? moves = some t)
    (hnumber : c.generation < s.session.nextGeneration) (hc : c ∉ s.underWay)
    (kind : EventKind) (result : CycleResult) (outcome : LintOutcome) :
    Move.complete c kind result outcome ∉ moves := by
  induction moves generalizing s with
  | nil => exact List.not_mem_nil
  | cons a moves ih =>
    obtain ⟨u, hu, hrest⟩ := run?_cons_eq_some_iff.mp hrun
    intro hmem
    rcases List.mem_cons.mp hmem with rfl | hmem
    · cases hu with
      | late hunderWay hlate => exact hc hunderWay
      | finish hunderWay hlatest houtcome => exact hc hunderWay
    · exact ih hrest (Nat.lt_of_lt_of_le hnumber (nextGeneration_le_of_step hu))
        (not_mem_underWay_of_step hu hnumber hc) hmem

/-- A cycle has one outcome. -/
theorem outcome_eq_of_run (hs : Coherent s) (hrun : s.run? moves = some t)
    {kind kind' : EventKind} {result result' : CycleResult} {outcome outcome' : LintOutcome}
    (h : Move.complete c kind result outcome ∈ moves)
    (h' : Move.complete c kind' result' outcome' ∈ moves) : outcome = outcome' := by
  induction moves generalizing s with
  | nil => exact absurd h List.not_mem_nil
  | cons a moves ih =>
    obtain ⟨u, hu, hrest⟩ := run?_cons_eq_some_iff.mp hrun
    have honce : ∀ kind result outcome kind' result' outcome',
        a = .complete c kind result outcome →
          Move.complete c kind' result' outcome' ∉ moves := by
      rintro kind result outcome kind' result' outcome' rfl
      obtain ⟨hnumber, hgone⟩ := not_mem_underWay_of_complete hs hu
      exact not_complete_of_run hrest hnumber hgone kind' result' outcome'
    rcases List.mem_cons.mp h with heq | h
    · rcases List.mem_cons.mp h' with heq' | h'
      · exact (Move.complete.inj (heq.trans heq'.symm)).2.2.2
      · exact absurd h' (honce _ _ _ _ _ _ heq.symm)
    · rcases List.mem_cons.mp h' with heq' | h'
      · exact absurd h (honce _ _ _ _ _ _ heq'.symm)
      · exact ih (coherent_of_step hu hs) hrest h h'

/-! ### Flags -/

/-- No move takes a flag back. -/
theorem cancelled_subset_of_step (h : Step s a t) :
    s.session.cancelled ⊆ t.session.cancelled := by
  intro g hg
  cases h with
  | begin henable hlua hnumber hcommand =>
    exact (s.session.mem_cancelled_begin _).mpr (.inr hg)
  | decline hprepare => exact hg
  | late hmem hlate => exact hg
  | @finish c kind result outcome hmem hlatest houtcome =>
    obtain ⟨-, -, -, hcancelled, -⟩ := complete_rest kind result hlatest
    show g ∈ (s.session.complete kind c result).1.cancelled
    rw [hcancelled]
    exact hg
  | @forget id => exact (s.session.mem_cancelled_forget id).mpr (.inr hg)
  | cancelAll => exact s.session.mem_cancelled_cancelAll.mpr (.inr hg)

theorem cancelled_subset_of_run (hrun : s.run? moves = some t) :
    s.session.cancelled ⊆ t.session.cancelled :=
  run_keeps (P := fun u => s.session.cancelled ⊆ u.session.cancelled)
    (fun _ _ _ _ h hu => List.Subset.trans hu (cancelled_subset_of_step h)) hrun
    (List.Subset.refl _)

/-- A cycle whose flag is set ends without any effect. -/
theorem superseded_of_mem_cancelled {kind : EventKind} {result : CycleResult}
    {outcome : LintOutcome} (hs : Coherent s) (hc : c.generation ∈ s.session.cancelled)
    (h : Step s (.complete c kind result outcome) t) :
    outcome = .superseded ∧ t.session = s.session := by
  cases h with
  | late hmem hlate => exact ⟨rfl, rfl⟩
  | finish hmem hlatest houtcome => exact absurd hc ((hs.free c hmem).mp hlatest)

/-- A cycle whose flag is set does not hold the place of its document, be it under way
or not. -/
theorem Coherent.isLatest_eq_false (hs : Coherent s) (hc : c.generation ∈ s.session.cancelled) :
    s.session.isLatest c = false := by
  rw [← Bool.not_eq_true, isLatest_iff]
  intro hholder
  obtain ⟨d, hd, hid, hgeneration⟩ := hs.held _ _ hholder
  have hlatest : s.session.isLatest d = true := by
    rw [isLatest_iff, hid, hholder, hgeneration]
  exact (hs.free d hd).mp hlatest (hgeneration ▸ hc)

/-- Forgetting its document or cancelling all cycles reaches every cycle under way. -/
theorem Coherent.mem_cancelled (hs : Coherent s) (hc : c ∈ s.underWay) :
    c.generation ∈ (s.session.forget c.document.id).cancelled ∧
      c.generation ∈ s.session.cancelAll.cancelled := by
  rw [mem_cancelled_forget, mem_cancelled_cancelAll]
  by_cases hflag : c.generation ∈ s.session.cancelled
  · exact ⟨.inr hflag, .inr hflag⟩
  · have hholder := isLatest_iff.mp ((hs.free c hc).mpr hflag)
    exact ⟨.inl hholder, .inl ⟨_, hholder⟩⟩

/-! ### The table -/

/-- No two documents have one number in the table. -/
theorem Coherent.eq_of_holder?_eq (hs : Coherent s) {id other : DocumentId} {g : Nat}
    (hid : s.session.holder? id = some g) (hother : s.session.holder? other = some g) :
    id = other := by
  obtain ⟨c, hc, rfl, rfl⟩ := hs.held id g hid
  obtain ⟨d, hd, rfl, hgeneration⟩ := hs.held other _ hother
  rw [hs.eq_of_generation_eq hd hc hgeneration]

theorem Coherent.nodup_numbers (hs : Coherent s) :
    (s.session.inFlight.bindings.map (·.2)).Nodup := by
  -- Bindings differ in their keys, and equal numbers would have equal keys.
  refine List.pairwise_map.mpr (s.session.inFlight.ascending.imp_of_mem ?_)
  rintro ⟨key, g⟩ ⟨other, h⟩ hmem hmem' hlt rfl
  have hkey := (s.session.inFlight.mem_bindings_iff key g).mp hmem
  have hother := (s.session.inFlight.mem_bindings_iff other g).mp hmem'
  have heq : (⟨key⟩ : DocumentId) = ⟨other⟩ := hs.eq_of_holder?_eq hkey hother
  obtain rfl := DocumentId.mk.inj heq
  exact String.lt_irrefl key hlt

theorem Coherent.inFlight_eq_empty (hs : Coherent s) (hdone : s.underWay = []) :
    s.session.inFlight = .empty := by
  refine SortedMap.ext_get fun key => ?_
  rw [SortedMap.get?_empty]
  by_contra hkey
  obtain ⟨g, hg⟩ := Option.ne_none_iff_exists'.mp hkey
  obtain ⟨c, hc, -⟩ := hs.held ⟨key⟩ g hg
  rw [hdone] at hc
  exact absurd hc List.not_mem_nil

/-- **The table invariant.**  After any moves, in any order and for any documents, the
numbers in the table are distinct and were given out before, every entry belongs to a
running cycle of its very document, and a running cycle has its entry exactly when it was
not cancelled.  So a cancelled cycle never has an effect again, dropping a document or all
documents cancels every running cycle that is concerned, and the table is empty when no
cycle runs. -/
theorem table_invariant {settings : Settings} {registry : Registry}
    (hrun : (start settings registry).run? moves = some t) :
    (t.session.inFlight.bindings.map (·.2)).Nodup ∧
    (∀ id g, t.session.holder? id = some g → g < t.session.nextGeneration ∧
      ∃ c, IsRunning moves c ∧ c.document.id = id ∧ c.generation = g) ∧
    (∀ c, IsRunning moves c →
      (t.session.holder? c.document.id = some c.generation ↔
        c.generation ∉ t.session.cancelled)) ∧
    (∀ c, c.generation ∈ t.session.cancelled →
      ∀ later kind result outcome u v, t.run? later = some u →
        u.step? (.complete c kind result outcome) = some v →
        outcome = .superseded ∧ v.session = u.session) ∧
    (∀ c, IsRunning moves c →
      c.generation ∈ (t.session.forget c.document.id).cancelled ∧
      c.generation ∈ t.session.cancelAll.cancelled) ∧
    ((∀ c, ¬ IsRunning moves c) → t.session.inFlight = .empty) := by
  have ht := coherent_of_run hrun (coherent_start settings registry)
  refine ⟨ht.nodup_numbers, fun id g hg => ?_, fun c hc => ?_, ?_, fun c hc => ?_, ?_⟩
  · obtain ⟨c, hc, hid, rfl⟩ := ht.held id g hg
    exact ⟨ht.below c hc, c, (mem_underWay_iff hrun).mp hc, hid, rfl⟩
  · rw [← isLatest_iff]
    exact ht.free c ((mem_underWay_iff hrun).mpr hc)
  · intro c hc later kind result outcome u v hlater hstep
    exact superseded_of_mem_cancelled (coherent_of_run hlater ht)
      (cancelled_subset_of_run hlater hc) (step_of_step? hstep)
  · exact ht.mem_cancelled ((mem_underWay_iff hrun).mpr hc)
  · intro hnone
    refine ht.inFlight_eq_empty (List.eq_nil_iff_forall_not_mem.mpr fun c hc => ?_)
    exact hnone c ((mem_underWay_iff hrun).mp hc)

/-- Of two cycles for one document the earlier one is cancelled and not in the table. -/
theorem table_of_two_samples : ∃ t : Course,
    (start .default .empty).run?
      [.begin sampleMachine (sampleCycle 1), .begin sampleMachine (sampleCycle 2)] = some t ∧
    (t.session.inFlight.bindings.map (·.2)).Nodup ∧
    1 ∈ t.session.cancelled ∧ 2 ∉ t.session.cancelled := by
  obtain ⟨t, hrun, -, hlate, hlatest⟩ := run?_two_samples
  obtain ⟨hnodup, -, hflags, -⟩ := table_invariant hrun
  have hfirst := hflags (sampleCycle 1) ⟨⟨sampleMachine, by simp⟩, by simp⟩
  have hsecond := hflags (sampleCycle 2) ⟨⟨sampleMachine, by simp⟩, by simp⟩
  rw [← isLatest_iff] at hfirst hsecond
  refine ⟨t, hrun, hnodup, ?_, hsecond.mp hlatest⟩
  by_contra hflag
  exact absurd (hfirst.mpr hflag) (by simp [hlate])

end Session.Course

end LuaDiagnostics
