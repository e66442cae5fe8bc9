/-
What the slots hold.

A move writes to at most one slot, and its answer says what: a published diagnostic, or
nothing when the slot was cleared or its document forgotten.  So the slot of a document is
known from the moves alone.

* **`get?_registry_of_run`**: the last move that writes to a slot decides what it holds.
* **`published_slots_fit`**: when the results are those of lint cycles, every slot holds
  one diagnostic that fits the text which its cycle was given, and no cycle for the same
  document has had a result to show since.
-/
import LuaDiagnostics.Proofs.Message.Placement
import LuaDiagnostics.Proofs.Session.Table

namespace LuaDiagnostics

namespace Session

/-- What a move writes to the slot of a document, by the answer to the move. -/
def Move.writes? (id : DocumentId) : Move → Option (Option (List Diagnostic))
  | complete c _ _ (.published d) => if id = c.document.id then some (some [d]) else none
  | complete c _ _ .cleared => if id = c.document.id then some none else none
  | forget other => if id = other then some none else none
  | _ => none

theorem Move.writes?_eq_published {id : DocumentId} {a : Move} {ds : List Diagnostic}
    (h : a.writes? id = some (some ds)) :
    ∃ c kind result d, a = .complete c kind result (.published d) ∧ c.document.id = id ∧
      ds = [d] := by
  cases a with
  | complete c kind result outcome =>
    cases outcome with
    | published d =>
      rw [writes?] at h
      split at h
      · rename_i hid
        exact ⟨c, kind, result, d, rfl, hid.symm, (Option.some.inj (Option.some.inj h)).symm⟩
      · exact absurd h (by simp)
    | cleared =>
      -- What is written then is that the slot is empty.
      rw [writes?] at h
      split at h
      · exact absurd h (by simp)
      · exact absurd h (by simp)
    | _ => exact absurd h (by simp [writes?])
  | forget other =>
    rw [writes?] at h
    split at h
    · exact absurd h (by simp)
    · exact absurd h (by simp)
  | _ => exact absurd h (by simp [writes?])

namespace Course

variable {s t : Course} {a : Move} {moves : List Move} {c : PreparedCycle}

/-! ### Single moves -/

/-- A cycle that ends was superseded or comes to what its result says. -/
theorem outcome_of_step {kind : EventKind} {result : CycleResult} {outcome : LintOutcome}
    (h : Step s (.complete c kind result outcome) t) :
    outcome = .superseded ∨
      outcome = outcomeAfter c.command.interpreter.program result := by
  cases h with
  | late hmem hlate => exact .inl rfl
  | finish hmem hlatest houtcome =>
    rw [outcome_complete kind result hlatest] at houtcome
    exact .inr houtcome.symm

theorem outcomeAfter_eq_published {program : String} {result : CycleResult} {d : Diagnostic}
    (h : outcomeAfter program result = .published d) :
    ∃ found e, result = .ok found ∧ found.diagnostic = some e ∧ d = e.withSource program := by
  cases result with
  | error failure => exact absurd h (by simp [outcomeAfter])
  | ok found =>
    rw [outcomeAfter] at h
    split at h
    · exact absurd h (by simp)
    · rename_i e he
      exact ⟨found, e, rfl, he, (LintOutcome.published.inj h).symm⟩

/-- What is published was found by a cycle under way. -/
theorem found_of_step {kind : EventKind} {result : CycleResult} {d : Diagnostic}
    (h : Step s (.complete c kind result (.published d)) t) :
    c ∈ s.underWay ∧ ∃ found e, result = .ok found ∧ found.diagnostic = some e ∧
      d = e.withSource c.command.interpreter.program := by
  cases h with
  | finish hmem hlatest houtcome =>
    rw [outcome_complete kind result hlatest] at houtcome
    exact ⟨hmem, outcomeAfter_eq_published houtcome⟩

/-- A cycle that has a result to show and leaves the slot of its document alone was
superseded. -/
theorem superseded_of_writes?_eq_none {kind : EventKind} {found : Cycle.Outcome}
    {outcome : LintOutcome} (h : Step s (.complete c kind (.ok found) outcome) t)
    (hnone : (Move.complete c kind (.ok found) outcome).writes? c.document.id = none) :
    outcome = .superseded := by
  rcases outcome_of_step h with rfl | rfl
  · rfl
  · rw [outcomeAfter] at hnone
    cases hfound : found.diagnostic with
    | none =>
      rw [hfound] at hnone
      exact absurd hnone (by simp [Move.writes?])
    | some d =>
      rw [hfound] at hnone
      exact absurd hnone (by simp [Move.writes?])

theorem get?_registry_of_step (h : Step s a t) (id : DocumentId) :
    t.session.registry.get? id = (a.writes? id).getD (s.session.registry.get? id) := by
  cases h with
  | begin henable hlua hnumber hcommand =>
    rw [registry_begin]
    rfl
  | decline hprepare => rfl
  | late hmem hlate => rfl
  | @finish c kind result outcome hmem hlatest houtcome =>
    rw [outcome_complete kind result hlatest] at houtcome
    subst houtcome
    rw [get?_registry_complete id kind result hlatest]
    cases result with
    | error failure => exact ite_self _
    | ok found =>
      rw [slotAfter, outcomeAfter]
      cases found.diagnostic with
      | none =>
        rw [Move.writes?]
        split
        · rfl
        · rfl
      | some d =>
        rw [Move.writes?]
        split
        · rfl
        · rfl
  | @forget other =>
    rw [get?_registry_forget, Move.writes?]
    split
    · rfl
    · rfl
  | cancelAll => rfl

/-- Every cycle under way was made for the interpreter of the settings. -/
theorem interpreter_of_step (h : Step s a t)
    (hs : ∀ d ∈ s.underWay, d.command.interpreter = s.session.settings.interpreter)
    (hc : c ∈ t.underWay) : c.command.interpreter = t.session.settings.interpreter := by
  rw [settings_of_step h]
  by_cases hmem : c ∈ s.underWay
  · exact hs c hmem
  · obtain ⟨m, rfl⟩ := begin_of_mem_underWay h hmem hc
    obtain ⟨-, -, hinterpreter⟩ := isLatest_of_begin h
    exact hinterpreter

/-! ### Sequences of moves -/

/-- What a move of a sequence did. -/
theorem exists_step_of_mem (hrun : s.run? moves = some t) (ha : a ∈ moves) :
    ∃ u v, Step u a v := by
  obtain ⟨earlier, later, rfl⟩ := List.append_of_mem ha
  obtain ⟨u, -, hrest⟩ := run?_append_eq_some_iff.mp hrun
  obtain ⟨v, hstep, -⟩ := run?_cons_eq_some_iff.mp hrest
  exact ⟨u, v, hstep⟩

/-- The last of the moves that write to a slot. -/
theorem exists_last_writer {id : DocumentId} {written : Option (List Diagnostic)}
    (h : moves.reverse.findSome? (Move.writes? id) = some written) :
    ∃ earlier a later, moves = earlier ++ a :: later ∧ a.writes? id = some written ∧
      ∀ b ∈ later, b.writes? id = none := by
  obtain ⟨later, a, earlier, hreverse, hwrites, hlater⟩ := List.findSome?_eq_some_iff.mp h
  refine ⟨earlier.reverse, a, later.reverse, ?_, hwrites, fun b hb => ?_⟩
  · rw [← List.reverse_inj, hreverse]
    simp
  · exact hlater b (List.mem_reverse.mp hb)

/-- **The last writer decides.**  A slot holds what was written to it last, and what it held
before if nothing was. -/
theorem get?_registry_of_run (hrun : s.run? moves = some t) (id : DocumentId) :
    t.session.registry.get? id
      = (moves.reverse.findSome? (Move.writes? id)).getD (s.session.registry.get? id) := by
  induction moves generalizing s with
  | nil =>
    obtain rfl := Option.some.inj hrun
    rfl
  | cons a moves ih =>
    obtain ⟨u, hu, hrest⟩ := run?_cons_eq_some_iff.mp hrun
    rw [ih hrest, get?_registry_of_step hu, List.reverse_cons, List.findSome?_append,
      List.findSome?_singleton]
    cases moves.reverse.findSome? (Move.writes? id) with
    | none => rfl
    | some written => rfl

theorem interpreter_of_run {settings : Settings} {registry : Registry}
    (hrun : (start settings registry).run? moves = some t) (hc : c ∈ t.underWay) :
    c.command.interpreter = settings.interpreter := by
  have hkept := run_keeps
    (P := fun u => ∀ d ∈ u.underWay, d.command.interpreter = u.session.settings.interpreter)
    (fun a _ u v h hu d hd => interpreter_of_step h hu hd) hrun
    (fun d hd => absurd hd List.not_mem_nil)
  have hsettings : t.session.settings = settings := settings_of_run hrun
  rw [hkept c hc, hsettings]

/-- **Published slots fit their texts.**  Let a session start on an empty registry and let
every result be one that a lint cycle may come to on its document, whatever the compiler
wrote.  After any moves, a slot that is not empty was written by a cycle of its document
which was not superseded: it holds the one diagnostic that this cycle found, which fits the
text that the cycle was given and is said to come from the interpreter of the settings.
Since then the document was not forgotten, and every cycle for it that ended with a result
was superseded. -/
theorem published_slots_fit {settings : Settings}
    (hrun : (start settings .empty).run? moves = some t)
    (hfinds : ∀ c kind found outcome, Move.complete c kind (.ok found) outcome ∈ moves →
      ∃ bytes, Cycle.Finds c.document.lines bytes found)
    {id : DocumentId} {ds : List Diagnostic} (hslot : t.session.registry.get? id = some ds) :
    ∃ earlier c kind found d later,
      moves = earlier ++ .complete c kind (.ok found) (.published d) :: later ∧
      (∃ m, Move.begin m c ∈ earlier) ∧ c.document.id = id ∧ ds = [d] ∧
      d.source = settings.interpreter.program ∧ d.Fits c.document.lines ∧
      Move.forget id ∉ later ∧
      ∀ c' kind' found' outcome', Move.complete c' kind' (.ok found') outcome' ∈ later →
        c'.document.id = id → outcome' = .superseded := by
  rw [get?_registry_of_run hrun] at hslot
  -- The registry was empty, so somebody has written the slot.
  have hlast : moves.reverse.findSome? (Move.writes? id) = some (some ds) := by
    cases h : moves.reverse.findSome? (Move.writes? id) with
    | none =>
      rw [h] at hslot
      exact absurd hslot (by simp [start, withRegistry])
    | some written =>
      rw [h] at hslot
      exact congrArg some hslot
  obtain ⟨earlier, a, later, rfl, hwrites, hlater⟩ := exists_last_writer hlast
  obtain ⟨c, kind, result, d, rfl, rfl, rfl⟩ := Move.writes?_eq_published hwrites
  obtain ⟨u, hearlier, hrest⟩ := run?_append_eq_some_iff.mp hrun
  obtain ⟨v, hstep, hafter⟩ := run?_cons_eq_some_iff.mp hrest
  obtain ⟨hmem, found, e, rfl, hfound, rfl⟩ := found_of_step hstep
  obtain ⟨hbegun, -⟩ := (mem_underWay_iff hearlier).mp hmem
  obtain ⟨bytes, hbytes⟩ := hfinds c kind found _
    (List.mem_append_right _ List.mem_cons_self)
  refine ⟨earlier, c, kind, found, _, later, rfl, hbegun, rfl, rfl, ?_,
    (Cycle.fits_of_finds hbytes hfound).withSource _, ?_, ?_⟩
  · rw [← interpreter_of_run hearlier hmem]
    rfl
  · intro hforget
    exact absurd (hlater _ hforget) (by simp [Move.writes?])
  · intro c' kind' found' outcome' hend hid
    obtain ⟨x, y, hxy⟩ := exists_step_of_mem hafter hend
    refine superseded_of_writes?_eq_none hxy ?_
    rw [hid]
    exact hlater _ hend

/-- What a compiler may say of the document for examples. -/
def sampleComplaint : List UInt8 :=
  "luac: stdin:1: unexpected symbol near <eof>".toUTF8.toList

/-- What a cycle on that document finds then. -/
def sampleFound : Cycle.Outcome :=
  Cycle.undisturbed sampleDocument.lines sampleComplaint (some 1)

theorem diagnostic_sampleFound :
    sampleFound.diagnostic = some (.error (.onLine 0 0 0) "unexpected symbol") := by
  decide +kernel

/-- A cycle begins for the document for examples and comes to a result. -/
def sampleMoves (kind : EventKind) (result : CycleResult) : List Move :=
  [.begin sampleMachine (sampleCycle 1),
    .complete (sampleCycle 1) kind result (outcomeAfter "luac" result)]

theorem run?_sampleMoves (warnOnSave : Bool) (kind : EventKind) (result : CycleResult) :
    ∃ t : Course, (start { Settings.default with warnOnSave } .empty).run?
      (sampleMoves kind result) = some t := by
  have hlatest : ((withRegistry { Settings.default with warnOnSave } .empty).begin
      sampleDocument.id).isLatest (sampleCycle 1) = true := by
    rw [isLatest_iff, holder?_begin, if_pos (by rfl)]
    rfl
  have hfinish := Step.finish (s := ⟨_, [sampleCycle 1]⟩) List.mem_cons_self hlatest
    (outcome_complete kind result hlatest)
  exact ⟨_, run?_cons_eq_some_iff.mpr ⟨_, .begin rfl rfl rfl rfl,
    run?_cons_eq_some_iff.mpr ⟨_, hfinish, run?_nil _⟩⟩⟩

theorem sample_slot_fits : ∃ (t : Course) (d : Diagnostic),
    (start .default .empty).run? (sampleMoves .opened (.ok sampleFound)) = some t ∧
      t.session.registry.get? sampleDocument.id = some [d] ∧ d.source = "luac" ∧
      d.Fits sampleDocument.lines := by
  obtain ⟨t, hrun⟩ := run?_sampleMoves false .opened (.ok sampleFound)
  have hslot : t.session.registry.get? sampleDocument.id
      = some [(Diagnostic.error (.onLine 0 0 0) "unexpected symbol").withSource "luac"] := by
    rw [get?_registry_of_run hrun, sampleMoves, outcomeAfter, diagnostic_sampleFound]
    rfl
  have hfinds : ∀ c kind found outcome,
      Move.complete c kind (.ok found) outcome ∈ sampleMoves .opened (.ok sampleFound) →
      ∃ bytes, Cycle.Finds c.document.lines bytes found := by
    intro c kind found outcome hmem
    obtain ⟨rfl, -, rfl, -⟩ : c = sampleCycle 1 ∧ kind = .opened ∧ found = sampleFound ∧ _ := by
      simpa [sampleMoves] using hmem
    exact ⟨_, Cycle.finds_undisturbed _ _ _⟩
  obtain ⟨earlier, c, kind, found, d, later, hmoves, -, -, hd, hsource, hfits, -⟩ :=
    published_slots_fit hrun hfinds hslot
  have hmem : Move.complete c kind (.ok found) (.published d)
      ∈ sampleMoves .opened (.ok sampleFound) := by
    rw [hmoves]
    exact List.mem_append_right _ List.mem_cons_self
  obtain ⟨rfl, -⟩ : c = sampleCycle 1 ∧ _ := by simpa [sampleMoves] using hmem
  rw [hd] at hslot
  exact ⟨t, d, hrun, hslot, hsource, hfits⟩

end Course

end Session

end LuaDiagnostics
