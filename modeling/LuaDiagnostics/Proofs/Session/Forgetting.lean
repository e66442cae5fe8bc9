/-
Forgetting a document in two halves.

To forget a document is to cancel its cycle, which is done under the lock of the table, and
then to empty its slot, which is not.  Other threads may come in between.  A course takes
the two halves for one move; the statements here say when it may.

* **`run?_merged`**: if no cycle begins for a document between the halves of its
  forgetting, everything happens as if each document had been forgotten at once, where its
  first half was: every cycle has the same outcome, and the sessions are equal in the end.
* **`late_half_erases`**: without that, the second half may erase what was published for a
  newer cycle, and forgetting at once explains it at no place between the halves.

A cycle that ends between the halves does no harm: the first half took its place away, so
it writes nothing to the slot that is about to be emptied.
-/
import LuaDiagnostics.Proofs.Session.Answers

namespace LuaDiagnostics

namespace Session

/-- The same session on another registry. -/
def onRegistry (s : Session) (r : Registry) : Session := { s with registry := r }

/-- The same course on another registry. -/
def Course.onRegistry (s : Course) (r : Registry) : Course :=
  { s with session := s.session.onRegistry r }

/-- What may happen to a session while documents are forgotten in halves. -/
inductive HalfMove
  /-- What is done in one piece. -/
  | whole (move : Move)
  /-- The first half: the document's cycle is cancelled. -/
  | drop (id : DocumentId)
  /-- The second half: the document's slot is emptied. -/
  | clear (id : DocumentId)

/-- The moves when every document is forgotten at once, where the first half was. -/
def HalfMove.merged? : HalfMove → Option Move
  | whole a => some a
  | drop id => some (.forget id)
  | clear _ => none

/-- A course and the documents whose slots are still to be emptied. -/
structure HalfCourse where
  course : Course
  pending : List DocumentId

namespace HalfCourse

/-- Nothing has happened yet. -/
def start (settings : Settings) (registry : Registry) : HalfCourse :=
  { course := .start settings registry, pending := [] }

/-- One half move. -/
def step? (s : HalfCourse) : HalfMove → Option HalfCourse
  | .whole a => (s.course.step? a).map fun course => { s with course }
  | .drop id =>
    some
      { course := { s.course with session := s.course.session.cancel id }
        pending := id :: s.pending }
  | .clear id =>
    if id ∈ s.pending then
      some
        { course := { s.course with session := s.course.session.clear id }
          pending := s.pending.erase id }
    else none

/-- Half moves in order. -/
def run? (s : HalfCourse) (acts : List HalfMove) : Option HalfCourse := acts.foldlM step? s

end HalfCourse

/-! ### Sessions on other registries -/

variable (s : Session) (r : Registry) (id : DocumentId)

theorem cancel_onRegistry : (s.onRegistry r).cancel id = (s.cancel id).onRegistry r := by
  cases h : s.inFlight.get? id.text with
  | none => simp only [cancel, onRegistry, h]
  | some generation => simp only [cancel, onRegistry, h]

theorem begin_onRegistry : (s.onRegistry r).begin id = (s.begin id).onRegistry r := by
  rw [begin, cancel_onRegistry]
  rfl

theorem forget_onRegistry :
    (s.onRegistry r).forget id = (s.cancel id).onRegistry (r.clear id) := by
  rw [forget, cancel_onRegistry]
  rfl

variable {s r}

theorem eq_onRegistry {t : Session} (hsettings : t.settings = s.settings)
    (htable : t.inFlight = s.inFlight) (hnext : t.nextGeneration = s.nextGeneration)
    (hcancelled : t.cancelled = s.cancelled) (hnotes : t.notifications = s.notifications) :
    t = s.onRegistry t.registry := by
  rw [onRegistry, ← hsettings, ← htable, ← hnext, ← hcancelled, ← hnotes]

/-- The end of a cycle has the same outcome on any registry, and changes the rest of the
session alike. -/
theorem complete_onRegistry {c : PreparedCycle} (kind : EventKind) (result : CycleResult)
    (h : s.isLatest c = true) :
    ((s.onRegistry r).complete kind c result).2 = (s.complete kind c result).2 ∧
      ((s.onRegistry r).complete kind c result).1 = (s.complete kind c result).1.onRegistry
        ((s.onRegistry r).complete kind c result).1.registry := by
  have h' : (s.onRegistry r).isLatest c = true := h
  have houtcome : ((s.onRegistry r).complete kind c result).2
      = (s.complete kind c result).2 := by
    rw [outcome_complete kind result h, outcome_complete kind result h']
  obtain ⟨-, -, hnext, hcancelled, hsettings⟩ := complete_rest kind result h
  obtain ⟨-, -, hnext', hcancelled', hsettings'⟩ := complete_rest kind result h'
  have htable := inFlight_complete kind result h
  have htable' := inFlight_complete kind result h'
  have hnotes := notifications_complete (s := s) (c := c) kind result
  have hnotes' := notifications_complete (s := s.onRegistry r) (c := c) kind result
  rw [houtcome] at hnotes'
  exact ⟨houtcome, eq_onRegistry (hsettings'.trans hsettings.symm) (htable'.trans htable.symm)
    (hnext'.trans hnext.symm) (hcancelled'.trans hcancelled.symm) (hnotes'.trans hnotes.symm)⟩

/-- A document is turned away on any registry. -/
theorem prepare_onRegistry {m : Machine} {d : Document} {outcome : LintOutcome}
    (h : s.prepare m d = (s, .error outcome)) :
    (s.onRegistry r).prepare m d = (s.onRegistry r, .error outcome) := by
  rw [prepare] at h ⊢
  by_cases henable : s.settings.enable = true
  · by_cases hlua : d.isLua = true
    · simp [henable, hlua] at h
    · simpa [onRegistry, henable, hlua] using h
  · simpa [onRegistry, henable] using h

namespace HalfCourse

variable {s t : HalfCourse} {r : Registry} {acts : List HalfMove}

/-! ### Single half moves -/

/-- On this registry the slots that are still to be emptied are empty, and no cycle is about
to fill them. -/
structure Shows (s : HalfCourse) (r : Registry) : Prop where
  slots : ∀ id, r.get? id
    = if id ∈ s.pending then none else s.course.session.registry.get? id
  vacant : ∀ id ∈ s.pending, s.course.session.holder? id = none

theorem shows_start (settings : Settings) (registry : Registry) :
    (start settings registry).Shows registry := by
  refine ⟨fun id => ?_, fun id hid => absurd hid List.not_mem_nil⟩
  exact (if_neg List.not_mem_nil).symm

/-- Without slots to be emptied nothing else is shown. -/
theorem Shows.onRegistry_eq (hr : s.Shows r) (hdone : s.pending = []) :
    s.course.onRegistry r = s.course := by
  obtain rfl : r = s.course.session.registry := by
    refine Registry.ext_get fun id => ?_
    rw [hr.slots, hdone, if_neg List.not_mem_nil]
  rfl

/-- What is done in one piece does the same on the registry that is shown, unless a cycle
begins for a document that is being forgotten. -/
theorem Shows.whole {a : Move} {u : Course} (hr : s.Shows r)
    (hbegins : ∀ m c, a = .begin m c → c.document.id ∉ s.pending)
    (h : Course.Step s.course a u) :
    ∃ r', Shows { s with course := u } r' ∧
      Course.Step (s.course.onRegistry r) a (u.onRegistry r') := by
  cases h with
  | @begin m c henable hlua hnumber hcommand =>
    have hstep : Course.Step (s.course.onRegistry r) (.begin m c)
        ⟨(s.course.session.onRegistry r).begin c.document.id, c :: s.course.underWay⟩ :=
      .begin henable hlua hnumber hcommand
    rw [begin_onRegistry] at hstep
    refine ⟨r, ⟨fun id => ?_, fun id hid => ?_⟩, hstep⟩
    · rw [hr.slots, registry_begin]
    · rw [holder?_begin, if_neg, hr.vacant id hid]
      rintro rfl
      exact hbegins m c rfl hid
  | decline hprepare => exact ⟨r, hr, .decline (prepare_onRegistry hprepare)⟩
  | late hmem hlate => exact ⟨r, ⟨hr.slots, hr.vacant⟩, .late hmem hlate⟩
  | @finish c kind result outcome hmem hlatest houtcome =>
    obtain ⟨hsame, hrest⟩ := complete_onRegistry (r := r) kind result hlatest
    obtain ⟨-, hholder, -, -, -⟩ := complete_rest kind result hlatest
    -- The cycle holds the place of its document, which is therefore not being forgotten.
    have hdocument : c.document.id ∉ s.pending := fun hid => by
      rw [isLatest_iff, hr.vacant _ hid] at hlatest
      exact absurd hlatest (by simp)
    have hstep : Course.Step (s.course.onRegistry r) (.complete c kind result outcome)
        ⟨((s.course.session.onRegistry r).complete kind c result).1,
          s.course.underWay.erase c⟩ :=
      .finish hmem hlatest (hsame.trans houtcome)
    rw [hrest] at hstep
    refine ⟨((s.course.session.onRegistry r).complete kind c result).1.registry,
      ⟨fun id => ?_, fun id hid => ?_⟩, hstep⟩
    · rw [get?_registry_complete (s := s.course.session.onRegistry r) id kind result hlatest,
        get?_registry_complete id kind result hlatest]
      show (if id = c.document.id then slotAfter c (r.get? id) result else r.get? id) = _
      rw [hr.slots]
      by_cases hid : id = c.document.id
      · rw [if_pos hid, if_pos hid, hid, if_neg hdocument, if_neg hdocument]
      · rw [if_neg hid, if_neg hid]
    · rw [hholder]
      split
      · rfl
      · exact hr.vacant id hid
  | @forget other =>
    have hstep : Course.Step (s.course.onRegistry r) (.forget other)
        ⟨(s.course.session.onRegistry r).forget other, s.course.underWay⟩ := .forget
    rw [forget_onRegistry] at hstep
    refine ⟨r.clear other, ⟨fun id => ?_, fun id hid => ?_⟩, hstep⟩
    · rw [Registry.get?_clear, get?_registry_forget, hr.slots]
      split
      · exact (ite_self _).symm
      · rfl
    · rw [holder?_forget]
      split
      · rfl
      · exact hr.vacant id hid
  | cancelAll =>
    exact ⟨r, ⟨hr.slots, fun id _ => s.course.session.holder?_cancelAll id⟩, .cancelAll⟩

/-- The first half does on the registry that is shown what forgetting at once does. -/
theorem Shows.drop (hr : s.Shows r) (id : DocumentId) :
    Shows ⟨{ s.course with session := s.course.session.cancel id }, id :: s.pending⟩
        (r.clear id) ∧
      Course.Step (s.course.onRegistry r) (.forget id)
        (Course.onRegistry { s.course with session := s.course.session.cancel id }
          (r.clear id)) := by
  have hstep : Course.Step (s.course.onRegistry r) (.forget id)
      ⟨(s.course.session.onRegistry r).forget id, s.course.underWay⟩ := .forget
  rw [forget_onRegistry] at hstep
  refine ⟨⟨fun other => ?_, fun other hother => ?_⟩, hstep⟩
  · obtain ⟨hregistry, -⟩ := s.course.session.cancel_rest id
    rw [Registry.get?_clear, hr.slots, hregistry]
    by_cases hid : other = id
    · rw [if_pos hid, if_pos (List.mem_cons.mpr (.inl hid))]
    · rw [if_neg hid]
      simp only [List.mem_cons, hid, false_or]
  · rw [holder?_cancel]
    rcases List.mem_cons.mp hother with hid | hother
    · exact if_pos hid
    · rw [hr.vacant other hother]
      exact ite_self _

/-- The second half changes nothing that is shown. -/
theorem Shows.clear (hr : s.Shows r) {id : DocumentId} (hid : id ∈ s.pending) :
    Shows ⟨{ s.course with session := s.course.session.clear id }, s.pending.erase id⟩ r := by
  refine ⟨fun other => ?_, fun other hother => hr.vacant other (List.mem_of_mem_erase hother)⟩
  show _ = if other ∈ s.pending.erase id then none
    else (s.course.session.registry.clear id).get? other
  rw [hr.slots, Registry.get?_clear]
  by_cases heq : other = id
  · rw [if_pos heq, heq, if_pos hid]
    exact (ite_self _).symm
  · rw [if_neg heq]
    simp only [List.mem_erase_of_ne heq]

/-! ### Sequences of half moves -/

/-- One half move, as it is shown. -/
theorem Shows.step {a : HalfMove} (hr : s.Shows r)
    (hbegins : ∀ m c, a = .whole (.begin m c) → c.document.id ∉ s.pending)
    (h : s.step? a = some t) :
    ∃ r', t.Shows r' ∧
      (s.course.onRegistry r).run? a.merged?.toList = some (t.course.onRegistry r') := by
  cases a with
  | whole a =>
    obtain ⟨u, hu, rfl⟩ := Option.map_eq_some_iff.mp h
    obtain ⟨r', hr', hstep⟩ := hr.whole (fun m c heq => hbegins m c (congrArg _ heq))
      (Course.step_of_step? hu)
    exact ⟨r', hr', Course.run?_cons_eq_some_iff.mpr ⟨_, hstep, Course.run?_nil _⟩⟩
  | drop id =>
    obtain rfl := Option.some.inj h
    obtain ⟨hr', hstep⟩ := hr.drop id
    exact ⟨_, hr', Course.run?_cons_eq_some_iff.mpr ⟨_, hstep, Course.run?_nil _⟩⟩
  | clear id =>
    rw [step?] at h
    split at h
    · rename_i hid
      obtain rfl := Option.some.inj h
      exact ⟨r, hr.clear hid, rfl⟩
    · exact absurd h (by simp)

theorem run?_cons_eq_some_iff {a : HalfMove} :
    s.run? (a :: acts) = some t ↔ ∃ u, s.step? a = some u ∧ u.run? acts = some t := by
  simp only [run?, List.foldlM_cons, Option.bind_eq_bind, Option.bind_eq_some_iff]

theorem Shows.run (hr : s.Shows r) (hrun : s.run? acts = some t)
    (hbegins : ∀ earlier m c later u, acts = earlier ++ .whole (.begin m c) :: later →
      s.run? earlier = some u → c.document.id ∉ u.pending) :
    ∃ r', t.Shows r' ∧
      (s.course.onRegistry r).run? (acts.filterMap HalfMove.merged?)
        = some (t.course.onRegistry r') := by
  induction acts generalizing s r with
  | nil =>
    obtain rfl := Option.some.inj hrun
    exact ⟨r, hr, rfl⟩
  | cons a acts ih =>
    obtain ⟨u, hu, hrest⟩ := run?_cons_eq_some_iff.mp hrun
    obtain ⟨r', hr', hstep⟩ := hr.step (fun m c heq =>
      hbegins [] m c acts s (by rw [heq]; rfl) rfl) hu
    obtain ⟨r'', hr'', hshown⟩ := ih hr' hrest fun earlier m c later v hacts hv =>
      hbegins (a :: earlier) m c later v (congrArg (a :: ·) hacts)
        (run?_cons_eq_some_iff.mpr ⟨u, hu, hv⟩)
    refine ⟨r'', hr'', ?_⟩
    have hmerged : (a :: acts).filterMap HalfMove.merged?
        = a.merged?.toList ++ acts.filterMap HalfMove.merged? := by
      rw [List.filterMap_cons]
      cases a.merged? with
      | none => rfl
      | some b => rfl
    rw [hmerged]
    exact Course.run?_append_eq_some_iff.mpr ⟨_, hstep, hshown⟩

/-- **Forgetting in halves is forgetting at once.**  Let documents be forgotten in halves,
with anything in between except the beginning of a cycle for a document that is being
forgotten.  Once no half is missing, the same has happened as if every document had been
forgotten at once, where its first half was: the other moves are the same, with the same
outcomes, and so are the session and the cycles under way. -/
theorem run?_merged {settings : Settings} {registry : Registry}
    (hrun : (start settings registry).run? acts = some t)
    (hbegins : ∀ earlier m c later u, acts = earlier ++ .whole (.begin m c) :: later →
      (start settings registry).run? earlier = some u → c.document.id ∉ u.pending)
    (hdone : t.pending = []) :
    (Course.start settings registry).run? (acts.filterMap HalfMove.merged?)
      = some t.course := by
  obtain ⟨r, hr, hshown⟩ := (shows_start settings registry).run hrun hbegins
  rw [hr.onRegistry_eq hdone] at hshown
  exact hshown

end HalfCourse

/-! ### A cycle that begins between the halves -/

namespace Course

/-- Let a cycle hold the place of its document and be said to be superseded, and let a newer
cycle publish.  If the document is forgotten at once somewhere around that, it must have
been before everything, and the newer result stays. -/
theorem slot_of_forget_among {s t : Course} {c d : PreparedCycle} {m : Machine}
    {kind kind' : EventKind} {result result' : CycleResult} {found : Diagnostic}
    {before after : List Move} (hlatest : s.session.isLatest c = true)
    (hmoves : before ++ after = [.complete c kind result .superseded, .begin m d,
      .complete d kind' result' (.published found)])
    (hrun : s.run? (before ++ .forget d.document.id :: after) = some t) :
    t.session.registry.get? d.document.id = some [found] := by
  cases before with
  | nil =>
    rw [List.nil_append] at hmoves
    rw [get?_registry_of_run hrun, List.nil_append, hmoves]
    simp [Move.writes?]
  | cons a before =>
    obtain ⟨rfl, -⟩ := List.cons.inj hmoves
    obtain ⟨u, hstep, -⟩ := run?_cons_eq_some_iff.mp hrun
    -- While it holds the place, the cycle is not superseded.
    cases hstep with
    | late hmem hlate => exact absurd (hlatest.symm.trans hlate) (by simp)
    | finish hmem _ houtcome =>
      obtain ⟨hne, -⟩ := complete_rest kind result hlatest
      exact absurd houtcome hne

end Course

namespace HalfCourse

/-- What may happen between the halves: the cancelled cycle ends, and a newer one begins and
publishes. -/
def sampleBetween : List Move :=
  [.complete (Course.sampleCycle 1) .opened (.ok (Course.sampleOutcome none)) .superseded,
    .begin Course.sampleMachine (Course.sampleCycle 2),
    .complete (Course.sampleCycle 2) .opened
      (.ok (Course.sampleOutcome (some Course.sampleDiagnostic)))
      (.published (Course.sampleDiagnostic.withSource "luac"))]

/-- What is done in one piece goes on as in the course alone. -/
theorem run?_map_whole_append {s : HalfCourse} {moves : List Move} {u : Course}
    (h : s.course.run? moves = some u) (acts : List HalfMove) :
    s.run? (moves.map .whole ++ acts) = ({ s with course := u } : HalfCourse).run? acts := by
  induction moves generalizing s with
  | nil =>
    obtain rfl := Option.some.inj h
    rfl
  | cons a moves ih =>
    obtain ⟨v, hv, hrest⟩ := Course.run?_cons_eq_some_iff.mp h
    have hstep : s.step? (.whole a) = some { s with course := v } := by
      rw [step?, Course.step?_of_step hv]
      rfl
    have hmoves := ih (s := { s with course := v }) hrest
    rw [← hmoves, List.map_cons, List.cons_append, run?, List.foldlM_cons, hstep]
    rfl

/-- **The second half may erase a newer result.**  When a cycle begins and publishes between
the halves, the slot is empty in the end.  Were the document forgotten at once, at whatever
place between the halves and with the same moves and outcomes, the result would stay. -/
theorem late_half_erases :
    (∃ t : HalfCourse,
      (start .default .empty).run?
        (.whole (.begin Course.sampleMachine (Course.sampleCycle 1))
          :: .drop Course.sampleDocument.id
          :: (sampleBetween.map .whole ++ [.clear Course.sampleDocument.id])) = some t ∧
      t.pending = [] ∧
      t.course.session.registry.get? Course.sampleDocument.id = none) ∧
    ∀ before after u, before ++ after = sampleBetween →
      (Course.start .default .empty).run?
        (.begin Course.sampleMachine (Course.sampleCycle 1)
          :: (before ++ .forget Course.sampleDocument.id :: after)) = some u →
      u.session.registry.get? Course.sampleDocument.id
        = some [Course.sampleDiagnostic.withSource "luac"] := by
  constructor
  · set c := Course.sampleCycle 1
    set d := Course.sampleCycle 2
    set begun := (Course.start .default .empty).session.begin Course.sampleDocument.id
    set dropped := begun.cancel Course.sampleDocument.id
    set found : CycleResult := .ok (Course.sampleOutcome (some Course.sampleDiagnostic))
    have hbegin : Course.Step (Course.start .default .empty) (.begin Course.sampleMachine c)
        ⟨begun, [c]⟩ := .begin rfl rfl rfl rfl
    -- The first half takes the place away from the cycle.
    have hlate : dropped.isLatest c = false := by
      rw [← Bool.not_eq_true, isLatest_iff, holder?_cancel, if_pos (by rfl)]
      simp
    have hsuperseded : Course.Step ⟨dropped, [c]⟩
        (.complete c .opened (.ok (Course.sampleOutcome none)) .superseded)
        ⟨dropped, [c].erase c⟩ := .late List.mem_cons_self hlate
    have hagain : Course.Step ⟨dropped, [c].erase c⟩ (.begin Course.sampleMachine d)
        ⟨dropped.begin Course.sampleDocument.id, [d]⟩ := by
      rw [List.erase_cons_head]
      exact .begin rfl rfl rfl rfl
    have hlatest := (Course.isLatest_of_begin hagain).2.1
    have hpublish : Course.Step _ (.complete d .opened found
        (.published (Course.sampleDiagnostic.withSource "luac"))) _ :=
      .finish List.mem_cons_self hlatest (outcome_complete .opened found hlatest)
    have hbetween : Course.run? ⟨dropped, [c]⟩ sampleBetween = some _ :=
      Course.run?_cons_eq_some_iff.mpr ⟨_, hsuperseded, Course.run?_cons_eq_some_iff.mpr
        ⟨_, hagain, Course.run?_cons_eq_some_iff.mpr ⟨_, hpublish, Course.run?_nil _⟩⟩⟩
    have hstart : (start .default .empty).step? (.whole (.begin Course.sampleMachine c))
        = some ⟨⟨begun, [c]⟩, []⟩ := by
      show (Course.step? _ _).map _ = _
      rw [show (start .default .empty).course = Course.start .default .empty from rfl,
        Course.step?_of_step hbegin]
      rfl
    have hclear : ∀ u : Course,
        (⟨u, [Course.sampleDocument.id]⟩ : HalfCourse).step? (.clear Course.sampleDocument.id)
          = some ⟨{ u with session := u.session.clear Course.sampleDocument.id }, []⟩ := by
      intro u
      rw [step?, if_pos List.mem_cons_self, List.erase_cons_head]
    have hrest := (run?_map_whole_append
      (s := ⟨⟨dropped, [c]⟩, [Course.sampleDocument.id]⟩) hbetween
        [.clear Course.sampleDocument.id]).trans
      (run?_cons_eq_some_iff.mpr ⟨_, hclear _, rfl⟩)
    exact ⟨_, run?_cons_eq_some_iff.mpr ⟨_, hstart, run?_cons_eq_some_iff.mpr ⟨_, rfl, hrest⟩⟩,
      rfl, (Registry.get?_clear _ _ _).trans (if_pos rfl)⟩
  · intro before after u hmoves hrun
    obtain ⟨v, hbegin, hrest⟩ := Course.run?_cons_eq_some_iff.mp hrun
    obtain ⟨-, hlatest, -⟩ := Course.isLatest_of_begin hbegin
    exact Course.slot_of_forget_among hlatest hmoves hrest

end HalfCourse

end Session

end LuaDiagnostics
