/-
What a pool leaves behind.

Cycles of documents with one name supersede each other, and which of them are superseded
depends on the order of the steps.  What the session shows in the end does not: the cycle
that began last for a name always has its effect, and documents of one name come to the
same.  The steps keep

* **`Settled`**: what the workers have come to, and what the slots show of it;
* **`Delivered`**: the outcome of a worker that has ended is on its way or has arrived.

Once all is over, **`get?_registry_of_isOver`**, **`mem_outcomes_of_isOver`** and, when no
two documents share a name, **`outcomes_eq_of_isOver`** speak about the batch alone.
-/
import LuaDiagnostics.Proofs.Session.Pool

namespace LuaDiagnostics

namespace Pool

variable {b : Batch} {p q : Pool}

/-! ### Effects -/

/-- The worker of a document of this name has ended and had an effect. -/
def HasEffect (b : Batch) (stages : List Stage) (id : DocumentId) : Prop :=
  ∃ (i : Nat) (d : Document), b.documents[i]? = some d ∧ d.id = id ∧ b.lints d = true ∧
    stages[i]? = some (.ended (b.outcomeOf d))

/-- What had an effect keeps it while other workers go on. -/
theorem HasEffect.set {stages : List Stage} {id : DocumentId} {i : Nat} {old : Stage}
    (h : HasEffect b stages id) (hold : stages[i]? = some old)
    (hgoing : ∀ outcome, old ≠ .ended outcome) (new : Stage) :
    HasEffect b (stages.set i new) id := by
  obtain ⟨j, d, hd, hid, hlints, hj⟩ := h
  refine ⟨j, d, hd, hid, hlints, (getElem?_set_eq_some_iff hold _ _ _).mpr (.inr ⟨?_, hj⟩)⟩
  rintro rfl
  exact hgoing _ (Option.some.inj (hold.symm.trans hj))

/-- What the workers have come to, and what the slots show of it. -/
structure Settled (b : Batch) (p : Pool) : Prop where
  /-- Only a rival takes the place of a document away. -/
  displaced : ∀ (i : Nat) (c : PreparedCycle), p.stages[i]? = some (.running c) →
    p.course.session.isLatest c = false → b.HasRival i
  outcome : ∀ (i : Nat) (d : Document) (outcome : LintOutcome), b.documents[i]? = some d →
    p.stages[i]? = some (.ended outcome) →
      outcome = b.outcomeOf d ∨ outcome = .superseded ∧ b.lints d = true ∧ b.HasRival i
  /-- A name that a worker has begun with is held until it has had its effect. -/
  placed : ∀ (i : Nat) (d : Document) (t : Stage), b.documents[i]? = some d →
    b.lints d = true → p.stages[i]? = some t → t ≠ .waiting →
      p.course.session.holder? d.id ≠ none ∨ HasEffect b p.stages d.id
  filled : ∀ (i : Nat) (d : Document), b.documents[i]? = some d → b.lints d = true →
    p.stages[i]? = some (.ended (b.outcomeOf d)) →
      p.course.session.registry.get? d.id = b.slotOf d
  empty : ∀ id, p.course.session.registry.get? id ≠ none → HasEffect b p.stages id

theorem settled_start (b : Batch) : Settled b (start b) := by
  have hwaiting : ∀ (i : Nat) (t : Stage), (start b).stages[i]? = some t → t = .waiting := by
    intro i t h
    rw [start, List.getElem?_map, Option.map_eq_some_iff] at h
    obtain ⟨d, -, h⟩ := h
    exact h.symm
  refine ⟨?_, ?_, ?_, ?_, ?_⟩
  · intro i c h
    exact absurd (hwaiting i _ h) (by simp)
  · intro i d outcome hd h
    exact absurd (hwaiting i _ h) (by simp)
  · intro i d t hd hlints h hbegun
    exact absurd (hwaiting i t h) hbegun
  · intro i d hd hlints h
    exact absurd (hwaiting i _ h) (by simp)
  · intro id h
    exact absurd rfl h

/-- The begin of a cycle takes its document's place and changes no slot. -/
theorem settled_begin {i : Nat} {c : PreparedCycle} (ha : Assigned b p) (hp : Settled b p)
    (hdocument : b.documents[i]? = some c.document) (hstage : p.stages[i]? = some .waiting)
    (hnumber : c.generation = p.course.session.nextGeneration) :
    Settled b
      { p with
        course := ⟨p.course.session.begin c.document.id, c :: p.course.underWay⟩
        stages := p.stages.set i (.running c) } := by
  have hset := getElem?_set_eq_some_iff hstage (.running c)
  have heffect : ∀ id, HasEffect b p.stages id → HasEffect b (p.stages.set i (.running c)) id :=
    fun id h => h.set hstage (by simp) _
  refine ⟨?_, ?_, ?_, ?_, ?_⟩
  · intro j e hj hlate
    rw [← Bool.not_eq_true, Session.isLatest_iff, Session.holder?_begin] at hlate
    rcases (hset j _).mp hj with ⟨rfl, heq⟩ | ⟨hne, hj⟩
    · obtain rfl := Stage.running.inj heq
      rw [if_pos rfl, hnumber] at hlate
      exact absurd rfl hlate
    · by_cases hid : e.document.id = c.document.id
      · exact ⟨i, _, _, hne.symm, (ha.running j e hj).2.1, hdocument, hid⟩
      · rw [if_neg hid, ← Session.isLatest_iff, Bool.not_eq_true] at hlate
        exact hp.displaced j e hj hlate
  · intro j d outcome hd hj
    obtain ⟨-, hj⟩ := ((hset j _).mp hj).resolve_left (by simp)
    exact hp.outcome j d outcome hd hj
  · intro j d t hd hlints hj hbegun
    show (p.course.session.begin c.document.id).holder? d.id ≠ none ∨ _
    rw [Session.holder?_begin]
    by_cases hid : d.id = c.document.id
    · rw [if_pos hid]
      exact .inl (by simp)
    · have hne := Batch.ne_of_id_ne hd hdocument hid
      obtain ⟨-, hj⟩ := ((hset j t).mp hj).resolve_left fun h => hne h.1
      rw [if_neg hid]
      exact (hp.placed j d t hd hlints hj hbegun).imp_right (heffect d.id)
  · intro j d hd hlints hj
    obtain ⟨-, hj⟩ := ((hset j _).mp hj).resolve_left (by simp)
    show (p.course.session.begin c.document.id).registry.get? d.id = _
    rw [Session.registry_begin]
    exact hp.filled j d hd hlints hj
  · intro id hslot
    have hslot : (p.course.session.begin c.document.id).registry.get? id ≠ none := hslot
    rw [Session.registry_begin] at hslot
    exact heffect id (hp.empty id hslot)

/-- A worker that ends without a word to the session leaves the slots as they are. -/
theorem settled_silent {i : Nat} {d : Document} {old : Stage} {outcome : LintOutcome}
    {underWay : List PreparedCycle} (hp : Settled b p) (hdocument : b.documents[i]? = some d)
    (hstage : p.stages[i]? = some old) (hgoing : ∀ outcome, old ≠ .ended outcome)
    (hover : outcome = b.outcomeOf d ∧ b.lints d = false ∨
      outcome = .superseded ∧ b.lints d = true ∧ b.HasRival i ∧ old ≠ .waiting) :
    Settled b
      { p with
        course := { p.course with underWay }
        stages := p.stages.set i (.ended outcome)
        messages := (i, outcome) :: p.messages } := by
  have hset := getElem?_set_eq_some_iff hstage (.ended outcome)
  have heffect : ∀ id, HasEffect b p.stages id → HasEffect b (p.stages.set i (.ended outcome)) id :=
    fun id h => h.set hstage hgoing _
  refine ⟨?_, ?_, ?_, ?_, ?_⟩
  · intro j c hj
    obtain ⟨-, hj⟩ := ((hset j _).mp hj).resolve_left (by simp)
    exact hp.displaced j c hj
  · intro j e answer he hj
    rcases (hset j _).mp hj with ⟨rfl, heq⟩ | ⟨-, hj⟩
    · obtain rfl := Stage.ended.inj heq
      obtain rfl := Option.some.inj (he.symm.trans hdocument)
      exact hover.imp And.left fun h => ⟨h.1, h.2.1, h.2.2.1⟩
    · exact hp.outcome j e answer he hj
  · intro j e t he hlints hj hbegun
    refine Or.imp_right (heffect e.id) ?_
    rcases (hset j _).mp hj with ⟨rfl, -⟩ | ⟨-, hj⟩
    · obtain rfl := Option.some.inj (he.symm.trans hdocument)
      rcases hover with ⟨-, hnot⟩ | ⟨-, -, -, hold⟩
      · exact absurd (hlints.symm.trans hnot) (by simp)
      · exact hp.placed j e old he hlints hstage hold
    · exact hp.placed j e t he hlints hj hbegun
  · intro j e he hlints hj
    rcases (hset j _).mp hj with ⟨rfl, heq⟩ | ⟨-, hj⟩
    · obtain rfl := Option.some.inj (he.symm.trans hdocument)
      rcases hover with ⟨-, hnot⟩ | ⟨hsuperseded, -⟩
      · exact absurd (hlints.symm.trans hnot) (by simp)
      · exact absurd ((Stage.ended.inj heq).trans hsuperseded) (b.outcomeOf_ne_superseded e)
    · exact hp.filled j e he hlints hj
  · intro id hslot
    exact heffect id (hp.empty id hslot)

/-- The end of a cycle gives the slot what its document shows by itself.  A cycle that
failed does so too: the slot was empty, as all documents of the name fail. -/
theorem slotAfter_verdict {i : Nat} {c : PreparedCycle} (hb : b.IsUniform)
    (ha : Assigned b p) (hp : Settled b p) (hstage : p.stages[i]? = some (.running c)) :
    Session.slotAfter c (p.course.session.registry.get? c.document.id) (b.verdict c.document)
      = b.slotOf c.document := by
  obtain ⟨-, hdocument, hlints, hcommand⟩ := ha.running i c hstage
  cases hverdict : b.verdict c.document with
  | ok found =>
    rw [Session.slotAfter, Batch.slotOf, hverdict, hcommand]
    rfl
  | error failure =>
    have hnone : b.slotOf c.document = none := by rw [Batch.slotOf, hverdict]
    rw [Session.slotAfter, hnone]
    by_contra hfull
    obtain ⟨j, d, hd, hid, hlintsd, hj⟩ := hp.empty c.document.id hfull
    have hfilled := hp.filled j d hd hlintsd hj
    obtain ⟨-, hslot⟩ := hb.outcomeOf_eq (List.mem_of_getElem? hd)
      (List.mem_of_getElem? hdocument) hlintsd hlints hid
    rw [hid, hslot, hnone] at hfilled
    exact hfull hfilled

/-- A cycle that held its document's place to the end has its effect. -/
theorem settled_finish {i : Nat} {c : PreparedCycle} (hb : b.IsUniform) (ha : Assigned b p)
    (hp : Settled b p) (hstage : p.stages[i]? = some (.running c))
    (hlatest : p.course.session.isLatest c = true) {underWay : List PreparedCycle} :
    Settled b
      { p with
        course :=
          ⟨(p.course.session.complete .opened c (b.verdict c.document)).1, underWay⟩
        stages := p.stages.set i (.ended (b.outcomeOf c.document))
        messages := (i, b.outcomeOf c.document) :: p.messages } := by
  obtain ⟨-, hdocument, hlints, hcommand⟩ := ha.running i c hstage
  obtain ⟨-, hholder, -⟩ :=
    Session.complete_rest (s := p.course.session) .opened (b.verdict c.document) hlatest
  have hslot := fun id => Session.get?_registry_complete (s := p.course.session) id .opened
    (b.verdict c.document) hlatest
  have hset := getElem?_set_eq_some_iff hstage (.ended (b.outcomeOf c.document))
  have heffect : ∀ id, HasEffect b p.stages id →
      HasEffect b (p.stages.set i (.ended (b.outcomeOf c.document))) id :=
    fun id h => h.set hstage (by simp) _
  have hown : HasEffect b (p.stages.set i (.ended (b.outcomeOf c.document))) c.document.id :=
    ⟨i, c.document, hdocument, rfl, hlints, (hset i _).mpr (.inl ⟨rfl, rfl⟩)⟩
  refine ⟨?_, ?_, ?_, ?_, ?_⟩
  · intro j e hj hlate
    obtain ⟨hne, hj⟩ := ((hset j _).mp hj).resolve_left (by simp)
    rw [← Bool.not_eq_true, Session.isLatest_iff, hholder] at hlate
    by_cases hid : e.document.id = c.document.id
    · exact ⟨i, _, _, hne.symm, (ha.running j e hj).2.1, hdocument, hid⟩
    · rw [if_neg hid, ← Session.isLatest_iff, Bool.not_eq_true] at hlate
      exact hp.displaced j e hj hlate
  · intro j e answer he hj
    rcases (hset j _).mp hj with ⟨rfl, heq⟩ | ⟨-, hj⟩
    · obtain rfl := Option.some.inj (he.symm.trans hdocument)
      exact .inl (Stage.ended.inj heq)
    · exact hp.outcome j e answer he hj
  · intro j e t he hlints hj hbegun
    by_cases hid : e.id = c.document.id
    · rw [hid]
      exact .inr hown
    · have hne := Batch.ne_of_id_ne he hdocument hid
      obtain ⟨-, hj⟩ := ((hset j t).mp hj).resolve_left fun h => hne h.1
      show (p.course.session.complete _ _ _).1.holder? e.id ≠ none ∨ _
      rw [hholder, if_neg hid]
      exact (hp.placed j e t he hlints hj hbegun).imp_right (heffect e.id)
  · intro j e he hlintse hj
    show (p.course.session.complete _ _ _).1.registry.get? e.id = _
    rw [hslot]
    by_cases hid : e.id = c.document.id
    · rw [if_pos hid, hid, slotAfter_verdict hb ha hp hstage]
      exact (hb.outcomeOf_eq (List.mem_of_getElem? hdocument) (List.mem_of_getElem? he) hlints
        hlintse hid.symm).2
    · have hne := Batch.ne_of_id_ne he hdocument hid
      obtain ⟨-, hj⟩ := ((hset j _).mp hj).resolve_left fun h => hne h.1
      rw [if_neg hid]
      exact hp.filled j e he hlintse hj
  · intro id hfull
    have hfull : (p.course.session.complete .opened c (b.verdict c.document)).1.registry.get? id
      ≠ none := hfull
    rw [hslot] at hfull
    by_cases hid : id = c.document.id
    · rw [hid]
      exact hown
    · rw [if_neg hid] at hfull
      exact heffect id (hp.empty id hfull)

theorem settled_of_step (hb : b.IsUniform) (ha : Assigned b p) (h : Step b p q)
    (hp : Settled b p) : Settled b q := by
  cases h with
  | begin hdocument hstage hmove =>
    cases Session.Course.step_of_step? hmove with
    | begin henable hlua hnumber hcommand => exact settled_begin ha hp hdocument hstage hnumber
  | decline hdocument hstage hmove =>
    obtain ⟨rfl, hlints, houtcome⟩ := ha.decline_of_step (Session.Course.step_of_step? hmove)
    exact settled_silent hp hdocument hstage (by simp) (.inl ⟨houtcome, hlints⟩)
  | @finish i c result outcome course hstage hresult hmove =>
    obtain ⟨-, hdocument, hlints, hcommand⟩ := ha.running i c hstage
    cases Session.Course.step_of_step? hmove with
    | late hmem hlate =>
      exact settled_silent hp hdocument hstage (by simp)
        (.inr ⟨rfl, hlints, hp.displaced i c hstage hlate, by simp⟩)
    | finish hmem hlatest houtcome =>
      -- It was not cancelled, so its compiler has said what it has to say.
      obtain rfl := hresult ((ha.coherent.free c hmem).mp hlatest)
      rw [hcommand] at houtcome ⊢
      rw [Session.outcome_complete _ _ hlatest, hcommand, ← Batch.verdict] at houtcome
      obtain rfl := houtcome.symm.trans (Batch.outcomeOf_of_lints hlints).symm
      exact settled_finish hb ha hp hstage hlatest
  | receive hmessage =>
    obtain ⟨hdisplaced, houtcome, hplaced, hfilled, hempty⟩ := hp
    exact ⟨hdisplaced, houtcome, hplaced, hfilled, hempty⟩

theorem settled_of_reaches (hb : b.IsUniform) (h : Reaches b (start b) p) : Settled b p := by
  induction h with
  | refl => exact settled_start b
  | tail hbefore hstep ih => exact settled_of_step hb (assigned_of_reaches hbefore) hstep ih

/-! ### Outcomes -/

/-- The outcome of a worker that has ended is on its way or has arrived. -/
structure Delivered (b : Batch) (p : Pool) : Prop where
  length_outcomes : p.outcomes.length = b.documents.length
  sent : ∀ (i : Nat) (outcome : LintOutcome), (i, outcome) ∈ p.messages →
    p.stages[i]? = some (.ended outcome)
  arrived : ∀ (i : Nat) (outcome : LintOutcome), p.stages[i]? = some (.ended outcome) →
    (i, outcome) ∈ p.messages ∨ p.outcomes[i]? = some outcome

theorem delivered_start (b : Batch) : Delivered b (start b) := by
  refine ⟨List.length_map _, ?_, ?_⟩
  · intro i outcome h
    exact absurd h List.not_mem_nil
  · intro i outcome h
    rw [start, List.getElem?_map, Option.map_eq_some_iff] at h
    obtain ⟨d, -, h⟩ := h
    exact absurd h (by simp)

/-- A worker that has ended sends its outcome. -/
theorem delivered_ended {i : Nat} {old : Stage} {outcome : LintOutcome}
    {course : Session.Course} (hp : Delivered b p) (hstage : p.stages[i]? = some old)
    (hgoing : ∀ outcome, old ≠ .ended outcome) :
    Delivered b
      { p with
        course
        stages := p.stages.set i (.ended outcome)
        messages := (i, outcome) :: p.messages } := by
  have hset := getElem?_set_eq_some_iff hstage (.ended outcome)
  refine ⟨hp.length_outcomes, ?_, ?_⟩
  · intro j answer hj
    rcases List.mem_cons.mp hj with heq | hj
    · obtain ⟨rfl, rfl⟩ := Prod.mk.inj heq
      exact (hset _ _).mpr (.inl ⟨rfl, rfl⟩)
    · have hsent := hp.sent j answer hj
      refine (hset j _).mpr (.inr ⟨?_, hsent⟩)
      rintro rfl
      exact hgoing _ (Option.some.inj (hstage.symm.trans hsent))
  · intro j answer hj
    rcases (hset j _).mp hj with ⟨rfl, heq⟩ | ⟨-, hj⟩
    · obtain rfl := Stage.ended.inj heq
      exact .inl List.mem_cons_self
    · exact (hp.arrived j answer hj).imp_left (List.mem_cons_of_mem _)

theorem delivered_of_step (ha : Assigned b p) (h : Step b p q) (hp : Delivered b p) :
    Delivered b q := by
  cases h with
  | @begin i c course hdocument hstage hmove =>
    have hset := getElem?_set_eq_some_iff hstage (.running c)
    refine ⟨hp.length_outcomes, ?_, ?_⟩
    · intro j outcome hj
      have hsent := hp.sent j outcome hj
      refine (hset j _).mpr (.inr ⟨?_, hsent⟩)
      rintro rfl
      exact absurd (hstage.symm.trans hsent) (by simp)
    · intro j outcome hj
      exact hp.arrived j outcome (((hset j _).mp hj).resolve_left (by simp)).2
  | decline hdocument hstage hmove => exact delivered_ended hp hstage (by simp)
  | finish hstage hresult hmove => exact delivered_ended hp hstage (by simp)
  | @receive i outcome hmessage =>
    have hi : i < p.outcomes.length := by
      rw [hp.length_outcomes, ← ha.length_stages]
      exact (List.getElem?_eq_some_iff.mp (hp.sent i outcome hmessage)).1
    refine ⟨(List.length_set ..).trans hp.length_outcomes, ?_, ?_⟩
    · intro j answer hj
      exact hp.sent j answer (List.mem_of_mem_erase hj)
    · intro j answer hj
      by_cases hij : i = j
      · subst hij
        obtain rfl := Stage.ended.inj (Option.some.inj (hj.symm.trans (hp.sent i outcome hmessage)))
        exact .inr (List.getElem?_set_self hi)
      · show _ ∨ (p.outcomes.set i outcome)[j]? = _
        rw [List.getElem?_set_ne hij]
        refine (hp.arrived j answer hj).imp_left fun hmem => ?_
        exact (List.mem_erase_of_ne fun heq => hij (Prod.mk.inj heq).1.symm).mpr hmem

theorem delivered_of_reaches (h : Reaches b (start b) p) : Delivered b p := by
  induction h with
  | refl => exact delivered_start b
  | tail hbefore hstep ih => exact delivered_of_step (assigned_of_reaches hbefore) hstep ih

/-! ### What is left of the order -/

/-- When all is over, the outcome of every worker stands where its document does. -/
theorem exists_ended (h : Reaches b (start b) p) (hover : p.IsOver) {i : Nat} {d : Document}
    (hd : b.documents[i]? = some d) :
    ∃ outcome, p.stages[i]? = some (.ended outcome) ∧ p.outcomes[i]? = some outcome := by
  have hi : i < p.stages.length := by
    rw [(assigned_of_reaches h).length_stages]
    exact (List.getElem?_eq_some_iff.mp hd).1
  obtain ⟨outcome, houtcome⟩ := hover.1 _ (List.getElem_mem hi)
  have hstage : p.stages[i]? = some (.ended outcome) := by
    rw [List.getElem?_eq_getElem hi, houtcome]
  refine ⟨outcome, hstage, ((delivered_of_reaches h).arrived i outcome hstage).resolve_left ?_⟩
  rw [hover.2]
  exact List.not_mem_nil

/-- When all is over, every name of a linted document has had its effect. -/
theorem hasEffect_of_isOver (hb : b.IsUniform) (h : Reaches b (start b) p) (hover : p.IsOver)
    {d : Document} (hd : d ∈ b.documents) (hlints : b.lints d = true) :
    HasEffect b p.stages d.id := by
  have ha := assigned_of_reaches h
  obtain ⟨i, hi⟩ := List.getElem?_of_mem hd
  obtain ⟨outcome, hstage, -⟩ := exists_ended h hover hi
  refine ((settled_of_reaches hb h).placed i d _ hi hlints hstage (by simp)).resolve_left ?_
  -- Who holds the place would be under way, and somebody would run it.
  intro hholder
  obtain ⟨g, hg⟩ := Option.ne_none_iff_exists'.mp hholder
  obtain ⟨c, hc, -, -⟩ := ha.coherent.held d.id g hg
  obtain ⟨j, hj⟩ := ha.occupied c hc
  obtain ⟨answer, heq⟩ := hover.1 _ (List.mem_of_getElem? hj)
  exact absurd heq (by simp)

/-- When all is over, the slots show what the documents show by themselves. -/
theorem get?_registry_of_isOver (hb : b.IsUniform) (h : Reaches b (start b) p)
    (hover : p.IsOver) (id : DocumentId) (ds : List Diagnostic) :
    p.course.session.registry.get? id = some ds ↔
      ∃ d ∈ b.documents, d.id = id ∧ b.lints d = true ∧ b.slotOf d = some ds := by
  have hp := settled_of_reaches hb h
  constructor
  · intro hslot
    obtain ⟨i, d, hd, rfl, hlints, hi⟩ := hp.empty id (by simp [hslot])
    exact ⟨d, List.mem_of_getElem? hd, rfl, hlints, (hp.filled i d hd hlints hi).symm.trans hslot⟩
  · rintro ⟨d, hd, rfl, hlints, hslot⟩
    obtain ⟨i, e, he, hid, hlintse, hi⟩ := hasEffect_of_isOver hb h hover hd hlints
    have hfilled := hp.filled i e he hlintse hi
    rw [hid] at hfilled
    rw [hfilled, ← hslot]
    exact (hb.outcomeOf_eq (List.mem_of_getElem? he) hd hlintse hlints hid).2

/-- When all is over, the outcomes other than of a superseded cycle are those to which the
documents come by themselves. -/
theorem mem_outcomes_of_isOver (hb : b.IsUniform) (h : Reaches b (start b) p)
    (hover : p.IsOver) {outcome : LintOutcome} (hne : outcome ≠ .superseded) :
    outcome ∈ p.outcomes ↔ ∃ d ∈ b.documents, b.outcomeOf d = outcome := by
  have hp := settled_of_reaches hb h
  constructor
  · intro hmem
    obtain ⟨i, hi⟩ := List.getElem?_of_mem hmem
    have hlength : i < b.documents.length := by
      rw [← (delivered_of_reaches h).length_outcomes]
      exact (List.getElem?_eq_some_iff.mp hi).1
    have hd := List.getElem?_eq_getElem hlength
    obtain ⟨answer, hstage, hanswer⟩ := exists_ended h hover hd
    obtain rfl := Option.some.inj (hi.symm.trans hanswer)
    have houtcome := (hp.outcome i _ outcome hd hstage).resolve_right fun hlost => hne hlost.1
    exact ⟨_, List.getElem_mem hlength, houtcome.symm⟩
  · rintro ⟨d, hd, rfl⟩
    obtain ⟨i, hi⟩ := List.getElem?_of_mem hd
    cases hlints : b.lints d with
    | true =>
      obtain ⟨j, e, he, hid, hlintse, hj⟩ := hasEffect_of_isOver hb h hover hd hlints
      obtain ⟨outcome, hstage, houtcome⟩ := exists_ended h hover he
      obtain rfl := Stage.ended.inj (Option.some.inj (hstage.symm.trans hj))
      rw [(hb.outcomeOf_eq hd (List.mem_of_getElem? he) hlints hlintse hid.symm).1]
      exact List.mem_of_getElem? houtcome
    | false =>
      -- A document without a cycle has nothing to lose.
      obtain ⟨outcome, hstage, houtcome⟩ := exists_ended h hover hi
      obtain rfl := (hp.outcome i d outcome hi hstage).resolve_right fun hlost =>
        absurd (hlost.2.1.symm.trans hlints) (by simp)
      exact List.mem_of_getElem? houtcome

/-- When all is over and no two documents share a name, the outcomes are those to which
the documents come by themselves, in their order. -/
theorem outcomes_eq_of_isOver (hb : b.IsUniform) (h : Reaches b (start b) p)
    (hover : p.IsOver) (hnodup : (b.documents.map Document.id).Nodup) :
    p.outcomes = b.documents.map b.outcomeOf := by
  have hlength := (delivered_of_reaches h).length_outcomes
  refine List.ext_getElem? fun i => ?_
  rw [List.getElem?_map]
  by_cases hi : i < b.documents.length
  · have hd := List.getElem?_eq_getElem hi
    obtain ⟨outcome, hstage, houtcome⟩ := exists_ended h hover hd
    have heq := ((settled_of_reaches hb h).outcome i _ outcome hd hstage).resolve_right
      fun hlost => Batch.not_hasRival hnodup i hlost.2.2
    rw [houtcome, hd, heq]
    rfl
  · rw [List.getElem?_eq_none (by omega), List.getElem?_eq_none (by omega)]
    rfl

end Pool

end LuaDiagnostics
