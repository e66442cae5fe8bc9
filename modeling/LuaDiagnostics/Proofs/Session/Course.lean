/-
Courses of a session.

Many threads use one session, but its steps hold the lock of the table of cycles.  So what
happens to a session is a sequence of **moves**: cycles begin and end, documents are turned
away or forgotten, and all cycles are cancelled, in any order and for any number of
documents.  (Only the second half of forgetting a document is done without the lock; when
it may be taken for a part of the move is shown apart, where documents are forgotten in
halves.)  A **course** is a session together with the cycles that have begun and not
ended, so that a cycle ends once, and only one that has begun.

* **`step?`** is one move and **`run?`** a sequence of them; `Step` says case by case
  what a move does, and `step?_eq_some_iff` that it says everything.
* **`Coherent`** is what the table of cycles, the flags and the cycles under way have to
  do with each other; **`coherent_of_run`** shows it of every course from the start.

Cycles are numbered without bound.  A counter of 64 bits, which goes round, gives the same
numbers to the cycles as long as fewer than `UInt64.size - 1` have begun before
(**`generation_eq_counter_iff`**).
-/
import LuaDiagnostics.Proofs.Session.Steps
import Mathlib.Data.List.Nodup

namespace LuaDiagnostics

namespace Session

/-- What may happen to a session. -/
inductive Move
  /-- A cycle begins. -/
  | begin (machine : Machine) (cycle : PreparedCycle)
  /-- A document is turned away. -/
  | decline (machine : Machine) (document : Document) (outcome : LintOutcome)
  /-- A cycle ends with a result, which has the outcome. -/
  | complete (cycle : PreparedCycle) (kind : EventKind) (result : CycleResult)
      (outcome : LintOutcome)
  | forget (id : DocumentId)
  | cancelAll

namespace Move

/-- Holds of the beginning of a cycle. -/
def isBegin : Move → Bool
  | begin _ _ => true
  | _ => false

/-- Holds of the beginning of a cycle for the document. -/
def begins (id : DocumentId) : Move → Bool
  | begin _ c => c.document.id = id
  | _ => false

/-- Holds of what takes the place of a document away from the cycle that has it. -/
def displaces (id : DocumentId) : Move → Bool
  | begin _ c => c.document.id = id
  | forget other => other = id
  | cancelAll => true
  | _ => false

end Move

/-- A session and the cycles that are under way, latest first. -/
structure Course where
  session : Session
  underWay : List PreparedCycle
deriving DecidableEq

namespace Course

/-- Nothing has happened yet. -/
def start (settings : Settings) (registry : Registry) : Course :=
  { session := withRegistry settings registry, underWay := [] }

/-- One move, which has to be possible and to be answered as it says. -/
def step? (s : Course) : Move → Option Course
  | .begin m c =>
    match s.session.prepare m c.document with
    | (session, .ok begun) =>
      if begun = c then some { session, underWay := c :: s.underWay } else none
    | (_, .error _) => none
  | .decline m d outcome =>
    match s.session.prepare m d with
    | (session, .error answer) => if answer = outcome then some { s with session } else none
    | (_, .ok _) => none
  | .complete c kind result outcome =>
    if c ∈ s.underWay ∧ (s.session.complete kind c result).2 = outcome then
      some
        { session := (s.session.complete kind c result).1, underWay := s.underWay.erase c }
    else none
  | .forget id => some { s with session := s.session.forget id }
  | .cancelAll => some { s with session := s.session.cancelAll }

/-- Moves in order. -/
def run? (s : Course) (moves : List Move) : Option Course := moves.foldlM step? s

/-! ### What a move does -/

/-- What each move does and when it is possible. -/
inductive Step (s : Course) : Move → Course → Prop
  | begin {m : Machine} {c : PreparedCycle} (henable : s.session.settings.enable = true)
      (hlua : c.document.isLua = true) (hnumber : c.generation = s.session.nextGeneration)
      (hcommand : c.command = s.session.commandFor m c.document) :
      Step s (.begin m c)
        { session := s.session.begin c.document.id, underWay := c :: s.underWay }
  | decline {m : Machine} {d : Document} {outcome : LintOutcome}
      (hprepare : s.session.prepare m d = (s.session, .error outcome)) :
      Step s (.decline m d outcome) s
  /-- A cycle that lost its place ends. -/
  | late {c : PreparedCycle} {kind : EventKind} {result : CycleResult}
      (hmem : c ∈ s.underWay) (hlate : s.session.isLatest c = false) :
      Step s (.complete c kind result .superseded)
        { s with underWay := s.underWay.erase c }
  /-- A cycle that holds its place ends. -/
  | finish {c : PreparedCycle} {kind : EventKind} {result : CycleResult}
      {outcome : LintOutcome} (hmem : c ∈ s.underWay) (hlatest : s.session.isLatest c = true)
      (houtcome : (s.session.complete kind c result).2 = outcome) :
      Step s (.complete c kind result outcome)
        { session := (s.session.complete kind c result).1, underWay := s.underWay.erase c }
  | forget {id : DocumentId} :
      Step s (.forget id) { s with session := s.session.forget id }
  | cancelAll : Step s .cancelAll { s with session := s.session.cancelAll }

variable {s t : Course} {a : Move}

theorem step_of_step? (h : s.step? a = some t) : Step s a t := by
  cases a with
  | begin m c =>
    rw [step?] at h
    split at h
    · rename_i session begun hprepare
      obtain ⟨henable, hlua, rfl, hbegun⟩ := prepare_eq_ok_iff.mp hprepare
      split at h
      · rename_i heq
        have hc := heq.symm.trans hbegun
        obtain rfl := Option.some.inj h
        exact .begin henable hlua (congrArg PreparedCycle.generation hc)
          (congrArg PreparedCycle.command hc)
      · exact absurd h (by simp)
    · exact absurd h (by simp)
  | decline m d outcome =>
    rw [step?] at h
    split at h
    · rename_i session answer hprepare
      obtain rfl := session_of_prepare_eq_error hprepare
      split at h
      · rename_i heq
        subst heq
        obtain rfl := Option.some.inj h
        exact .decline hprepare
      · exact absurd h (by simp)
    · exact absurd h (by simp)
  | complete c kind result outcome =>
    rw [step?] at h
    split at h
    · rename_i hpossible
      obtain ⟨hmem, houtcome⟩ := hpossible
      obtain rfl := Option.some.inj h
      cases hlatest : s.session.isLatest c with
      | true => exact .finish hmem hlatest houtcome
      | false =>
        rw [complete_of_not_isLatest kind result hlatest] at houtcome ⊢
        subst houtcome
        exact .late hmem hlatest
    · exact absurd h (by simp)
  | forget id =>
    obtain rfl := Option.some.inj h
    exact .forget
  | cancelAll =>
    obtain rfl := Option.some.inj h
    exact .cancelAll

theorem step?_of_step (h : Step s a t) : s.step? a = some t := by
  cases h with
  | @begin m c henable hlua hnumber hcommand =>
    have hc : c = ⟨s.session.nextGeneration, c.document, s.session.commandFor m c.document⟩ := by
      rw [← hnumber, ← hcommand]
    have hprepare := prepare_eq_ok_iff.mpr ⟨henable, hlua, rfl, hc⟩
    simp only [step?, hprepare, if_true]
  | decline hprepare => simp only [step?, hprepare, if_true]
  | late hmem hlate =>
    rw [step?, complete_of_not_isLatest _ _ hlate, if_pos ⟨hmem, rfl⟩]
  | finish hmem hlatest houtcome => rw [step?, if_pos ⟨hmem, houtcome⟩]
  | forget => rfl
  | cancelAll => rfl

theorem step?_eq_some_iff : s.step? a = some t ↔ Step s a t :=
  ⟨step_of_step?, step?_of_step⟩

/-! ### Sequences of moves -/

@[simp] theorem run?_nil (s : Course) : s.run? [] = some s := rfl

theorem run?_cons_eq_some_iff {moves : List Move} :
    s.run? (a :: moves) = some t ↔ ∃ u, Step s a u ∧ u.run? moves = some t := by
  simp only [run?, List.foldlM_cons, Option.bind_eq_bind, Option.bind_eq_some_iff,
    step?_eq_some_iff]

theorem run?_append_eq_some_iff {xs ys : List Move} :
    s.run? (xs ++ ys) = some t ↔ ∃ u, s.run? xs = some u ∧ u.run? ys = some t := by
  simp only [run?, List.foldlM_append, Option.bind_eq_bind, Option.bind_eq_some_iff]

/-- What every move of a sequence keeps, the sequence keeps. -/
theorem run_keeps {P : Course → Prop} {moves : List Move}
    (hstep : ∀ a ∈ moves, ∀ s t : Course, Step s a t → P s → P t)
    (hrun : s.run? moves = some t) (hs : P s) : P t := by
  induction moves generalizing s with
  | nil =>
    obtain rfl := Option.some.inj hrun
    exact hs
  | cons a moves ih =>
    obtain ⟨u, hu, hrest⟩ := run?_cons_eq_some_iff.mp hrun
    exact ih (fun b hb => hstep b (List.mem_cons_of_mem _ hb)) hrest
      (hstep a List.mem_cons_self s u hu hs)

/-! ### Numbers -/

/-- Each beginning of a cycle takes one number. -/
theorem nextGeneration_of_step (h : Step s a t) :
    t.session.nextGeneration = s.session.nextGeneration + if a.isBegin then 1 else 0 := by
  cases h with
  | begin henable hlua hnumber hcommand => rfl
  | decline hprepare => rfl
  | late hmem hlate => rfl
  | @finish c kind result outcome hmem hlatest houtcome =>
    obtain ⟨-, -, hnext, -, -⟩ := complete_rest kind result hlatest
    exact hnext
  | @forget id => exact s.session.nextGeneration_forget id
  | cancelAll => rfl

theorem nextGeneration_of_run {moves : List Move} (hrun : s.run? moves = some t) :
    t.session.nextGeneration = s.session.nextGeneration + moves.countP Move.isBegin := by
  induction moves generalizing s with
  | nil =>
    obtain rfl := Option.some.inj hrun
    rfl
  | cons a moves ih =>
    obtain ⟨u, hu, hrest⟩ := run?_cons_eq_some_iff.mp hrun
    rw [ih hrest, nextGeneration_of_step hu, List.countP_cons]
    omega

/-- A counter of 64 bits that stands at one in the beginning and is moved on, and round, by
every cycle that begins. -/
def counter (moves : List Move) : UInt64 :=
  moves.foldl (fun n a => if a.isBegin then n + 1 else n) 1

theorem toNat_counter (moves : List Move) :
    (counter moves).toNat = (1 + moves.countP Move.isBegin) % UInt64.size := by
  have hfrom : ∀ n : UInt64, (moves.foldl (fun n a => if a.isBegin then n + 1 else n) n).toNat
      = (n.toNat + moves.countP Move.isBegin) % UInt64.size := by
    induction moves with
    | nil =>
      intro n
      exact (Nat.mod_eq_of_lt n.toNat_lt_size).symm
    | cons a moves ih =>
      intro n
      rw [List.foldl_cons, ih, List.countP_cons]
      cases a.isBegin with
      | true =>
        rw [if_pos rfl, if_pos rfl, UInt64.toNat_add, UInt64.toNat_one, UInt64.size]
        omega
      | false => rfl
  exact hfrom 1

/-- **The number of a cycle is one more than the number of cycles that began before**, and it is
what the counter of 64 bits says exactly when these were fewer than `UInt64.size - 1`. -/
theorem generation_eq_counter_iff {settings : Settings} {registry : Registry}
    {moves : List Move} {m : Machine} {c : PreparedCycle}
    (hrun : (start settings registry).run? moves = some s) (h : Step s (.begin m c) t) :
    c.generation = 1 + moves.countP Move.isBegin ∧
      (c.generation = (counter moves).toNat ↔ moves.countP Move.isBegin < UInt64.size - 1) := by
  have hnumber : c.generation = 1 + moves.countP Move.isBegin := by
    have hnext := nextGeneration_of_run hrun
    cases h with
    | begin henable hlua hnumber hcommand => exact hnumber.trans hnext
  refine ⟨hnumber, ?_⟩
  rw [hnumber, toNat_counter, UInt64.size]
  omega

/-! ### Coherence -/

/-- How the cycles under way, the table of cycles and the flags fit together. -/
structure Coherent (s : Course) : Prop where
  below : ∀ c ∈ s.underWay, c.generation < s.session.nextGeneration
  distinct : (s.underWay.map PreparedCycle.generation).Nodup
  /-- Who holds the place of a document is a cycle of that document and under way. -/
  held : ∀ id g, s.session.holder? id = some g →
    ∃ c ∈ s.underWay, c.document.id = id ∧ c.generation = g
  cancelledBelow : ∀ g ∈ s.session.cancelled, g < s.session.nextGeneration
  /-- Exactly the cycles under way that were not cancelled hold the place of their
  documents. -/
  free : ∀ c ∈ s.underWay,
    (s.session.isLatest c = true ↔ c.generation ∉ s.session.cancelled)

/-- Cycles under way have different numbers. -/
theorem Coherent.eq_of_generation_eq (hs : Coherent s) {c d : PreparedCycle}
    (hc : c ∈ s.underWay) (hd : d ∈ s.underWay) (h : c.generation = d.generation) : c = d :=
  List.inj_on_of_nodup_map hs.distinct hc hd h

/-- Two cycles of a document under way cannot both hold its place. -/
theorem Coherent.eq_of_isLatest (hs : Coherent s) {c d : PreparedCycle}
    (hc : c ∈ s.underWay) (hd : d ∈ s.underWay) (hid : c.document.id = d.document.id)
    (hclatest : s.session.isLatest c = true) (hdlatest : s.session.isLatest d = true) :
    c = d := by
  rw [isLatest_iff] at hclatest hdlatest
  rw [hid, hdlatest] at hclatest
  exact hs.eq_of_generation_eq hc hd (Option.some.inj hclatest).symm

theorem Coherent.not_mem_erase (hs : Coherent s) (c : PreparedCycle) :
    c ∉ s.underWay.erase c :=
  (List.Nodup.of_map _ hs.distinct).not_mem_erase

theorem coherent_start (settings : Settings) (registry : Registry) :
    Coherent (start settings registry) where
  below c hc := absurd hc List.not_mem_nil
  distinct := List.nodup_nil
  held id g h := absurd h (by simp [start, withRegistry, new, holder?])
  cancelledBelow g hg := absurd hg List.not_mem_nil
  free c hc := absurd hc List.not_mem_nil

/-- Cancelling the cycle of a document keeps coherence: the cycle that loses the place is
the one whose flag is set. -/
theorem coherent_cancel (hs : Coherent s) (id : DocumentId) :
    Coherent { s with session := s.session.cancel id } := by
  have hnext : (s.session.cancel id).nextGeneration = s.session.nextGeneration :=
    (s.session.cancel_rest id).2.1
  refine ⟨fun c hc => ?_, hs.distinct, fun other g hg => ?_, fun g hg => ?_, fun c hc => ?_⟩
  · rw [hnext]
    exact hs.below c hc
  · rw [holder?_cancel] at hg
    by_cases hother : other = id
    · rw [if_pos hother] at hg
      exact absurd hg (by simp)
    · rw [if_neg hother] at hg
      exact hs.held other g hg
  · rw [hnext]
    rcases (s.session.mem_cancelled_cancel id).mp hg with hholder | hg
    · obtain ⟨c, hc, -, rfl⟩ := hs.held id g hholder
      exact hs.below c hc
    · exact hs.cancelledBelow g hg
  · rw [isLatest_iff, holder?_cancel, mem_cancelled_cancel]
    have hfree := hs.free c hc
    rw [isLatest_iff] at hfree
    by_cases hid : c.document.id = id
    · -- Whether or not the cycle held the place, its flag is set now.
      rw [if_pos hid, ← hid]
      have hflag : s.session.holder? c.document.id = some c.generation
          ∨ c.generation ∈ s.session.cancelled := by
        by_cases hflag : c.generation ∈ s.session.cancelled
        · exact .inr hflag
        · exact .inl (hfree.mpr hflag)
      simp [hflag]
    · have hnot : s.session.holder? id ≠ some c.generation := by
        intro hholder
        obtain ⟨d, hd, hdid, hgeneration⟩ := hs.held id _ hholder
        rw [hs.eq_of_generation_eq hd hc hgeneration] at hdid
        exact hid hdid
      rw [if_neg hid, hfree, or_iff_right hnot]

theorem coherent_begin (hs : Coherent s) {c : PreparedCycle}
    (hnumber : c.generation = s.session.nextGeneration) :
    Coherent
      { session := s.session.begin c.document.id, underWay := c :: s.underWay } := by
  -- The place is free once the earlier cycle is cancelled.
  have hu := coherent_cancel hs c.document.id
  have hnew : ∀ d ∈ s.underWay, d.generation ≠ c.generation := fun d hd heq => by
    have hlt := hs.below d hd
    omega
  refine ⟨fun d hd => ?_, ?_, fun id g hg => ?_, fun g hg => ?_, fun d hd => ?_⟩
  · rw [nextGeneration_begin]
    rcases List.mem_cons.mp hd with rfl | hd
    · omega
    · have hlt := hs.below d hd
      omega
  · refine List.nodup_cons.mpr ⟨fun hmem => ?_, hs.distinct⟩
    obtain ⟨d, hd, heq⟩ := List.mem_map.mp hmem
    exact hnew d hd heq
  · rw [holder?_begin] at hg
    by_cases hid : id = c.document.id
    · rw [if_pos hid] at hg
      exact ⟨c, List.mem_cons_self, hid.symm, hnumber.trans (Option.some.inj hg)⟩
    · rw [if_neg hid] at hg
      obtain ⟨d, hd, hd'⟩ := hs.held id g hg
      exact ⟨d, List.mem_cons_of_mem _ hd, hd'⟩
  · have hlt := hu.cancelledBelow g hg
    rw [(s.session.cancel_rest c.document.id).2.1] at hlt
    rw [nextGeneration_begin]
    omega
  · rw [isLatest_iff, holder?_begin]
    rcases List.mem_cons.mp hd with rfl | hd
    · have hclear : d.generation ∉ (s.session.begin d.document.id).cancelled := fun hg => by
        have hlt := hu.cancelledBelow _ hg
        rw [(s.session.cancel_rest d.document.id).2.1] at hlt
        omega
      rw [if_pos rfl, hnumber]
      rw [hnumber] at hclear
      simp [hclear]
    · have hfree := hu.free d hd
      rw [isLatest_iff, holder?_cancel] at hfree
      by_cases hid : d.document.id = c.document.id
      · rw [if_pos hid] at hfree ⊢
        have hne : ¬ some s.session.nextGeneration = some d.generation := fun heq => by
          have hgeneration := Option.some.inj heq
          exact hnew d hd (by omega)
        simp only [hne, false_iff]
        exact hfree.not.mp (by simp)
      · rw [if_neg hid] at hfree ⊢
        exact hfree

theorem coherent_cancelAll (hs : Coherent s) :
    Coherent { s with session := s.session.cancelAll } := by
  refine ⟨hs.below, hs.distinct, fun id g hg => absurd hg (by simp), fun g hg => ?_,
    fun c hc => ?_⟩
  · rcases s.session.mem_cancelled_cancelAll.mp hg with ⟨id, hholder⟩ | hg
    · obtain ⟨c, hc, -, rfl⟩ := hs.held id g hholder
      exact hs.below c hc
    · exact hs.cancelledBelow g hg
  · have hflag : c.generation ∈ s.session.cancelAll.cancelled := by
      rw [mem_cancelled_cancelAll]
      by_cases hflag : c.generation ∈ s.session.cancelled
      · exact .inr hflag
      · exact .inl ⟨_, isLatest_iff.mp ((hs.free c hc).mpr hflag)⟩
    rw [isLatest_iff, holder?_cancelAll]
    simp [hflag]

theorem coherent_late (hs : Coherent s) {c : PreparedCycle}
    (hlate : s.session.isLatest c = false) :
    Coherent { s with underWay := s.underWay.erase c } := by
  have hsub : ∀ d ∈ s.underWay.erase c, d ∈ s.underWay := fun d hd => List.mem_of_mem_erase hd
  refine ⟨fun d hd => hs.below d (hsub d hd),
    hs.distinct.sublist (List.erase_sublist.map _), fun id g hg => ?_, hs.cancelledBelow,
    fun d hd => hs.free d (hsub d hd)⟩
  obtain ⟨d, hd, rfl, rfl⟩ := hs.held id g hg
  have hne : d ≠ c := by
    rintro rfl
    rw [isLatest_iff.mpr hg] at hlate
    exact absurd hlate (by simp)
  exact ⟨d, (List.mem_erase_of_ne hne).mpr hd, rfl, rfl⟩

theorem coherent_finish (hs : Coherent s) {c : PreparedCycle} (hc : c ∈ s.underWay)
    (hlatest : s.session.isLatest c = true) (kind : EventKind) (result : CycleResult) :
    Coherent
      { session := (s.session.complete kind c result).1
        underWay := s.underWay.erase c } := by
  obtain ⟨-, hholder, hnext, hcancelled, -⟩ := complete_rest kind result hlatest
  have hsub : ∀ d ∈ s.underWay.erase c, d ∈ s.underWay := fun d hd => List.mem_of_mem_erase hd
  refine ⟨fun d hd => ?_, hs.distinct.sublist (List.erase_sublist.map _),
    fun id g hg => ?_, fun g hg => ?_, fun d hd => ?_⟩
  · rw [hnext]
    exact hs.below d (hsub d hd)
  · rw [hholder] at hg
    by_cases hid : id = c.document.id
    · rw [if_pos hid] at hg
      exact absurd hg (by simp)
    · rw [if_neg hid] at hg
      obtain ⟨d, hd, rfl, rfl⟩ := hs.held id g hg
      have hne : d ≠ c := fun heq => hid (heq ▸ rfl)
      exact ⟨d, (List.mem_erase_of_ne hne).mpr hd, rfl, rfl⟩
  · rw [hnext]
    rw [hcancelled] at hg
    exact hs.cancelledBelow g hg
  · rw [hcancelled, ← hs.free d (hsub d hd), isLatest_iff, isLatest_iff, hholder]
    by_cases hid : d.document.id = c.document.id
    · have hnot : s.session.holder? d.document.id ≠ some d.generation := fun hd' => by
        have heq := hs.eq_of_isLatest (hsub d hd) hc hid (isLatest_iff.mpr hd') hlatest
        exact hs.not_mem_erase c (heq ▸ hd)
      rw [if_pos hid]
      simp [hnot]
    · rw [if_neg hid]

/-- Every move keeps coherence. -/
theorem coherent_of_step (h : Step s a t) (hs : Coherent s) : Coherent t := by
  cases h with
  | begin henable hlua hnumber hcommand => exact coherent_begin hs hnumber
  | decline hprepare => exact hs
  | late hmem hlate => exact coherent_late hs hlate
  | finish hmem hlatest houtcome => exact coherent_finish hs hmem hlatest _ _
  | @forget id =>
    -- The registry is no part of what coherence speaks about.
    obtain ⟨hbelow, hdistinct, hheld, hcancelledBelow, hfree⟩ := coherent_cancel hs id
    exact ⟨hbelow, hdistinct, hheld, hcancelledBelow, hfree⟩
  | cancelAll => exact coherent_cancelAll hs

theorem coherent_of_run {moves : List Move} (hrun : s.run? moves = some t)
    (hs : Coherent s) : Coherent t :=
  run_keeps (fun _ _ _ _ h hu => coherent_of_step h hu) hrun hs

end Course

end Session

end LuaDiagnostics
