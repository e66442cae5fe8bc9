/-
Which cancellations reach a compiler.

A cancellation sets a flag and then looks into a slot; the cycle fills the slot, looks at
the flag and later empties the slot before it waits.  The flag covers the time before the
slot is full, the slot the time after the flag was looked at.  What neither covers is the
wait itself:

* **`hasEnded_iff_of_tested`**: once the cycle has looked at the flag, the compiler has
  ended exactly when it did so by itself, the flag was set before it was looked at, or a
  cancellation looked into the slot before it was emptied.  A cancellation that has done
  both and missed the compiler finds the cycle waiting for one that closed its streams.
* **`late_cancellation_is_lost`**: such a compiler is not killed, and the cycle waits until
  it ends by itself.

The proof follows a run from its first action on and compares the state with the actions so
far (`Tracked`).
-/
import LuaDiagnostics.Compiler.Cycle
import Mathlib.Data.List.Induction
import Mathlib.Tactic.ByContra

namespace LuaDiagnostics.Cycle

/-! ### Steps -/

/-- What each action does and when it is possible. -/
inductive Step (s : State) : Action → State → Prop
  | spawn (hphase : s.phase = .ready) :
      Step s .spawn { s with phase := .spawned, child := some .fresh }
  | store (hphase : s.phase = .spawned) :
      Step s .store { s with phase := .stored, slotFull := true }
  /-- The flag is not set. -/
  | pass (hphase : s.phase = .stored) (hflag : s.cancelled = false) :
      Step s .testFlag { s with phase := .reading }
  /-- The flag is set. -/
  | notice (hphase : s.phase = .stored) (hflag : s.cancelled = true) :
      Step s .testFlag { s with phase := .confirming }
  | confirmFlag (hphase : s.phase = .confirming) :
      Step s .confirmFlag { s with phase := .killing, cancelled := true }
  | killOwn (hphase : s.phase = .killing) :
      Step s .killOwn { s.killInSlot with phase := .reading }
  | read (hphase : s.phase = .reading) (hsilent : s.child.any Child.isSilent = true) :
      Step s .read { s with phase := .drained }
  | take (hphase : s.phase = .drained) :
      Step s .take { s with phase := .waiting, slotFull := false }
  | wait {code : Option Nat} (hphase : s.phase = .waiting)
      (hended : s.child.bind Child.ended = some code) :
      Step s .wait { s with phase := .returned code s.cancelled }
  | setFlag : Step s .setFlag { s with cancelled := true, pendingCancels := s.pendingCancels + 1 }
  | killOther (hpending : 0 < s.pendingCancels) :
      Step s .killOther { s.killInSlot with
        pendingCancels := s.pendingCancels - 1, finishedCancels := s.finishedCancels + 1 }
  | write {bytes : List UInt8} {c : Child} (hchild : s.child = some c) (hlive : c.ended = none) :
      Step s (.write bytes) { s with child := some { c with written := c.written ++ bytes } }
  | print {bytes : List UInt8} {c : Child} (hchild : s.child = some c) (hlive : c.ended = none) :
      Step s (.print bytes) { s with child := some { c with printed := c.printed ++ bytes } }
  | closeStreams {c : Child} (hchild : s.child = some c) (hlive : c.ended = none) :
      Step s .closeStreams { s with child := some { c with closed := true } }
  | exit {code : Option Nat} {c : Child} (hchild : s.child = some c) (hlive : c.ended = none) :
      Step s (.exit code) { s with child := some { c with ended := some code } }

variable {s t : State} {a b x : Action} {xs : List Action}

theorem childStep_eq_some {change : Child → Child} (h : childStep s change = some t) :
    ∃ c, s.child = some c ∧ c.ended = none ∧ t = { s with child := some (change c) } := by
  rw [childStep] at h
  split at h
  · rename_i c hchild
    split at h
    · rename_i hlive
      exact ⟨c, hchild, Option.isNone_iff_eq_none.mp hlive, (Option.some.inj h).symm⟩
    · exact absurd h (by simp)
  · exact absurd h (by simp)

theorem streamStep_eq_some {change : Child → Child} (h : streamStep s change = some t) :
    ∃ c, s.child = some c ∧ c.ended = none ∧ t = { s with child := some (change c) } := by
  rw [streamStep] at h
  split at h
  · exact absurd h (by simp)
  · exact childStep_eq_some h

/-- An action with a guard is possible only when the guard holds. -/
theorem of_ite_eq_some {p : Prop} [Decidable p] {u : State}
    (h : (if p then some u else none) = some t) : p ∧ t = u := by
  by_cases hp : p
  · rw [if_pos hp] at h
    exact ⟨hp, (Option.some.inj h).symm⟩
  · rw [if_neg hp] at h
    exact absurd h (by simp)

theorem step_of_eq_some (h : step s a = some t) : Step s a t := by
  cases a with
  | spawn =>
    obtain ⟨hphase, rfl⟩ := of_ite_eq_some h
    exact .spawn hphase
  | store =>
    obtain ⟨hphase, rfl⟩ := of_ite_eq_some h
    exact .store hphase
  | testFlag =>
    obtain ⟨hphase, rfl⟩ := of_ite_eq_some h
    by_cases hflag : s.cancelled = true
    · rw [if_pos hflag]
      exact .notice hphase hflag
    · rw [if_neg hflag]
      exact .pass hphase (Bool.not_eq_true _ ▸ hflag)
  | confirmFlag =>
    obtain ⟨hphase, rfl⟩ := of_ite_eq_some h
    exact .confirmFlag hphase
  | killOwn =>
    obtain ⟨hphase, rfl⟩ := of_ite_eq_some h
    exact .killOwn hphase
  | read =>
    obtain ⟨⟨hphase, hsilent⟩, rfl⟩ := of_ite_eq_some h
    exact .read hphase hsilent
  | take =>
    obtain ⟨hphase, rfl⟩ := of_ite_eq_some h
    exact .take hphase
  | wait =>
    rw [step] at h
    split at h
    · rename_i code hphase hended
      obtain rfl := Option.some.inj h
      exact .wait hphase hended
    · exact absurd h (by simp)
  | setFlag =>
    obtain rfl := Option.some.inj h
    exact .setFlag
  | killOther =>
    obtain ⟨hpending, rfl⟩ := of_ite_eq_some h
    exact .killOther hpending
  | write bytes =>
    obtain ⟨c, hchild, hlive, rfl⟩ := streamStep_eq_some h
    exact .write hchild hlive
  | print bytes =>
    obtain ⟨c, hchild, hlive, rfl⟩ := streamStep_eq_some h
    exact .print hchild hlive
  | closeStreams =>
    obtain ⟨c, hchild, hlive, rfl⟩ := childStep_eq_some h
    exact .closeStreams hchild hlive
  | exit code =>
    obtain ⟨c, hchild, hlive, rfl⟩ := childStep_eq_some h
    exact .exit hchild hlive

/-! ### The order of actions -/

/-- The first action occurs before the second has occurred. -/
def Before (a b : Action) (xs : List Action) : Prop :=
  ∃ earlier later, xs = earlier ++ a :: later ∧ b ∉ earlier

theorem before_concat_iff : Before a b (xs ++ [x]) ↔ Before a b xs ∨ x = a ∧ b ∉ xs := by
  constructor
  · rintro ⟨earlier, later, h, hb⟩
    rcases List.eq_nil_or_concat later with rfl | ⟨front, y, rfl⟩
    · obtain ⟨rfl, hx⟩ := List.append_inj' h rfl
      exact .inr ⟨List.head_eq_of_cons_eq hx, hb⟩
    · rw [List.concat_eq_append, ← List.cons_append, ← List.append_assoc] at h
      exact .inl ⟨earlier, front, (List.append_inj' h rfl).1, hb⟩
  · rintro (⟨earlier, later, rfl, hb⟩ | ⟨rfl, hb⟩)
    · exact ⟨earlier, later ++ [x], by simp, hb⟩
    · exact ⟨xs, [], rfl, hb⟩

/-! ### Phases -/

namespace Phase

/-- The flag was looked at. -/
def hasLooked : Phase → Bool
  | ready | spawned | stored => false
  | _ => true

/-- The flag was found set, and the cycle has not yet looked into the slot. -/
def isAboutToKill : Phase → Bool
  | confirming | killing => true
  | _ => false

/-- The compiler was taken out of the slot. -/
def hasTaken : Phase → Bool
  | waiting | returned _ _ => true
  | _ => false

end Phase

namespace State

/-- The cycle has looked at the flag and, where it was set, into the slot. -/
def hasTested (s : State) : Bool := s.phase.hasLooked && !s.phase.isAboutToKill

@[simp] theorem phase_killInSlot (s : State) : s.killInSlot.phase = s.phase := by
  rw [killInSlot]
  split <;> rfl

@[simp] theorem cancelled_killInSlot (s : State) : s.killInSlot.cancelled = s.cancelled := by
  rw [killInSlot]
  split <;> rfl

@[simp] theorem slotFull_killInSlot (s : State) : s.killInSlot.slotFull = s.slotFull := by
  rw [killInSlot]
  split <;> rfl

@[simp] theorem finishedCancels_killInSlot (s : State) :
    s.killInSlot.finishedCancels = s.finishedCancels := by
  rw [killInSlot]
  split <;> rfl

theorem child_killInSlot (s : State) :
    s.killInSlot.child = if s.slotFull then s.child.map Child.kill else s.child := by
  rw [killInSlot]
  split <;> rfl

/-- A look into the slot ends the compiler that it finds there. -/
theorem hasEnded_killInSlot (s : State) : s.killInSlot.hasEnded = true ↔
    s.hasEnded = true ∨ s.slotFull = true ∧ s.child.isSome = true := by
  rw [hasEnded, child_killInSlot]
  cases hslot : s.slotFull <;> cases hchild : s.child with
  | none => simp [hasEnded, hchild]
  | some c => cases hended : c.ended <;> simp [hasEnded, hchild, Child.kill, hended]

end State

/-- How a state fits the phase that it is in. -/
structure Shaped (s : State) : Prop where
  started : s.child.isSome = true ↔ s.phase ≠ .ready
  slot : s.slotFull = true ↔ s.phase ≠ .ready ∧ s.phase ≠ .spawned ∧ s.phase.hasTaken = false
  silent : s.phase = .drained ∨ s.phase = .waiting → s.child.any Child.isSilent = true
  returned : ∀ code cancelled, s.phase = .returned code cancelled → s.hasEnded = true

theorem shaped_initial : Shaped .initial := by
  constructor <;> simp [State.initial, Phase.hasTaken]

theorem shaped_killInSlot (hs : Shaped s) : Shaped s.killInSlot := by
  obtain ⟨hstarted, hslot, hsilent, hreturned⟩ := hs
  refine ⟨?_, ?_, fun hphase => ?_, fun code cancelled hphase => ?_⟩
  · rw [State.phase_killInSlot, State.child_killInSlot, ← hstarted]
    split <;> simp
  · rw [State.phase_killInSlot, State.slotFull_killInSlot]
    exact hslot
  · rw [State.phase_killInSlot] at hphase
    have hany := hsilent hphase
    rw [State.child_killInSlot]
    split
    · cases hchild : s.child with
      | none => simp [hchild] at hany
      | some c => cases hended : c.ended <;> simp [Child.isSilent, Child.kill, hended]
    · exact hany
  · rw [State.phase_killInSlot] at hphase
    exact s.hasEnded_killInSlot.mpr (.inl (hreturned code cancelled hphase))

theorem shaped_of_step (h : Step s a t) (hs : Shaped s) : Shaped t := by
  have hkill := shaped_killInSlot hs
  obtain ⟨hstarted, hslot, hsilent, hreturned⟩ := hs
  obtain ⟨hstarted', hslot', hsilent', hreturned'⟩ := hkill
  cases h <;> constructor <;> simp_all [Phase.hasTaken, State.hasEnded, Child.isSilent]

/-! ### What the actions so far say about a state -/

/-- How a state fits the actions that led to it. -/
structure Tracked (xs : List Action) (s : State) : Prop where
  looked : .testFlag ∈ xs ↔ s.phase.hasLooked = true
  taken : .take ∈ xs ↔ s.phase.hasTaken = true
  flag : s.cancelled = true ↔ .setFlag ∈ xs
  pending : 0 < s.pendingCancels → .setFlag ∈ xs
  finished : 0 < s.finishedCancels ↔ .killOther ∈ xs
  /-- The flag that was found set had been set before. -/
  noticed : s.phase.isAboutToKill = true → Before .setFlag .testFlag xs

theorem Before.mem (h : Before a b xs) : a ∈ xs := by
  obtain ⟨earlier, later, rfl, -⟩ := h
  simp

theorem before_of_mem (ha : a ∈ xs) (hb : b ∉ xs) : Before a b xs := by
  obtain ⟨earlier, later, rfl⟩ := List.append_of_mem ha
  exact ⟨earlier, later, rfl, fun h => hb (List.mem_append_left _ h)⟩

theorem tracked_initial : Tracked [] .initial := by
  constructor <;> simp [State.initial, Phase.hasLooked, Phase.hasTaken, Phase.isAboutToKill]

theorem tracked_of_step (h : Step s a t) (hs : Tracked xs s) : Tracked (xs ++ [a]) t := by
  have hmem := fun h => Before.mem (hs.noticed h)
  obtain ⟨hlooked, htaken, hflag, hpending, hfinished, hnoticed⟩ := hs
  have hbefore := @before_of_mem .setFlag .testFlag xs
  cases h <;> constructor <;>
    simp_all [before_concat_iff, Phase.hasLooked, Phase.hasTaken, Phase.isAboutToKill]

/-! ### The end of the compiler -/

/-- Nothing brings a compiler back. -/
theorem hasEnded_of_step (h : Step s a t) (hshape : Shaped s) (hs : s.hasEnded = true) :
    t.hasEnded = true := by
  have hkill := s.hasEnded_killInSlot.mpr (.inl hs)
  cases h with
  | spawn hphase =>
    -- There is no compiler yet that could have ended.
    have hnone : s.child = none := by
      have hstarted := hshape.started
      simpa [hphase] using hstarted
    rw [State.hasEnded, hnone] at hs
    exact absurd hs (by simp)
  | _ => simp_all [State.hasEnded]

/-- What may have ended a compiler that ran before. -/
theorem cause_of_step (h : Step s a t) (ht : t.hasEnded = true) :
    s.hasEnded = true ∨ (∃ code, a = .exit code) ∨ (s.phase = .killing ∧ a = .killOwn) ∨
      (s.slotFull = true ∧ a = .killOther) := by
  have hkill := s.hasEnded_killInSlot
  cases h with
  | spawn hphase => exact absurd ht (by simp [State.hasEnded, Child.fresh])
  | killOther hpending =>
    rcases hkill.mp ht with hended | ⟨hslot, -⟩
    · exact .inl hended
    · exact .inr (.inr (.inr ⟨hslot, rfl⟩))
  | _ => simp_all [State.hasEnded]

/-- A cycle comes to have looked by finding the flag clear or by killing its compiler. -/
theorem hasTested_of_step (h : Step s a t) (ht : t.hasTested = true) :
    s.hasTested = true ∨ (a = .testFlag ∧ s.cancelled = false) ∨ a = .killOwn := by
  cases h <;> simp_all [State.hasTested, Phase.hasLooked, Phase.isAboutToKill]

/-- What ends a compiler, in terms of the actions so far. -/
structure Reached (xs : List Action) (s : State) : Prop where
  exited : (∃ code, .exit code ∈ xs) → s.hasEnded = true
  /-- A flag set early is noticed. -/
  early : Before .setFlag .testFlag xs → s.hasTested = true → s.hasEnded = true
  /-- Who looks into the slot in time finds the compiler, or has set the flag early. -/
  inTime : Before .killOther .take xs →
    s.hasEnded = true ∨ Before .setFlag .testFlag xs
  cause : s.hasEnded = true →
    (∃ code, .exit code ∈ xs) ∨ Before .setFlag .testFlag xs ∨ Before .killOther .take xs

theorem reached_initial : Reached [] .initial := by
  constructor <;> simp [State.initial, State.hasEnded, State.hasTested, Phase.hasLooked, Before]

theorem reached_of_step (h : Step s a t) (hshape : Shaped s) (hs : Tracked xs s)
    (hr : Reached xs s) : Reached (xs ++ [a]) t := by
  refine ⟨?_, fun hearly htested => ?_, fun hintime => ?_, fun hended => ?_⟩
  · rintro ⟨code, hmem⟩
    rcases List.mem_append.mp hmem with hmem | hmem
    · exact hasEnded_of_step h hshape (hr.exited ⟨code, hmem⟩)
    · obtain rfl := List.mem_singleton.mp hmem
      cases h with
      | exit hchild hlive => rfl
  · rcases before_concat_iff.mp hearly with hearly | ⟨rfl, hlook⟩
    · have hset := hs.flag.mpr hearly.mem
      rcases hasTested_of_step h htested with htested | ⟨rfl, hflag⟩ | rfl
      · exact hasEnded_of_step h hshape (hr.early hearly htested)
      · -- The flag is set, so the cycle does not find it clear.
        exact absurd hset (by simp [hflag])
      · cases h with
        | killOwn hphase =>
          refine s.hasEnded_killInSlot.mpr (.inr ⟨hshape.slot.mpr ?_, hshape.started.mpr ?_⟩)
          · simp [hphase, Phase.hasTaken]
          · simp [hphase]
    · -- A flag that is set only now is too late for a cycle that has looked.
      cases h with
      | setFlag =>
        rw [State.hasTested, Bool.and_eq_true] at htested
        exact absurd (hs.looked.mpr htested.1) hlook
  · rcases before_concat_iff.mp hintime with hintime | ⟨rfl, htake⟩
    · rcases hr.inTime hintime with hended | hearly
      · exact .inl (hasEnded_of_step h hshape hended)
      · exact .inr (before_concat_iff.mpr (.inl hearly))
    · cases h with
      | killOther hpending =>
        have htaken : s.phase.hasTaken = false := by
          rw [← Bool.not_eq_true, ← hs.taken]
          exact htake
        by_cases hslot : s.slotFull = true
        · have hready := (hshape.slot.mp hslot).1
          exact .inl (s.hasEnded_killInSlot.mpr (.inr ⟨hslot, hshape.started.mpr hready⟩))
        · -- The slot is still empty, so the cycle has yet to look at the flag.
          have hphase : s.phase = .ready ∨ s.phase = .spawned := by
            by_contra hphase
            rw [not_or] at hphase
            exact hslot (hshape.slot.mpr ⟨hphase.1, hphase.2, htaken⟩)
          have hlook : .testFlag ∉ xs := by
            rw [hs.looked]
            rcases hphase with hphase | hphase <;> simp [hphase, Phase.hasLooked]
          exact .inr (before_concat_iff.mpr (.inl (before_of_mem (hs.pending hpending) hlook)))
  · rcases cause_of_step h hended with hended | ⟨code, rfl⟩ | ⟨hphase, rfl⟩ | ⟨hslot, rfl⟩
    · rcases hr.cause hended with ⟨code, hmem⟩ | hearly | hintime
      · exact .inl ⟨code, List.mem_append_left _ hmem⟩
      · exact .inr (.inl (before_concat_iff.mpr (.inl hearly)))
      · exact .inr (.inr (before_concat_iff.mpr (.inl hintime)))
    · exact .inl ⟨code, List.mem_append_right _ List.mem_cons_self⟩
    · have hearly := hs.noticed (by simp [hphase, Phase.isAboutToKill])
      exact .inr (.inl (before_concat_iff.mpr (.inl hearly)))
    · have htake : .take ∉ xs := by
        rw [hs.taken, (hshape.slot.mp hslot).2.2]
        simp
      exact .inr (.inr (before_concat_iff.mpr (.inr ⟨rfl, htake⟩)))

theorem run?_concat_eq_some_iff {s : State} :
    run? s (xs ++ [a]) = some t ↔ ∃ u, run? s xs = some u ∧ step u a = some t := by
  simp only [run?, List.foldlM_append, List.foldlM_cons, List.foldlM_nil, Option.bind_eq_bind,
    Option.bind_eq_some_iff, Option.pure_def, Option.some.injEq, exists_eq_right]

theorem reached_of_run (hrun : run? .initial xs = some s) :
    Shaped s ∧ Tracked xs s ∧ Reached xs s := by
  induction xs using List.reverseRecOn generalizing s with
  | nil =>
    obtain rfl := Option.some.inj hrun
    exact ⟨shaped_initial, tracked_initial, reached_initial⟩
  | append_singleton xs a ih =>
    obtain ⟨u, hu, hstep⟩ := run?_concat_eq_some_iff.mp hrun
    obtain ⟨hshape, htracked, hreached⟩ := ih hu
    have h := step_of_eq_some hstep
    exact ⟨shaped_of_step h hshape, tracked_of_step h htracked,
      reached_of_step h hshape htracked hreached⟩

/-- **Which cancellations reach the compiler.**  Whatever the cycle, its cancellations and
its compiler did, in whatever order: once the cycle has looked at the flag (and then, where
it was set, into the slot), the compiler has ended exactly when it ended by itself, when
some cancellation set the flag before the cycle looked at it, or when some cancellation
looked into the slot before the cycle emptied it.  When a cancellation has finished and the
compiler still runs, the cycle waits for it, the slot is empty, and the compiler has closed
its streams. -/
theorem hasEnded_iff_of_tested (hrun : run? .initial xs = some s) (htested : s.hasTested = true) :
    (s.hasEnded = true ↔ (∃ code, .exit code ∈ xs) ∨ Before .setFlag .testFlag xs ∨
      Before .killOther .take xs) ∧
    (0 < s.finishedCancels → s.hasEnded = false →
      s.phase = .waiting ∧ s.slotFull = false ∧ s.child.any Child.closed = true) := by
  obtain ⟨hshape, htracked, hreached⟩ := reached_of_run hrun
  have hiff : s.hasEnded = true ↔ (∃ code, .exit code ∈ xs) ∨ Before .setFlag .testFlag xs ∨
      Before .killOther .take xs := by
    refine ⟨hreached.cause, ?_⟩
    rintro (hexit | hearly | hintime)
    · exact hreached.exited hexit
    · exact hreached.early hearly htested
    · rcases hreached.inTime hintime with hended | hearly
      · exact hended
      · exact hreached.early hearly htested
  refine ⟨hiff, fun hfinished hended => ?_⟩
  have hmem := htracked.finished.mp hfinished
  -- Had the compiler not been taken out, the look into the slot would have found it.
  have htake : s.phase.hasTaken = true := by
    rw [← htracked.taken]
    by_contra htake
    rw [hiff.mpr (.inr (.inr (before_of_mem hmem htake)))] at hended
    exact absurd hended (by simp)
  have hphase : s.phase = .waiting := by
    cases hphase : s.phase with
    | waiting => rfl
    | returned code cancelled =>
      rw [hshape.returned code cancelled hphase] at hended
      exact absurd hended (by simp)
    | _ => simp [hphase, Phase.hasTaken] at htake
  refine ⟨hphase, ?_, ?_⟩
  · rw [← Bool.not_eq_true, hshape.slot, htake]
    simp
  · have hsilent := hshape.silent (.inr hphase)
    cases hchild : s.child with
    | none => simp [hchild] at hsilent
    | some c => simp_all [Child.isSilent, State.hasEnded]

/-- A flag that is set before the compiler is started reaches it. -/
theorem early_cancellation_reaches : ∃ s : State,
    run? .initial [.setFlag, .spawn, .store, .testFlag, .confirmFlag, .killOwn] = some s ∧
    s.hasTested = true ∧ s.hasEnded = true := by
  have hrun : run? .initial [.setFlag, .spawn, .store, .testFlag, .confirmFlag, .killOwn]
      = some _ := rfl
  refine ⟨_, hrun, rfl, ?_⟩
  obtain ⟨hiff, -⟩ := hasEnded_iff_of_tested hrun rfl
  exact hiff.mpr (.inr (.inl ⟨[], _, rfl, List.not_mem_nil⟩))

/-- A cancellation that begins when the compiler was taken out of the slot does both of its
steps and leaves a compiler running that nobody kills any more. -/
theorem late_cancellation_is_lost : ∃ s : State,
    run? .initial [.spawn, .store, .testFlag, .closeStreams, .read, .take, .setFlag, .killOther]
      = some s ∧
    s.finishedCancels = 1 ∧ s.pendingCancels = 0 ∧ s.hasTested = true ∧ s.hasEnded = false ∧
    step s .wait = none :=
  ⟨_, rfl, rfl, rfl, rfl, rfl, rfl⟩

end LuaDiagnostics.Cycle
