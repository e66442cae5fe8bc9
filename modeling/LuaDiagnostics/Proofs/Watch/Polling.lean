/-
What polls report.

A poll goes through the watched paths one after the other and changes what is remembered on
the way, so a path that is listed twice meets its own update.  Seen from outside, a poll
compares two snapshots: the one that the last poll saw and the present one.

* **`get?_look`**, **`look_eq_difference`**: what one look leaves behind and what it reports.
* **`lookAll_eq`**: a poll reports the difference between two snapshots, each path once.
* **`polls_report_differences`**: what any sequence of polls reports, and in which order the
  events of one path come.
* **`slash_is_not_seen`**: two spellings of one path that the file system tells apart.
-/
import LuaDiagnostics.Proofs.Watch.Removal
import Mathlib.Data.Nat.Init

namespace LuaDiagnostics.Watcher

/-! ### One look -/

/-- After a look the watcher remembers of the path what there is. -/
theorem get?_look (m? : Path → Option Timestamp) (seen : SortedMap Timestamp) (p : Path)
    (key : String) :
    (look m? seen p).1.get? key = if key = p.normal then m? p else seen.get? key := by
  rw [look.eq_def]
  split
  · rename_i time htime hseen
    rw [SortedMap.get?_insert, htime]
  · rename_i time before htime hseen
    rw [SortedMap.get?_insert, htime]
  · rename_i before htime hseen
    rw [SortedMap.get?_erase, htime]
  · rename_i htime hseen
    split
    · rename_i hkey
      rw [hkey, hseen, htime]
    · rfl

/-- What there is to see at one time: when each file was last changed, if there is one. -/
abbrev Snapshot := Path → Option Timestamp

/-- No file is there. -/
def nothing : Snapshot := fun _ => none

/-- What happened to a path between two snapshots. -/
def difference? (before now : Snapshot) (p : Path) : Option WatchEvent :=
  match before p, now p with
  | none, some _ => some (.opened p)
  | some time, some time' => if time = time' then none else some (.saved p)
  | some _, none => some (.removed p)
  | none, none => none

variable {before now : Snapshot} {seen : SortedMap Timestamp} {paths : List Path} {p q : Path}

/-- A look reports what happened since. -/
theorem look_eq_difference (h : seen.get? p.normal = before p) :
    (look now seen p).2 = difference? before now p := by
  rw [look.eq_def, difference?, ← h]
  cases now p with
  | none => cases seen.get? p.normal <;> rfl
  | some time => cases seen.get? p.normal <;> rfl

theorem difference?_eq_none_iff : difference? before now p = none ↔ now p = before p := by
  rw [difference?]
  cases before p with
  | none => cases now p <;> simp
  | some time =>
    cases now p with
    | none => simp
    | some time' => simp [eq_comm]

/-- An event is about the path that was looked at, and a file that was removed is not there. -/
theorem of_difference?_eq_some {e : WatchEvent} (h : difference? before now p = some e) :
    e.path = p ∧ (e = .removed p → now p = none) := by
  rw [difference?] at h
  split at h
  · obtain rfl := Option.some.inj h
    exact ⟨rfl, by simp⟩
  · split at h
    · exact absurd h (by simp)
    · obtain rfl := Option.some.inj h
      exact ⟨rfl, by simp⟩
  · rename_i hgone
    obtain rfl := Option.some.inj h
    exact ⟨rfl, fun _ => hgone⟩
  · exact absurd h (by simp)

/-- What is remembered is the snapshot before, as far as one path goes. -/
theorem look_eq_difference_seen (now : Snapshot) (seen : SortedMap Timestamp) (p : Path) :
    (look now seen p).2 = difference? (fun _ => seen.get? p.normal) now p :=
  look_eq_difference rfl

/-- A look without event finds what the watcher remembers. -/
theorem eq_of_look_eq_none (h : (look now seen p).2 = none) : now p = seen.get? p.normal := by
  rw [look_eq_difference_seen] at h
  exact difference?_eq_none_iff.mp h

/-- A look with an event reports it of its path. -/
theorem path_of_look_eq_some {e : WatchEvent} (h : (look now seen p).2 = some e) :
    e.path = p ∧ (e = .removed p → now p = none) := by
  rw [look_eq_difference_seen] at h
  exact of_difference?_eq_some h

/-- A look that finds what is remembered changes nothing. -/
theorem look_of_eq (h : seen.get? p.normal = now p) : look now seen p = (seen, none) := by
  have hevent : (look now seen p).2 = none := by
    rw [look_eq_difference h]
    exact difference?_eq_none_iff.mpr rfl
  have hseen : (look now seen p).1 = seen := by
    refine SortedMap.ext_get fun key => ?_
    rw [get?_look]
    split
    · rename_i hkey
      rw [hkey, h]
    · rfl
  exact Prod.ext hseen hevent

/-! ### One poll -/

theorem lookAll_cons (rest : List Path) : lookAll now seen (p :: rest) =
    ((lookAll now (look now seen p).1 rest).1,
      (look now seen p).2.toList ++ (lookAll now (look now seen p).1 rest).2) := rfl

/-- Looks at other paths leave what is remembered of one. -/
theorem get?_lookAll_of_forall_ne {key : String} (h : ∀ p ∈ paths, p.normal ≠ key) :
    (lookAll now seen paths).1.get? key = seen.get? key := by
  induction paths generalizing seen with
  | nil => rfl
  | cons p rest ih =>
    rw [List.forall_mem_cons] at h
    obtain ⟨hp, hrest⟩ := h
    rw [lookAll_cons, ih hrest, get?_look, if_neg (Ne.symm hp)]

/-- Watched paths that are the same part by part have the same time. -/
def Uniform (paths : List Path) (now : Snapshot) : Prop :=
  ∀ p ∈ paths, ∀ q ∈ paths, p.normal = q.normal → now p = now q

/-- A poll remembers of each path what there is. -/
theorem get?_lookAll_of_mem (hnow : Uniform paths now) (hp : p ∈ paths) :
    (lookAll now seen paths).1.get? p.normal = now p := by
  induction paths generalizing seen p with
  | nil => exact absurd hp List.not_mem_nil
  | cons q rest ih =>
    have hrest : Uniform rest now := fun p hp p' hp' =>
      hnow p (List.mem_cons_of_mem _ hp) p' (List.mem_cons_of_mem _ hp')
    rw [lookAll_cons]
    by_cases hlater : ∃ p' ∈ rest, p'.normal = p.normal
    · -- The last spelling of the path decides.
      obtain ⟨p', hp', hnormal⟩ := hlater
      rw [← hnormal, ih hrest hp']
      exact hnow p' (List.mem_cons_of_mem _ hp') p hp hnormal
    · have hother : ∀ p' ∈ rest, p'.normal ≠ p.normal := fun p' hp' hnormal =>
        hlater ⟨p', hp', hnormal⟩
      have hq : p = q := (List.mem_cons.mp hp).resolve_right fun h => hother p h rfl
      rw [get?_lookAll_of_forall_ne hother, get?_look, hq, if_pos rfl]

/-- The paths in order, each in the first of its spellings. -/
def distinct (paths : List Path) : List Path := paths.eraseDupsBy fun p q => p.normal = q.normal

/-- The other paths than one. -/
def others (p : Path) (paths : List Path) : List Path := paths.filter fun q => q.normal ≠ p.normal

theorem mem_others_iff : q ∈ others p paths ↔ q ∈ paths ∧ q.normal ≠ p.normal := by
  rw [others, List.mem_filter, decide_eq_true_iff]

theorem distinct_cons (p : Path) (rest : List Path) :
    distinct (p :: rest) = p :: distinct (others p rest) := by
  rw [distinct, List.eraseDupsBy_cons, distinct, others]
  simp

@[elab_as_elim]
theorem distinct_induction {motive : List Path → Prop} (nil : motive [])
    (cons : ∀ p rest, motive (others p rest) → motive (p :: rest)) (paths : List Path) :
    motive paths := by
  induction h : paths.length using Nat.strong_induction_on generalizing paths with
  | _ n ih =>
    cases paths with
    | nil => exact nil
    | cons p rest =>
      refine cons p rest (ih _ ?_ _ rfl)
      rw [← h]
      exact Nat.lt_succ_of_le (List.length_filter_le _ rest)

/-- A path that was looked at may be left out of what follows. -/
theorem lookAll_others (h : ∀ q ∈ paths, q.normal = p.normal → seen.get? p.normal = now q) :
    lookAll now seen paths = lookAll now seen (others p paths) := by
  induction paths generalizing seen with
  | nil => rfl
  | cons q rest ih =>
    rw [List.forall_mem_cons] at h
    obtain ⟨hq, hrest⟩ := h
    by_cases hnormal : q.normal = p.normal
    · have hothers : others p (q :: rest) = others p rest :=
        List.filter_cons_of_neg (by simpa using hnormal)
      have hlook : look now seen q = (seen, none) := look_of_eq (hnormal ▸ hq hnormal)
      rw [hothers, lookAll_cons, hlook, ← ih hrest]
      rfl
    · have hothers : others p (q :: rest) = q :: others p rest :=
        List.filter_cons_of_pos (by simpa using hnormal)
      have hkept : (look now seen q).1.get? p.normal = seen.get? p.normal := by
        rw [get?_look, if_neg (Ne.symm hnormal)]
      rw [hothers, lookAll_cons, lookAll_cons, ih (by rwa [hkept])]

/-- A poll reports what is different, each path once. -/
theorem lookAll_eq (hseen : ∀ p ∈ paths, seen.get? p.normal = before p)
    (hnow : Uniform paths now) :
    (lookAll now seen paths).2 = (distinct paths).filterMap (difference? before now) := by
  induction paths using distinct_induction generalizing seen with
  | nil => rfl
  | cons p rest ih =>
    rw [List.forall_mem_cons] at hseen
    obtain ⟨hp, hrest⟩ := hseen
    -- The later spellings of `p` meet its update, and the other paths do not see it.
    have hlater : ∀ q ∈ rest, q.normal = p.normal → (look now seen p).1.get? p.normal = now q := by
      intro q hq hnormal
      rw [get?_look, if_pos rfl]
      exact hnow p List.mem_cons_self q (List.mem_cons_of_mem _ hq) hnormal.symm
    have hkept : ∀ q ∈ others p rest, (look now seen p).1.get? q.normal = before q := by
      intro q hq
      obtain ⟨hq, hnormal⟩ := mem_others_iff.mp hq
      rw [get?_look, if_neg hnormal, hrest q hq]
    have huniform : Uniform (others p rest) now := fun q hq q' hq' =>
      hnow q (List.mem_cons_of_mem _ (mem_others_iff.mp hq).1) q'
        (List.mem_cons_of_mem _ (mem_others_iff.mp hq').1)
    rw [lookAll_cons, lookAll_others hlater, ih hkept huniform, look_eq_difference hp,
      distinct_cons, List.filterMap_cons]
    cases difference? before now p <;> rfl

/-! ### The course of polls -/

/-- Polls one after the other, with the events of each. -/
def polls (w : Watcher) : List Snapshot → Watcher × List (List WatchEvent)
  | [] => (w, [])
  | now :: later =>
    let (w, events) := w.poll now
    let (w, rest) := w.polls later
    (w, events :: rest)

/-- The differences between successive snapshots. -/
def differences (paths : List Path) (before : Snapshot) : List Snapshot → List (List WatchEvent)
  | [] => []
  | now :: later =>
    (distinct paths).filterMap (difference? before now) :: differences paths now later

variable {w : Watcher} {snapshots : List Snapshot}

theorem polls_cons (now : Snapshot) (later : List Snapshot) : w.polls (now :: later) =
    (((w.poll now).1.polls later).1, (w.poll now).2 :: ((w.poll now).1.polls later).2) := rfl

/-- Polls report the differences between what they see. -/
theorem polls_eq (hseen : ∀ p ∈ w.paths, w.seen.get? p.normal = before p)
    (h : ∀ now ∈ snapshots, Uniform w.paths now) :
    (w.polls snapshots).2 = differences w.paths before snapshots := by
  induction snapshots generalizing w before with
  | nil => rfl
  | cons now later ih =>
    rw [List.forall_mem_cons] at h
    obtain ⟨hnow, hlater⟩ := h
    have hremembered : ∀ p ∈ w.paths, (w.poll now).1.seen.get? p.normal = now p :=
      fun p hp => get?_lookAll_of_mem hnow hp
    have hevents : (w.poll now).2 = (distinct w.paths).filterMap (difference? before now) :=
      lookAll_eq hseen hnow
    have hrest : ((w.poll now).1.polls later).2 = differences w.paths now later :=
      ih hremembered hlater
    rw [polls_cons, hevents, hrest]
    rfl

/-- After any polls the watcher remembers what the last one saw. -/
theorem get?_polls_concat {earlier : List Snapshot} (hnow : Uniform w.paths now)
    (hp : p ∈ w.paths) : (w.polls (earlier ++ [now])).1.seen.get? p.normal = now p := by
  induction earlier generalizing w with
  | nil => exact get?_lookAll_of_mem hnow hp
  | cons first earlier ih => exact ih (w := (w.poll first).1) hnow hp

/-! ### The events of one path -/

theorem mem_of_mem_distinct (h : q ∈ distinct paths) : q ∈ paths := by
  induction paths using distinct_induction with
  | nil => exact h
  | cons p rest ih =>
    rw [distinct_cons] at h
    rcases List.mem_cons.mp h with rfl | h
    · exact List.mem_cons_self
    · exact List.mem_cons_of_mem _ (mem_others_iff.mp (ih h)).1

theorem exists_mem_distinct (hp : p ∈ paths) : ∃ q ∈ distinct paths, q.normal = p.normal := by
  induction paths using distinct_induction with
  | nil => exact absurd hp List.not_mem_nil
  | cons first rest ih =>
    rw [distinct_cons]
    by_cases hnormal : p.normal = first.normal
    · exact ⟨first, List.mem_cons_self, hnormal.symm⟩
    · have hrest : p ∈ rest :=
        (List.mem_cons.mp hp).resolve_left fun heq => hnormal (congrArg Path.normal heq)
      obtain ⟨q, hq, hqp⟩ := ih (mem_others_iff.mpr ⟨hrest, hnormal⟩)
      exact ⟨q, List.mem_cons_of_mem _ hq, hqp⟩

/-- The events of a path, in whatever spelling. -/
def eventsOf (p : Path) (events : List WatchEvent) : List WatchEvent :=
  events.filter fun e => e.path.normal = p.normal

theorem eventsOf_append (p : Path) (es fs : List WatchEvent) :
    eventsOf p (es ++ fs) = eventsOf p es ++ eventsOf p fs := List.filter_append es fs

theorem eventsOf_toList_difference? (hnormal : q.normal = p.normal) :
    eventsOf p (difference? before now q).toList = (difference? before now q).toList := by
  refine List.filter_eq_self.mpr fun e he => ?_
  rw [(of_difference?_eq_some (Option.mem_toList.mp he)).1, hnormal, decide_eq_true_iff]

theorem eventsOf_eq_nil (h : ∀ q ∈ paths, q.normal ≠ p.normal) :
    eventsOf p (paths.filterMap (difference? before now)) = [] := by
  refine List.filter_eq_nil_iff.mpr fun e he => ?_
  obtain ⟨q, hq, hevent⟩ := List.mem_filterMap.mp he
  rw [(of_difference?_eq_some hevent).1, decide_eq_true_iff]
  exact h q hq

/-- Of each path there is at most one event. -/
theorem eventsOf_filterMap_distinct (hq : q ∈ distinct paths) (hnormal : q.normal = p.normal) :
    eventsOf p ((distinct paths).filterMap (difference? before now))
      = (difference? before now q).toList := by
  induction paths using distinct_induction with
  | nil => exact absurd hq List.not_mem_nil
  | cons first rest ih =>
    have hhead : ∀ ps : List Path, (first :: ps).filterMap (difference? before now)
        = (difference? before now first).toList ++ ps.filterMap (difference? before now) := by
      intro ps
      rw [List.filterMap_cons]
      cases difference? before now first <;> rfl
    rw [distinct_cons] at hq
    rw [distinct_cons, hhead, eventsOf_append]
    rcases List.mem_cons.mp hq with rfl | hq
    · have hothers : ∀ q' ∈ distinct (others q rest), q'.normal ≠ p.normal := fun q' hq' =>
        hnormal ▸ (mem_others_iff.mp (mem_of_mem_distinct hq')).2
      rw [eventsOf_eq_nil hothers, List.append_nil, eventsOf_toList_difference? hnormal]
    · have hfirst : ∀ q' ∈ [first], q'.normal ≠ p.normal := by
        intro q' hq'
        rw [List.mem_singleton.mp hq', ← hnormal]
        exact (mem_others_iff.mp (mem_of_mem_distinct hq)).2.symm
      have hnone : eventsOf p ([first].filterMap (difference? before now)) = [] :=
        eventsOf_eq_nil hfirst
      rw [hhead, List.filterMap_nil, List.append_nil] at hnone
      rw [hnone, ih hq, List.nil_append]

/-- A file comes, is saved some number of times, and goes. -/
def life (p : Path) (saves : Nat) : List WatchEvent :=
  .opened p :: (List.replicate saves (.saved p) ++ [.removed p])

/-- The rest of the life of a file, and further lives. -/
def livesOn (p : Path) (saves : Nat) (more : List Nat) : List WatchEvent :=
  List.replicate saves (.saved p) ++ .removed p :: more.flatMap (life p)

/-- The differences for one path. -/
def differencesOf (p : Path) (before : Snapshot) : List Snapshot → List WatchEvent
  | [] => []
  | now :: later => (difference? before now p).toList ++ differencesOf p now later

theorem eventsOf_differences (hq : q ∈ distinct paths) (hnormal : q.normal = p.normal) :
    eventsOf p (differences paths before snapshots).flatten = differencesOf q before snapshots := by
  induction snapshots generalizing before with
  | nil => rfl
  | cons now later ih =>
    rw [differences, List.flatten_cons, eventsOf_append, eventsOf_filterMap_distinct hq hnormal,
      ih]
    rfl

/-- A file that is not there can only come, and one that is there can be saved or go. -/
theorem exists_lives_of_differencesOf (p : Path) (before : Snapshot) (snapshots : List Snapshot) :
    (before p = none → ∃ saves : List Nat,
      differencesOf p before snapshots <+: saves.flatMap (life p)) ∧
    (before p ≠ none → ∃ n more, differencesOf p before snapshots <+: livesOn p n more) := by
  induction snapshots generalizing before with
  | nil => exact ⟨fun _ => ⟨[], List.nil_prefix⟩, fun _ => ⟨0, [], List.nil_prefix⟩⟩
  | cons now later ih =>
    obtain ⟨hgone, hthere⟩ := ih now
    rw [differencesOf, difference?]
    cases hbefore : before p with
    | none =>
      refine ⟨fun _ => ?_, fun h => absurd rfl h⟩
      cases hnow : now p with
      | none => exact hgone hnow
      | some time =>
        -- The file comes, and what follows is the rest of its life.
        obtain ⟨n, more, hprefix⟩ := hthere (by rw [hnow]; simp)
        refine ⟨n :: more, ?_⟩
        have hlife : (n :: more).flatMap (life p) = .opened p :: livesOn p n more := by
          simp [life, livesOn]
        rw [hlife]
        exact (List.prefix_cons_inj _).mpr hprefix
    | some time =>
      refine ⟨fun h => absurd h (by simp), fun _ => ?_⟩
      cases hnow : now p with
      | none =>
        obtain ⟨saves, hprefix⟩ := hgone hnow
        exact ⟨0, saves, (List.prefix_cons_inj _).mpr hprefix⟩
      | some time' =>
        obtain ⟨n, more, hprefix⟩ := hthere (by rw [hnow]; simp)
        by_cases hsame : time = time'
        · exact ⟨n, more, by simpa [hsame] using hprefix⟩
        · refine ⟨n + 1, more, ?_⟩
          simp only [if_neg hsame]
          exact (List.prefix_cons_inj _).mpr hprefix

/-- **What polls report.**  Take any list of paths and any polls, each of which sees the same
time for paths that are the same part by part.  After each poll the time that is remembered
of a path is that which the poll saw.  A poll reports the difference between what the last one
saw and what it sees itself, each path once and in the order in which the paths are first
listed.  So the events of each path are the beginning of some lives of a file. -/
theorem polls_report_differences (h : ∀ now ∈ snapshots, Uniform paths now) :
    (∀ earlier now later, snapshots = earlier ++ now :: later → ∀ p ∈ paths,
      ((new paths).polls (earlier ++ [now])).1.seen.get? p.normal = now p) ∧
    ((new paths).polls snapshots).2 = differences paths nothing snapshots ∧
    ∀ p ∈ paths, ∃ q ∈ distinct paths, q.normal = p.normal ∧ ∃ saves : List Nat,
      eventsOf p ((new paths).polls snapshots).2.flatten <+: saves.flatMap (life q) := by
  have hevents : ((new paths).polls snapshots).2 = differences paths nothing snapshots :=
    polls_eq (w := new paths) (fun _ _ => rfl) h
  refine ⟨?_, hevents, fun p hp => ?_⟩
  · rintro earlier now later rfl p hp
    exact get?_polls_concat (w := new paths) (h now (by simp)) hp
  · obtain ⟨q, hq, hnormal⟩ := exists_mem_distinct hp
    obtain ⟨saves, hprefix⟩ := (exists_lives_of_differencesOf q nothing snapshots).1 rfl
    refine ⟨q, hq, hnormal, saves, ?_⟩
    rwa [hevents, eventsOf_differences hq hnormal]

/-! ### Samples -/

/-- The paths of an example: the second and the last two are one path. -/
def samplePaths : List Path := [⟨"a.lua"⟩, ⟨"d/b.lua"⟩, ⟨"a.lua"⟩, ⟨"d//b.lua"⟩, ⟨"d/./b.lua"⟩]

/-- The times of the files, by the names that paths have in one spelling. -/
def sampleSnapshot (a b : Option Timestamp) : Snapshot := fun p =>
  if p.normal = "a.lua" then a else if p.normal = "d/b.lua" then b else none

theorem uniform_sampleSnapshot (a b : Option Timestamp) : Uniform samplePaths (sampleSnapshot a b) :=
  fun p _ q _ hnormal => by rw [sampleSnapshot, sampleSnapshot, hnormal]

/-- One file is there, gets an older time, and goes, while the other one comes and goes. -/
theorem polls_samplePaths :
    ((new samplePaths).polls [sampleSnapshot (some ⟨5⟩) none,
        sampleSnapshot (some ⟨3⟩) (some ⟨1⟩), sampleSnapshot none none]).2
      = [[.opened ⟨"a.lua"⟩], [.saved ⟨"a.lua"⟩, .opened ⟨"d/b.lua"⟩],
          [.removed ⟨"a.lua"⟩, .removed ⟨"d/b.lua"⟩]] := by
  have huniform : ∀ now ∈ [sampleSnapshot (some ⟨5⟩) none,
      sampleSnapshot (some ⟨3⟩) (some ⟨1⟩), sampleSnapshot none none],
      Uniform samplePaths now := by
    intro now hnow
    simp only [List.mem_cons, List.not_mem_nil, or_false] at hnow
    rcases hnow with rfl | rfl | rfl
    · exact uniform_sampleSnapshot _ _
    · exact uniform_sampleSnapshot _ _
    · exact uniform_sampleSnapshot _ _
  rw [(polls_report_differences huniform).2.1]
  decide +kernel

/-! ### Spellings that the file system tells apart -/

open Session.Course in
/-- Behind a slash at the end there would have to be a directory. -/
theorem modified?_slash : homeFiles.modified? home ⟨"a.lua/"⟩ = none := by
  have hfollow : homeFiles.follow home ⟨"a.lua/"⟩ = .error .notADirectory := by
    rw [FileSystem.follow, if_neg (by decide), if_neg (by decide), if_neg (by decide),
      show FileSystem.startOf home ⟨"a.lua/"⟩ = ["home"] by decide,
      show FileSystem.steps ⟨"a.lua/"⟩ = ["a.lua", "."] by decide]
    simp [FileSystem.walk, FileSystem.entry?, homeFiles, short_names]
  rw [FileSystem.modified?, FileSystem.find, hfollow]
  rfl

open Session.Course in
/-- A file is listed in two spellings of one path, and only the first one leads to it.  Then
every poll opens the file and removes it again, and nothing is remembered although the file
is there. -/
theorem slash_is_not_seen : ∃ w w' : Watcher,
    (new [⟨"a.lua"⟩, ⟨"a.lua/"⟩]).poll (homeFiles.modified? home)
      = (w, [.opened ⟨"a.lua"⟩, .removed ⟨"a.lua/"⟩]) ∧
    w.poll (homeFiles.modified? home) = (w', [.opened ⟨"a.lua"⟩, .removed ⟨"a.lua/"⟩]) ∧
    homeFiles.modified? home ⟨"a.lua"⟩ = some ⟨0⟩ ∧
    homeFiles.modified? home ⟨"a.lua/"⟩ = none ∧
    w.seen.get? (Path.normal ⟨"a.lua"⟩) = none := by
  have hthere : homeFiles.modified? home ⟨"a.lua"⟩ = some ⟨0⟩ := modified?_homeMachine.1
  have hname : Path.normal ⟨"a.lua/"⟩ = Path.normal ⟨"a.lua"⟩ := by decide +kernel
  set name := Path.normal ⟨"a.lua"⟩
  have herased : ((.empty : SortedMap Timestamp).insert name ⟨0⟩).erase name = .empty := by
    refine SortedMap.ext_get fun key => ?_
    rw [SortedMap.get?_erase, SortedMap.get?_insert]
    split <;> rfl
  have hfirst : look (homeFiles.modified? home) .empty ⟨"a.lua"⟩
      = (.insert .empty name ⟨0⟩, some (.opened ⟨"a.lua"⟩)) := by
    simp only [look, hthere]
    rfl
  have hsecond : look (homeFiles.modified? home) (.insert .empty name ⟨0⟩) ⟨"a.lua/"⟩
      = (.empty, some (.removed ⟨"a.lua/"⟩)) := by
    simp only [look, modified?_slash, hname, SortedMap.get?_insert, if_true, herased]
  have hpoll : (new [⟨"a.lua"⟩, ⟨"a.lua/"⟩]).poll (homeFiles.modified? home)
      = (new [⟨"a.lua"⟩, ⟨"a.lua/"⟩], [.opened ⟨"a.lua"⟩, .removed ⟨"a.lua/"⟩]) := by
    simp only [poll, new, lookAll_cons, hfirst, hsecond]
    rfl
  exact ⟨_, _, hpoll, hpoll, hthere, modified?_slash, rfl⟩

end LuaDiagnostics.Watcher
