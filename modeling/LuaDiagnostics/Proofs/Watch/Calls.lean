/-
The calls of a watch.

The loop takes workers out of the list that it goes through, so the places in the list
move while it does.  The statements here say that nobody is lost or met twice:

* **`kept_of_reaches`**: every event that was dealt with has led to the calls that it is
  to lead to, or its worker is still in the list, which is in the order of start.
* **`collected_of_passes`**: a pass through the list reports the workers that it finds
  returned and leaves the others, both in their order.
* **`exists_over`**: however far a watch has come, it can come to its end.
-/
import LuaDiagnostics.Proofs.Watch.Reporting

namespace LuaDiagnostics

namespace Reporting

variable {settings : Settings} {registry : Registry} {s t : Reporting}

/-! ### What events lead to -/

/-- The event at a place has led to the calls that it is to lead to, or its worker is
still in the list. -/
def Told (s : Reporting) (k : Nat) : Option Prepared → Prop
  | none => s.callsFor k = []
  | some (.settled id outcome) => s.callsFor k = [(id, outcome)]
  | some (.lint _ d) =>
    ⟨k, d.id⟩ ∈ s.running ∧ s.callsFor k = [] ∨
      k ∉ s.running.map Ticket.place ∧
        ∃ outcome, (k, outcome) ∈ s.answers ∧ s.callsFor k = [(d.id, outcome)]

/-- How the calls and the list of workers go with the events that were dealt with. -/
structure Kept (s : Reporting) : Prop where
  events : s.polled = s.entries.map Entry.event ++ s.pending
  /-- The workers are in the order of their start. -/
  ordered : (s.running.map Ticket.place).Pairwise (· < ·)
  running : ∀ h ∈ s.running, ∃ e kind d, s.entries[h.place]? = some e ∧
    e.prepared? = some (.lint kind d) ∧ h.id = d.id
  calls : ∀ (k : Nat) (e : Entry), s.entries[k]? = some e → s.Told k e.prepared?
  known : ∀ r ∈ s.reports, r.place < s.entries.length
  /-- The last pass does not leave a worker behind. -/
  waiting : ∀ index, s.phase = .collecting true index → index = 0
  drained : s.phase = .over → s.running = []

theorem callsFor_append {more : List Report} (h : t.reports = s.reports ++ more) (k : Nat) :
    t.callsFor k = s.callsFor k
      ++ (more.filter (·.place = k)).map fun r => (r.id, r.outcome) := by
  rw [callsFor, callsFor, h, List.filter_append, List.map_append]

/-- Calls about other events make no difference. -/
theorem callsFor_eq_of_append {more : List Report} (h : t.reports = s.reports ++ more) {k : Nat}
    (hplaces : ∀ r ∈ more, r.place ≠ k) : t.callsFor k = s.callsFor k := by
  have hnone : more.filter (·.place = k) = [] :=
    List.filter_eq_nil_iff.mpr fun r hr => by simp [hplaces r hr]
  rw [callsFor_append h, hnone, List.map_nil, List.append_nil]

/-- What counts for an event are the calls about it and the tickets of its own. -/
theorem Told.of_iff {k : Nat} {prepared? : Option Prepared} (h : s.Told k prepared?)
    (hcalls : t.callsFor k = s.callsFor k)
    (htickets : ∀ x : Ticket, x.place = k → (x ∈ t.running ↔ x ∈ s.running))
    (hanswers : s.answers ⊆ t.answers) : t.Told k prepared? := by
  rcases prepared? with - | ⟨kind, d⟩ | ⟨id, outcome⟩
  · exact hcalls.trans h
  · rw [Told, hcalls]
    rcases h with ⟨hmem, hnone⟩ | ⟨hgone, outcome, hanswer, htold⟩
    · exact .inl ⟨(htickets _ rfl).mpr hmem, hnone⟩
    · refine .inr ⟨fun hmem => hgone ?_, outcome, hanswers hanswer, htold⟩
      obtain ⟨x, hx, rfl⟩ := List.mem_map.mp hmem
      exact List.mem_map_of_mem ((htickets x rfl).mp hx)
  · exact hcalls.trans h

theorem kept_start (settings : Settings) (registry : Registry) :
    Kept (start settings registry) where
  events := rfl
  ordered := List.Pairwise.nil
  running h hh := absurd hh List.not_mem_nil
  calls k e he := absurd he (by simp [start])
  known r hr := absurd hr List.not_mem_nil
  waiting index h := absurd h (by simp [start])
  drained h := absurd h (by simp [start])

/-- A step by which the calls, the list and the events stay as they are. -/
theorem Kept.of_eq (h : Kept s) (hpolled : t.polled = s.polled) (hentries : t.entries = s.entries)
    (hrunning : t.running = s.running) (hreports : t.reports = s.reports)
    (hanswers : s.answers ⊆ t.answers) (hpending : t.pending = s.pending)
    (hwaiting : ∀ index, t.phase = .collecting true index → index = 0)
    (hdrained : t.phase = .over → s.running = []) : Kept t where
  events := by rw [hpolled, hentries, hpending, h.events]
  ordered := hrunning ▸ h.ordered
  running x hx := by
    rw [hentries]
    exact h.running x (hrunning ▸ hx)
  calls k e he := by
    refine (h.calls k e (hentries ▸ he)).of_iff ?_ (fun x _ => by rw [hrunning]) hanswers
    rw [callsFor, callsFor, hreports]
  known r hr := by
    rw [hentries]
    exact h.known r (hreports ▸ hr)
  waiting := hwaiting
  drained hover := hrunning.trans (hdrained hover)

/-- An event is dealt with: it may get a worker, or lead to calls at once. -/
theorem Kept.dealt (h : Kept s) {e : Entry} {rest : List WatchEvent} {tickets : List Ticket}
    {reports : List Report} (hphase : s.phase = .reacting (e.event :: rest))
    (hpolled : t.polled = s.polled) (hentries : t.entries = s.entries ++ [e])
    (hrunning : t.running = s.running ++ tickets) (hreports : t.reports = s.reports ++ reports)
    (hanswers : s.answers ⊆ t.answers) (hrest : t.phase = .reacting rest)
    (htickets : tickets = [] ∨ ∃ kind d, e.prepared? = some (.lint kind d) ∧
      tickets = [⟨s.entries.length, d.id⟩])
    (hplaces : ∀ r ∈ reports, r.place = s.entries.length)
    (htold : t.Told s.entries.length e.prepared?) : Kept t where
  events := by
    rw [hpolled, hentries, h.events, pending, pending, hphase, hrest]
    simp
  ordered := by
    rw [hrunning, List.map_append, List.pairwise_append]
    refine ⟨h.ordered, ?_, fun j hj k hk => ?_⟩
    · rcases htickets with rfl | ⟨kind, d, -, rfl⟩
      · exact List.Pairwise.nil
      · exact List.pairwise_singleton ..
    · obtain ⟨x, hx, rfl⟩ := List.mem_map.mp hj
      obtain ⟨d, -, -, hentry, -⟩ := h.running x hx
      rcases htickets with rfl | ⟨kind, d, -, rfl⟩
      · exact absurd hk List.not_mem_nil
      · rw [List.mem_singleton.mp hk]
        exact lt_length_of_getElem? hentry
  running x hx := by
    rw [hrunning, List.mem_append] at hx
    rw [hentries]
    rcases hx with hx | hx
    · obtain ⟨d, kind, document, hentry, hrest⟩ := h.running x hx
      exact ⟨d, kind, document, getElem?_noted.mpr (.inl hentry), hrest⟩
    · rcases htickets with rfl | ⟨kind, d, hlint, rfl⟩
      · exact absurd hx List.not_mem_nil
      · obtain rfl := List.mem_singleton.mp hx
        exact ⟨e, kind, d, getElem?_noted.mpr (.inr ⟨rfl, rfl⟩), hlint, rfl⟩
  calls k d hd := by
    rw [hentries] at hd
    rcases getElem?_noted.mp hd with hd | ⟨rfl, rfl⟩
    · -- Neither the ticket nor the calls are those of an earlier event.
      have hne : s.entries.length ≠ k := (Nat.ne_of_lt (lt_length_of_getElem? hd)).symm
      refine (h.calls k d hd).of_iff
        (callsFor_eq_of_append hreports fun r hr => hplaces r hr ▸ hne) (fun x hx => ?_) hanswers
      have hnew : x ∉ tickets := by
        rcases htickets with rfl | ⟨kind, document, -, rfl⟩
        · exact List.not_mem_nil
        · exact fun hmem => hne (hx ▸ congrArg Ticket.place (List.mem_singleton.mp hmem)).symm
      rw [hrunning, List.mem_append, or_iff_left hnew]
    · exact htold
  known r hr := by
    rw [hreports, List.mem_append] at hr
    rw [hentries, List.length_append, List.length_singleton]
    rcases hr with hr | hr
    · have hlt := h.known r hr
      omega
    · have heq := hplaces r hr
      omega
  waiting index hindex := absurd (hrest.symm.trans hindex) (by simp)
  drained hover := absurd (hrest.symm.trans hover) (by simp)

/-- Nobody was told about an event that is yet to be dealt with. -/
theorem Kept.callsFor_length (h : Kept s) : s.callsFor s.entries.length = [] := by
  rw [callsFor, List.map_eq_nil_iff, List.filter_eq_nil_iff]
  intro r hr
  have hlt := h.known r hr
  simp only [decide_eq_true_eq]
  omega

/-- The ticket at a place of the list, and what is left without it. -/
theorem exists_append_of_getElem? {tickets : List Ticket} {index : Nat} {h : Ticket}
    (hticket : tickets[index]? = some h) : ∃ before after,
      tickets = before ++ h :: after ∧ before.length = index ∧
        tickets.eraseIdx index = before ++ after := by
  obtain ⟨hlt, heq⟩ := List.getElem?_eq_some_iff.mp hticket
  refine ⟨tickets.take index, tickets.drop (index + 1), ?_,
    List.length_take_of_le (Nat.le_of_lt hlt), List.eraseIdx_eq_take_drop_succ ..⟩
  rw [← heq, List.getElem_cons_drop, List.take_append_drop]

/-- A worker is taken out of the list and reported. -/
theorem Kept.take (h : Kept s) {wait : Bool} {index : Nat} {x : Ticket} {outcome : LintOutcome}
    (hphase : s.phase = .collecting wait index) (hticket : s.running[index]? = some x)
    (hanswer : (x.place, outcome) ∈ s.answers) :
    Kept { s.told ⟨x, outcome⟩ with running := s.running.eraseIdx index } := by
  obtain ⟨before, after, hrunning, -, herase⟩ := exists_append_of_getElem? hticket
  have hordered := h.ordered
  rw [hrunning, List.map_append, List.map_cons] at hordered
  have hgone : x.place ∉ (before ++ after).map Ticket.place := by
    have hnodup := List.nodup_middle.mp (hordered.imp Nat.ne_of_lt)
    rw [List.map_append]
    exact (List.nodup_cons.mp hnodup).1
  have hmem : x ∈ s.running := List.mem_of_getElem? hticket
  have hsub : (before ++ after).Sublist s.running := herase ▸ s.running.eraseIdx_sublist index
  rw [herase]
  refine ⟨h.events, h.ordered.sublist (hsub.map _), fun y hy => h.running y (hsub.subset hy),
    fun k e hentry => ?_, fun r hr => ?_, h.waiting, fun hover => ?_⟩
  · have hk := h.calls k e hentry
    by_cases heq : x.place = k
    · subst heq
      have hcalls := callsFor_append (s := s) (t := s.told ⟨x, outcome⟩) rfl x.place
      obtain ⟨e', kind, d, hentry', hlint, hid⟩ := h.running x hmem
      obtain rfl := Option.some.inj (hentry.symm.trans hentry')
      rw [hlint] at hk ⊢
      refine .inr ⟨hgone, outcome, hanswer, hcalls.trans ?_⟩
      rcases hk with ⟨-, hnone⟩ | ⟨hnot, -⟩
      · rw [hnone]
        simp [hid]
      · exact absurd (List.mem_map_of_mem hmem) hnot
    · have hcalls := callsFor_eq_of_append (s := s) (t := s.told ⟨x, outcome⟩) rfl
        (List.forall_mem_singleton.mpr heq)
      refine hk.of_iff hcalls (fun y hy => ?_) (List.Subset.refl _)
      have hne : y ≠ x := fun h => heq (h ▸ hy)
      show y ∈ before ++ after ↔ y ∈ s.running
      rw [hrunning, List.mem_append, List.mem_append, List.mem_cons, or_iff_right hne]
  · rcases List.mem_append.mp hr with hr | hr
    · exact h.known r hr
    · obtain rfl := List.mem_singleton.mp hr
      obtain ⟨e, -, -, hentry, -⟩ := h.running x hmem
      exact lt_length_of_getElem? hentry
  · exact absurd (hphase.symm.trans hover) (by simp)

theorem kept_of_step (hstep : Step s t) (h : Kept s) : Kept t := by
  cases hstep with
  | answer hentry hprepared hcycle hmove =>
    exact h.of_eq rfl rfl rfl rfl (List.subset_append_left _ _) rfl h.waiting h.drained
  | finish hanswer =>
    exact h.of_eq rfl rfl rfl rfl (List.Subset.refl _) rfl h.waiting h.drained
  | other hother hmove =>
    exact h.of_eq rfl rfl rfl rfl (List.Subset.refl _) rfl h.waiting h.drained
  | @poll events hphase =>
    refine ⟨?_, h.ordered, h.running, h.calls, h.known, by simp, by simp⟩
    show s.polled ++ events = s.entries.map Entry.event ++ events
    rw [h.events, pending, hphase, List.append_nil]
  | passOver hphase hread =>
    exact h.dealt hphase rfl rfl (List.append_nil _).symm (List.append_nil _).symm
      (List.Subset.refl _) rfl (.inl rfl) (by simp) h.callsFor_length
  | drop hphase hread =>
    refine h.dealt hphase rfl rfl (List.append_nil _).symm rfl (List.Subset.refl _) rfl
      (.inl rfl) (by simp) ((callsFor_append (s := s) rfl _).trans ?_)
    rw [h.callsFor_length]
    simp
  | begin hphase hread hmove =>
    exact h.dealt hphase rfl rfl rfl (List.append_nil _).symm (List.Subset.refl _) rfl
      (.inr ⟨_, _, rfl, rfl⟩) (by simp)
      (.inl ⟨List.mem_append_right _ List.mem_cons_self, h.callsFor_length⟩)
  | decline hphase hread hmove =>
    exact h.dealt hphase rfl rfl rfl (List.append_nil _).symm (List.subset_append_left _ _) rfl
      (.inr ⟨_, _, rfl, rfl⟩) (by simp)
      (.inl ⟨List.mem_append_right _ List.mem_cons_self, h.callsFor_length⟩)
  | collect hphase =>
    exact h.of_eq rfl rfl rfl rfl (List.Subset.refl _) (by rw [pending, pending, hphase])
      (by simp) (by simp)
  | keep hphase hticket hgoing =>
    exact h.of_eq rfl rfl rfl rfl (List.Subset.refl _) (by rw [pending, pending, hphase])
      (by simp) (by simp)
  | take hphase hticket hended hanswer => exact h.take hphase hticket hanswer
  | sleep hphase hthrough =>
    exact h.of_eq rfl rfl rfl rfl (List.Subset.refl _) (by rw [pending, pending, hphase])
      (by simp) (by simp)
  | stop hphase =>
    refine h.of_eq rfl rfl rfl rfl (List.Subset.refl _) ?_ ?_ (by simp [stopped])
    · rw [pending, pending, hphase]
      rfl
    · simp [stopped]
  | @leave index hphase hthrough =>
    refine h.of_eq rfl rfl rfl rfl (List.Subset.refl _) (by rw [pending, pending, hphase])
      (by simp) fun _ => ?_
    rw [h.waiting index hphase] at hthrough
    exact List.eq_nil_of_length_eq_zero (Nat.le_zero.mp hthrough)

theorem kept_of_reaches (h : Reaches (start settings registry) s) : Kept s := by
  induction h with
  | refl => exact kept_start settings registry
  | tail _ hstep ih => exact kept_of_step hstep ih

/-! ### Passes -/

/-- The loop goes through the list of workers. -/
def IsCollecting (s : Reporting) : Prop := ∃ wait index, s.phase = .collecting wait index

/-- Any sequence of steps in the course of one pass. -/
abbrev Passes : Reporting → Reporting → Prop :=
  Relation.ReflTransGen fun s t => Step s t ∧ s.IsCollecting ∧ t.IsCollecting

/-- How far a pass has come: it has looked at some workers, found some of these returned and
has the rest before it. -/
structure Scanned (s t : Reporting) (looked rest found : List Ticket) : Prop where
  list : s.running = looked ++ rest
  left : t.running = looked.filter (· ∉ found) ++ rest
  sublist : found.Sublist looked
  reported : ∃ reports, t.reports = s.reports ++ reports ∧
    reports.map Report.toTicket = found ∧ ∀ r ∈ reports, (r.place, r.outcome) ∈ t.answers
  returned : ∀ h ∈ found, h.place ∈ t.ended
  going : ∀ h ∈ looked, h ∉ found → h.place ∉ s.ended
  ended : s.ended ⊆ t.ended

/-- What a pass comes to that has found these workers returned. -/
structure Collected (s t : Reporting) (found : List Ticket) : Prop where
  /-- The list is in the order of start. -/
  ordered : (s.running.map Ticket.place).Pairwise (· < ·)
  sublist : found.Sublist s.running
  left : t.running = s.running.filter (· ∉ found)
  reported : ∃ reports, t.reports = s.reports ++ reports ∧
    reports.map Report.toTicket = found ∧ ∀ r ∈ reports, (r.place, r.outcome) ∈ t.answers
  returned : ∀ h ∈ found, h.place ∈ t.ended
  going : ∀ h ∈ t.running, h.place ∉ s.ended

variable {looked rest found : List Ticket} {u : Reporting}

/-- A pass goes on with whatever happens beside it. -/
theorem Scanned.beside (h : Scanned s t looked rest found) (hrunning : u.running = t.running)
    (hreports : u.reports = t.reports) (hanswers : t.answers ⊆ u.answers)
    (hended : t.ended ⊆ u.ended) : Scanned s u looked rest found where
  list := h.list
  left := hrunning.trans h.left
  sublist := h.sublist
  reported := by
    obtain ⟨reports, happend, hfound, hanswer⟩ := h.reported
    exact ⟨reports, hreports.trans happend, hfound, fun r hr => hanswers (hanswer r hr)⟩
  returned x hx := hended (h.returned x hx)
  going := h.going
  ended := List.Subset.trans h.ended hended

/-- The next worker of a pass that has one. -/
theorem Scanned.next (h : Scanned s t looked rest found) {x : Ticket}
    (hticket : t.running[(looked.filter (· ∉ found)).length]? = some x) :
    ∃ after, rest = x :: after := by
  rw [h.left, List.getElem?_append_right (Nat.le_refl _), Nat.sub_self] at hticket
  cases rest with
  | nil => exact absurd hticket (by simp)
  | cons y after => exact ⟨after, congrArg (· :: after) (Option.some.inj hticket)⟩

theorem Scanned.keep {x : Ticket} (h : Scanned s t looked (x :: rest) found)
    (hgoing : x.place ∉ t.ended) :
    Scanned s t (looked ++ [x]) rest found ∧
      (looked ++ [x]).filter (· ∉ found) = looked.filter (· ∉ found) ++ [x] := by
  have hnew : x ∉ found := fun hx => hgoing (h.returned x hx)
  have hfilter : (looked ++ [x]).filter (· ∉ found) = looked.filter (· ∉ found) ++ [x] := by
    simp [hnew]
  refine ⟨⟨?_, ?_, h.sublist.trans (List.sublist_append_left _ _), h.reported, h.returned,
    fun y hy hfound => ?_, h.ended⟩, hfilter⟩
  · rw [h.list, List.append_assoc, List.singleton_append]
  · rw [h.left, hfilter, List.append_assoc, List.singleton_append]
  · rcases List.mem_append.mp hy with hy | hy
    · exact h.going y hy hfound
    · obtain rfl := List.mem_singleton.mp hy
      exact fun hended => hgoing (h.ended hended)

theorem Scanned.take {x : Ticket} {outcome : LintOutcome}
    (h : Scanned s t looked (x :: rest) found) (hnodup : s.running.Nodup)
    (hended : x.place ∈ t.ended) (hanswer : (x.place, outcome) ∈ t.answers) :
    Scanned s
        { t.told ⟨x, outcome⟩ with
          running := t.running.eraseIdx (looked.filter (· ∉ found)).length }
        (looked ++ [x]) rest (found ++ [x]) ∧
      (looked ++ [x]).filter (· ∉ found ++ [x]) = looked.filter (· ∉ found) := by
  have hnew : x ∉ looked := by
    rw [h.list] at hnodup
    exact fun hx => (List.nodup_cons.mp (List.nodup_middle.mp hnodup)).1
      (List.mem_append_left _ hx)
  have hfilter : (looked ++ [x]).filter (· ∉ found ++ [x]) = looked.filter (· ∉ found) := by
    rw [List.filter_append]
    have hlast : [x].filter (· ∉ found ++ [x]) = [] := by simp
    rw [hlast, List.append_nil]
    refine List.filter_congr fun y hy => ?_
    have hne : y ≠ x := fun heq => hnew (heq ▸ hy)
    simp [hne]
  refine ⟨⟨?_, ?_, h.sublist.append (List.Sublist.refl _), ?_, fun y hy => ?_,
    fun y hy hfound => ?_, h.ended⟩, hfilter⟩
  · rw [h.list, List.append_assoc, List.singleton_append]
  · rw [hfilter]
    show t.running.eraseIdx _ = _
    rw [h.left, List.eraseIdx_append_of_length_le (Nat.le_refl _), Nat.sub_self,
      List.eraseIdx_cons_zero]
  · obtain ⟨reports, happend, hfound, hall⟩ := h.reported
    refine ⟨reports ++ [⟨x, outcome⟩], ?_, by simp [hfound], fun r hr => ?_⟩
    · show t.reports ++ _ = _
      rw [happend, List.append_assoc]
    · rcases List.mem_append.mp hr with hr | hr
      · exact hall r hr
      · obtain rfl := List.mem_singleton.mp hr
        exact hanswer
  · rcases List.mem_append.mp hy with hy | hy
    · exact h.returned y hy
    · obtain rfl := List.mem_singleton.mp hy
      exact hended
  · rw [List.mem_append, not_or] at hfound
    rcases List.mem_append.mp hy with hy | hy
    · exact h.going y hy hfound.1
    · exact absurd hy hfound.2

theorem scanned_of_passes {wait : Bool} (h : Passes s t) (hnodup : s.running.Nodup)
    (hphase : s.phase = .collecting wait 0) : ∃ looked rest found,
      Scanned s t looked rest found ∧
        t.phase = .collecting wait (looked.filter (· ∉ found)).length := by
  induction h with
  | refl =>
    refine ⟨[], s.running, [], ⟨rfl, rfl, List.Sublist.refl _, ⟨[], ?_, rfl, by simp⟩, by simp,
      by simp, List.Subset.refl _⟩, hphase⟩
    exact (List.append_nil _).symm
  | @tail t u _ hstep ih =>
    obtain ⟨looked, rest, found, hscanned, hindex⟩ := ih
    obtain ⟨hstep, -, wait', index', hcollecting⟩ := hstep
    cases hstep with
    | answer hentry hprepared hcycle hmove =>
      exact ⟨looked, rest, found, hscanned.beside rfl rfl (List.subset_append_left _ _)
        (List.Subset.refl _), hindex⟩
    | finish hanswer =>
      exact ⟨looked, rest, found, hscanned.beside rfl rfl (List.Subset.refl _)
        (List.subset_append_left _ _), hindex⟩
    | other hother hmove =>
      exact ⟨looked, rest, found, hscanned.beside rfl rfl (List.Subset.refl _)
        (List.Subset.refl _), hindex⟩
    | @keep index x hphase' hticket hgoing =>
      obtain ⟨rfl, rfl⟩ := Phase.collecting.inj (hphase'.symm.trans hindex)
      obtain ⟨after, rfl⟩ := hscanned.next hticket
      obtain ⟨hkept, hfilter⟩ := hscanned.keep hgoing
      refine ⟨_, after, found, hkept.beside rfl rfl (List.Subset.refl _) (List.Subset.refl _), ?_⟩
      rw [hfilter, List.length_append, List.length_singleton]
    | @take wait index x outcome hphase' hticket hended hanswer =>
      obtain ⟨rfl, rfl⟩ := Phase.collecting.inj (hphase'.symm.trans hindex)
      obtain ⟨after, rfl⟩ := hscanned.next hticket
      obtain ⟨htaken, hfilter⟩ := hscanned.take hnodup hended hanswer
      refine ⟨_, after, _, htaken, ?_⟩
      rw [hfilter]
      exact hindex
    | poll hphase' | passOver hphase' hread | drop hphase' hread | begin hphase' hread hmove
    | decline hphase' hread hmove | collect hphase' | stop hphase' =>
      exact absurd (hphase'.symm.trans hindex) (by simp)
    | sleep hphase' hthrough | leave hphase' hthrough => exact absurd hcollecting (by simp)

/-- A pass that has gone through the whole list. -/
theorem collected_of_passes {wait : Bool} {index : Nat} (h : Passes s t)
    (hordered : (s.running.map Ticket.place).Pairwise (· < ·))
    (hphase : s.phase = .collecting wait 0) (hindex : t.phase = .collecting wait index)
    (hthrough : t.running.length ≤ index) : ∃ found, Collected s t found := by
  have hnodup : s.running.Nodup := List.Nodup.of_map _ (hordered.imp Nat.ne_of_lt)
  obtain ⟨looked, rest, found, hscanned, hphase'⟩ := scanned_of_passes h hnodup hphase
  obtain ⟨-, rfl⟩ := Phase.collecting.inj (hindex.symm.trans hphase')
  -- Nothing is left before the pass.
  have hrest : rest = [] := by
    rw [hscanned.left, List.length_append] at hthrough
    exact List.eq_nil_of_length_eq_zero (by omega)
  subst hrest
  have hlist : s.running = looked := hscanned.list.trans (List.append_nil _)
  have hleft : t.running = s.running.filter (· ∉ found) := by
    rw [hscanned.left, hlist, List.append_nil]
  refine ⟨found, hordered, hlist ▸ hscanned.sublist, hleft, hscanned.reported,
    hscanned.returned, fun x hx => ?_⟩
  rw [hleft, List.mem_filter, hlist, decide_eq_true_eq] at hx
  exact hscanned.going x hx.1 hx.2

/-! ### Ends -/

/-- A worker in the list may come to an outcome and return. -/
theorem exists_returned (h : Reaches (start settings registry) s) {x : Ticket}
    (hmem : x ∈ s.running) : ∃ t outcome, Reaches s t ∧ (x.place, outcome) ∈ t.answers ∧
      x.place ∈ t.ended ∧ t.running = s.running ∧ t.phase = s.phase := by
  have howned := owned_of_reaches h
  obtain ⟨e, kind, d, hentry, hprepared, -⟩ := (kept_of_reaches h).running x hmem
  -- It is enough that there is an answer: with it, the worker may return.
  suffices hanswer : ∃ t outcome, Reaches s t ∧ (x.place, outcome) ∈ t.answers ∧
      t.running = s.running ∧ t.phase = s.phase by
    obtain ⟨t, outcome, ht, hanswer, hrunning, hphase⟩ := hanswer
    exact ⟨_, outcome, ht.tail (.finish hanswer), hanswer,
      List.mem_append_right _ List.mem_cons_self, hrunning, hphase⟩
  by_cases hanswered : ∃ outcome, (x.place, outcome) ∈ s.answers
  · obtain ⟨outcome, hanswer⟩ := hanswered
    exact ⟨s, outcome, .refl, hanswer, rfl, rfl⟩
  · cases hcycle : e.cycle? with
    | none => exact absurd (howned.turnedAway _ e kind d hentry hprepared hcycle) hanswered
    | some c =>
      have hc := (howned.underWay_iff _ e c hentry hcycle).mpr (not_exists.mp hanswered)
      have hmove : s.course.step? (.complete c kind (.ok ⟨none, none, 0, false⟩) _) = some _ :=
        if_pos ⟨hc, rfl⟩
      exact ⟨_, _, .single (.answer hentry hprepared hcycle hmove),
        List.mem_append_right _ List.mem_cons_self, rfl, rfl⟩

/-- The last pass can come to its end. -/
theorem exists_over_of_waiting (h : Reaches (start settings registry) s)
    (hphase : s.phase = .collecting true 0) : ∃ t, Reaches s t ∧ t.phase = .over := by
  induction hrest : s.running generalizing s with
  | nil => exact ⟨_, .single (.leave hphase (by simp [hrest])), rfl⟩
  | cons x rest ih =>
    obtain ⟨t, outcome, ht, hanswer, hended, hrunning, hphase'⟩ :=
      exists_returned h (x := x) (by simp [hrest])
    have htake := Step.take (h := x) (hphase'.trans hphase)
      (by rw [hrunning, hrest, List.getElem?_cons_zero]) hended hanswer
    obtain ⟨u, hu, hover⟩ := ih ((h.trans ht).tail htake) (hphase'.trans hphase)
      (by rw [hrunning, hrest, List.eraseIdx_cons_zero])
    exact ⟨u, (ht.tail htake).trans hu, hover⟩

/-- A pass that does not wait comes to its end by itself. -/
theorem exists_idle_of_collecting (h : Reaches (start settings registry) s) {index : Nat}
    (hphase : s.phase = .collecting false index) : ∃ t, Reaches s t ∧ t.phase = .idle := by
  induction hleft : s.running.length - index generalizing s index with
  | zero => exact ⟨_, .single (.sleep hphase (by omega)), rfl⟩
  | succ left ih =>
    have hlt : index < s.running.length := by omega
    have hticket := List.getElem?_eq_getElem hlt
    by_cases hended : (s.running[index]).place ∈ s.ended
    · obtain ⟨outcome, hanswer⟩ := (owned_of_reaches h).returned _ hended
      have htake := Step.take hphase hticket hended hanswer
      obtain ⟨t, ht, hidle⟩ := ih (h.tail htake) hphase (by
        show (s.running.eraseIdx index).length - index = left
        rw [List.length_eraseIdx_of_lt hlt]
        omega)
      exact ⟨t, .head htake ht, hidle⟩
    · have hkeep := Step.keep hphase hticket hended
      obtain ⟨t, ht, hidle⟩ := ih (h.tail hkeep) rfl (by
        show s.running.length - (index + 1) = left
        omega)
      exact ⟨t, .head hkeep ht, hidle⟩

/-- The loop can deal with any events. -/
theorem exists_reacted {rest : List WatchEvent} (hphase : s.phase = .reacting rest) :
    ∃ t, Reaches s t ∧ t.phase = .reacting [] := by
  induction rest generalizing s with
  | nil => exact ⟨s, .refl, hphase⟩
  | cons e rest ih =>
    suffices hstep : ∃ t, Step s t ∧ t.phase = .reacting rest by
      obtain ⟨t, ht, hrest⟩ := hstep
      obtain ⟨u, hu, hnone⟩ := ih hrest
      exact ⟨u, .head ht hu, hnone⟩
    set m : Machine := { files := .empty, directory := [], searchPath := "", rules := [] }
    rcases hread : s.course.session.prepareEvent m e
      with ⟨session, - | ⟨kind, d⟩ | ⟨id, outcome⟩⟩
    · exact ⟨_, .passOver hphase hread, rfl⟩
    · rcases hprepare : session.prepare m d with ⟨next, outcome | c⟩
      · obtain rfl := Session.session_of_prepare_eq_error hprepare
        exact ⟨_, .decline hphase hread (Session.Course.step?_of_step (.decline hprepare)), rfl⟩
      · obtain ⟨henable, hlua, -, rfl⟩ := Session.prepare_eq_ok_iff.mp hprepare
        exact ⟨_, .begin (c := ⟨_, d, session.commandFor m d⟩) hphase hread
          (Session.Course.step?_of_step (.begin henable hlua rfl rfl)), rfl⟩
    · exact ⟨_, .drop hphase hread, rfl⟩

/-- However far a watch has come, it can come to its end. -/
theorem exists_over (h : Reaches (start settings registry) s) :
    ∃ t, Reaches s t ∧ t.phase = .over := by
  have hidle : ∀ u, Reaches (start settings registry) u → u.phase = .idle →
      ∃ t, Reaches u t ∧ t.phase = .over := by
    intro u hu hphase
    obtain ⟨t, ht, hover⟩ := exists_over_of_waiting (hu.tail (.stop hphase)) rfl
    exact ⟨t, .head (.stop hphase) ht, hover⟩
  have hcollecting : ∀ u index, Reaches (start settings registry) u →
      u.phase = .collecting false index → ∃ t, Reaches u t ∧ t.phase = .over := by
    intro u index hu hphase
    obtain ⟨v, hv, hphase'⟩ := exists_idle_of_collecting hu hphase
    obtain ⟨t, ht, hover⟩ := hidle v (hu.trans hv) hphase'
    exact ⟨t, hv.trans ht, hover⟩
  rcases hphase : s.phase with - | rest | ⟨- | -, index⟩ | -
  · exact hidle s h hphase
  · obtain ⟨u, hu, hphase'⟩ := exists_reacted hphase
    have hcollect := hu.tail (.collect hphase')
    obtain ⟨t, ht, hover⟩ := hcollecting _ 0 (h.trans hcollect) rfl
    exact ⟨t, hcollect.trans ht, hover⟩
  · exact hcollecting s index h hphase
  · rw [(kept_of_reaches h).waiting index hphase] at hphase
    exact exists_over_of_waiting h hphase
  · exact ⟨s, .refl, hphase⟩

end Reporting

end LuaDiagnostics
