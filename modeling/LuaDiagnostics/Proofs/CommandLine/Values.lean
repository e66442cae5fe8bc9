/-
Values on a command line.

A value is looked at only when its argument is taken, and that happens in many places: with
the next option, the next argument, an equals sign, at the end of a level.

* **`Given.Checked`**: every value that was taken has passed the check of its argument;
* **`checked_read`**: reading words keeps this, so
* **`of_parse_eq_ok`**: an invocation that was understood holds no value that its argument
  cannot have; **`compilerPath_ne_empty`**: it names no empty path as its compiler.
-/
import LuaDiagnostics.CommandLine.Parser

namespace LuaDiagnostics.CommandLine

theorem exists_of_bind_eq_ok {ε α β : Type} {x : Except ε α} {f : α → Except ε β} {b : β}
    (h : x >>= f = .ok b) : ∃ a, x = .ok a ∧ f a = .ok b := by
  cases x with
  | error e => cases h
  | ok a => exact ⟨a, rfl, h⟩

theorem exists_of_map_eq_ok {ε α β : Type} {x : Except ε α} {f : α → β} {b : β}
    (h : x.map f = .ok b) : ∃ a, x = .ok a ∧ f a = b := by
  cases x with
  | error e => cases h
  | ok a => exact ⟨a, rfl, Except.ok.inj h⟩

theorem forM_eq_ok {α : Type} {f : α → Except UsageError Unit} {l : List α}
    (h : l.forM f = .ok ()) : ∀ a ∈ l, f a = .ok () := by
  induction l with
  | nil => exact fun a ha => absurd ha List.not_mem_nil
  | cons b rest ih =>
    obtain ⟨⟨⟩, hb, hrest⟩ := exists_of_bind_eq_ok h
    intro a ha
    rcases List.mem_cons.mp ha with rfl | ha
    · exact hb
    · exact ih hrest a ha

/-! ### Taking values -/

namespace Given

variable {g g' : Given} {a : Argument} {values : List String}

/-- All values that were taken have passed the check of their argument. -/
def Checked (g : Given) : Prop :=
  ∀ a values, (a, values) ∈ g.values → ∀ value ∈ values, a.check value = .ok ()

theorem checked_nothing : nothing.Checked := fun _ _ h => absurd h List.not_mem_nil

/-- The values of an argument are added to those before, once they are checked. -/
theorem of_commit_eq_ok (h : g.commit a values = .ok g') :
    values.forM a.check = .ok () ∧
      g' = { g with values := (a, (g.get? a).getD [] ++ values) ::
                g.values.filter fun v => v.1 ≠ a } := by
  have hlast : (do
      values.forM a.check
      return { g with values := (a, (g.get? a).getD [] ++ values) ::
                g.values.filter fun v => v.1 ≠ a } : Except UsageError Given) = .ok g' := by
    unfold commit at h
    dsimp only at h
    split at h
    · cases h
    · cases h
    · split at h
      · cases h
      · split at h
        · cases h
        · exact h
  obtain ⟨⟨⟩, hchecked, hg⟩ := exists_of_bind_eq_ok hlast
  exact ⟨hchecked, (Except.ok.inj hg).symm⟩

theorem mem_of_get?_eq_some (h : g.get? a = some values) : (a, values) ∈ g.values := by
  obtain ⟨⟨b, given⟩, hfind, rfl⟩ := Option.map_eq_some_iff.mp h
  have ha : b = a := by simpa using List.find?_some hfind
  exact ha ▸ List.mem_of_find?_eq_some hfind

theorem checked_commit (hg : g.Checked) (h : g.commit a values = .ok g') : g'.Checked := by
  obtain ⟨hvalues, rfl⟩ := of_commit_eq_ok h
  intro b given hmem value hvalue
  rcases List.mem_cons.mp hmem with heq | hmem
  · obtain ⟨rfl, rfl⟩ := Prod.mk.inj heq
    rcases List.mem_append.mp hvalue with hbefore | hnew
    · cases hget : g.get? b with
      | none => simp [hget] at hbefore
      | some before =>
        rw [hget] at hbefore
        exact hg b before (mem_of_get?_eq_some hget) value hbefore
    · exact forM_eq_ok hvalues value hnew
  · exact hg b given (List.mem_filter.mp hmem).1 value hvalue

theorem checked_settle (hg : g.Checked) (h : g.settle = .ok g') : g'.Checked := by
  unfold settle at h
  split at h
  · exact Except.ok.inj h ▸ hg
  · exact checked_commit (g := { g with pending := none }) hg h

theorem checked_begin (hg : g.Checked) (h : g.begin a values = .ok g') : g'.Checked := by
  obtain ⟨settled, hsettle, hopened⟩ := exists_of_bind_eq_ok h
  have hsettled : settled.Checked := checked_settle hg hsettle
  obtain rfl := Except.ok.inj hopened
  exact hsettled

theorem checked_take (hg : g.Checked) (h : g.take a values = .ok g') : g'.Checked := by
  obtain ⟨settled, hsettle, hcommit⟩ := exists_of_bind_eq_ok h
  exact checked_commit (checked_settle hg hsettle) hcommit

theorem checked_addWord {word : String} (hg : g.Checked) (h : g.addWord a word = .ok g') :
    g'.Checked := by
  unfold addWord at h
  split at h
  · split at h
    · exact Except.ok.inj h ▸ hg
    · exact checked_begin hg h
  · exact checked_begin hg h

theorem Checked.updatedWith (hg : g.Checked) (hg' : g'.Checked) : (g.updatedWith g').Checked := by
  intro a values hmem
  rcases List.mem_append.mp hmem with hmem | hmem
  · exact hg' a values hmem
  · exact hg a values hmem

/-- The last value of an argument has passed its check. -/
theorem Checked.check_value? {value : String} (hg : g.Checked) (h : g.value? a = some value) :
    a.check value = .ok () := by
  obtain ⟨values, hvalues, hlast⟩ := Option.bind_eq_some_iff.mp h
  exact hg a values (mem_of_get?_eq_some hvalues) value (List.mem_of_getLast? hlast)

end Given

/-! ### Reading words -/

variable {l : Level} {g g' : Given} {wants trailing : Bool}

theorem checked_readLong {body : List Char} (hg : g.Checked)
    (h : readLong l g body = .ok (g', wants)) : g'.Checked := by
  unfold readLong at h
  dsimp only at h
  split at h
  · cases h
  · split at h
    · obtain ⟨opened, hopened, heq⟩ := exists_of_map_eq_ok h
      exact (Prod.mk.inj heq).1 ▸ Given.checked_begin hg hopened
    · obtain ⟨taken, htaken, heq⟩ := exists_of_map_eq_ok h
      exact (Prod.mk.inj heq).1 ▸ Given.checked_take hg htaken
  · split at h
    · obtain ⟨taken, htaken, heq⟩ := exists_of_map_eq_ok h
      exact (Prod.mk.inj heq).1 ▸ Given.checked_take hg htaken
    · cases h

theorem checked_readShort {names : List Char} (hg : g.Checked)
    (h : readShort l g names = .ok (g', wants)) : g'.Checked := by
  induction names generalizing g with
  | nil =>
    obtain ⟨rfl, -⟩ := Prod.mk.inj (Except.ok.inj h)
    exact hg
  | cons c rest ih =>
    unfold readShort at h
    split at h
    · cases h
    · split at h
      · split at h
        · cases h
        · rename_i taken htaken
          exact ih (Given.checked_take hg htaken) h
      · split at h
        · obtain ⟨opened, hopened, heq⟩ := exists_of_map_eq_ok h
          exact (Prod.mk.inj heq).1 ▸ Given.checked_begin hg hopened
        · obtain ⟨taken, htaken, heq⟩ := exists_of_map_eq_ok h
          exact (Prod.mk.inj heq).1 ▸ Given.checked_take hg htaken
        · obtain ⟨taken, htaken, heq⟩ := exists_of_map_eq_ok h
          exact (Prod.mk.inj heq).1 ▸ Given.checked_take hg htaken

theorem checked_readWord {word : String} (hg : g.Checked)
    (h : readWord l g trailing word = .ok g') : g'.Checked := by
  unfold readWord at h
  split at h
  · split at h
    · cases h
    · cases h
  · split at h
    · cases h
    · exact Given.checked_addWord hg h

/-- Whatever the words, all values that are taken while they are read are checked. -/
theorem checked_read {words : List String} {reading : LevelReading} (hg : g.Checked)
    (h : read l g wants trailing words = .ok reading) : reading.given.Checked := by
  induction words generalizing g wants trailing with
  | nil => exact Except.ok.inj h ▸ hg
  | cons word rest ih =>
    unfold read at h
    split at h
    · -- Behind `--` every word is taken as it is.
      split at h
      · cases h
      · rename_i taken htaken
        exact ih (checked_readWord hg htaken) h
    · split at h
      · cases h
      · split at h
        · -- The name of an activity ends the level.
          exact Except.ok.inj h ▸ hg
        · split at h
          · exact ih hg h
          · split at h
            · cases h
            · rename_i taken wants' htaken
              exact ih (checked_readLong hg htaken) h
          · split at h
            · cases h
            · rename_i taken wants' htaken
              exact ih (checked_readShort hg htaken) h
          · split at h
            · -- A word that is kept back is not taken yet.
              have hkept : Given.Checked
                  { g with pending := g.pending.map fun p => (p.1, p.2 ++ [word]) } := hg
              exact ih hkept h
            · split at h
              · cases h
              · rename_i taken htaken
                exact ih (checked_readWord hg htaken) h

theorem checked_parseActivity {words : List String} (h : parseActivity l words = .ok g) :
    g.Checked := by
  obtain ⟨reading, hread, h⟩ := exists_of_bind_eq_ok h
  obtain ⟨settled, hsettle, h⟩ := exists_of_bind_eq_ok h
  have hsettled : settled.Checked :=
    Given.checked_settle (checked_read Given.checked_nothing hread) hsettle
  split at h
  · split at h
    · exact Except.ok.inj h ▸ hsettled
    · cases h
  · exact Except.ok.inj h ▸ hsettled

/-- An invocation that was understood is made of checked values. -/
theorem of_parse_eq_ok {words : List String} {i : Invocation} (h : parse words = .ok i) :
    ∃ g activity, g.Checked ∧ i = invocationOf g activity := by
  obtain ⟨reading, hread, h⟩ := exists_of_bind_eq_ok h
  split at h
  · obtain ⟨settled, -, h⟩ := exists_of_bind_eq_ok h
    split at h
    · cases h
    · cases h
  · obtain ⟨inner, hinner, h⟩ := exists_of_bind_eq_ok h
    obtain ⟨outer, houter, h⟩ := exists_of_bind_eq_ok h
    split at h
    · have hchecked : outer.Checked :=
        Given.checked_settle (checked_read Given.checked_nothing hread) houter
      exact ⟨_, _, hchecked.updatedWith (checked_parseActivity hinner), (Except.ok.inj h).symm⟩
    · cases h

/-- The empty path names no compiler on a command line. -/
theorem compilerPath_ne_empty {words : List String} {i : Invocation} (h : parse words = .ok i) :
    i.compilerPath ≠ some ⟨""⟩ := by
  obtain ⟨g, activity, hg, rfl⟩ := of_parse_eq_ok h
  intro hempty
  obtain ⟨value, hvalue, hpath⟩ := Option.map_eq_some_iff.mp hempty
  obtain rfl := Path.mk.inj hpath
  exact absurd (hg.check_value? hvalue) (by simp [Argument.check])

end LuaDiagnostics.CommandLine
