/-
Coloured output and plain output carry the same text.

A sequence begins with an escape and an opening bracket and goes up to the next `m`.  Deleting
the sequences of a text looks at every character, so brackets, digits and the letter `m` stay
where they are as long as no escape stands before them.

* **`Carries`** says of a coloured text that deleting its sequences leaves a plain one, whatever
  follows.  Text without escapes carries itself (**`IsPlain.carries`**), painted text what was
  painted (**`Wraps.carries`**), and both can be put together (**`Carries.append`**).
* **`strip_coloured`**: stripped, a coloured report or console is the plain one, in the colours
  used here as in any others.
-/
import LuaDiagnostics.Notification
import LuaDiagnostics.Report.Human

namespace LuaDiagnostics

namespace Style

/-! ### Sequences -/

/-- The character that begins a sequence. -/
def escape : Char := '\x1b'

/-- A sequence: an escape, a bracket, and what follows up to the next `m`. -/
def IsSequence (cs : List Char) : Prop :=
  ∃ parameters, 'm' ∉ parameters ∧ cs = escape :: '[' :: (parameters ++ ['m'])

/-- Deletes the sequences of a text, in one of which the text may begin.  Without a next `m`
there is no sequence. -/
def stripFrom (inside : Bool) : List Char → List Char
  | [] => []
  | c :: rest =>
    if inside then stripFrom (c ≠ 'm') rest
    else if c = escape ∧ rest.head? = some '[' ∧ 'm' ∈ rest then stripFrom true rest
    else c :: stripFrom false rest

/-- The text without its sequences. -/
def strip (s : String) : String := String.ofList (stripFrom false s.toList)

variable {cs sequence : List Char}

theorem stripFrom_append (h : escape ∉ cs) (rest : List Char) :
    stripFrom false (cs ++ rest) = cs ++ stripFrom false rest := by
  induction cs with
  | nil => rfl
  | cons c cs ih =>
    have hc : escape ≠ c := List.ne_of_not_mem_cons h
    have hopens : ¬ (c = escape ∧ (cs ++ rest).head? = some '[' ∧ 'm' ∈ cs ++ rest) :=
      fun hopens => hc hopens.1.symm
    rw [List.cons_append, stripFrom, if_neg Bool.false_ne_true, if_neg hopens,
      ih (List.not_mem_of_not_mem_cons h), List.cons_append]

theorem stripFrom_inside (h : 'm' ∉ cs) (rest : List Char) :
    stripFrom true (cs ++ 'm' :: rest) = stripFrom false rest := by
  induction cs with
  | nil => rfl
  | cons c cs ih =>
    have hc : 'm' ≠ c := List.ne_of_not_mem_cons h
    rw [List.cons_append, stripFrom, if_pos rfl, decide_eq_true hc.symm]
    exact ih (List.not_mem_of_not_mem_cons h)

/-- Sequences are deleted, and nothing behind them. -/
theorem stripFrom_sequence (h : IsSequence sequence) (rest : List Char) :
    stripFrom false (sequence ++ rest) = stripFrom false rest := by
  obtain ⟨parameters, hparameters, rfl⟩ := h
  have hopens : escape = escape ∧ ('[' :: (parameters ++ 'm' :: rest)).head? = some '[' ∧
      'm' ∈ '[' :: (parameters ++ 'm' :: rest) :=
    ⟨rfl, rfl, List.mem_cons_of_mem _ (List.mem_append_right _ List.mem_cons_self)⟩
  rw [List.cons_append, List.cons_append, List.append_assoc, List.singleton_append, stripFrom,
    if_neg Bool.false_ne_true, if_pos hopens, stripFrom, if_pos rfl]
  -- The bracket stands inside of the sequence too.
  exact stripFrom_inside hparameters rest

/-! ### Texts that carry others -/

/-- Deleting the sequences of the coloured text leaves the plain one, whatever follows. -/
def Carries (coloured plain : String) : Prop :=
  ∀ rest, stripFrom false (coloured.toList ++ rest) = plain.toList ++ stripFrom false rest

/-- A text without escapes. -/
def IsPlain (s : String) : Prop := escape ∉ s.toList

/-- A way to paint that puts one sequence before the text and one behind it. -/
def Wraps (paint : String → String) : Prop :=
  ∃ opening reset : String, IsSequence opening.toList ∧ IsSequence reset.toList ∧
    ∀ text, paint text = opening ++ text ++ reset

variable {s t coloured plain : String} {paint : String → String}

instance (s : String) : Decidable (IsPlain s) := inferInstanceAs (Decidable (_ ∉ _))

theorem Carries.strip_eq (h : Carries coloured plain) : strip coloured = plain := by
  have hnil := h []
  rw [List.append_nil, stripFrom, List.append_nil] at hnil
  rw [strip, hnil, String.ofList_toList]

theorem Carries.append {coloured' plain' : String} (h : Carries coloured plain)
    (h' : Carries coloured' plain') : Carries (coloured ++ coloured') (plain ++ plain') := by
  intro rest
  rw [String.toList_append, String.toList_append, List.append_assoc, h, h', List.append_assoc]

theorem IsPlain.carries (h : IsPlain s) : Carries s s := stripFrom_append h

theorem Wraps.carries (hpaint : Wraps paint) (h : IsPlain s) : Carries (paint s) s := by
  obtain ⟨opening, reset, hopening, hreset, hpaint⟩ := hpaint
  intro rest
  rw [hpaint, String.toList_append, String.toList_append, List.append_assoc, List.append_assoc,
    stripFrom_sequence hopening, stripFrom_append h, stripFrom_sequence hreset]

/-- What is put together from texts carries what the texts carry. -/
theorem carries_join {α : Type} {f g : α → String} (items : List α)
    (h : ∀ a ∈ items, Carries (f a) (g a)) :
    Carries (String.join (items.map f)) (String.join (items.map g)) := by
  induction items with
  | nil => exact fun rest => rfl
  | cons a items ih =>
    obtain ⟨ha, hitems⟩ := List.forall_mem_cons.mp h
    rw [List.map_cons, List.map_cons, String.join_cons, String.join_cons]
    exact ha.append (ih hitems)

theorem IsPlain.append (hs : IsPlain s) (ht : IsPlain t) : IsPlain (s ++ t) := by
  rw [IsPlain, String.toList_append, List.mem_append]
  exact not_or.mpr ⟨hs, ht⟩

theorem isPlain_repr (n : Nat) : IsPlain n.repr := by
  rw [IsPlain, Nat.repr_eq_ofList_toDigits, String.toList_ofList]
  intro hmem
  exact absurd (Nat.isDigit_of_mem_toDigits (by decide) (by decide) hmem) (by decide)

/-- The styles paint in this way. -/
theorem wraps_paint (s : Style) : Wraps s.paint := by
  refine ⟨"\x1b[" ++ s.parameters ++ "m", "\x1b[0m", ?_, ⟨['0'], by decide, by decide⟩,
    fun text => rfl⟩
  refine ⟨s.parameters.toList, ?_, ?_⟩
  · cases s <;> decide
  · rw [String.toList_append, String.toList_append, List.append_assoc]
    rfl

end Style

/-! ### Reports and consoles -/

open Style

/-- A diagnostic on one line, painted in any way. -/
def Diagnostic.headlineWith (paint : Style → String → String) (id : DocumentId)
    (d : Diagnostic) : String :=
  paint .place (d.place id) ++ ": " ++ paint d.severity.style d.severity.label ++ ": "
    ++ d.message ++ d.attribution

/-- Notifications on a console, painted in any way. -/
def Notification.consoleWith (paint : Style → String → String) (ns : List Notification) :
    String :=
  String.join (ns.map fun n => paint n.style n.label ++ " " ++ n.message ++ "\n")

theorem Diagnostic.isPlain_place {id : DocumentId} (h : IsPlain id.text) (d : Diagnostic) :
    IsPlain (d.place id) := by
  have hcolon : IsPlain ":" := by decide
  exact (((h.append hcolon).append (isPlain_repr _)).append hcolon).append (isPlain_repr _)

theorem Diagnostic.isPlain_attribution {d : Diagnostic} (h : IsPlain d.source) :
    IsPlain d.attribution := by
  rw [attribution]
  split
  · decide
  · have hopening : IsPlain " [" := by decide
    have hclosing : IsPlain "]" := by decide
    exact (hopening.append h).append hclosing

theorem Severity.isPlain_label (s : Severity) : IsPlain s.label := by
  cases s <;> decide

theorem Notification.isPlain_label (n : Notification) : IsPlain n.label := by
  cases n with
  | warning m => exact (by decide : IsPlain "warning:")
  | error m => exact (by decide : IsPlain "error:")

variable {paint : Style → String → String}

theorem Diagnostic.carries_headlineWith (hpaint : ∀ s, Wraps (paint s)) {id : DocumentId}
    {d : Diagnostic} (hid : IsPlain id.text) (hmessage : IsPlain d.message)
    (hsource : IsPlain d.source) : Carries (d.headlineWith paint id) (d.headline id false) := by
  have hcolon : Carries ": " ": " := IsPlain.carries (by decide)
  have hplace := (hpaint .place).carries (d.isPlain_place hid)
  have hlabel := (hpaint d.severity.style).carries d.severity.isPlain_label
  exact ((((hplace.append hcolon).append hlabel).append hcolon).append hmessage.carries).append
    (isPlain_attribution hsource).carries

theorem Notification.carries_consoleWith (hpaint : ∀ s, Wraps (paint s))
    {ns : List Notification} (h : ∀ n ∈ ns, IsPlain n.message) :
    Carries (consoleWith paint ns) (console ns false) := by
  refine carries_join ns fun n hn => ?_
  have hlabel := (hpaint n.style).carries n.isPlain_label
  have hspace : Carries " " " " := IsPlain.carries (by decide)
  have hnewline : Carries "\n" "\n" := IsPlain.carries (by decide)
  exact ((hlabel.append hspace).append (h n hn).carries).append hnewline

/-- **Colours change no text.**  Sequences go from an escape and a bracket up to the next `m`.
* If the name of a document, the message and the source of a diagnostic hold no escapes, the
  painted line without its sequences is the plain line; and so are the lines of any
  notifications on a console.
* The same is so however the styles are painted, if every style puts one sequence in front of
  the text and one behind it. -/
theorem strip_coloured (paint : Style → String → String) (hpaint : ∀ s, Wraps (paint s)) :
    (∀ (d : Diagnostic) (id : DocumentId), IsPlain id.text → IsPlain d.message →
      IsPlain d.source →
      strip (d.headline id true) = d.headline id false ∧
      strip (d.headlineWith paint id) = d.headline id false) ∧
    (∀ ns : List Notification, (∀ n ∈ ns, IsPlain n.message) →
      strip (Notification.console ns true) = Notification.console ns false ∧
      strip (Notification.consoleWith paint ns) = Notification.console ns false) ∧
    (∀ (d : Diagnostic) (id : DocumentId) (ns : List Notification) (color : Bool),
      d.headline id color = d.headlineWith (fun s => s.apply color) id ∧
      Notification.console ns color = Notification.consoleWith (fun s => s.apply color) ns) := by
  refine ⟨fun d id hid hmessage hsource => ⟨?_, ?_⟩, fun ns h => ⟨?_, ?_⟩,
    fun d id ns color => ⟨rfl, rfl⟩⟩
  · exact (d.carries_headlineWith wraps_paint hid hmessage hsource).strip_eq
  · exact (d.carries_headlineWith hpaint hid hmessage hsource).strip_eq
  · exact (Notification.carries_consoleWith wraps_paint h).strip_eq
  · exact (Notification.carries_consoleWith hpaint h).strip_eq

/-- A diagnostic for examples, with texts that would be sequences behind an escape. -/
def bracketedDiagnostic : Diagnostic :=
  { range := .onLine 0 4 9
    message := "unexpected symbol near '[1;31m'"
    severity := .warning
    source := "luac[0m" }

/-- Nothing of such texts is lost. -/
theorem strip_bracketedDiagnostic :
    strip (bracketedDiagnostic.headline ⟨"/tmp/[m.lua"⟩ true)
      = "/tmp/[m.lua:1:5: warning: unexpected symbol near '[1;31m' [luac[0m]" ∧
    Notification.console [.warning "[1m", .error "m"] true
      = "\x1b[1;33mwarning:\x1b[0m [1m\n\x1b[1;31merror:\x1b[0m m\n" ∧
    strip (Notification.console [.warning "[1m", .error "m"] true)
      = "warning: [1m\nerror: m\n" := by
  obtain ⟨hline, hconsole, -⟩ := strip_coloured Style.paint wraps_paint
  obtain ⟨hstrip, -⟩ :=
    hline bracketedDiagnostic ⟨"/tmp/[m.lua"⟩ (by decide) (by decide) (by decide)
  obtain ⟨hstrip', -⟩ := hconsole [.warning "[1m", .error "m"] (by decide)
  rw [hstrip, hstrip']
  decide

end LuaDiagnostics
