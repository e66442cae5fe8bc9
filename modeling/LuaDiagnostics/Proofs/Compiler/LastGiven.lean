/-
A builder of commands as what it was last told.

A builder is told things by calls, in any order and any number of times.  Each of its
fields holds what the last call about that field gave; a call with settings is about two
fields at once, and it empties the program if the settings name none.

* **`foldl_apply`**: a field that every call either writes or leaves alone holds what was
  written last.
* **`program_command_of_reset`**: after settings without a program, one that was given
  before does not come back; the interpreter that is given last is looked up.
* **`apply_comm`**: calls about different fields may change places.
* **`command_last_given`** puts these together.
-/
import LuaDiagnostics.Compiler.Command

namespace LuaDiagnostics

namespace CommandBuilder

/-! ### Calls -/

/-- A call on a builder. -/
inductive Call
  | settings (s : Settings)
  | interpreter (i : Interpreter)
  | program (p : Path)
  | directory (d : Path)

namespace Call

/-- The builder after a call. -/
def apply (b : CommandBuilder) : Call → CommandBuilder
  | settings s => b.withSettings s
  | interpreter i => b.withInterpreter i
  | program p => b.withProgram p
  | directory d => b.withDirectory d

/-- The interpreter that a call gives. -/
def interpreter? : Call → Option Interpreter
  | settings s => some s.interpreter
  | interpreter i => some i
  | program _ => none
  | directory _ => none

/-- What a call that is about the program makes of it: a path, or none. -/
def program? : Call → Option (Option Path)
  | settings s => some s.compilerPath
  | interpreter _ => none
  | program p => some (some p)
  | directory _ => none

/-- The directory that a call gives. -/
def directory? : Call → Option Path
  | settings _ => none
  | interpreter _ => none
  | program _ => none
  | directory d => some d

/-- No field is written by both calls. -/
def Apart (c c' : Call) : Prop :=
  (c.interpreter? = none ∨ c'.interpreter? = none) ∧
  (c.program? = none ∨ c'.program? = none) ∧
  (c.directory? = none ∨ c'.directory? = none)

end Call

variable {b : CommandBuilder} {c c' : Call}

theorem interpreter_apply (b : CommandBuilder) (c : Call) :
    (c.apply b).interpreter = c.interpreter?.getD b.interpreter := by
  cases c <;> rfl

theorem program_apply (b : CommandBuilder) (c : Call) :
    (c.apply b).program = c.program?.getD b.program := by
  cases c <;> rfl

theorem directory_apply (b : CommandBuilder) (c : Call) :
    (c.apply b).directory = c.directory?.or b.directory := by
  cases c <;> rfl

/-- A builder is its three fields. -/
theorem ext_fields {b' : CommandBuilder} (hinterpreter : b.interpreter = b'.interpreter)
    (hprogram : b.program = b'.program) (hdirectory : b.directory = b'.directory) : b = b' := by
  cases b
  cases b'
  cases hinterpreter
  cases hprogram
  cases hdirectory
  rfl

/-- Calls about different fields may change places. -/
theorem apply_comm (h : c.Apart c') : c'.apply (c.apply b) = c.apply (c'.apply b) := by
  obtain ⟨hinterpreter, hprogram, hdirectory⟩ := h
  refine ext_fields ?_ ?_ ?_
  · simp only [interpreter_apply]
    rcases hinterpreter with hnone | hnone <;> rw [hnone] <;> rfl
  · simp only [program_apply]
    rcases hprogram with hnone | hnone <;> rw [hnone] <;> rfl
  · simp only [directory_apply]
    rcases hdirectory with hnone | hnone <;> rw [hnone, Option.none_or, Option.none_or]

/-! ### Sequences of calls -/

/-- The builder after calls, with nothing given at first. -/
def run (calls : List Call) : CommandBuilder := calls.foldl Call.apply new

/-- The command that calls lead to. -/
def command (lookUp : String → Option Path) (calls : List Call) : Command :=
  (run calls).build lookUp

/-- A field that every call either writes or leaves alone holds what was written last. -/
theorem foldl_apply {α : Type} (field : CommandBuilder → α) (given : Call → Option α)
    (happly : ∀ b c, field (c.apply b) = (given c).getD (field b)) (calls : List Call)
    (b : CommandBuilder) :
    field (calls.foldl Call.apply b) = (calls.filterMap given).getLastD (field b) := by
  induction calls generalizing b with
  | nil => rfl
  | cons c calls ih =>
    rw [List.foldl_cons, ih, happly]
    cases hgiven : given c with
    | none => rw [List.filterMap_cons_none hgiven, Option.getD_none]
    | some a => rw [List.filterMap_cons_some hgiven, Option.getD_some, List.getLastD_cons]

theorem program_run (calls : List Call) :
    (run calls).program = (calls.filterMap Call.program?).getLastD none :=
  foldl_apply (·.program) Call.program? program_apply calls new

/-- Neighbouring calls about different fields may change places in any sequence. -/
theorem run_swap (h : c.Apart c') (earlier later : List Call) :
    run (earlier ++ c :: c' :: later) = run (earlier ++ c' :: c :: later) := by
  rw [run, run, List.foldl_append, List.foldl_append, List.foldl_cons, List.foldl_cons,
    List.foldl_cons, List.foldl_cons, apply_comm h]

/-! ### The command -/

variable (lookUp : String → Option Path) (calls : List Call)

theorem interpreter_command :
    (command lookUp calls).interpreter = (calls.filterMap Call.interpreter?).getLastD .luac :=
  foldl_apply (·.interpreter) Call.interpreter? interpreter_apply calls new

theorem directory_command :
    (command lookUp calls).directory = (calls.filterMap Call.directory?).getLastD ⟨"."⟩ := by
  -- The default goes in at the end, but the field with its default is written like any other.
  refine foldl_apply (·.directory.getD ⟨"."⟩) Call.directory? (fun b c => ?_) calls new
  rw [directory_apply, Option.getD_or]

theorem program_command :
    (command lookUp calls).program
      = ((calls.filterMap Call.program?).getLastD none).getD
        ((lookUp (command lookUp calls).interpreter.program).getD
          ⟨(command lookUp calls).interpreter.program⟩) := by
  rw [← program_run]
  rfl

variable {lookUp calls}

/-- After settings without a program, one that was given before does not come back. -/
theorem program_command_of_reset {earlier later : List Call} {s : Settings}
    (hcalls : calls = earlier ++ .settings s :: later) (hnone : s.compilerPath = none)
    (hlater : ∀ c ∈ later, c.program? = none) :
    (command lookUp calls).program
      = (lookUp (command lookUp calls).interpreter.program).getD
        ⟨(command lookUp calls).interpreter.program⟩ := by
  have hlast : (calls.filterMap Call.program?).getLastD none = none := by
    have hsettings : (Call.settings s).program? = some none := congrArg some hnone
    rw [hcalls, List.filterMap_append, List.filterMap_cons_some hsettings,
      List.filterMap_eq_nil_iff.mpr hlater, List.getLastD_concat]
  rw [program_command, hlast, Option.getD_none]

/-- **Each field of a command is what was given last.**  Take any calls on a new builder and
the command that is built then.  Its interpreter is the last one given, by settings or alone,
or else `luac`.  Its program is the path that the last call about the program gave; if that
call was one with settings that name no program, or if there was none, it is what the name of
the final interpreter is found as, or else the bare name.  So settings without a program take
back any that was given before them, whatever interpreter is given later.  Its directory is
the last one given, or else the current one.  Its arguments are the flag of the final
interpreter and `-`, whatever the program.  Calls that write no field in common may change
places; of the calls on single fields these are any two on different fields. -/
theorem command_last_given (lookUp : String → Option Path) (calls : List Call) :
    (command lookUp calls).interpreter = (calls.filterMap Call.interpreter?).getLastD .luac ∧
    (command lookUp calls).program = (match (calls.filterMap Call.program?).getLast? with
      | some (some p) => p
      | _ => (lookUp (command lookUp calls).interpreter.program).getD
          ⟨(command lookUp calls).interpreter.program⟩) ∧
    (∀ earlier s later, calls = earlier ++ .settings s :: later → s.compilerPath = none →
      (∀ c ∈ later, c.program? = none) → (command lookUp calls).program
        = (lookUp (command lookUp calls).interpreter.program).getD
          ⟨(command lookUp calls).interpreter.program⟩) ∧
    (command lookUp calls).directory = (calls.filterMap Call.directory?).getLastD ⟨"."⟩ ∧
    (command lookUp calls).arguments
      = [((calls.filterMap Call.interpreter?).getLastD .luac).checkFlag, "-"] ∧
    (∀ earlier c c' later, calls = earlier ++ c :: c' :: later → c.Apart c' →
      run calls = run (earlier ++ c' :: c :: later)) ∧
    (∀ p i d s, (Call.program p).Apart (.interpreter i) ∧ (Call.program p).Apart (.directory d) ∧
      (Call.interpreter i).Apart (.directory d) ∧ (Call.settings s).Apart (.directory d)) := by
  refine ⟨interpreter_command lookUp calls, ?_, fun earlier s later => program_command_of_reset,
    directory_command lookUp calls, ?_, ?_, fun p i d s => ?_⟩
  · rw [program_command, List.getLastD_eq_getLast?]
    rcases (calls.filterMap Call.program?).getLast? with _ | _ | p <;> rfl
  · rw [← interpreter_command lookUp calls]
    rfl
  · intro earlier c c' later hcalls hapart
    rw [hcalls, run_swap hapart]
  · simp [Call.Apart, Call.interpreter?, Call.program?, Call.directory?]

/-- Calls for examples: the settings take the program back, and `luac` has the last word. -/
def sampleCalls : List Call :=
  [.program ⟨"/opt/luac"⟩, .settings { Settings.default with interpreter := .luajit },
    .directory ⟨"/work"⟩, .interpreter .luac]

/-- A search for programs that finds `luac` alone. -/
def sampleLookUp (name : String) : Option Path :=
  if name = "luac" then some ⟨"/usr/bin/luac"⟩ else none

theorem command_sampleCalls :
    sampleCalls = [.program ⟨"/opt/luac"⟩] ++ .settings { Settings.default with
      interpreter := .luajit } :: [.directory ⟨"/work"⟩, .interpreter .luac] ∧
    (command sampleLookUp sampleCalls).program = ⟨"/usr/bin/luac"⟩ ∧
    (command sampleLookUp sampleCalls).arguments = ["-p", "-"] ∧
    run sampleCalls = run [.program ⟨"/opt/luac"⟩, .settings { Settings.default with
      interpreter := .luajit }, .interpreter .luac, .directory ⟨"/work"⟩] := by
  obtain ⟨-, -, hreset, -, harguments, hswap, -⟩ := command_last_given sampleLookUp sampleCalls
  have hlater : ∀ c ∈ [Call.directory ⟨"/work"⟩, .interpreter .luac], c.program? = none := by
    simp [Call.program?]
  have hapart : (Call.directory ⟨"/work"⟩).Apart (.interpreter .luac) :=
    ⟨.inl rfl, .inl rfl, .inr rfl⟩
  exact ⟨rfl, hreset [_] _ _ rfl rfl hlater, harguments, hswap [_, _] _ _ [] rfl hapart⟩

example : command (fun _ => none) [.interpreter .luajit]
    = { interpreter := .luajit, program := ⟨"luajit"⟩, arguments := ["-bl", "-"]
        directory := ⟨"."⟩ } := by decide

end CommandBuilder

end LuaDiagnostics
