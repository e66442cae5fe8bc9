/-
Compiler commands and how they are put together.

A builder takes settings in any order; each field has the value it was given last, and
**`build`** fills in the rest: a program that was not given is looked up by the name of
the interpreter, whose bare name is used when it is not found.  The arguments depend on
the interpreter alone.
-/
import LuaDiagnostics.Settings

namespace LuaDiagnostics

/-- The argument that makes a compiler read its source from standard input. -/
def stdinArgument : String := "-"

/-- A program with its arguments and the directory it runs in. -/
structure Command where
  interpreter : Interpreter
  program : Path
  arguments : List String
  directory : Path
deriving DecidableEq, Repr, Inhabited

namespace Command

/-- The program as messages name it. -/
def displayName (c : Command) : String := c.program.text

/-- The program and its arguments on one line. -/
def commandLine (c : Command) : String := " ".intercalate (c.displayName :: c.arguments)

end Command

/-- A command in the making. -/
structure CommandBuilder where
  interpreter : Interpreter
  program : Option Path
  directory : Option Path
deriving DecidableEq, Repr

namespace CommandBuilder

/-- Nothing is given yet. -/
def new : CommandBuilder := { interpreter := .luac, program := none, directory := none }

/-- Takes the interpreter and the program from the settings; settings without a program
take back one that was given before. -/
def withSettings (b : CommandBuilder) (s : Settings) : CommandBuilder :=
  { b with interpreter := s.interpreter, program := s.compilerPath }

/-- Gives the interpreter. -/
def withInterpreter (b : CommandBuilder) (i : Interpreter) : CommandBuilder :=
  { b with interpreter := i }

/-- Gives the program. -/
def withProgram (b : CommandBuilder) (p : Path) : CommandBuilder := { b with program := some p }

/-- Gives the directory. -/
def withDirectory (b : CommandBuilder) (d : Path) : CommandBuilder :=
  { b with directory := some d }

/-- The command, with `lookUp` to find programs by name. -/
def build (b : CommandBuilder) (lookUp : String → Option Path) : Command :=
  { interpreter := b.interpreter
    program := b.program.getD ((lookUp b.interpreter.program).getD ⟨b.interpreter.program⟩)
    arguments := [b.interpreter.checkFlag, stdinArgument]
    directory := b.directory.getD ⟨"."⟩ }

end CommandBuilder

end LuaDiagnostics
