/-
The compilers that can check Lua sources.

A name that is neither of theirs stands for the first of them, with a warning.
-/
import LuaDiagnostics.Text.Quoted

namespace LuaDiagnostics

/-- A compiler and the way to have it check a source without running it. -/
inductive Interpreter
  | luac
  | luajit
deriving DecidableEq, Repr, Inhabited

namespace Interpreter

/-- The name of the program. -/
def program : Interpreter → String
  | luac => "luac"
  | luajit => "luajit"

/-- The flag that makes it only check the syntax. -/
def checkFlag : Interpreter → String
  | luac => "-p"
  | luajit => "-bl"

/-- The compiler with the name. -/
def ofName? : String → Option Interpreter
  | "luac" => some luac
  | "luajit" => some luajit
  | _ => none

theorem ofName?_program (i : Interpreter) : ofName? i.program = some i := by
  cases i <;> rfl

/-- What is said when a name is refused. -/
def unknownName (name : String) : String := s!"unknown interpreter '{name}'"

/-- The compiler with the name, or the usual one. -/
def ofNameOrDefault (name : String) : Interpreter := (ofName? name).getD luac

end Interpreter

end LuaDiagnostics
