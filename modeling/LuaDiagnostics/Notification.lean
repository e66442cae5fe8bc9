/-
Notifications: what the user is told while documents are linted.
-/
import LuaDiagnostics.Report.Paint

namespace LuaDiagnostics

/-- A message to the user. -/
inductive Notification
  | warning (message : String)
  | error (message : String)
deriving DecidableEq, Repr, Inhabited

namespace Notification

/-- The word that begins a notification on a console. -/
def label : Notification → String
  | warning _ => "warning:"
  | error _ => "error:"

/-- How that word is painted. -/
def style : Notification → Style
  | warning _ => .warning
  | error _ => .error

/-- What the user is told. -/
def message : Notification → String
  | warning m => m
  | error m => m

/-- A notification as a line of a console. -/
def consoleLine (n : Notification) (color : Bool) : String :=
  n.style.apply color n.label ++ " " ++ n.message ++ "\n"

/-- Notifications as a console shows them. -/
def console (ns : List Notification) (color : Bool) : String :=
  String.join (ns.map fun n => n.consoleLine color)

end Notification

end LuaDiagnostics
