import DeskCalculator.Calculation
import DeskCalculator.History.Entry

/-!
# DeskCalculator.Notice

What the calculator reports while it works, to whoever keeps a log of it. Nothing that it does
depends on these notices. An operation that a fault ends reports nothing.
-/

namespace DeskCalculator

/-- How much a report matters. -/
inductive Level
  /-- Of interest when something is looked into. -/
  | debug
  /-- An event of normal use. -/
  | info
  /-- Something did not work, and the work went on without it. -/
  | warning
  deriving DecidableEq, Repr

/-- A report of the calculator. -/
inductive Notice
  | evaluationFailed (expression : LooseText) (kind : Expression.FailureKind) (message : String)
  /-- An expression that somebody typed was not accepted. -/
  | expressionRejected (expression : LooseText) (kind : Expression.FailureKind)
  | historyUnreadable (fault : History.Fault)
  | historyUnsaved (fault : History.Fault)
  deriving DecidableEq, Repr

namespace Notice

/-- How much a notice matters. -/
def level : Notice → Level
  | evaluationFailed .. => .debug
  | expressionRejected .. => .info
  | historyUnreadable _ => .warning
  | historyUnsaved _ => .warning

/-- The fault that a notice about the history reports. -/
def fault? : Notice → Option History.Fault
  | historyUnreadable fault => some fault
  | historyUnsaved fault => some fault
  | _ => none

/-- The words of a notice. Of a fault of the history only the headline is given, since the rest
belongs to the system that the file is kept on. -/
def text : Notice → String
  | evaluationFailed expression kind message =>
    "Evaluación fallida de " ++ Text.quoted expression ++ ": " ++ message ++
      " (" ++ kind.name ++ ")"
  | expressionRejected expression kind =>
    "Expresión rechazada " ++ Text.quoted expression ++ ": " ++ kind.name
  | historyUnreadable _ => "No se pudo leer el historial"
  | historyUnsaved _ => "No se pudo guardar el historial"

end Notice

/-- What a calculation reports: its failure, if it fails. -/
def Outcome.notices (expression : LooseText) : Outcome → List Notice
  | success _ => []
  | failure kind message => [.evaluationFailed expression kind message]

/-- How an operation ends: with what it reports, or with a fault that it is not prepared for. -/
abbrev Ending := Except History.Fault (List Notice)

end DeskCalculator
