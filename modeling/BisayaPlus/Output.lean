import BisayaPlus.Event
/-!
# Output

What is shown on the two output streams. Printed lines go to standard output,
reports and log entries to standard error.
-/

set_option autoImplicit false

namespace BisayaPlus

/-- A text shown on one of the output streams. -/
inductive Shown where
  | out (text : Text)
  | err (text : Text)
  /-- Nothing is shown, but the input was asked for more than it had: what comes
  after may change if the input goes on. -/
  | starved
  deriving DecidableEq

namespace Shown

/-- What is shown on standard output. -/
def outText : List Shown → Text
  | [] => []
  | out t :: more => t ++ outText more
  | _ :: more => outText more

/-- What is shown on standard error. -/
def errText : List Shown → Text
  | [] => []
  | err t :: more => t ++ errText more
  | _ :: more => errText more

end Shown

/-! ## Log lines -/

/-- A byte that needs no quotes in a log line. -/
def isBareByte (b : UInt8) : Bool :=
  (97 ≤ b && b ≤ 122) || (65 ≤ b && b ≤ 90) || Text.isDigit b || (Text.ofString "-._/@^+").contains b

/-- A value in a log line, in quotes if it needs them. -/
def logValue (t : Text) : Text := if t.all isBareByte then t else Text.quote t

/-- The text of a value. -/
def LogField.display : LogField → Text
  | number n => Text.ofNat n
  | text t => t

namespace LogEntry

/-- The fields in the order of their names. -/
def sortedFields (e : LogEntry) : List (Text × LogField) := e.fields.mergeSort fun a b => !decide (b.1 < a.1)

/-- A field in a log line. -/
def fieldText (f : Text × LogField) : Text := " " ++ f.1 ++ "=" ++ logValue f.2.display

/-- The line of an entry, with a time stamp. -/
def line (stamp : Text) (e : LogEntry) : Text :=
  "time=\"" ++ stamp ++ "\" level=" ++ e.level.name ++ " msg=" ++ logValue e.message ++
    e.sortedFields.flatMap fieldText ++ "\n"

/-- What is shown of an entry at a level. -/
def shown (threshold : Level) (stamp : Text) (e : LogEntry) : List Shown :=
  if threshold.shows e.level then [.err (e.line stamp)] else []

end LogEntry

/-- The line of a report. -/
def Diagnostic.shown (d : Diagnostic) : Shown := .err (d.text ++ "\n")

/-- What is shown of an event. -/
def Event.shown (stamp : Text) : Event → List Shown
  | printed line => [.out (line ++ "\n")]
  | read _ => []
  | readFailed _ => [.starved]
  | reported d => [d.shown]
  | logged e => [.err (e.line stamp)]

end BisayaPlus
