import BisayaPlus.Diagnostic
import BisayaPlus.Text.LowerCase
/-!
# Events

What a run shows to the outside, in the order it happens: lines printed, lines
read, reports and log entries.
-/

set_option autoImplicit false

namespace BisayaPlus

/-- How much is logged, from least to most. -/
inductive Level where
  | panic | fatal | error | warning | info | debug | trace
  deriving DecidableEq, Inhabited

namespace Level

/-- The place of a level, from least to most. -/
def rank : Level → Nat
  | panic => 0
  | fatal => 1
  | error => 2
  | warning => 3
  | info => 4
  | debug => 5
  | trace => 6

/-- The name of a level. -/
def name : Level → Text
  | panic => "panic"
  | fatal => "fatal"
  | error => "error"
  | warning => "warning"
  | info => "info"
  | debug => "debug"
  | trace => "trace"

/-- Entries of one level are shown at another. -/
def shows (threshold entry : Level) : Bool := entry.rank ≤ threshold.rank

/-- The level with a name, in any case. -/
def ofName? (t : Text) : Option Level :=
  let lowered := Text.lower t
  if lowered = Text.ofString "warn" then some warning
  else [panic, fatal, error, warning, info, debug, trace].find? (·.name == lowered)

/-- The complaint about a name that no level has. -/
def unknownName (t : Text) : Text := "not a valid logrus Level: " ++ Text.quote t

end Level

/-- A value in a log entry. -/
inductive LogField where
  | number (n : Nat)
  | text (t : Text)
  deriving DecidableEq

/-- A log entry. -/
structure LogEntry where
  level : Level
  message : Text
  fields : List (Text × LogField)
  deriving DecidableEq

/-- What a run shows. -/
inductive Event where
  | printed (line : Text)
  | read (line : Text)
  | readFailed (reason : Text)
  | reported (d : Diagnostic)
  | logged (entry : LogEntry)
  deriving DecidableEq

/-- An answer of the input to a request for a line. -/
inductive Reply where
  | line (t : Text)
  | failure (reason : Text)
  deriving DecidableEq

/-- How a run ended. -/
inductive Outcome where
  | ok
  | syntaxError
  | runtimeError
  /-- The loops had more rounds than were granted. -/
  | unfinished
  deriving DecidableEq

/-- The name of an outcome. -/
def Outcome.name : Outcome → Text
  | ok => "ok"
  | syntaxError => "syntax error"
  | runtimeError => "runtime error"
  | unfinished => "unfinished"

end BisayaPlus
