import BisayaPlus.Execution
import BisayaPlus.Program
/-!
# Runs

A run of a source: it is read and its faults are reported, and an accepted
program is executed statement by statement up to the first fault.
-/

set_option autoImplicit false

namespace BisayaPlus

open Execution

/-- What a run gives: its outcome, its events in order, and the answers of the
input that it did not ask for. -/
structure RunResult where
  outcome : Outcome
  events : List Event
  unread : List Reply

namespace Program

/-- Reports a fault, if reports are wanted. -/
def report (watchers : Watchers) (d : Diagnostic) : Execution PUnit :=
  if watchers.reporter then emit (.reported d) else pure ⟨⟩

/-- Reports faults in order. -/
def reportAll (watchers : Watchers) : List Diagnostic → Execution PUnit
  | [] => pure ⟨⟩
  | d :: more => do
    report watchers d
    reportAll watchers more

/-- Reports and logs what reading the program gave. -/
def showReading (watchers : Watchers) (p : Program) : Execution PUnit := do
  reportAll watchers p.scanned.diagnostics
  log watchers .debug "scan finished" [
    ("phase", .text "lexer"), ("tokens", .number p.scanned.tokens.length), ("lines", .number p.scanned.lastLine)]
  reportAll watchers p.tokenDiagnostics
  if p.parsed.ended then
    log watchers .debug "parse finished" [
      ("phase", .text "parser"), ("statements", .number p.statements.length),
      ("errors", .number p.diagnostics.length)]

/-- Runs statements in order. -/
def interpret (watchers : Watchers) (rounds : Nat) : List Stmt → Execution PUnit
  | [] => pure ⟨⟩
  | s :: more => do
    let _ ← s.execute watchers rounds
    interpret watchers rounds more

/-- Shows how the run of the statements ended. -/
def conclude (watchers : Watchers) : Except Stop PUnit → Execution Outcome
  | .ok _ => do
    log watchers .debug "execution finished" [("phase", .text "exec")]
    pure .ok
  | .error (.fault f) => do
    report watchers (.ofFault f)
    log watchers .debug "execution aborted" [("phase", .text "exec"), ("error", .text f.cause.message)]
    pure .runtimeError
  | .error .unfinished => pure .unfinished

/-- A whole run on a machine. -/
def execution (watchers : Watchers) (rounds : Nat) (p : Program) : Execution Outcome := do
  showReading watchers p
  if p.accepted then
    let ending ← observing (interpret watchers rounds p.statements)
    conclude watchers ending
  else pure .syntaxError

/-- Runs a program on a fresh machine with this input, each loop for at most
this many rounds. -/
def run (watchers : Watchers) (rounds : Nat) (replies : List Reply) (p : Program) : RunResult :=
  match p.execution watchers rounds (.fresh replies) with
  | (result, m) =>
    let outcome :=
      match result with
      | .ok outcome => outcome
      | .error _ => .unfinished
    { outcome := outcome, events := m.shown.reverse, unread := m.replies }

end Program

end BisayaPlus
