import BisayaPlus.Event
import BisayaPlus.Operation
import BisayaPlus.Scopes
import BisayaPlus.Text.Blank
import BisayaPlus.Tree
/-!
# Running statements

An expression is evaluated against the scopes and may change variables. A
statement runs on a machine, which also holds the input and what the run has
shown so far. Loops may take any number of rounds, so a run is granted a number
of rounds for each loop, and one that needs more stays unfinished.
-/

set_option autoImplicit false

namespace BisayaPlus

/-! ## Expressions -/

/-- Computes a value from the scopes, which it may change, also before a fault. -/
abbrev Evaluation (α : Type) := ExceptT Fault (StateM Scopes) α

namespace Evaluation

/-- The value of a variable. -/
def get (name : Token) : Evaluation Value := do
  ofExcept ((← getThe Scopes).get name)

/-- Assigns a value and gives the value stored. -/
def assign (name : Token) (value : Value) : Evaluation Value := do
  let (stored, scopes) ← ofExcept ((← getThe Scopes).assign name value)
  set scopes
  pure stored

/-- Fails if a name means nothing. -/
def require (name : Token) : Evaluation PUnit := do
  if (← getThe Scopes).has name.lexeme then pure ⟨⟩ else throw (Scopes.undefined name)

end Evaluation

open Evaluation

/-- Evaluates an expression, left before right. The right side of UG and O is
left out where the left side decides. -/
def Expr.evaluate : Expr → Evaluation Value
  | literal value => pure value
  | grouping inner => inner.evaluate
  | var name => get name
  | assign name value => do
    require name
    let v ← value.evaluate
    Evaluation.assign name v
  | unary operator right => do
    let r ← right.evaluate
    ofExcept (Operation.unary operator r)
  | binary left operator right => do
    let l ← left.evaluate
    let r ← right.evaluate
    ofExcept (Operation.binary operator l r)
  | logical left operator right => do
    let l ← left.evaluate
    if l.truthy == (operator.kind == .o) then pure l else right.evaluate
  | step operator name before => do
    let old ← get name
    let new ← ofExcept (Operation.step operator old)
    let stored ← Evaluation.assign name new
    pure (if before then stored else old)

/-! ## The machine -/

/-- Who watches a run. Each watcher may be absent. -/
structure Watchers where
  /-- Takes the printed lines, and says why the n-th print fails, if it does. -/
  printer : Option (Nat → Option Text) := some fun _ => none
  /-- Takes the reports. -/
  reporter : Bool := true
  /-- Answers requests for lines. -/
  reader : Bool := true
  /-- Takes log entries up to this level. -/
  logger : Option Level := none

/-- A running program: its variables, the answers still to come from the input,
the number of prints so far, and the events so far, the latest first. -/
structure Machine where
  scopes : Scopes
  replies : List Reply
  prints : Nat
  shown : List Event

/-- A machine without variables that has shown nothing. -/
def Machine.fresh (replies : List Reply) : Machine :=
  { scopes := .fresh, replies := replies, prints := 0, shown := [] }

/-- Why a run stops early. -/
inductive Stop where
  | fault (f : Fault)
  | unfinished
  deriving DecidableEq

/-- Runs on a machine. -/
abbrev Execution (α : Type) := ExceptT Stop (StateM Machine) α

/-- How a statement ended: normally, or by a jump that a loop around it takes. -/
inductive Flow where
  | normal
  | hunong
  | padayon
  deriving DecidableEq

namespace Execution

/-- Shows an event. -/
def emit (e : Event) : Execution PUnit := modify fun m => { m with shown := e :: m.shown }

/-- Stops at a fault. -/
def fail {α : Type} (token : Token) (cause : Cause) : Execution α := throw (.fault ⟨token, cause⟩)

/-- Logs an entry, if entries of its level are wanted. -/
@[inline] def log (watchers : Watchers) (level : Level) (message : Text) (fields : List (Text × LogField)) :
    Execution PUnit :=
  if watchers.logger.any (·.shows level) then emit (.logged ⟨level, message, fields⟩) else pure ⟨⟩

/-- Evaluates on the machine's variables. -/
def ofEvaluation {α : Type} (e : Evaluation α) : Execution α := fun m =>
  match e m.scopes with
  | (.ok a, scopes) => (.ok a, { m with scopes := scopes })
  | (.error fault, scopes) => (.error (.fault fault), { m with scopes := scopes })

/-- Runs in a scope of its own, which is closed however the run ends. -/
def inScope {α : Type} (body : Execution α) : Execution α := fun m =>
  match body { m with scopes := m.scopes.push } with
  | (result, m) => (result, { m with scopes := m.scopes.pop })

/-- The value of an expression. -/
def value (e : Expr) : Execution Value := ofEvaluation e.evaluate

/-- Whether an expression's value counts as true. -/
def holds (e : Expr) : Execution Bool := do
  pure (← value e).truthy

/-! ## Simple statements -/

/-- Prints a line. -/
def print (watchers : Watchers) (keyword : Token) (line : Text) : Execution PUnit := do
  match watchers.printer with
  | none => pure ⟨⟩
  | some failure =>
    let n := (← getThe Machine).prints + 1
    modify fun m => { m with prints := n }
    match failure n with
    | some reason => fail keyword (.printFailed reason)
    | none => emit (.printed line)

/-- Asks the input for a line. An input at its end keeps answering so. -/
def request (watchers : Watchers) (keyword : Token) : Execution Text := do
  if !watchers.reader then fail keyword .inputAbsent
  else
    let m ← getThe Machine
    let (reply, rest) :=
      match m.replies with
      | [] => (Reply.failure "EOF", [])
      | first :: rest => (first, rest)
    set { m with replies := rest }
    match reply with
    | .line t => do
      emit (.read t)
      pure t
    | .failure reason => do
      emit (.readFailed reason)
      fail keyword (.inputFailed reason)

/-- Declares names one by one, each with its value or NULL. -/
def declare (declared : DataType) : List (Token × Option Expr) → Execution PUnit
  | [] => pure ⟨⟩
  | (name, initial) :: more => do
    let v ←
      match initial with
      | none => pure Value.null
      | some e =>
        let v ← value e
        match v.coerce declared with
        | .ok v => pure v
        | .error cause => fail name cause
    modify fun m => { m with scopes := m.scopes.define name.lexeme ⟨declared, v⟩ }
    declare declared more

/-- Fails at the first name that means nothing. -/
def requireAll : List Token → Execution PUnit
  | [] => pure ⟨⟩
  | name :: more => do
    ofEvaluation (require name)
    requireAll more

/-- Stores fields of input in variables, from left to right. -/
def store : List (Token × Text) → Execution PUnit
  | [] => pure ⟨⟩
  | (name, field) :: more => do
    match (← getThe Machine).scopes.assignInput name field with
    | .ok (_, scopes) =>
      modify fun m => { m with scopes := scopes }
      store more
    | .error fault => throw (.fault fault)

/-- Reads a line of fields separated by commas into variables. -/
def receive (watchers : Watchers) (keyword : Token) (names : List Token) : Execution PUnit := do
  requireAll names
  let line ← request watchers keyword
  let fields := (Text.pieces (Text.byte ',') line).map Text.trim
  if fields.length = names.length then store (names.zip fields)
  else fail keyword (.inputCount names.length fields.length)

/-! ## Loops -/

/-- Tests, runs the body, and starts over, until the test fails or the body
leaves the loop. -/
def whileHolds (test : Execution Bool) (body : Execution Flow) : Nat → Execution Flow
  | 0 => throw .unfinished
  | rounds + 1 => do
    if ← test then
      match ← body with
      | .hunong => pure .normal
      | _ => whileHolds test body rounds
    else pure .normal

/-- Runs the body, tests, and starts over, until the test fails or the body
leaves the loop. -/
def untilFails (test : Execution Bool) (body : Execution Flow) : Nat → Execution Flow
  | 0 => throw .unfinished
  | rounds + 1 => do
    match ← body with
    | .hunong => pure .normal
    | _ =>
      if ← test then untilFails test body rounds
      else pure .normal

/-! ## Statements -/

/-- The name a log gives to a kind of statement. -/
def logName : Stmt → String
  | .expr _ => "*internal.exprStmt"
  | .ipakita _ _ => "*internal.printStmt"
  | .mugna _ _ _ => "*internal.multiVarStmt"
  | .dawat _ _ => "*internal.scanStmt"
  | .pundok _ => "*internal.blockStmt"
  | .kung _ _ _ _ _ => "*internal.ifStmt"
  | .mintras _ _ _ => "*internal.whileStmt"
  | .buhata _ _ _ => "*internal.doWhileStmt"
  | .hunong _ => "*internal.breakStmt"
  | .padayon _ => "*internal.continueStmt"

/-- Logs that a statement is about to run. -/
def announce (watchers : Watchers) (s : Stmt) : Execution PUnit :=
  log watchers .trace "execute" [
    ("phase", .text "exec"), ("stmt", .text (logName s)), ("line", .number s.token.line)]

end Execution

open Execution

mutual

/-- Runs a statement, each loop for at most this many rounds. -/
def Stmt.execute (watchers : Watchers) (rounds : Nat) (s : Stmt) : Execution Flow := do
  announce watchers s
  match s with
  | .expr e => do
    let _ ← value e
    pure .normal
  | .ipakita keyword e => do
    let v ← value e
    print watchers keyword v.display
    pure .normal
  | .mugna _ declared names => do
    declare declared names
    pure .normal
  | .dawat keyword names => do
    receive watchers keyword names
    pure .normal
  | .pundok body => inScope (executeAll watchers rounds body)
  | .kung _ condition body alternatives otherwise => do
    if ← holds condition then body.execute watchers rounds
    else executeFirst watchers rounds (executeOtherwise watchers rounds otherwise) alternatives
  | .mintras _ condition body => whileHolds (holds condition) (body.execute watchers rounds) rounds
  | .buhata _ body condition => untilFails (holds condition) (body.execute watchers rounds) rounds
  | .hunong _ => pure .hunong
  | .padayon _ => pure .padayon

/-- Runs statements in order, up to the first that jumps. -/
def executeAll (watchers : Watchers) (rounds : Nat) : List Stmt → Execution Flow
  | [] => pure .normal
  | s :: more => do
    match ← s.execute watchers rounds with
    | .normal => executeAll watchers rounds more
    | jump => pure jump

/-- Runs the first alternative whose condition holds, or else the last resort. -/
def executeFirst (watchers : Watchers) (rounds : Nat) (otherwise : Execution Flow) :
    List (Expr × Stmt) → Execution Flow
  | [] => otherwise
  | (condition, body) :: more => do
    if ← holds condition then body.execute watchers rounds
    else executeFirst watchers rounds otherwise more

/-- Runs the last alternative, if there is one. -/
def executeOtherwise (watchers : Watchers) (rounds : Nat) : Option Stmt → Execution Flow
  | none => pure .normal
  | some body => body.execute watchers rounds

end

end BisayaPlus
