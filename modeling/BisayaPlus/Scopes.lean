import BisayaPlus.Value.Conversion
/-!
# Scopes

The variables of a running program. The scopes stand in one list; each names
the scope around it, and a name means its binding in the nearest scope that
has one.
-/

set_option autoImplicit false

namespace BisayaPlus

/-- A variable: the type it was declared with, and its value. -/
structure Binding where
  declared : DataType
  value : Value
  deriving DecidableEq

/-- The variables declared in one block, and the place of the scope around it. -/
structure Scope where
  parent : Option Nat := none
  bindings : List (Text × Binding) := []
  deriving DecidableEq

namespace Scope

/-- The variable with a name. -/
def find? (s : Scope) (name : Text) : Option Binding := s.bindings.lookup name

/-- Bindings with one for a name, in the place of an earlier one. -/
def put (name : Text) (b : Binding) : List (Text × Binding) → List (Text × Binding)
  | [] => [(name, b)]
  | (other, old) :: rest => if other = name then (name, b) :: rest else (other, old) :: put name b rest

/-- The scope with a binding for a name. -/
def define (s : Scope) (name : Text) (b : Binding) : Scope := { s with bindings := put name b s.bindings }

end Scope

/-- All scopes, and the place of the innermost one. -/
structure Scopes where
  arena : List Scope
  current : Nat
  deriving DecidableEq

namespace Scopes

/-- One scope without variables. -/
def fresh : Scopes := { arena := [{}], current := 0 }

/-- Opens a scope inside the current one. -/
def push (s : Scopes) : Scopes :=
  { arena := s.arena ++ [{ parent := some s.current }], current := s.arena.length }

/-- Closes the current scope, unless it is the outermost. -/
def pop (s : Scopes) : Scopes :=
  if s.current = 0 then s
  else { arena := s.arena.take s.current, current := ((s.arena[s.current]?).bind (·.parent)).getD 0 }

/-- Declares a variable in the current scope. -/
def define (s : Scopes) (name : Text) (b : Binding) : Scopes :=
  { s with arena := s.arena.modify s.current (·.define name b) }

/-- The place of the nearest scope with a name, from a place outward. The bound
is on the number of scopes looked at. -/
def placeFrom (arena : List Scope) (name : Text) : Nat → Nat → Option Nat
  | 0, _ => none
  | bound + 1, place =>
    match arena[place]? with
    | none => none
    | some scope =>
      if (scope.find? name).isSome then some place
      else
        match scope.parent with
        | none => none
        | some outer => placeFrom arena name bound outer

/-- The place of the scope a name belongs to. -/
def place? (s : Scopes) (name : Text) : Option Nat := placeFrom s.arena name s.arena.length s.current

/-- The variable a name means, with the place of its scope. -/
def lookup? (s : Scopes) (name : Text) : Option (Nat × Binding) :=
  match s.place? name with
  | none => none
  | some place => ((s.arena[place]?).bind (·.find? name)).map (place, ·)

/-- Whether a name means anything. -/
def has (s : Scopes) (name : Text) : Bool := (s.lookup? name).isSome

/-- The fault of a name that means nothing. -/
def undefined (name : Token) : Fault := ⟨name, .undefinedVariable name.lexeme⟩

/-- The value of a variable. -/
def get (s : Scopes) (name : Token) : Except Fault Value :=
  match s.lookup? name.lexeme with
  | some (_, b) => .ok b.value
  | none => .error (undefined name)

/-- Gives the variable that a name means the value that `convert` makes for its
type. -/
def update (s : Scopes) (name : Token) (convert : DataType → Except Cause Value) : Except Fault (Value × Scopes) :=
  match s.lookup? name.lexeme with
  | none => .error (undefined name)
  | some (place, b) =>
    match convert b.declared with
    | .error cause => .error ⟨name, cause⟩
    | .ok value =>
      .ok (value, { s with arena := s.arena.modify place (·.define name.lexeme { b with value := value }) })

/-- Assigns a value, converted to the variable's type. -/
def assign (s : Scopes) (name : Token) (value : Value) : Except Fault (Value × Scopes) :=
  s.update name (Value.coerce · value)

/-- Assigns what a field of input stands for in the variable's type. -/
def assignInput (s : Scopes) (name : Token) (field : Text) : Except Fault (Value × Scopes) :=
  s.update name (Value.read · field)

end Scopes

end BisayaPlus
