import BisayaPlus.Diagnostic
/-!
# Operations

What the operators compute. Integers wrap at 64 bits and characters at 32; an
operation on an integer and a real is done on reals. A fault is blamed on the
operator.
-/

set_option autoImplicit false

namespace BisayaPlus.Operation

/-- Two numbers of one kind. -/
inductive Numbers where
  | integers (l r : Int64)
  | reals (l r : Binary64)

/-- Two values as numbers of one kind. -/
def numbers? : Value → Value → Option Numbers
  | .numero l, .numero r => some (.integers l r)
  | .numero l, .tipik r => some (.reals (Binary64.ofInt l.toInt) r)
  | .tipik l, .numero r => some (.reals l (Binary64.ofInt r.toInt))
  | .tipik l, .tipik r => some (.reals l r)
  | _, _ => none

/-- The arithmetic of integers. Division goes toward zero. -/
def integerArithmetic (operator : Token) (l r : Int64) : Except Cause Int64 :=
  match operator.kind with
  | .plus => .ok (l + r)
  | .minus => .ok (l - r)
  | .star => .ok (l * r)
  | .slash => if r = 0 then .error .divisionByZero else .ok (l / r)
  | .percent => if r = 0 then .error .divisionByZero else .ok (l % r)
  | _ => .error (.undefinedOperator operator.lexeme)

/-- The arithmetic of reals. -/
def realArithmetic (operator : Token) (l r : Binary64) : Except Cause Binary64 :=
  match operator.kind with
  | .plus => .ok (l.add r)
  | .minus => .ok (l.sub r)
  | .star => .ok (l.mul r)
  | .slash => if r.isZero then .error .divisionByZero else .ok (l.div r)
  | .percent => if r.isZero then .error .divisionByZero else .ok (l.mod r)
  | _ => .error (.undefinedOperator operator.lexeme)

/-- A result, with a fault blamed on the operator. -/
def blame {α : Type} (operator : Token) : Except Cause α → Except Fault α
  | .ok a => .ok a
  | .error cause => .error ⟨operator, cause⟩

/-- The arithmetic of numbers. -/
def arithmetic (operator : Token) (left right : Value) : Except Fault Value :=
  match numbers? left right with
  | none => .error ⟨operator, .onlyNumbers⟩
  | some (.integers l r) => (blame operator (integerArithmetic operator l r)).map .numero
  | some (.reals l r) => (blame operator (realArithmetic operator l r)).map .tipik

/-- Adds numbers, texts or characters. -/
def add (operator : Token) (left right : Value) : Except Fault Value :=
  match left, right with
  | .pulong l, .pulong r => .ok (.pulong (l ++ r))
  | .letra l, .letra r => .ok (.letra (l + r))
  | _, _ => if (numbers? left right).isSome then arithmetic operator left right else .error ⟨operator, .invalidPlus⟩

/-- The order of two numbers. NaN is neither before nor after any number. -/
def order : Numbers → Ordering
  | .integers l r => if l < r then .lt else if r < l then .gt else .eq
  | .reals l r => if l.lt r then .lt else if r.lt l then .gt else .eq

/-- Whether an order satisfies a comparison sign. -/
def satisfies (kind : Kind) (order : Ordering) : Bool :=
  match kind with
  | .greater => order == .gt
  | .greaterEqual => order != .lt
  | .less => order == .lt
  | _ => order != .gt

/-- Compares two numbers. -/
def compare (operator : Token) (left right : Value) : Except Fault Value :=
  match numbers? left right with
  | none => .error ⟨operator, .onlyNumbers⟩
  | some pair => .ok (.tinuod (satisfies operator.kind (order pair)))

/-- Equality of values: of two numbers by value, and of others by kind and
value. -/
def isEqual (left right : Value) : Bool :=
  match numbers? left right with
  | some (.reals l r) => l.eq r
  | _ => left == right

/-- A space, tab, carriage return or line feed. -/
def isSpace (b : UInt8) : Bool := b == 32 || b == 9 || b == 13 || b == 10

/-- Two texts on lines of their own, without blanks around the break. -/
def onTwoLines (left right : Text) : Text :=
  Text.trimRight isSpace left ++ Text.lineFeed :: Text.trimLeft isSpace right

/-- The text that an escape sign puts between its operands. -/
def payload (operator : Token) : Text :=
  match operator.literal with
  | some (.pulong t) => t
  | _ => []

/-- Applies a binary operator. -/
def binary (operator : Token) (left right : Value) : Except Fault Value :=
  match operator.kind with
  | .plus => add operator left right
  | .minus | .star | .slash | .percent => arithmetic operator left right
  | .greater | .greaterEqual | .less | .lessEqual => compare operator left right
  | .equalEqual => .ok (.tinuod (isEqual left right))
  | .notEqual => .ok (.tinuod (!isEqual left right))
  | .ampersand => .ok (.pulong (left.display ++ right.display))
  | .dollar => .ok (.pulong (onTwoLines left.display right.display))
  | .escape => .ok (.pulong (left.display ++ payload operator ++ right.display))
  | _ => .error ⟨operator, .undefinedOperator operator.lexeme⟩

/-- Applies a unary operator: DILI gives the opposite truth value, and any
other takes the negative of a number. -/
def unary (operator : Token) (right : Value) : Except Fault Value :=
  if operator.kind = .dili then .ok (.tinuod (!right.truthy))
  else
    match right with
    | .numero i => .ok (.numero (-i))
    | .tipik x => .ok (.tipik x.neg)
    | _ => .error ⟨operator, .onlyNumber⟩

/-- One more than a number, or one less after the decrement sign. -/
def step (operator : Token) (value : Value) : Except Fault Value :=
  let isDown := operator.kind = .minusMinus
  match value with
  | .numero i => .ok (.numero (if isDown then i - 1 else i + 1))
  | .tipik x => .ok (.tipik (x.add (Binary64.ofInt (if isDown then -1 else 1))))
  | _ => .error ⟨operator, .onlyNumber⟩

end BisayaPlus.Operation
