import BisayaPlus.Tree.Reader
/-!
# Reading expressions

From loose to tight: assignment, `O`, `UG`, equality, comparison, sums and
texts, products, unary operators, operands. Assignment groups to the right and
the binary operators to the left.

The readers of nested expressions take a budget, which bounds how deep they
nest. Every level of nesting takes a token, so twice the number of tokens is
more than enough.
-/

set_option autoImplicit false

namespace BisayaPlus

open TokenReader

namespace Expr

/-! ## Binary operators -/

/-- Reads operators and operands as long as there are more, grouping to the
left. The bound is on the number of operators. -/
def moreOperands (isOperator : Kind → Bool) (build : Expr → Token → Expr → Expr) (operand : TokenReader Expr) :
    Nat → Expr → TokenReader Expr
  | 0, left => pure left
  | bound + 1, left => do
    match ← take? isOperator with
    | none => pure left
    | some operator =>
      let right ← operand
      moreOperands isOperator build operand bound (build left operator right)

/-- Reads operands with operators between them, grouping to the left. -/
def leftGrouped (isOperator : Kind → Bool) (build : Expr → Token → Expr → Expr) (bound : Nat)
    (operand : TokenReader Expr) : TokenReader Expr := do
  let left ← operand
  moreOperands isOperator build operand bound left

/-- The operators of products. -/
def isFactorOperator : Kind → Bool
  | .star | .slash | .percent => true
  | _ => false

/-- The operators of sums and of joined texts. -/
def isTermOperator : Kind → Bool
  | .plus | .minus | .ampersand | .dollar | .escape => true
  | _ => false

/-- The operators of comparison. -/
def isComparison : Kind → Bool
  | .greater | .greaterEqual | .less | .lessEqual => true
  | _ => false

/-- The operators of equality. -/
def isEquality : Kind → Bool
  | .equalEqual | .notEqual => true
  | _ => false

/-- The kinds that show a forgotten operator when they follow a term. -/
def startsOperand : Kind → Bool
  | .string | .char | .identifier | .number => true
  | _ => false

/-- Sums and joined texts of products. No operand may follow without an
operator. -/
def readTerm (bound : Nat) (unary : TokenReader Expr) : TokenReader Expr := do
  let term ← leftGrouped isTermOperator .binary bound (leftGrouped isFactorOperator .binary bound unary)
  if startsOperand (← peek).kind then stuckHere .missingConcat else pure term

/-- Everything below assignment. -/
def readDisjunction (bound : Nat) (unary : TokenReader Expr) : TokenReader Expr :=
  leftGrouped (· == .o) .logical bound <|
  leftGrouped (· == .ug) .logical bound <|
  leftGrouped isEquality .binary bound <|
  leftGrouped isComparison .binary bound <|
  readTerm bound unary

/-! ## Operands -/

/-- The signs that add or take one. -/
def isStep : Kind → Bool
  | .plusPlus | .minusMinus => true
  | _ => false

/-- The value of a token that stands for a value. -/
def literalOf? (t : Token) : Option Value :=
  match t.kind with
  | .number | .string | .char | .escape => some (t.literal.getD .null)
  | .oo => some (.tinuod true)
  | .null => some .null
  | .dollar => some (.pulong "\n")
  | _ => none

/-- A literal, a name with an optional step after it, or an expression in
parentheses. -/
def readPrimary (nested : TokenReader Expr) : TokenReader Expr := do
  let t ← peek
  match literalOf? t with
  | some value => do
    skip
    pure (.literal value)
  | none =>
    match t.kind with
    | .identifier => do
      skip
      match ← take? isStep with
      | some operator => pure (.step operator t false)
      | none => pure (.var t)
    | .leftParen => do
      skip
      let inner ← nested
      let _ ← expect .rightParen .unclosedParen
      pure (.grouping inner)
    | _ => stuckHere .expectedExpression

/-! ## Assignment -/

/-- The operator that a compound assignment applies. -/
def compound? : Kind → Option Kind
  | .plusEqual => some .plus
  | .minusEqual => some .minus
  | .starEqual => some .star
  | .slashEqual => some .slash
  | .percentEqual => some .percent
  | _ => none

/-- The operator inside a compound assignment, on its line. -/
def compoundOperator (kind : Kind) (t : Token) : Token :=
  { kind := kind, lexeme := t.lexeme.take 1, line := t.line }

/-- The value assigned to a variable by `=` or by a compound sign. -/
def assignedValue (sign name : Token) (value : Expr) : Expr :=
  match compound? sign.kind with
  | some kind => .binary (.var name) (compoundOperator kind sign) value
  | none => value

/-- The signs of assignment. -/
def isAssignment (kind : Kind) : Bool := kind == .equal || (compound? kind).isSome

mutual

/-- Reads unary operators and their operand. -/
def readUnary : Nat → TokenReader Expr
  | 0 => stuckHere .expectedExpression
  | budget + 1 => do
    match ← take? fun kind => kind == .dili || kind == .minus || isStep kind with
    | some operator =>
      let right ← readUnary budget
      if isStep operator.kind then
        match right with
        | .var name => pure (.step operator name true)
        | _ => stuckAt .invalidStep operator
      else pure (.unary operator right)
    | none => readPrimary (readWithin budget)

/-- Reads an expression within a budget. -/
def readWithin : Nat → TokenReader Expr
  | 0 => stuckHere .expectedExpression
  | budget + 1 => do
    let left ← readDisjunction budget (readUnary budget)
    match ← take? isAssignment with
    | none => pure left
    | some sign =>
      let value ← readWithin budget
      match left with
      | .var name => pure (.assign name (assignedValue sign name value))
      | _ => stuckAt .invalidAssignment sign

end

end Expr

end BisayaPlus
