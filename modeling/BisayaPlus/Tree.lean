import BisayaPlus.Token
/-!
# Programs as trees

Expressions and statements as they are read. A tree keeps the tokens that a
fault may be blamed on. The counted loop has no node of its own: it is read as
a block with a conditional loop.
-/

set_option autoImplicit false

namespace BisayaPlus

/-- An expression. -/
inductive Expr where
  | literal (value : Value)
  | grouping (inner : Expr)
  | var (name : Token)
  | assign (name : Token) (value : Expr)
  | unary (operator : Token) (right : Expr)
  | binary (left : Expr) (operator : Token) (right : Expr)
  | logical (left : Expr) (operator : Token) (right : Expr)
  /-- Adds or takes one from a variable, before or after its value is taken. -/
  | step (operator : Token) (name : Token) (before : Bool)
  deriving DecidableEq, Inhabited

/-- A statement. -/
inductive Stmt where
  | expr (e : Expr)
  /-- IPAKITA: prints a value on a line. -/
  | ipakita (keyword : Token) (e : Expr)
  /-- MUGNA: declares variables of one type, each with an optional value. -/
  | mugna (keyword : Token) (declared : DataType) (names : List (Token × Option Expr))
  /-- DAWAT: reads a line of input into variables. -/
  | dawat (keyword : Token) (names : List Token)
  /-- PUNDOK: statements in a scope of their own. -/
  | pundok (body : List Stmt)
  /-- KUNG, with its KUNG PA alternatives and an optional last one. -/
  | kung (keyword : Token) (condition : Expr) (body : Stmt) (alternatives : List (Expr × Stmt))
      (otherwise : Option Stmt)
  /-- MINTRAS: a loop that tests first. -/
  | mintras (keyword : Token) (condition : Expr) (body : Stmt)
  /-- BUHATA: a loop that tests last. -/
  | buhata (keyword : Token) (body : Stmt) (condition : Expr)
  /-- HUNONG: leaves the innermost loop. -/
  | hunong (keyword : Token)
  /-- PADAYON: ends the round of the innermost loop. -/
  | padayon (keyword : Token)
  deriving Inhabited

/-! ## Where a tree is blamed -/

/-- The token an expression is blamed at, if it has one. -/
def Expr.token : Expr → Token
  | literal _ => .nowhere
  | grouping inner => inner.token
  | var name => name
  | assign name _ => name
  | unary operator _ => operator
  | binary _ operator _ => operator
  | logical _ operator _ => operator
  | step operator _ _ => operator

/-- The token a statement is blamed at, if it has one: a block at its first
statement. -/
def Stmt.token : Stmt → Token
  | expr e => e.token
  | ipakita keyword _ => keyword
  | mugna keyword _ _ => keyword
  | dawat keyword _ => keyword
  | pundok [] => .nowhere
  | pundok (first :: _) => first.token
  | kung keyword _ _ _ _ => keyword
  | mintras keyword _ _ => keyword
  | buhata keyword _ _ => keyword
  | hunong keyword => keyword
  | padayon keyword => keyword

end BisayaPlus
