import BisayaPlus.Tree.Expression
import BisayaPlus.Value.Conversion
/-!
# Reading statements

A simple statement ends with its line, or right before the end of a block or of
the program. A statement that cannot be read is dropped with one complaint, and
reading goes on after it. A counted loop is read as the block and the
conditional loop it stands for.
-/

set_option autoImplicit false

namespace BisayaPlus

open TokenReader

namespace Stmt

/-! ## Parts of statements -/

/-- Takes the newline after a simple statement. -/
def endStatement : TokenReader PUnit := do
  match ← take? (· == .newline) with
  | some _ => pure ⟨⟩
  | none => if endsBlock (← peek).kind then pure ⟨⟩ else stuckHere .expectedNewline

/-- A condition in parentheses. -/
def readCondition (expression : TokenReader Expr) : TokenReader Expr := do
  let _ ← expect .leftParen .expectedOpenParen
  let condition ← expression
  let _ ← expect .rightParen .unclosedParen
  pure condition

/-- Whether a literal may stand as the initial value of a type. A real literal
is no initial value of an integer, even if it is a whole number. -/
def literalFits (declared : DataType) (value : Value) : Bool :=
  match declared, value with
  | .numero, .tipik _ => false
  | _, _ => (value.coerce declared).isOk

/-- Checks the initial value of a declared name, which starts at a token. The
spelling of a truth value becomes the truth value. -/
def checkInitializer (declared : DataType) (start : Token) (e : Expr) : TokenReader Expr :=
  match declared, e with
  | _, .literal .null => pure e
  | .tinuod, .literal (.pulong t) =>
    match Value.truth? t with
    | some b => pure (.literal (.tinuod b))
    | none => stuckAt .invalidTruth start
  | _, .literal value => if literalFits declared value then pure e else stuckAt .initializerMismatch start
  | _, _ => pure e

/-- The initial value of a declared name, if there is one. -/
def readInitializer (declared : DataType) (expression : TokenReader Expr) : TokenReader (Option Expr) := do
  match ← take? (· == .equal) with
  | none => pure none
  | some _ =>
    let start ← peek
    let e ← expression
    let checked ← checkInitializer declared start e
    pure (some checked)

/-- Declared names with their initial values, separated by commas, or only one
of them. A repeated name is noted. -/
def readDeclared (declared : DataType) (single : Bool) (expression : TokenReader Expr) :
    Nat → List Text → TokenReader (List (Token × Option Expr))
  | 0, _ => pure []
  | bound + 1, seen => do
    let name ← expect .identifier .expectedName
    if seen.contains name.lexeme then note .duplicateName name
    let initial ← readInitializer declared expression
    if single then pure [(name, initial)]
    else
      match ← take? (· == .comma) with
      | none => pure [(name, initial)]
      | some _ =>
        let more ← readDeclared declared single expression bound (name.lexeme :: seen)
        pure ((name, initial) :: more)

/-- A declaration after its keyword. -/
def readDeclaration (keyword : Token) (single : Bool) (bound : Nat) (expression : TokenReader Expr) :
    TokenReader Stmt := do
  match (← peek).kind.dataType? with
  | none => stuckHere .invalidDataType
  | some declared =>
    skip
    let names ← readDeclared declared single expression bound []
    pure (.mugna keyword declared names)

/-- Names separated by commas. -/
def readNames : Nat → TokenReader (List Token)
  | 0 => pure []
  | bound + 1 => do
    let name ← expect .identifier .expectedName
    match ← take? (· == .comma) with
    | none => pure [name]
    | some _ =>
      let more ← readNames bound
      pure (name :: more)

/-- The KUNG PA alternatives of a KUNG, newlines before each of them. -/
def readAlternatives (expression : TokenReader Expr) (body : TokenReader Stmt) :
    Nat → TokenReader (List (Expr × Stmt))
  | 0 => pure []
  | bound + 1 => do
    match ← takePast? .kungPa with
    | none => pure []
    | some _ =>
      let condition ← readCondition expression
      let inner ← body
      let more ← readAlternatives expression body bound
      pure ((condition, inner) :: more)

/-- The last alternative of a KUNG, newlines before it. -/
def readOtherwise (body : TokenReader Stmt) : TokenReader (Option Stmt) := do
  match ← takePast? .kungWala with
  | none => pure none
  | some _ =>
    let inner ← body
    pure (some inner)

/-- Statements and newlines up to the end of a block or of the program. -/
def readItems (statement : TokenReader Stmt) : Nat → TokenReader (List Stmt)
  | 0 => pure []
  | bound + 1 => do
    let kind := (← peek).kind
    if endsBlock kind then pure []
    else if kind = .newline then do
      skip
      readItems statement bound
    else
      let read ← orResume statement
      let more ← readItems statement bound
      pure (read.toList ++ more)

/-- The statements of a block, in braces. -/
def readBlock (bound : Nat) (statement : TokenReader Stmt) : TokenReader (List Stmt) := do
  let _ ← expect .leftBrace .expectedOpenBrace
  let body ← readItems statement bound
  let _ ← expect .rightBrace .unclosedBrace
  pure body

/-! ## Counted loops -/

/-- The optional first part of a counted loop. -/
def readStart (bound : Nat) (expression : TokenReader Expr) : TokenReader (Option Stmt) := do
  match ← take? (· == .mugna) with
  | some keyword =>
    let declaration ← readDeclaration keyword true bound expression
    pure (some declaration)
  | none =>
    if (← peek).kind = .comma then pure none
    else
      let e ← expression
      pure (some (.expr e))

/-- An expression, unless this token comes next. -/
def readUnless (kind : Kind) (expression : TokenReader Expr) : TokenReader (Option Expr) := do
  if (← peek).kind = kind then pure none
  else
    let e ← expression
    pure (some e)

/-- The body of a counted loop followed by its last part. -/
def counted (body : Stmt) : Option Expr → Stmt
  | none => body
  | some increment => .pundok [body, .expr increment]

/-- The block and conditional loop that a counted loop stands for. -/
def countedLoop (keyword : Token) (start : Option Stmt) (condition increment : Option Expr) (body : Stmt) : Stmt :=
  let loop := .mintras keyword (condition.getD (.literal (.tinuod true))) (counted body increment)
  match start with
  | none => loop
  | some first => .pundok [first, loop]

/-- A counted loop after its keyword. -/
def readCountedLoop (keyword : Token) (bound : Nat) (expression : TokenReader Expr) (body : TokenReader Stmt) :
    TokenReader Stmt := do
  let _ ← expect .leftParen .expectedOpenParen
  let start ← readStart bound expression
  let _ ← expect .comma .expectedComma
  let condition ← readUnless .comma expression
  let _ ← expect .comma .expectedComma
  let increment ← readUnless .rightParen expression
  let _ ← expect .rightParen .unclosedParen
  let inner ← body
  pure (countedLoop keyword start condition increment inner)

/-! ## Statements -/

/-- The body of a statement, which may start on a later line. -/
def readBody (statement : TokenReader Stmt) : TokenReader Stmt := do
  skipNewlines
  statement

/-- A jump, which needs a loop around it. -/
def readJump (loops : Nat) (keyword : Token) (jump : Stmt) : TokenReader Stmt := do
  if loops = 0 then stuckAt .outsideLoop keyword
  else
    endStatement
    pure jump

/-- A statement after its keyword. The bodies of loops are read by `inLoop`. -/
def readKeyword (loops bound : Nat) (expression : TokenReader Expr) (statement inLoop : TokenReader Stmt)
    (keyword : Token) : TokenReader Stmt := do
  match keyword.kind with
  | .mugna =>
    let declaration ← readDeclaration keyword false bound expression
    endStatement
    pure declaration
  | .ipakita =>
    let _ ← expect .colon .expectedColon
    let e ← expression
    endStatement
    pure (.ipakita keyword e)
  | .dawat =>
    let _ ← expect .colon .expectedColon
    let names ← readNames bound
    endStatement
    pure (.dawat keyword names)
  | .kung =>
    let condition ← readCondition expression
    let body ← readBody statement
    let alternatives ← readAlternatives expression (readBody statement) bound
    let otherwise ← readOtherwise (readBody statement)
    pure (.kung keyword condition body alternatives otherwise)
  | .mintras =>
    let condition ← readCondition expression
    let body ← readBody inLoop
    pure (.mintras keyword condition body)
  | .buhata =>
    let body ← readBody inLoop
    skipNewlines
    let _ ← expect .mintras .expectedWhile
    let condition ← readCondition expression
    endStatement
    pure (.buhata keyword body condition)
  | .alangSa => readCountedLoop keyword bound expression (readBody inLoop)
  | .hunong => readJump loops keyword (.hunong keyword)
  | .padayon => readJump loops keyword (.padayon keyword)
  | _ =>
    let body ← readBlock bound statement
    pure (.pundok body)

/-- Reads a statement within a budget, inside this many loops. -/
def readWithin : Nat → Nat → TokenReader Stmt
  | 0, _ => stuckHere .expectedExpression
  | budget + 1, loops => do
    let expression := Expr.readWithin budget
    match ← take? startsStatement with
    | some keyword =>
      readKeyword loops budget expression (readWithin budget loops) (readWithin budget (loops + 1)) keyword
    | none =>
      let e ← expression
      endStatement
      pure (.expr e)

end Stmt

/-! ## Programs -/

/-- What reading a program gives: the statements that could be read, the
complaints, and whether the end of the program was there. -/
structure ReadProgram where
  statements : List Stmt
  complaints : List Complaint
  ended : Bool

namespace ReadProgram

open Stmt

/-- The statements of a program. A closing brace without a block is noted. -/
def readTop (statement : TokenReader Stmt) : Nat → TokenReader (List Stmt)
  | 0 => pure []
  | bound + 1 => do
    let t ← peek
    if t.kind = .eof ∨ t.kind = .katapusan then pure []
    else if t.kind = .newline then do
      skip
      readTop statement bound
    else if t.kind = .rightBrace then do
      note .unexpectedBrace t
      skip
      readTop statement bound
    else
      let read ← orResume statement
      let more ← readTop statement bound
      pure (read.toList ++ more)

/-- The end of a program, and whether it was there. -/
def readEnd : TokenReader Bool := do
  match ← take? (· == .katapusan) with
  | none =>
    note .expectedEnd (← peek)
    pure false
  | some _ =>
    skipNewlines
    let t ← peek
    if t.kind ≠ .eof then note .afterEnd t
    pure true

/-- A whole program. -/
def readAll (budget : Nat) : TokenReader (List Stmt × Bool) := do
  skipNewlines
  match ← take? (· == .sugod) with
  | some _ => pure ⟨⟩
  | none => note .expectedStart (← peek)
  let statements ← readTop (Stmt.readWithin budget 0) budget
  let ended ← readEnd
  pure (statements, ended)

/-- Reads the tokens of a program. -/
def ofTokens (tokens : List Token) : ReadProgram :=
  match (readAll (2 * tokens.length + 3)).run tokens with
  | .read (statements, ended) _ noted => { statements := statements, complaints := noted, ended := ended }
  | .stuck complaint _ noted => { statements := [], complaints := noted ++ [complaint], ended := false }

end ReadProgram

end BisayaPlus
