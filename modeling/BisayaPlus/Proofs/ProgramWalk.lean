import BisayaPlus.Proofs.Cursor
/-!
# The walk over a program

Programs read with a cursor. No part of the walk is told how many loops are
around it: the cursor counts them. The walk over a part follows the reader of
that part, on all tokens that are few for its bound or budget.
-/

set_option autoImplicit false

namespace BisayaPlus

open TokenReader Grammar

namespace Walk

/-! ## Expressions -/

def moreOperands (isOperator : Kind → Bool) (build : Expr → Token → Expr → Expr) (operand : Walk Expr) :
    Nat → Expr → Walk Expr
  | 0, _ => lost
  | bound + 1, left => do
    match ← taken? isOperator with
    | none => pure left
    | some operator =>
      let right ← operand
      moreOperands isOperator build operand bound (build left operator right)

def leftGrouped (isOperator : Kind → Bool) (build : Expr → Token → Expr → Expr) (bound : Nat)
    (operand : Walk Expr) : Walk Expr := do
  let left ← operand
  moreOperands isOperator build operand bound left

def term (bound : Nat) (unary : Walk Expr) : Walk Expr := do
  let term ← leftGrouped Expr.isTermOperator .binary bound (leftGrouped Expr.isFactorOperator .binary bound unary)
  let t ← peek
  if Expr.startsOperand t.kind then fatal .missingConcat t else pure term

def disjunction (bound : Nat) (unary : Walk Expr) : Walk Expr :=
  leftGrouped (· == .o) .logical bound <|
  leftGrouped (· == .ug) .logical bound <|
  leftGrouped Expr.isEquality .binary bound <|
  leftGrouped Expr.isComparison .binary bound <|
  term bound unary

def primary (nested : Walk Expr) : Walk Expr := do
  let t ← peek
  match Expr.literalOf? t with
  | some value => do
    let _ ← advance
    pure (.literal value)
  | none =>
    match t.kind with
    | .identifier => do
      let name ← advance
      match ← taken? Expr.isStep with
      | some operator => pure (.step operator name false)
      | none => pure (.var name)
    | .leftParen => do
      let _ ← advance
      let inner ← nested
      let _ ← consume .rightParen .unclosedParen
      pure (.grouping inner)
    | _ => fatal .expectedExpression t

mutual

def unary : Nat → Walk Expr
  | 0 => lost
  | budget + 1 => do
    match ← taken? fun kind => kind == .dili || kind == .minus || Expr.isStep kind with
    | some operator =>
      let right ← unary budget
      if Expr.isStep operator.kind then
        match right with
        | .var name => pure (.step operator name true)
        | _ => fatal .invalidStep operator
      else pure (.unary operator right)
    | none => primary (expression budget)

def expression : Nat → Walk Expr
  | 0 => lost
  | budget + 1 => do
    let left ← disjunction budget (unary budget)
    match ← taken? Expr.isAssignment with
    | none => pure left
    | some sign =>
      let value ← expression budget
      match left with
      | .var name => pure (.assign name (Expr.assignedValue sign name value))
      | _ => fatal .invalidAssignment sign

end

section Expressions

variable {n loops bound : Nat} {isOperator : Kind → Bool} {build : Expr → Token → Expr → Expr}
  {operand : Walk Expr} {reader : TokenReader Expr}

/-- Every operator is a token of its own, so the bound is not reached. -/
theorem follows_moreOperands (ho : isOperator .eof = false) (bound : Nat) : ∀ {n : Nat},
    Follows n loops operand reader → n ≤ bound → ∀ left,
      Follows n loops (moreOperands isOperator build operand bound left)
        (Expr.moreOperands isOperator build reader bound left) := by
  induction bound with
  | zero =>
    intro n _ hn left
    obtain rfl := Nat.le_zero.1 hn
    exact follows_zero _ _
  | succ bound ih =>
    intro n h hn left
    rw [moreOperands, Expr.moreOperands]
    refine follows_taken? isOperator ho (follows_pure left) fun operator _ m hm => ?_
    have hop := h.mono (Nat.le_of_lt hm)
    exact hop.bind fun right => ih hop (by omega) _

theorem follows_leftGrouped (ho : isOperator .eof = false) (h : Follows n loops operand reader) (hn : n ≤ bound) :
    Follows n loops (leftGrouped isOperator build bound operand)
      (Expr.leftGrouped isOperator build bound reader) :=
  h.bind fun left => follows_moreOperands ho bound h hn left

theorem follows_term (h : Follows n loops operand reader) (hn : n ≤ bound) :
    Follows n loops (term bound operand) (Expr.readTerm bound reader) := by
  refine (follows_leftGrouped rfl (follows_leftGrouped rfl h hn) hn).bind fun e => ?_
  refine follows_peek fun t rest he hts => ?_
  split
  · exact followsOn_fatal _
  · exact follows_pure e _ he hts

theorem follows_disjunction (h : Follows n loops operand reader) (hn : n ≤ bound) :
    Follows n loops (disjunction bound operand) (Expr.readDisjunction bound reader) := by
  refine follows_leftGrouped rfl (follows_leftGrouped rfl ?_ hn) hn
  exact follows_leftGrouped rfl (follows_leftGrouped rfl (follows_term h hn) hn) hn

theorem ne_eof_of_literal {t : Token} {value : Value} (h : Expr.literalOf? t = some value) : t.kind ≠ .eof := by
  intro heof
  simp [Expr.literalOf?, heof] at h

theorem follows_primary (h : ∀ m < n, Follows m loops operand reader) :
    Follows n loops (primary operand) (Expr.readPrimary reader) := by
  refine follows_peek fun t rest he hts => ?_
  have hlt : rest.length < n := hts
  cases hliteral : Expr.literalOf? t with
  | some value =>
    refine followsOn_advance he (ne_eof_of_literal hliteral) fun hrest => ?_
    exact follows_pure _ rest hrest (Nat.le_refl _)
  | none =>
    cases hk : t.kind with
    | identifier =>
      refine followsOn_advance he (by rw [hk]; decide) fun hrest => ?_
      refine follows_taken? Expr.isStep rfl ?_ (fun operator _ m _ => ?_) rest hrest (Nat.le_refl _)
      · exact follows_pure _
      · exact follows_pure _
    | leftParen =>
      refine followsOn_advance he (by rw [hk]; decide) fun hrest => ?_
      refine ((h rest.length hlt).bind fun inner => ?_) rest hrest (Nat.le_refl _)
      exact follows_consume (by decide) fun _ _ m _ => follows_pure _
    | _ => exact followsOn_fatal _

/-- By induction on the budget. An operand in parentheses is walked within two
steps less, and its parentheses are tokens of their own. -/
theorem follows_expressions (b : Nat) : ∀ n loops,
    (2 * n ≤ b → Follows n loops (unary b) (Expr.readUnary b)) ∧
      (2 * n < b → Follows n loops (expression b) (Expr.readWithin b)) := by
  induction b with
  | zero =>
    intro n loops
    refine ⟨fun hb => ?_, fun hb => absurd hb (Nat.not_lt_zero _)⟩
    obtain rfl : n = 0 := by omega
    exact follows_zero _ _
  | succ b ih =>
    intro n loops
    refine ⟨fun hb => ?_, fun hb => ?_⟩
    · rw [unary, Expr.readUnary]
      refine follows_taken? (fun kind => kind == .dili || kind == .minus || Expr.isStep kind) rfl ?_ ?_
      · exact follows_primary fun m hm => (ih m loops).2 (by omega)
      · -- the operand has fewer tokens than the operator and the operand
        intro operator _ m hm
        refine ((ih m loops).1 (by omega)).bind fun right => ?_
        split
        · cases right <;> first | exact follows_pure _ | exact follows_fatal _ _
        · exact follows_pure _
    · rw [expression, Expr.readWithin]
      refine (follows_disjunction ((ih n loops).1 (by omega)) (by omega)).bind fun left => ?_
      refine follows_taken? Expr.isAssignment rfl (follows_pure left) fun sign _ m hm => ?_
      refine ((ih m loops).2 (by omega)).bind fun value => ?_
      cases left <;> first | exact follows_pure _ | exact follows_fatal _ _

theorem follows_expression {b : Nat} (loops : Nat) (hb : 2 * n < b) :
    Follows n loops (expression b) (Expr.readWithin b) :=
  (follows_expressions b n loops).2 hb

end Expressions

/-! ## Parts of statements -/

def endStatement : Walk PUnit := do
  match ← taken? (· == .newline) with
  | some _ => pure ⟨⟩
  | none => do
    let t ← peek
    if endsBlock t.kind then pure ⟨⟩ else fatal .expectedNewline t

def condition (expression : Walk Expr) : Walk Expr := do
  let _ ← consume .leftParen .expectedOpenParen
  let condition ← expression
  let _ ← consume .rightParen .unclosedParen
  pure condition

def checkInitializer (declared : DataType) (start : Token) (e : Expr) : Walk Expr :=
  match declared, e with
  | _, .literal .null => pure e
  | .tinuod, .literal (.pulong t) =>
    match Value.truth? t with
    | some b => pure (.literal (.tinuod b))
    | none => fatal .invalidTruth start
  | _, .literal value => if Stmt.literalFits declared value then pure e else fatal .initializerMismatch start
  | _, _ => pure e

def initializer (declared : DataType) (expression : Walk Expr) : Walk (Option Expr) := do
  match ← taken? (· == .equal) with
  | none => pure none
  | some _ =>
    let start ← peek
    let e ← expression
    let checked ← checkInitializer declared start e
    pure (some checked)

def declared (type : DataType) (single : Bool) (expression : Walk Expr) :
    Nat → List Text → Walk (List (Token × Option Expr))
  | 0, _ => lost
  | bound + 1, seen => do
    let name ← consume .identifier .expectedName
    if seen.contains name.lexeme then note .duplicateName name
    let initial ← initializer type expression
    if single then pure [(name, initial)]
    else
      match ← taken? (· == .comma) with
      | none => pure [(name, initial)]
      | some _ =>
        let more ← declared type single expression bound (name.lexeme :: seen)
        pure ((name, initial) :: more)

def declaration (keyword : Token) (single : Bool) (bound : Nat) (expression : Walk Expr) : Walk Stmt := do
  let t ← peek
  match t.kind.dataType? with
  | none => fatal .invalidDataType t
  | some type =>
    let _ ← advance
    let names ← declared type single expression bound []
    pure (.mugna keyword type names)

def names : Nat → Walk (List Token)
  | 0 => lost
  | bound + 1 => do
    let name ← consume .identifier .expectedName
    match ← taken? (· == .comma) with
    | none => pure [name]
    | some _ =>
      let more ← names bound
      pure (name :: more)

def alternatives (look : Nat) (expression : Walk Expr) (body : Walk Stmt) : Nat → Walk (List (Expr × Stmt))
  | 0 => lost
  | bound + 1 => do
    match ← lookPast look .kungPa with
    | none => pure []
    | some _ =>
      let condition ← condition expression
      let inner ← body
      let more ← alternatives look expression body bound
      pure ((condition, inner) :: more)

def otherwise (look : Nat) (body : Walk Stmt) : Walk (Option Stmt) := do
  match ← lookPast look .kungWala with
  | none => pure none
  | some _ =>
    let inner ← body
    pure (some inner)

/-- One round in a block: a newline, or a statement that may be dropped. -/
def blockRound (look : Nat) (statement : Walk Stmt) : Walk (Option Stmt) := do
  match ← taken? (· == .newline) with
  | some _ => pure none
  | none => recover look statement

/-- Rounds up to a token that stops them. Each has to move the cursor. -/
def rounds (stops : Kind → Bool) (round : Walk (Option Stmt)) : Nat → Walk (List Stmt)
  | 0 => lost
  | bound + 1 => do
    let t ← peek
    if stops t.kind then pure []
    else
      let read ← onward round
      let more ← rounds stops round bound
      pure (read.toList ++ more)

def block (bound : Nat) (statement : Walk Stmt) : Walk (List Stmt) := do
  let _ ← consume .leftBrace .expectedOpenBrace
  let body ← rounds endsBlock (blockRound bound statement) bound
  let _ ← consume .rightBrace .unclosedBrace
  pure body

def start (bound : Nat) (expression : Walk Expr) : Walk (Option Stmt) := do
  match ← taken? (· == .mugna) with
  | some keyword =>
    let declaration ← declaration keyword true bound expression
    pure (some declaration)
  | none => do
    let t ← peek
    if t.kind = .comma then pure none
    else
      let e ← expression
      pure (some (.expr e))

def unlessNext (kind : Kind) (expression : Walk Expr) : Walk (Option Expr) := do
  let t ← peek
  if t.kind = kind then pure none
  else
    let e ← expression
    pure (some e)

def body (look : Nat) (statement : Walk Stmt) : Walk Stmt := do
  skipNewlines look
  statement

/-- The loop is entered after its header. -/
def countedLoop (keyword : Token) (bound : Nat) (expression : Walk Expr) (statement : Walk Stmt) : Walk Stmt := do
  let _ ← consume .leftParen .expectedOpenParen
  let start ← start bound expression
  let _ ← consume .comma .expectedComma
  let condition ← unlessNext .comma expression
  let _ ← consume .comma .expectedComma
  let increment ← unlessNext .rightParen expression
  let _ ← consume .rightParen .unclosedParen
  aroundLoop do
    let inner ← body bound statement
    pure (Stmt.countedLoop keyword start condition increment inner)

/-- A jump looks at the cursor for a loop around it. -/
def jump (keyword : Token) (jump : Stmt) : Walk Stmt := do
  let loops ← countLoops
  if loops = 0 then fatal .outsideLoop keyword
  else
    endStatement
    pure jump

def afterKeyword (bound : Nat) (expression : Walk Expr) (statement : Walk Stmt) (keyword : Token) : Walk Stmt := do
  match keyword.kind with
  | .mugna =>
    let declaration ← declaration keyword false bound expression
    endStatement
    pure declaration
  | .ipakita =>
    let _ ← consume .colon .expectedColon
    let e ← expression
    endStatement
    pure (.ipakita keyword e)
  | .dawat =>
    let _ ← consume .colon .expectedColon
    let names ← names bound
    endStatement
    pure (.dawat keyword names)
  | .kung =>
    let condition ← condition expression
    let first ← body bound statement
    let alternatives ← alternatives bound expression (body bound statement) bound
    let otherwise ← otherwise bound (body bound statement)
    pure (.kung keyword condition first alternatives otherwise)
  | .mintras =>
    let condition ← condition expression
    aroundLoop do
      let body ← body bound statement
      pure (.mintras keyword condition body)
  | .buhata =>
    aroundLoop do
      let body ← body bound statement
      skipNewlines bound
      let _ ← consume .mintras .expectedWhile
      let condition ← condition expression
      endStatement
      pure (.buhata keyword body condition)
  | .alangSa => countedLoop keyword bound expression statement
  | .hunong => jump keyword (.hunong keyword)
  | .padayon => jump keyword (.padayon keyword)
  | _ =>
    let body ← block bound statement
    pure (.pundok body)

def statement : Nat → Walk Stmt
  | 0 => lost
  | budget + 1 => do
    match ← taken? startsStatement with
    | some keyword => afterKeyword budget (expression budget) (statement budget) keyword
    | none =>
      let e ← expression budget
      endStatement
      pure (.expr e)

/-! ## Programs -/

/-- One round in a program. A closing brace without a block is passed. -/
def topRound (look : Nat) (statement : Walk Stmt) : Walk (Option Stmt) := do
  match ← taken? (· == .newline) with
  | some _ => pure none
  | none => do
    let t ← peek
    if t.kind = .rightBrace then do
      let brace ← advance
      note .unexpectedBrace brace
      pure none
    else recover look statement

/-- The kinds that end the statements of a program. -/
def endsTop (kind : Kind) : Bool := kind == .eof || kind == .katapusan

def ending (look : Nat) : Walk Bool := do
  match ← taken? (· == .katapusan) with
  | none =>
    note .expectedEnd (← peek)
    pure false
  | some _ =>
    skipNewlines look
    let t ← peek
    if t.kind ≠ .eof then note .afterEnd t
    pure true

def program (budget : Nat) : Walk (List Stmt × Bool) := do
  skipNewlines budget
  match ← taken? (· == .sugod) with
  | some _ => pure ⟨⟩
  | none => note .expectedStart (← peek)
  let statements ← rounds endsTop (topRound budget (statement budget)) budget
  let ended ← ending budget
  pure (statements, ended)

/-! ## The parts follow their readers -/

section Statements

variable {n loops bound look : Nat} {expr : Walk Expr} {exprReader : TokenReader Expr} {stmt : Walk Stmt}
  {stmtReader : TokenReader Stmt}

theorem follows_endStatement : Follows n loops endStatement Stmt.endStatement := by
  refine follows_taken? (· == .newline) rfl ?_ fun t _ m _ => follows_pure _
  refine follows_peek fun t rest he hts => ?_
  split
  · exact follows_pure _ _ he hts
  · exact followsOn_fatal _

theorem follows_condition (h : Follows n loops expr exprReader) :
    Follows n loops (condition expr) (Stmt.readCondition exprReader) := by
  refine follows_consume (by decide) fun _ _ m hm => ?_
  refine (h.mono (Nat.le_of_lt hm)).bind fun e => ?_
  exact follows_consume (by decide) fun _ _ k _ => follows_pure e

theorem follows_checkInitializer (type : DataType) (t : Token) (e : Expr) :
    Follows n loops (checkInitializer type t e) (Stmt.checkInitializer type t e) := by
  have htruth : ∀ truth : Option Bool, Follows n loops
      (match truth with | some b => pure (Expr.literal (.tinuod b)) | none => fatal .invalidTruth t)
      (match truth with | some b => pure (Expr.literal (.tinuod b)) | none => stuckAt .invalidTruth t) := by
    intro truth
    cases truth with
    | some b => exact follows_pure _
    | none => exact follows_fatal _ t
  have hfits : ∀ fits : Bool, Follows n loops (if fits then pure e else fatal .initializerMismatch t)
      (if fits then pure e else stuckAt .initializerMismatch t) := by
    intro fits
    cases fits with
    | true => exact follows_pure e
    | false => exact follows_fatal _ t
  cases e with
  | literal value =>
    cases type <;> cases value <;> simp only [checkInitializer, Stmt.checkInitializer] <;>
      first | exact follows_pure _ | exact htruth _ | exact hfits _
  | _ => cases type <;> exact follows_pure _

theorem follows_initializer (type : DataType) (h : Follows n loops expr exprReader) :
    Follows n loops (initializer type expr) (Stmt.readInitializer type exprReader) := by
  refine follows_taken? (· == .equal) rfl (follows_pure _) fun _ _ m hm => ?_
  refine follows_peek fun t rest he hts => ?_
  refine ((h.mono (Nat.le_of_lt hm)).bind fun e => ?_) _ he hts
  exact (follows_checkInitializer type t e).bind fun checked => follows_pure _

theorem follows_declared (type : DataType) (single : Bool) (bound : Nat) : ∀ {n : Nat} (seen : List Text),
    Follows n loops expr exprReader → n ≤ bound →
      Follows n loops (declared type single expr bound seen) (Stmt.readDeclared type single exprReader bound seen) := by
  induction bound with
  | zero =>
    intro n _ _ hn
    obtain rfl := Nat.le_zero.1 hn
    exact follows_zero _ _
  | succ bound ih =>
    intro n seen h hn
    rw [declared, Stmt.readDeclared]
    refine follows_consume (by decide) fun name _ m hm => ?_
    have hx := h.mono (Nat.le_of_lt hm)
    refine follows_noting fun _ => (follows_initializer type hx).bind fun initial => ?_
    split
    · exact follows_pure _
    · refine follows_taken? (· == .comma) rfl (follows_pure _) fun _ _ k hk => ?_
      exact (ih _ (hx.mono (Nat.le_of_lt hk)) (by omega)).bind fun more => follows_pure _

theorem ne_eof_of_dataType {kind : Kind} {type : DataType} (h : kind.dataType? = some type) : kind ≠ .eof := by
  rintro rfl
  cases h

theorem follows_declaration (keyword : Token) (single : Bool) (h : Follows n loops expr exprReader) (hn : n ≤ bound) :
    Follows n loops (declaration keyword single bound expr)
      (Stmt.readDeclaration keyword single bound exprReader) := by
  refine follows_peek fun t rest he hts => ?_
  have hlt : rest.length < n := hts
  cases htype : t.kind.dataType? with
  | none => exact followsOn_fatal _
  | some type =>
    refine followsOn_advance he (ne_eof_of_dataType htype) fun hrest => ?_
    have hx := h.mono (Nat.le_of_lt hlt)
    exact ((follows_declared type single bound [] hx (by omega)).bind fun _ => follows_pure _) rest hrest
      (Nat.le_refl _)

theorem follows_names (bound : Nat) : ∀ {n : Nat}, n ≤ bound →
    Follows n loops (names bound) (Stmt.readNames bound) := by
  induction bound with
  | zero =>
    intro n hn
    obtain rfl := Nat.le_zero.1 hn
    exact follows_zero _ _
  | succ bound ih =>
    intro n hn
    rw [names, Stmt.readNames]
    refine follows_consume (by decide) fun name _ m hm => ?_
    refine follows_taken? (· == .comma) rfl (follows_pure _) fun _ _ k hk => ?_
    exact (ih (by omega)).bind fun more => follows_pure _

theorem follows_alternatives (bound : Nat) : ∀ {n : Nat}, Follows n loops expr exprReader →
    Follows n loops stmt stmtReader → n ≤ look → n ≤ bound →
      Follows n loops (alternatives look expr stmt bound) (Stmt.readAlternatives exprReader stmtReader bound) := by
  induction bound with
  | zero =>
    intro n _ _ _ hn
    obtain rfl := Nat.le_zero.1 hn
    exact follows_zero _ _
  | succ bound ih =>
    intro n hx hs hl hn
    rw [alternatives, Stmt.readAlternatives]
    refine follows_lookPast (by decide) hl (follows_pure _) fun _ m hm => ?_
    have hxm := hx.mono (Nat.le_of_lt hm)
    have hsm := hs.mono (Nat.le_of_lt hm)
    refine (follows_condition hxm).bind fun e => hsm.bind fun inner => ?_
    exact (ih hxm hsm (by omega) (by omega)).bind fun more => follows_pure _

theorem follows_otherwise (h : Follows n loops stmt stmtReader) (hl : n ≤ look) :
    Follows n loops (otherwise look stmt) (Stmt.readOtherwise stmtReader) :=
  follows_lookPast (by decide) hl (follows_pure _) fun _ _ hm =>
    (h.mono (Nat.le_of_lt hm)).bind fun _ => follows_pure _

end Statements

end Walk

end BisayaPlus
