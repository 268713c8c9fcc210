import BisayaPlus.Proofs.Reading
/-!
# Readers do not look at offsets

A token keeps the offset it was cut at, and no reader looks at it. So if the
tokens of a program stand elsewhere, with the same kinds, lexemes, literals and
lines, they are read as the same tree and give the same complaints, with their
tokens elsewhere too.
-/

set_option autoImplicit false

namespace BisayaPlus

variable (shift : Nat → Nat)

/-! ## Moving tokens -/

/-- The token at another offset. A token that no source holds stays as it is. -/
def Token.moved (t : Token) : Token := { t with pos := t.pos.map shift }

@[simp]
theorem Token.kind_moved (t : Token) : (t.moved shift).kind = t.kind := rfl

@[simp]
theorem Token.lexeme_moved (t : Token) : (t.moved shift).lexeme = t.lexeme := rfl

@[simp]
theorem Token.line_moved (t : Token) : (t.moved shift).line = t.line := rfl

/-- The expression with its tokens moved. -/
def Expr.moved : Expr → Expr
  | literal value => literal value
  | grouping inner => grouping inner.moved
  | var name => var (name.moved shift)
  | assign name value => assign (name.moved shift) value.moved
  | unary operator right => unary (operator.moved shift) right.moved
  | binary left operator right => binary left.moved (operator.moved shift) right.moved
  | logical left operator right => logical left.moved (operator.moved shift) right.moved
  | step operator name before => step (operator.moved shift) (name.moved shift) before

/-- A declared name and its initial value with their tokens moved. -/
def movedName (entry : Token × Option Expr) : Token × Option Expr :=
  (entry.1.moved shift, entry.2.map (Expr.moved shift))

mutual

/-- The statement with its tokens moved. -/
def Stmt.moved : Stmt → Stmt
  | .expr e => .expr (e.moved shift)
  | .ipakita keyword e => .ipakita (keyword.moved shift) (e.moved shift)
  | .mugna keyword declared names => .mugna (keyword.moved shift) declared (names.map (movedName shift))
  | .dawat keyword names => .dawat (keyword.moved shift) (names.map (Token.moved shift))
  | .pundok body => .pundok (movedAll body)
  | .kung keyword condition body alternatives otherwise =>
    .kung (keyword.moved shift) (condition.moved shift) body.moved (movedAlternatives alternatives)
      (movedOtherwise otherwise)
  | .mintras keyword condition body => .mintras (keyword.moved shift) (condition.moved shift) body.moved
  | .buhata keyword body condition => .buhata (keyword.moved shift) body.moved (condition.moved shift)
  | .hunong keyword => .hunong (keyword.moved shift)
  | .padayon keyword => .padayon (keyword.moved shift)

/-- Statements with their tokens moved. -/
def movedAll : List Stmt → List Stmt
  | [] => []
  | s :: more => s.moved :: movedAll more

/-- Alternatives with their tokens moved. -/
def movedAlternatives : List (Expr × Stmt) → List (Expr × Stmt)
  | [] => []
  | (condition, body) :: more => (condition.moved shift, body.moved) :: movedAlternatives more

/-- A last alternative with its tokens moved. -/
def movedOtherwise : Option Stmt → Option Stmt
  | none => none
  | some body => some body.moved

end

theorem movedAll_append (body more : List Stmt) :
    movedAll shift (body ++ more) = movedAll shift body ++ movedAll shift more := by
  induction body with
  | nil => rfl
  | cons s body ih => rw [List.cons_append, movedAll, movedAll, ih, List.cons_append]

theorem movedAll_toList (s : Option Stmt) : movedAll shift s.toList = (movedOtherwise shift s).toList := by
  cases s <;> rfl

/-- The complaint with its token moved. -/
def Complaint.moved (c : Complaint) : Complaint := { c with token := c.token.moved shift }

/-- What reading gives, with its tokens moved. -/
def Reading.moved {α β : Type} (f : α → β) : Reading α → Reading β
  | read value rest noted => read (f value) (rest.map (Token.moved shift)) (noted.map (Complaint.moved shift))
  | stuck complaint rest noted =>
    stuck (complaint.moved shift) (rest.map (Token.moved shift)) (noted.map (Complaint.moved shift))

theorem Reading.moved_after {α β : Type} (f : α → β) (earlier : List Complaint) (r : Reading α) :
    (r.after earlier).moved shift f = (r.moved shift f).after (earlier.map (Complaint.moved shift)) := by
  cases r <;> simp [after, moved]

/-! ## Readers of moved tokens -/

namespace TokenReader

variable {α α' β β' : Type} {shift : Nat → Nat}

/-- On moved tokens the second reader gives what the first one gives, moved. -/
def Moves (shift : Nat → Nat) (f : α → α') (r : TokenReader α) (r' : TokenReader α') : Prop :=
  ∀ ts, r'.run (ts.map (Token.moved shift)) = (r.run ts).moved shift f

theorem moves_pure (f : α → α') (a : α) : Moves shift f (pure a) (pure (f a)) := fun _ => rfl

theorem Moves.bind {f : α → α'} {g : β → β'} {r : TokenReader α} {r' : TokenReader α'} {k : α → TokenReader β}
    {k' : α' → TokenReader β'} (h : Moves shift f r r') (hk : ∀ a, Moves shift g (k a) (k' (f a))) :
    Moves shift g (r >>= k) (r' >>= k') := by
  intro ts
  rw [run_bind, run_bind, h ts]
  cases r.run ts with
  | read a rest noted =>
    rw [Reading.moved_after, ← hk a rest]
    rfl
  | stuck complaint rest noted => rfl

theorem headD_map_moved (ts : List Token) :
    (ts.map (Token.moved shift)).headD .nowhere = (ts.headD .nowhere).moved shift := by
  cases ts <;> rfl

theorem moves_peek : Moves shift (Token.moved shift) peek peek := by
  intro ts
  simp only [peek, Reading.moved, headD_map_moved, List.map_nil]

theorem moves_skip : Moves shift id skip skip := by
  intro ts
  simp only [skip, Reading.moved, List.map_tail, List.map_nil, id]

theorem moves_stuckAt (f : α → α') (fault : SyntaxFault) (t : Token) :
    Moves shift f (stuckAt fault t) (stuckAt fault (t.moved shift)) := fun _ => rfl

theorem moves_stuckHere (f : α → α') (fault : SyntaxFault) : Moves shift f (stuckHere fault) (stuckHere fault) := by
  intro ts
  simp only [stuckHere, Reading.moved, Complaint.moved, headD_map_moved, List.map_nil]

theorem moves_note (fault : SyntaxFault) (t : Token) :
    Moves shift id (note fault t) (note fault (t.moved shift)) := fun _ => rfl

theorem moves_take? (wanted : Kind → Bool) :
    Moves shift (Option.map (Token.moved shift)) (take? wanted) (take? wanted) := by
  intro ts
  cases ts with
  | nil => rfl
  | cons t ts =>
    by_cases hw : wanted t.kind = true <;> simp [take?, hw, Reading.moved]

theorem moves_expect (kind : Kind) (fault : SyntaxFault) :
    Moves shift (Token.moved shift) (expect kind fault) (expect kind fault) := by
  intro ts
  cases ts with
  | nil => rfl
  | cons t ts =>
    by_cases hk : t.kind = kind <;> simp [expect, hk, Reading.moved, Complaint.moved]

theorem afterNewlines_map_moved (ts : List Token) :
    afterNewlines (ts.map (Token.moved shift)) = (afterNewlines ts).map (Token.moved shift) := by
  rw [afterNewlines, afterNewlines, List.dropWhile_map]
  rfl

theorem moves_skipNewlines : Moves shift id skipNewlines skipNewlines := by
  intro ts
  simp only [skipNewlines, Reading.moved, afterNewlines_map_moved, List.map_nil, id]

theorem moves_takePast? (kind : Kind) :
    Moves shift (Option.map (Token.moved shift)) (takePast? kind) (takePast? kind) := by
  intro ts
  simp only [takePast?, afterNewlines_map_moved]
  cases afterNewlines ts with
  | nil => rfl
  | cons t rest => by_cases hk : t.kind = kind <;> simp [hk, Reading.moved]

theorem skipLine_map_moved (ts : List Token) :
    skipLine (ts.map (Token.moved shift)) = (skipLine ts).map (Token.moved shift) := by
  induction ts with
  | nil => rfl
  | cons t ts ih =>
    simp only [List.map_cons, skipLine, Token.kind_moved, ih]
    split
    · rfl
    · split <;> rfl

theorem resume_map_moved (ts : List Token) :
    resume (ts.map (Token.moved shift)) = (resume ts).map (Token.moved shift) := by
  cases ts with
  | nil => rfl
  | cons t ts =>
    simp only [List.map_cons, resume, Token.kind_moved, skipLine_map_moved]
    split
    · rfl
    · split <;> rfl

theorem Moves.orResume {f : α → α'} {r : TokenReader α} {r' : TokenReader α'} (h : Moves shift f r r') :
    Moves shift (Option.map f) (orResume r) (orResume r') := by
  intro ts
  rw [run_orResume, run_orResume, h ts]
  cases r.run ts with
  | read a rest noted => rfl
  | stuck complaint rest noted => simp [Reading.moved, resume_map_moved]

theorem moves_ite {f : α → α'} {c : Prop} [Decidable c] {r s : TokenReader α} {r' s' : TokenReader α'}
    (hr : Moves shift f r r') (hs : Moves shift f s s') :
    Moves shift f (if c then r else s) (if c then r' else s') := by
  split
  · exact hr
  · exact hs

theorem moves_noting {g : β → β'} {c : Prop} [Decidable c] {fault : SyntaxFault} {t : Token}
    {k : PUnit → TokenReader β} {k' : PUnit → TokenReader β'} (h : ∀ u, Moves shift g (k u) (k' u)) :
    Moves shift g (if c then note fault t >>= k else k ⟨⟩) (if c then note fault (t.moved shift) >>= k' else k' ⟨⟩) :=
  moves_ite ((moves_note fault t).bind h) (h ⟨⟩)

end TokenReader

open TokenReader

/-! ## Expressions -/

namespace Expr

variable {shift : Nat → Nat} {operand operand' : TokenReader Expr}

theorem moves_moreOperands (isOperator : Kind → Bool) (build : Expr → Token → Expr → Expr)
    (hbuild : ∀ l t r, (build l t r).moved shift = build (l.moved shift) (t.moved shift) (r.moved shift))
    (h : Moves shift (moved shift) operand operand') (bound : Nat) : ∀ left, Moves shift (moved shift)
      (moreOperands isOperator build operand bound left)
      (moreOperands isOperator build operand' bound (left.moved shift)) := by
  induction bound with
  | zero => exact fun left => moves_pure _ left
  | succ bound ih =>
    intro left
    refine (moves_take? isOperator).bind fun o => ?_
    cases o with
    | none => exact moves_pure _ left
    | some operator =>
      refine h.bind fun right => ?_
      rw [← hbuild]
      exact ih _

theorem moves_leftGrouped (isOperator : Kind → Bool) (build : Expr → Token → Expr → Expr)
    (hbuild : ∀ l t r, (build l t r).moved shift = build (l.moved shift) (t.moved shift) (r.moved shift))
    (h : Moves shift (moved shift) operand operand') (bound : Nat) : Moves shift (moved shift)
      (leftGrouped isOperator build bound operand) (leftGrouped isOperator build bound operand') :=
  h.bind fun left => moves_moreOperands isOperator build hbuild h bound left

theorem moves_readTerm (h : Moves shift (moved shift) operand operand') (bound : Nat) :
    Moves shift (moved shift) (readTerm bound operand) (readTerm bound operand') := by
  have hfactor := moves_leftGrouped isFactorOperator .binary (fun _ _ _ => rfl) h bound
  refine (moves_leftGrouped isTermOperator .binary (fun _ _ _ => rfl) hfactor bound).bind fun term => ?_
  exact moves_peek.bind fun t => moves_ite (moves_stuckHere _ _) (moves_pure _ term)

theorem moves_readDisjunction (h : Moves shift (moved shift) operand operand') (bound : Nat) :
    Moves shift (moved shift) (readDisjunction bound operand) (readDisjunction bound operand') := by
  have hcomparison := moves_leftGrouped isComparison .binary (fun _ _ _ => rfl) (moves_readTerm h bound) bound
  have hequality := moves_leftGrouped isEquality .binary (fun _ _ _ => rfl) hcomparison bound
  have hconjunction := moves_leftGrouped (· == .ug) .logical (fun _ _ _ => rfl) hequality bound
  exact moves_leftGrouped (· == .o) .logical (fun _ _ _ => rfl) hconjunction bound

theorem moves_readPrimary (h : Moves shift (moved shift) operand operand') :
    Moves shift (moved shift) (readPrimary operand) (readPrimary operand') := by
  refine moves_peek.bind fun t => ?_
  rw [show literalOf? (t.moved shift) = literalOf? t from rfl, Token.kind_moved]
  cases literalOf? t with
  | some value => exact moves_skip.bind fun _ => moves_pure _ _
  | none =>
    dsimp only
    split
    · refine moves_skip.bind fun _ => (moves_take? isStep).bind fun o => ?_
      cases o <;> exact moves_pure _ _
    · refine moves_skip.bind fun _ => h.bind fun inner => ?_
      exact (moves_expect _ _).bind fun _ => moves_pure _ (grouping inner)
    · exact moves_stuckHere _ _

theorem moved_assignedValue (sign name : Token) (e : Expr) :
    (assignedValue sign name e).moved shift = assignedValue (sign.moved shift) (name.moved shift) (e.moved shift) := by
  unfold assignedValue
  rw [Token.kind_moved]
  split <;> rfl

/-- By induction on the budget. -/
theorem moves_readers (budget : Nat) : Moves shift (moved shift) (readUnary budget) (readUnary budget) ∧
    Moves shift (moved shift) (readWithin budget) (readWithin budget) := by
  induction budget with
  | zero => exact ⟨moves_stuckHere _ _, moves_stuckHere _ _⟩
  | succ budget ih =>
    obtain ⟨ihu, ihw⟩ := ih
    rw [readUnary, readWithin]
    constructor
    · refine (moves_take? _).bind fun o => ?_
      cases o with
      | none => exact moves_readPrimary ihw
      | some operator =>
        refine ihu.bind fun right => ?_
        refine moves_ite ?_ (moves_pure _ (unary operator right))
        cases right with
        | var name => exact moves_pure _ (step operator name true)
        | _ => exact moves_stuckAt _ _ operator
    · refine (moves_readDisjunction ihu budget).bind fun left => (moves_take? isAssignment).bind fun o => ?_
      cases o with
      | none => exact moves_pure _ left
      | some sign =>
        refine ihw.bind fun value => ?_
        cases left with
        | var name =>
          have hpure : Moves shift (moved shift) (pure (assign name (assignedValue sign name value))) _ :=
            moves_pure _ _
          rwa [moved, moved_assignedValue] at hpure
        | _ => exact moves_stuckAt _ _ sign

theorem moves_readWithin (budget : Nat) : Moves shift (moved shift) (readWithin budget) (readWithin budget) :=
  (moves_readers budget).2

end Expr

/-! ## Statements -/

namespace Stmt

variable {shift : Nat → Nat} {expression expression' : TokenReader Expr} {statement statement' : TokenReader Stmt}

theorem moves_endStatement : Moves shift id endStatement endStatement := by
  refine (moves_take? _).bind fun o => ?_
  cases o with
  | some _ => exact moves_pure id _
  | none => exact moves_peek.bind fun t => moves_ite (moves_pure id _) (moves_stuckHere _ _)

theorem moves_readCondition (h : Moves shift (Expr.moved shift) expression expression') :
    Moves shift (Expr.moved shift) (readCondition expression) (readCondition expression') := by
  refine (moves_expect _ _).bind fun _ => h.bind fun condition => ?_
  exact (moves_expect _ _).bind fun _ => moves_pure _ condition

theorem moves_checkInitializer (declared : DataType) (start : Token) (e : Expr) : Moves shift (Expr.moved shift)
    (checkInitializer declared start e) (checkInitializer declared (start.moved shift) (e.moved shift)) := by
  cases e with
  | literal value =>
    -- the value is the same, so it is kept, replaced or refused as before
    change Moves shift _ _ (checkInitializer declared (start.moved shift) (.literal value))
    unfold checkInitializer
    split
    · exact moves_pure _ _
    · split
      · exact moves_pure _ _
      · exact moves_stuckAt _ _ start
    · exact moves_ite (moves_pure _ _) (moves_stuckAt _ _ start)
    · exact moves_pure _ _
  | _ => cases declared <;> exact moves_pure _ _

theorem moves_readInitializer (declared : DataType) (h : Moves shift (Expr.moved shift) expression expression') :
    Moves shift (Option.map (Expr.moved shift)) (readInitializer declared expression)
      (readInitializer declared expression') := by
  refine (moves_take? _).bind fun o => ?_
  cases o with
  | none => exact moves_pure _ none
  | some _ =>
    refine moves_peek.bind fun start => h.bind fun e => ?_
    exact (moves_checkInitializer declared start e).bind fun checked => moves_pure _ (some checked)

theorem moves_readDeclared (declared : DataType) (single : Bool)
    (h : Moves shift (Expr.moved shift) expression expression') (bound : Nat) : ∀ seen,
    Moves shift (List.map (movedName shift)) (readDeclared declared single expression bound seen)
      (readDeclared declared single expression' bound seen) := by
  induction bound with
  | zero => exact fun _ => moves_pure _ []
  | succ bound ih =>
    intro seen
    refine (moves_expect _ _).bind fun name => moves_noting fun _ => ?_
    refine (moves_readInitializer declared h).bind fun initial => ?_
    refine moves_ite (moves_pure _ [(name, initial)]) ((moves_take? _).bind fun o => ?_)
    cases o with
    | none => exact moves_pure _ [(name, initial)]
    | some _ => exact (ih _).bind fun more => moves_pure _ ((name, initial) :: more)

theorem moves_readDeclaration (keyword : Token) (single : Bool) (bound : Nat)
    (h : Moves shift (Expr.moved shift) expression expression') :
    Moves shift (moved shift) (readDeclaration keyword single bound expression)
      (readDeclaration (keyword.moved shift) single bound expression') := by
  refine moves_peek.bind fun t => ?_
  rw [Token.kind_moved]
  cases t.kind.dataType? with
  | none => exact moves_stuckHere _ _
  | some declared =>
    refine moves_skip.bind fun _ => (moves_readDeclared declared single h bound []).bind fun names => ?_
    exact moves_pure _ (mugna keyword declared names)

theorem moves_readNames (bound : Nat) :
    Moves shift (List.map (Token.moved shift)) (readNames bound) (readNames bound) := by
  induction bound with
  | zero => exact moves_pure _ []
  | succ bound ih =>
    refine (moves_expect _ _).bind fun name => (moves_take? _).bind fun o => ?_
    cases o with
    | none => exact moves_pure _ [name]
    | some _ => exact ih.bind fun more => moves_pure _ (name :: more)

theorem moves_readAlternatives (hx : Moves shift (Expr.moved shift) expression expression')
    (hs : Moves shift (moved shift) statement statement') (bound : Nat) :
    Moves shift (movedAlternatives shift) (readAlternatives expression statement bound)
      (readAlternatives expression' statement' bound) := by
  induction bound with
  | zero => exact moves_pure _ []
  | succ bound ih =>
    refine (moves_takePast? _).bind fun o => ?_
    cases o with
    | none => exact moves_pure _ []
    | some _ =>
      refine (moves_readCondition hx).bind fun condition => hs.bind fun inner => ?_
      exact ih.bind fun more => moves_pure _ ((condition, inner) :: more)

theorem moves_readOtherwise (h : Moves shift (moved shift) statement statement') :
    Moves shift (movedOtherwise shift) (readOtherwise statement) (readOtherwise statement') := by
  refine (moves_takePast? _).bind fun o => ?_
  cases o with
  | none => exact moves_pure _ none
  | some _ => exact h.bind fun inner => moves_pure _ (some inner)

/-- A statement that may be dropped, and the ones after it. -/
theorem moves_round (hs : Moves shift (moved shift) statement statement') {others others' : TokenReader (List Stmt)}
    (ho : Moves shift (movedAll shift) others others') : Moves shift (movedAll shift)
      (orResume statement >>= fun read => others >>= fun more => pure (read.toList ++ more))
      (orResume statement' >>= fun read => others' >>= fun more => pure (read.toList ++ more)) := by
  refine hs.orResume.bind fun read => ho.bind fun more => ?_
  have hpure : Moves shift (movedAll shift) (pure (read.toList ++ more)) _ := moves_pure _ _
  rw [movedAll_append, movedAll_toList] at hpure
  cases read <;> exact hpure

theorem moves_readItems (hs : Moves shift (moved shift) statement statement') (bound : Nat) :
    Moves shift (movedAll shift) (readItems statement bound) (readItems statement' bound) := by
  induction bound with
  | zero => exact moves_pure _ []
  | succ bound ih =>
    refine moves_peek.bind fun t => ?_
    exact moves_ite (moves_pure _ []) (moves_ite (moves_skip.bind fun _ => ih) (moves_round hs ih))

theorem moves_readBlock (bound : Nat) (hs : Moves shift (moved shift) statement statement') :
    Moves shift (movedAll shift) (readBlock bound statement) (readBlock bound statement') := by
  refine (moves_expect _ _).bind fun _ => (moves_readItems hs bound).bind fun body => ?_
  exact (moves_expect _ _).bind fun _ => moves_pure _ body

theorem moves_readStart (bound : Nat) (h : Moves shift (Expr.moved shift) expression expression') :
    Moves shift (movedOtherwise shift) (readStart bound expression) (readStart bound expression') := by
  refine (moves_take? _).bind fun o => ?_
  cases o with
  | some keyword =>
    exact (moves_readDeclaration keyword true bound h).bind fun declaration => moves_pure _ (some declaration)
  | none =>
    refine moves_peek.bind fun t => moves_ite (moves_pure _ none) ?_
    exact h.bind fun e => moves_pure _ (some (expr e))

theorem moves_readUnless (kind : Kind) (h : Moves shift (Expr.moved shift) expression expression') :
    Moves shift (Option.map (Expr.moved shift)) (readUnless kind expression) (readUnless kind expression') :=
  moves_peek.bind fun _ => moves_ite (moves_pure _ none) (h.bind fun e => moves_pure _ (some e))

theorem moved_countedLoop (keyword : Token) (start : Option Stmt) (condition increment : Option Expr) (body : Stmt) :
    (countedLoop keyword start condition increment body).moved shift =
      countedLoop (keyword.moved shift) (movedOtherwise shift start) (condition.map (Expr.moved shift))
        (increment.map (Expr.moved shift)) (body.moved shift) := by
  cases start <;> cases condition <;> cases increment <;> rfl

theorem moves_readCountedLoop (keyword : Token) (bound : Nat)
    (hx : Moves shift (Expr.moved shift) expression expression')
    (hs : Moves shift (moved shift) statement statement') : Moves shift (moved shift)
      (readCountedLoop keyword bound expression statement)
      (readCountedLoop (keyword.moved shift) bound expression' statement') := by
  refine (moves_expect _ _).bind fun _ => (moves_readStart bound hx).bind fun start => ?_
  refine (moves_expect _ _).bind fun _ => (moves_readUnless .comma hx).bind fun condition => ?_
  refine (moves_expect _ _).bind fun _ => (moves_readUnless .rightParen hx).bind fun increment => ?_
  refine (moves_expect _ _).bind fun _ => hs.bind fun inner => ?_
  rw [← moved_countedLoop]
  exact moves_pure _ _

theorem moves_readBody (hs : Moves shift (moved shift) statement statement') :
    Moves shift (moved shift) (readBody statement) (readBody statement') :=
  moves_skipNewlines.bind fun _ => hs

theorem moves_readJump (loops : Nat) (keyword : Token) (jump : Stmt) :
    Moves shift (moved shift) (readJump loops keyword jump)
      (readJump loops (keyword.moved shift) (jump.moved shift)) :=
  moves_ite (moves_stuckAt _ _ keyword) (moves_endStatement.bind fun _ => moves_pure _ jump)

theorem moves_readKeyword (loops bound : Nat) {inLoop inLoop' : TokenReader Stmt}
    (hx : Moves shift (Expr.moved shift) expression expression')
    (hs : Moves shift (moved shift) statement statement') (hl : Moves shift (moved shift) inLoop inLoop')
    (keyword : Token) : Moves shift (moved shift)
      (readKeyword loops bound expression statement inLoop keyword)
      (readKeyword loops bound expression' statement' inLoop' (keyword.moved shift)) := by
  unfold readKeyword
  rw [Token.kind_moved]
  split
  · exact (moves_readDeclaration keyword false bound hx).bind fun declaration =>
      moves_endStatement.bind fun _ => moves_pure _ declaration
  · exact (moves_expect _ _).bind fun _ => hx.bind fun e =>
      moves_endStatement.bind fun _ => moves_pure _ (ipakita keyword e)
  · exact (moves_expect _ _).bind fun _ => (moves_readNames bound).bind fun names =>
      moves_endStatement.bind fun _ => moves_pure _ (dawat keyword names)
  · have hbody := moves_readBody hs
    refine (moves_readCondition hx).bind fun condition => hbody.bind fun body => ?_
    refine (moves_readAlternatives hx hbody bound).bind fun alternatives => ?_
    exact (moves_readOtherwise hbody).bind fun otherwise =>
      moves_pure _ (kung keyword condition body alternatives otherwise)
  · exact (moves_readCondition hx).bind fun condition => (moves_readBody hl).bind fun body =>
      moves_pure _ (mintras keyword condition body)
  · refine (moves_readBody hl).bind fun body => moves_skipNewlines.bind fun _ => (moves_expect _ _).bind fun _ => ?_
    exact (moves_readCondition hx).bind fun condition => moves_endStatement.bind fun _ =>
      moves_pure _ (buhata keyword body condition)
  · exact moves_readCountedLoop keyword bound hx (moves_readBody hl)
  · exact moves_readJump loops keyword (hunong keyword)
  · exact moves_readJump loops keyword (padayon keyword)
  · exact (moves_readBlock bound hs).bind fun body => moves_pure _ (pundok body)

/-- By induction on the budget. -/
theorem moves_readWithin (budget : Nat) : ∀ loops,
    Moves shift (moved shift) (readWithin budget loops) (readWithin budget loops) := by
  induction budget with
  | zero => exact fun _ => moves_stuckHere _ _
  | succ budget ih =>
    intro loops
    have hx : Moves shift (Expr.moved shift) (Expr.readWithin budget) (Expr.readWithin budget) :=
      Expr.moves_readWithin budget
    refine (moves_take? _).bind fun o => ?_
    cases o with
    | some keyword => exact moves_readKeyword loops budget hx (ih loops) (ih (loops + 1)) keyword
    | none => exact hx.bind fun e => moves_endStatement.bind fun _ => moves_pure _ (expr e)

end Stmt

/-! ## Programs -/

namespace ReadProgram

/-- What reading a program gives, with its tokens moved. -/
def moved (shift : Nat → Nat) (p : ReadProgram) : ReadProgram :=
  { p with statements := movedAll shift p.statements, complaints := p.complaints.map (Complaint.moved shift) }

variable {shift : Nat → Nat} {statement statement' : TokenReader Stmt}

theorem moves_readTop (hs : Moves shift (Stmt.moved shift) statement statement') (bound : Nat) :
    Moves shift (movedAll shift) (readTop statement bound) (readTop statement' bound) := by
  induction bound with
  | zero => exact moves_pure _ []
  | succ bound ih =>
    refine moves_peek.bind fun t => moves_ite (moves_pure _ []) ?_
    refine moves_ite (moves_skip.bind fun _ => ih) (moves_ite ?_ (Stmt.moves_round hs ih))
    exact (moves_note _ t).bind fun _ => moves_skip.bind fun _ => ih

theorem moves_readEnd : Moves shift id readEnd readEnd := by
  refine (moves_take? _).bind fun o => ?_
  cases o with
  | none => exact moves_peek.bind fun t => (moves_note _ t).bind fun _ => moves_pure id false
  | some _ =>
    refine moves_skipNewlines.bind fun _ => moves_peek.bind fun t => ?_
    exact moves_noting fun _ => moves_pure id true

theorem moves_readAll (budget : Nat) :
    Moves shift (Prod.map (movedAll shift) id) (readAll budget) (readAll budget) := by
  have hstatement : Moves shift (Stmt.moved shift) (Stmt.readWithin budget 0) (Stmt.readWithin budget 0) :=
    Stmt.moves_readWithin budget 0
  have htop := moves_readTop hstatement budget
  refine moves_skipNewlines.bind fun _ => (moves_take? _).bind fun o => ?_
  cases o with
  | some _ =>
    exact htop.bind fun statements => moves_readEnd.bind fun ended => moves_pure _ (statements, ended)
  | none =>
    refine moves_peek.bind fun t => (moves_note _ t).bind fun _ => ?_
    exact htop.bind fun statements => moves_readEnd.bind fun ended => moves_pure _ (statements, ended)

/-- Moved tokens are read as the same program with its tokens moved. -/
theorem ofTokens_map_moved (shift : Nat → Nat) (tokens : List Token) :
    ofTokens (tokens.map (Token.moved shift)) = (ofTokens tokens).moved shift := by
  unfold ofTokens
  rw [List.length_map, moves_readAll (2 * tokens.length + 3) tokens]
  cases (readAll (2 * tokens.length + 3)).run tokens with
  | read p rest noted => rfl
  | stuck complaint rest noted => simp [moved, Reading.moved, movedAll]

end ReadProgram

end BisayaPlus
