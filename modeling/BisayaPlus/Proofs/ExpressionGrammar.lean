import BisayaPlus.Proofs.Grammar
import BisayaPlus.Proofs.Reading
/-!
# The expression reader follows the grammar

What the reader of a layer takes is an expression of that layer, and it takes
every such expression whole, as long as what follows cannot belong to it and
the budget is twice the number of tokens.
-/

set_option autoImplicit false

namespace BisayaPlus

open TokenReader Grammar BisayaPlus.Expr

namespace Grammar

/-! ## Layers and their readers -/

namespace Layer

/-- The place of a layer, from loose to tight. -/
def rank : Layer → Nat
  | assignment => 0
  | disjunction => 1
  | conjunction => 2
  | equality => 3
  | comparison => 4
  | term => 5
  | factor => 6
  | unary => 7
  | primary => 8

/-- The reader of a layer, within a budget. -/
def reader (budget : Nat) : Layer → TokenReader Expr
  | assignment => readWithin (budget + 1)
  | disjunction => readDisjunction budget (readUnary budget)
  | conjunction =>
    leftGrouped (· == .ug) .logical budget <| leftGrouped isEquality .binary budget <|
    leftGrouped isComparison .binary budget <| readTerm budget (readUnary budget)
  | equality =>
    leftGrouped isEquality .binary budget <| leftGrouped isComparison .binary budget <|
    readTerm budget (readUnary budget)
  | comparison => leftGrouped isComparison .binary budget <| readTerm budget (readUnary budget)
  | term => readTerm budget (readUnary budget)
  | factor => leftGrouped isFactorOperator .binary budget (readUnary budget)
  | unary => readUnary budget
  | primary => readPrimary (readWithin (budget - 1))

/-- The test for the operators of a layer. -/
def test : Layer → Kind → Bool
  | disjunction => (· == .o)
  | conjunction => (· == .ug)
  | equality => isEquality
  | comparison => isComparison
  | term => isTermOperator
  | factor => isFactorOperator
  | _ => fun _ => false

theorem test_iff (layer : Layer) (k : Kind) : layer.test k = true ↔ k ∈ layer.operators := by
  cases layer
  case equality => cases k <;> simp [test, isEquality, operators]
  case comparison => cases k <;> simp [test, isComparison, operators]
  case term => cases k <;> simp [test, isTermOperator, operators]
  case factor => cases k <;> simp [test, isFactorOperator, operators]
  all_goals simp [test, operators]

theorem test_eof (layer : Layer) : layer.test .eof = false := by
  cases layer <;> rfl

theorem rank_tighter {layer : Layer} (h : layer ≠ .primary) : layer.tighter.rank = layer.rank + 1 := by
  cases layer <;> first | rfl | exact absurd rfl h

end Layer

theorem isStep_iff (k : Kind) : isStep k = true ↔ k ∈ [Kind.plusPlus, .minusMinus] := by
  cases k <;> simp [isStep]

/-! ## What is read is an expression -/

/-- The reader takes only expressions of this layer. -/
def Sound (r : TokenReader Expr) (layer : Layer) : Prop :=
  ∀ ts e rest, Reads r ts e rest → ∃ taken, ts = taken ++ rest ∧ Expression layer taken e

theorem Sound.tighter (layer : Layer) {r : TokenReader Expr} (h : Sound r layer.tighter) (hl : layer ≠ .primary) :
    Sound r layer := by
  intro ts e rest hr
  obtain ⟨taken, rfl, he⟩ := h ts e rest hr
  exact ⟨taken, rfl, .tighter hl he⟩

/-- Only a name alone is read as a variable. -/
theorem expression_var {layer : Layer} {ts : List Token} {name : Token} (h : Expression layer ts (.var name)) :
    ts = [name] ∧ name.kind = .identifier := by
  generalize he : Expr.var name = e at h
  induction h with
  | tighter _ _ ih => exact ih he
  | var hk => cases he; exact ⟨rfl, hk⟩
  | @joined layer => cases layer <;> simp [Layer.join] at he
  | _ => cases he

/-- Each operator taken makes the tree so far the left operand of a new one. -/
theorem moreOperands_sound (layer : Layer) {operand : TokenReader Expr} (h : Sound operand layer.tighter)
    (bound : Nat) :
    ∀ ls left ts e rest, Expression layer ls left →
      Reads (moreOperands layer.test layer.join operand bound left) ts e rest →
      ∃ taken, ts = taken ++ rest ∧ Expression layer (ls ++ taken) e := by
  induction bound with
  | zero =>
    intro ls left ts e rest hl hr
    rw [moreOperands, reads_pure] at hr
    obtain ⟨rfl, rfl⟩ := hr
    exact ⟨[], rfl, by simpa using hl⟩
  | succ bound ih =>
    intro ls left ts e rest hl hr
    rw [moreOperands, reads_bind] at hr
    obtain ⟨o, mid, ho, hr⟩ := hr
    cases o with
    | none =>
      obtain ⟨rfl, rfl⟩ := reads_pure.1 hr
      obtain ⟨rfl, -⟩ := (reads_take?_none layer.test_eof).1 ho
      exact ⟨[], rfl, by simpa using hl⟩
    | some operator =>
      obtain ⟨rfl, hk⟩ := reads_take?_some.1 ho
      obtain ⟨right, mid', h1, h2⟩ := reads_bind.1 hr
      obtain ⟨rs, rfl, hrs⟩ := h _ _ _ h1
      obtain ⟨taken, rfl, ht⟩ := ih _ _ _ _ _ (.joined ((layer.test_iff _).1 hk) hl hrs) h2
      exact ⟨operator :: rs ++ taken, by simp, by simpa using ht⟩

theorem leftGrouped_sound (layer : Layer) {operand : TokenReader Expr} (hl : layer ≠ .primary)
    (h : Sound operand layer.tighter) (bound : Nat) :
    Sound (leftGrouped layer.test layer.join bound operand) layer := by
  intro ts e rest hr
  rw [leftGrouped, reads_bind] at hr
  obtain ⟨left, mid, h1, h2⟩ := hr
  obtain ⟨ls, rfl, hls⟩ := h _ _ _ h1
  obtain ⟨taken, rfl, ht⟩ := moreOperands_sound layer h bound _ _ _ _ _ (.tighter hl hls) h2
  exact ⟨ls ++ taken, by simp, ht⟩

theorem readTerm_sound {unary : TokenReader Expr} (h : Sound unary .unary) (bound : Nat) :
    Sound (readTerm bound unary) .term := by
  intro ts e rest hr
  rw [readTerm, reads_bind] at hr
  obtain ⟨term, mid, h1, h2⟩ := hr
  rw [reads_peek] at h2
  split at h2
  · exact absurd h2 reads_stuckHere
  · obtain ⟨rfl, rfl⟩ := reads_pure.1 h2
    exact leftGrouped_sound .term (by decide) (leftGrouped_sound .factor (by decide) h bound) bound _ _ _ h1

theorem readDisjunction_sound {unary : TokenReader Expr} (h : Sound unary .unary) (bound : Nat) :
    Sound (readDisjunction bound unary) .disjunction :=
  leftGrouped_sound .disjunction (by decide)
    (leftGrouped_sound .conjunction (by decide)
      (leftGrouped_sound .equality (by decide)
        (leftGrouped_sound .comparison (by decide) (readTerm_sound h bound) bound) bound) bound) bound

/-- The tokens that stand for a value. -/
theorem expression_of_literal {t : Token} {v : Value} (h : literalOf? t = some v) :
    Expression .primary [t] (.literal v) := by
  unfold literalOf? at h
  split at h <;> cases h
  case h_5 hk => exact .oo hk
  case h_6 hk => exact .null hk
  case h_7 hk => exact .lineBreak hk
  all_goals exact .valued (by simp [*])

theorem readPrimary_sound {nested : TokenReader Expr} (h : Sound nested .assignment) :
    Sound (readPrimary nested) .primary := by
  intro ts e rest hr
  rw [readPrimary, reads_peek] at hr
  cases ts with
  | nil => exact absurd hr reads_stuckHere
  | cons t ts =>
    simp only [List.headD_cons] at hr
    split at hr
    · next v hv =>
      rw [reads_skip, reads_pure] at hr
      obtain ⟨rfl, rfl⟩ := hr
      exact ⟨[t], rfl, expression_of_literal hv⟩
    · split at hr
      · next hk =>
        rw [reads_skip, List.tail_cons, reads_bind] at hr
        obtain ⟨o, mid, ho, h2⟩ := hr
        cases o with
        | none =>
          obtain ⟨rfl, rfl⟩ := reads_pure.1 h2
          obtain ⟨rfl, -⟩ := (reads_take?_none rfl).1 ho
          exact ⟨[t], rfl, .var hk⟩
        | some operator =>
          obtain ⟨rfl, rfl⟩ := reads_pure.1 h2
          obtain ⟨rfl, hstep⟩ := reads_take?_some.1 ho
          exact ⟨[t, operator], rfl, .stepAfter ((isStep_iff _).1 hstep) hk⟩
      · next hk =>
        rw [reads_skip, List.tail_cons, reads_bind] at hr
        obtain ⟨inner, mid, hi, h2⟩ := hr
        obtain ⟨closing, mid', rfl, hc, h3⟩ := reads_expect.1 h2
        obtain ⟨rfl, rfl⟩ := reads_pure.1 h3
        obtain ⟨taken, rfl, he⟩ := h _ _ _ hi
        exact ⟨t :: taken ++ [closing], by simp, .grouping hk he hc⟩
      · exact absurd hr reads_stuckHere

theorem compounds_iff (k operator : Kind) : (k, operator) ∈ compounds ↔ compound? k = some operator := by
  constructor
  · intro h
    simp only [compounds, List.mem_cons, Prod.mk.injEq, List.not_mem_nil, or_false] at h
    rcases h with ⟨rfl, rfl⟩ | ⟨rfl, rfl⟩ | ⟨rfl, rfl⟩ | ⟨rfl, rfl⟩ | ⟨rfl, rfl⟩ <;> rfl
  · intro h
    unfold compound? at h
    split at h <;> cases h <;> decide

/-- An assignment to a variable, by any of the signs. -/
theorem expression_assigned {name sign : Token} {ts : List Token} {e : Expr} (hn : name.kind = .identifier)
    (hs : isAssignment sign.kind = true) (he : Expression .assignment ts e) :
    Expression .assignment (name :: sign :: ts) (.assign name (assignedValue sign name e)) := by
  unfold assignedValue
  cases hc : compound? sign.kind with
  | some operator => exact .compound hn ((compounds_iff _ _).2 hc) he
  | none =>
    simp only [isAssignment, hc, Option.isSome_none, Bool.or_false, beq_iff_eq] at hs
    exact .assign hn hs he

/-- By induction on the budget: every nested reader has a smaller one. -/
theorem readers_sound (budget : Nat) : Sound (readUnary budget) .unary ∧ Sound (readWithin budget) .assignment := by
  induction budget with
  | zero => exact ⟨fun _ _ _ h => absurd h reads_stuckHere, fun _ _ _ h => absurd h reads_stuckHere⟩
  | succ budget ih =>
    obtain ⟨ihu, ihw⟩ := ih
    constructor
    · intro ts e rest hr
      rw [readUnary, reads_bind] at hr
      obtain ⟨o, mid, ho, hr⟩ := hr
      cases o with
      | none =>
        obtain ⟨rfl, -⟩ := (reads_take?_none rfl).1 ho
        exact (readPrimary_sound ihw).tighter .unary (by decide) _ _ _ hr
      | some operator =>
        obtain ⟨rfl, hk⟩ := reads_take?_some.1 ho
        obtain ⟨right, mid', h1, h2⟩ := reads_bind.1 hr
        obtain ⟨taken, rfl, he⟩ := ihu _ _ _ h1
        split at h2
        · next hs =>
          split at h2
          · obtain ⟨rfl, rfl⟩ := reads_pure.1 h2
            obtain ⟨rfl, hn⟩ := expression_var he
            exact ⟨_, rfl, .stepBefore ((isStep_iff _).1 hs) hn⟩
          · exact absurd h2 reads_stuckAt
        · next hs =>
          obtain ⟨rfl, rfl⟩ := reads_pure.1 h2
          exact ⟨operator :: taken, rfl, .unary (by simpa [hs] using hk) he⟩
    · intro ts e rest hr
      rw [readWithin, reads_bind] at hr
      obtain ⟨left, mid, h1, h2⟩ := hr
      obtain ⟨ls, rfl, hl⟩ := readDisjunction_sound ihu budget _ _ _ h1
      obtain ⟨o, mid', ho, h3⟩ := reads_bind.1 h2
      cases o with
      | none =>
        obtain ⟨rfl, rfl⟩ := reads_pure.1 h3
        obtain ⟨rfl, -⟩ := (reads_take?_none rfl).1 ho
        exact ⟨ls, rfl, .tighter (by decide) hl⟩
      | some sign =>
        obtain ⟨rfl, hs⟩ := reads_take?_some.1 ho
        obtain ⟨value, mid'', h4, h5⟩ := reads_bind.1 h3
        obtain ⟨vs, rfl, hv⟩ := ihw _ _ _ h4
        split at h5
        · obtain ⟨rfl, rfl⟩ := reads_pure.1 h5
          obtain ⟨rfl, hn⟩ := expression_var hl
          exact ⟨_, rfl, expression_assigned hn hs hv⟩
        · exact absurd h5 reads_stuckAt

/-! ## What follows an expression -/

/-- The place of the loosest layer whose expressions a token of this kind may
follow, or a place past all layers if it follows none. -/
def followRank : Kind → Nat
  | .newline | .rightParen | .comma | .rightBrace | .katapusan | .eof => 0
  | .equal | .plusEqual | .minusEqual | .starEqual | .slashEqual | .percentEqual => 1
  | .o => 2
  | .ug => 3
  | .equalEqual | .notEqual => 4
  | .greater | .greaterEqual | .less | .lessEqual => 5
  | .plus | .minus | .ampersand | .dollar | .escape => 6
  | .star | .slash | .percent => 7
  | _ => 9

/-- What comes next cannot belong to an expression of this layer. -/
def Follows (layer : Layer) (rest : List Token) : Prop := followRank (nextKind rest) ≤ layer.rank

theorem Layer.rank_le (layer : Layer) : layer.rank ≤ 8 := by
  cases layer <;> decide

theorem followRank_operator (layer : Layer) : ∀ k ∈ layer.operators, followRank k = layer.rank + 1 := by
  cases layer <;> decide

theorem Follows.tighter {layer : Layer} {rest : List Token} (h : Follows layer rest) : Follows layer.tighter rest := by
  have hr : layer.rank ≤ layer.tighter.rank := by cases layer <;> decide
  exact Nat.le_trans h hr

theorem Follows.not_operator {layer : Layer} {rest : List Token} (h : Follows layer rest) :
    layer.test (nextKind rest) = false := by
  refine Bool.eq_false_iff.2 fun hk => ?_
  have := followRank_operator layer _ ((layer.test_iff _).1 hk)
  rw [Follows, this] at h
  omega

theorem followRank_operand {k : Kind} (h : startsOperand k = true ∨ isStep k = true) : followRank k = 9 := by
  cases k <;> first | rfl | simp [startsOperand, isStep] at h

theorem Follows.not_operand {layer : Layer} {rest : List Token} (h : Follows layer rest) :
    startsOperand (nextKind rest) = false ∧ isStep (nextKind rest) = false := by
  have hl := layer.rank_le
  rw [Follows] at h
  refine ⟨Bool.eq_false_iff.2 fun hk => ?_, Bool.eq_false_iff.2 fun hk => ?_⟩
  · have := followRank_operand (.inl hk)
    omega
  · have := followRank_operand (.inr hk)
    omega

theorem followRank_assignment {k : Kind} (h : isAssignment k = true) : followRank k = 1 := by
  cases k <;> first | rfl | simp [isAssignment, compound?] at h

theorem Follows.not_assignment {rest : List Token} (h : Follows .assignment rest) :
    isAssignment (nextKind rest) = false := by
  refine Bool.eq_false_iff.2 fun hk => ?_
  rw [Follows, followRank_assignment hk] at h
  exact absurd h (by decide)

/-! ## Where an expression starts -/

/-- The kinds an operand starts with. -/
def operandStarters : List Kind := [
  .number, .string, .char, .escape, .oo, .null, .dollar, .identifier, .leftParen]

/-- The kinds an expression starts with. -/
def starters : List Kind := [.dili, .minus, .plusPlus, .minusMinus] ++ operandStarters

theorem primary_starts {ts : List Token} {e : Expr} (h : Expression .primary ts e) :
    nextKind ts ∈ operandStarters := by
  cases h with
  | tighter hl _ => exact absurd rfl hl
  | joined hk _ _ => simp [Layer.operators] at hk
  | valued hk =>
    simp only [List.mem_cons, List.not_mem_nil, or_false] at hk
    rcases hk with hk | hk | hk | hk <;> simp [hk, operandStarters]
  | _ => simp_all [operandStarters]

theorem expression_starts {layer : Layer} {ts : List Token} {e : Expr} (h : Expression layer ts e) :
    nextKind ts ∈ starters ∧ ts ≠ [] := by
  induction h with
  | tighter _ _ ih => exact ih
  | @joined layer operator ls rs l r _ _ _ ih _ =>
    obtain ⟨hk, hne⟩ := ih
    obtain ⟨t, ls, rfl⟩ := List.exists_cons_of_ne_nil hne
    exact ⟨hk, by simp⟩
  | unary hk _ _ =>
    simp only [List.mem_cons, List.not_mem_nil, or_false] at hk
    rcases hk with hk | hk <;> simp [hk, starters]
  | stepBefore hk _ =>
    simp only [List.mem_cons, List.not_mem_nil, or_false] at hk
    rcases hk with hk | hk <;> simp [hk, starters]
  | valued hk =>
    simp only [List.mem_cons, List.not_mem_nil, or_false] at hk
    rcases hk with hk | hk | hk | hk <;> simp [hk, starters, operandStarters]
  | _ => simp_all [starters, operandStarters]

theorem nextKind_append {ts : List Token} (h : ts ≠ []) (rest : List Token) : nextKind (ts ++ rest) = nextKind ts := by
  obtain ⟨t, ts, rfl⟩ := List.exists_cons_of_ne_nil h
  rfl

/-! ## Every expression is read -/

/-- The reader of the layer takes the tokens `ts` whole, and gives this tree. -/
def Completes (layer : Layer) (ts : List Token) (e : Expr) : Prop :=
  ∀ budget rest, 2 * ts.length ≤ budget + 1 → Follows layer rest → Reads (layer.reader budget) (ts ++ rest) e rest

/-- The reader of the operands and operators of a layer gets through the tokens
`ts` and goes on with this tree as its left operand. -/
def Continues (layer : Layer) (ts : List Token) (e : Expr) : Prop :=
  ∀ budget bound rest, 2 * ts.length ≤ budget + 1 → ts.length ≤ bound + 1 → Follows layer.tighter rest →
    ∃ left, bound < left + ts.length ∧ ∀ e' rest',
      Reads (moreOperands layer.test layer.join (layer.tighter.reader budget) left e) rest e' rest' →
      Reads (leftGrouped layer.test layer.join bound (layer.tighter.reader budget)) (ts ++ rest) e' rest'

theorem moreOperands_stop {layer : Layer} {rest : List Token} (h : Follows layer rest) (operand : TokenReader Expr)
    (bound : Nat) (e : Expr) : Reads (moreOperands layer.test layer.join operand bound e) rest e rest := by
  cases bound with
  | zero => exact reads_pure.2 ⟨rfl, rfl⟩
  | succ bound => exact .bind ((reads_take?_none layer.test_eof).2 ⟨rfl, h.not_operator⟩) (reads_pure.2 ⟨rfl, rfl⟩)

/-- Where no operator of the layer follows, the tree is complete. -/
theorem Continues.completes {layer : Layer} {ts : List Token} {e : Expr} (hj : layer.operators ≠ [])
    (h : Continues layer ts e) : Completes layer ts e := by
  intro budget rest hb hf
  have hg : Reads (leftGrouped layer.test layer.join budget (layer.tighter.reader budget)) (ts ++ rest) e rest := by
    obtain ⟨left, -, hc⟩ := h budget budget rest hb (by omega) hf.tighter
    exact hc e rest (moreOperands_stop hf _ left e)
  cases layer with
  | term =>
    refine .bind hg (reads_peek.2 ?_)
    rw [if_neg (by simpa [nextKind] using hf.not_operand.1)]
    exact reads_pure.2 ⟨rfl, rfl⟩
  | disjunction => exact hg
  | conjunction => exact hg
  | equality => exact hg
  | comparison => exact hg
  | factor => exact hg
  | assignment => exact absurd rfl hj
  | unary => exact absurd rfl hj
  | primary => exact absurd rfl hj

/-- An operand alone. -/
theorem Completes.continues {layer : Layer} {ts : List Token} {e : Expr} (h : Completes layer.tighter ts e)
    (hne : ts ≠ []) : Continues layer ts e := by
  intro budget bound rest hb _ hf
  have hlen := List.length_pos_iff.2 hne
  exact ⟨bound, by omega, fun e' rest' hr => .bind (h budget rest hb hf) hr⟩

/-- One more operator and operand. -/
theorem Continues.joined {layer : Layer} {ls rs : List Token} {operator : Token} {l r : Expr}
    (hk : operator.kind ∈ layer.operators) (hl : Continues layer ls l) (hr : Completes layer.tighter rs r) :
    Continues layer (ls ++ operator :: rs) (layer.join l operator r) := by
  intro budget bound rest hb hn hf
  have hp : layer ≠ .primary := by
    rintro rfl
    simp [Layer.operators] at hk
  have hlen : (ls ++ operator :: rs).length = ls.length + rs.length + 1 := by simp; omega
  rw [hlen] at hb hn ⊢
  -- the operator ends its left operand: no tighter layer goes on with it
  have hfo : Follows layer.tighter (operator :: (rs ++ rest)) := by
    simp only [Follows, nextKind_cons, followRank_operator layer _ hk, Layer.rank_tighter hp, Nat.le_refl]
  obtain ⟨left, hleft, hc⟩ := hl budget bound (operator :: (rs ++ rest)) (by omega) (by omega) hfo
  obtain ⟨left, rfl⟩ : ∃ n, left = n + 1 := ⟨left - 1, by omega⟩
  refine ⟨left, by omega, fun e' rest' hm => ?_⟩
  rw [List.append_assoc, List.cons_append]
  apply hc
  refine .bind (reads_take?_some.2 ⟨rfl, (layer.test_iff _).2 hk⟩) ?_
  exact .bind (hr budget rest (by omega) hf) hm

/-- What an operand of the layer can stand for, an expression of the layer can. -/
theorem Completes.loosen {layer : Layer} {ts : List Token} {e : Expr} (hl : layer ≠ .primary)
    (he : Expression layer.tighter ts e) (h : Completes layer.tighter ts e) : Completes layer ts e := by
  have hne := (expression_starts he).2
  have hlen := List.length_pos_iff.2 hne
  by_cases hj : layer.operators = []
  · intro budget rest hb hf
    cases layer with
    | assignment =>
      refine .bind (h budget rest hb hf.tighter) (.bind ((reads_take?_none rfl).2 ⟨rfl, hf.not_assignment⟩) ?_)
      exact reads_pure.2 ⟨rfl, rfl⟩
    | unary =>
      obtain ⟨budget, rfl⟩ : ∃ b, budget = b + 1 := ⟨budget - 1, by omega⟩
      refine .bind ((reads_take?_none rfl).2 ⟨rfl, ?_⟩) (h (budget + 1) rest hb hf.tighter)
      have hk := primary_starts he
      rw [nextKind_append hne]
      revert hk
      generalize nextKind ts = k
      cases k <;> simp [operandStarters, isStep]
    | primary => exact absurd rfl hl
    | _ => simp [Layer.operators] at hj
  · exact (h.continues hne).completes hj

/-- An operand is complete at every layer. -/
theorem completes_of_primary {ts : List Token} {e : Expr} (he : Expression .primary ts e) (h : Completes .primary ts e)
    (layer : Layer) : Expression layer ts e ∧ Completes layer ts e := by
  -- from the tightest layer outward
  induction hn : 8 - layer.rank generalizing layer with
  | zero =>
    have hl : layer = .primary := by cases layer <;> first | rfl | (simp [Layer.rank] at hn)
    exact hl ▸ ⟨he, h⟩
  | succ n ih =>
    have hl : layer ≠ .primary := by
      rintro rfl
      simp [Layer.rank] at hn
    obtain ⟨he', h'⟩ := ih layer.tighter (by rw [Layer.rank_tighter hl]; omega)
    exact ⟨.tighter hl he', h'.loosen hl he'⟩

theorem completes_var {name : Token} (h : name.kind = .identifier) (layer : Layer) :
    Completes layer [name] (.var name) := by
  refine (completes_of_primary (.var h) ?_ layer).2
  intro budget rest _ hf
  refine reads_peek.2 ?_
  simp only [List.cons_append, List.nil_append, List.headD_cons, literalOf?, h]
  refine reads_skip.2 (.bind ((reads_take?_none rfl).2 ⟨rfl, hf.not_operand.2⟩) ?_)
  exact reads_pure.2 ⟨rfl, rfl⟩

theorem completes_literal {t : Token} {v : Value} (h : literalOf? t = some v) :
    Completes .primary [t] (.literal v) := by
  intro budget rest _ _
  refine reads_peek.2 ?_
  simp only [List.cons_append, List.nil_append, List.headD_cons, h]
  exact reads_skip.2 (reads_pure.2 ⟨rfl, rfl⟩)

theorem completes_stepAfter {operator name : Token} (hk : operator.kind ∈ [Kind.plusPlus, .minusMinus])
    (hn : name.kind = .identifier) : Completes .primary [name, operator] (.step operator name false) := by
  intro budget rest _ _
  refine reads_peek.2 ?_
  simp only [List.cons_append, List.nil_append, List.headD_cons, literalOf?, hn]
  refine reads_skip.2 (.bind (reads_take?_some.2 ⟨rfl, (isStep_iff _).2 hk⟩) ?_)
  exact reads_pure.2 ⟨rfl, rfl⟩

theorem completes_grouping {opening closing : Token} {ts : List Token} {e : Expr} (ho : opening.kind = .leftParen)
    (hc : closing.kind = .rightParen) (h : Completes .assignment ts e) :
    Completes .primary (opening :: ts ++ [closing]) (.grouping e) := by
  intro budget rest hb _
  simp only [List.cons_append, List.length_cons, List.length_append, List.length_nil] at hb
  obtain ⟨budget, rfl⟩ : ∃ b, budget = b + 2 := ⟨budget - 2, by omega⟩
  refine reads_peek.2 ?_
  simp only [List.cons_append, List.headD_cons, literalOf?, ho]
  have hf : Follows .assignment (closing :: rest) := by simp [Follows, hc, followRank]
  have hi := h budget (closing :: rest) (by omega) hf
  rw [List.append_assoc]
  exact reads_skip.2 (.bind hi (reads_expect.2 ⟨closing, rest, rfl, hc, reads_pure.2 ⟨rfl, rfl⟩⟩))

theorem completes_unary {operator : Token} {ts : List Token} {e : Expr} (hk : operator.kind ∈ [Kind.dili, .minus])
    (h : Completes .unary ts e) : Completes .unary (operator :: ts) (.unary operator e) := by
  intro budget rest hb hf
  rw [List.length_cons] at hb
  obtain ⟨budget, rfl⟩ : ∃ b, budget = b + 1 := ⟨budget - 1, by omega⟩
  simp only [List.mem_cons, List.not_mem_nil, or_false] at hk
  have hs : isStep operator.kind = false := by rcases hk with hk | hk <;> rw [hk] <;> rfl
  refine .bind (reads_take?_some.2 ⟨rfl, by rcases hk with hk | hk <;> simp [hk]⟩) ?_
  refine .bind (h budget rest (by omega) hf) ?_
  rw [if_neg (by simp [hs])]
  exact reads_pure.2 ⟨rfl, rfl⟩

theorem completes_stepBefore {operator name : Token} (hk : operator.kind ∈ [Kind.plusPlus, .minusMinus])
    (hn : name.kind = .identifier) : Completes .unary [operator, name] (.step operator name true) := by
  intro budget rest hb hf
  simp only [List.length_cons, List.length_nil] at hb
  obtain ⟨budget, rfl⟩ : ∃ b, budget = b + 1 := ⟨budget - 1, by omega⟩
  have hs := (isStep_iff _).2 hk
  refine .bind (reads_take?_some.2 ⟨rfl, by simp [hs]⟩) ?_
  refine .bind (completes_var hn .unary budget rest (by simp; omega) hf) ?_
  rw [if_pos hs]
  exact reads_pure.2 ⟨rfl, rfl⟩

/-- An assignment by any of the signs. -/
theorem completes_assigned {name sign : Token} {ts : List Token} {e : Expr} (hn : name.kind = .identifier)
    (hs : isAssignment sign.kind = true) (h : Completes .assignment ts e) :
    Completes .assignment (name :: sign :: ts) (.assign name (assignedValue sign name e)) := by
  intro budget rest hb hf
  simp only [List.length_cons] at hb
  obtain ⟨budget, rfl⟩ : ∃ b, budget = b + 1 := ⟨budget - 1, by omega⟩
  have hd : Follows .disjunction (sign :: (ts ++ rest)) := by
    rw [Follows, nextKind_cons, followRank_assignment hs]
    exact Nat.le_refl _
  refine .bind (completes_var hn .disjunction (budget + 1) _ (by simp) hd) ?_
  refine .bind (reads_take?_some.2 ⟨rfl, hs⟩) (.bind (h budget rest (by omega) hf) ?_)
  exact reads_pure.2 ⟨rfl, rfl⟩

/-- By induction on the derivation. An operator makes the reader go on, so the
layers with operators are carried as `Continues`. -/
theorem expression_completes {layer : Layer} {ts : List Token} {e : Expr} (h : Expression layer ts e) :
    Completes layer ts e ∧ (layer.operators ≠ [] → Continues layer ts e) := by
  induction h with
  | tighter hl he ih =>
    exact ⟨ih.1.loosen hl he, fun _ => ih.1.continues (expression_starts he).2⟩
  | joined hk _ _ ihl ihr =>
    have hj := List.ne_nil_of_mem hk
    have hc := (ihl.2 hj).joined hk ihr.1
    exact ⟨hc.completes hj, fun _ => hc⟩
  | @assign name sign ts e hn hs _ ih =>
    have hv : assignedValue sign name e = e := by simp [assignedValue, hs, compound?]
    exact ⟨hv ▸ completes_assigned hn (by simp [isAssignment, hs]) ih.1, fun hj => absurd rfl hj⟩
  | @compound name sign operator ts e hn hs _ ih =>
    have hc := (compounds_iff _ _).1 hs
    have ha : isAssignment sign.kind = true := by simp [isAssignment, hc]
    have hv := completes_assigned hn ha ih.1
    rw [assignedValue, hc] at hv
    exact ⟨hv, fun hj => absurd rfl hj⟩
  | unary hk _ ih => exact ⟨completes_unary hk ih.1, fun hj => absurd rfl hj⟩
  | stepBefore hk hn => exact ⟨completes_stepBefore hk hn, fun hj => absurd rfl hj⟩
  | stepAfter hk hn => exact ⟨completes_stepAfter hk hn, fun hj => absurd rfl hj⟩
  | var hn => exact ⟨completes_var hn .primary, fun hj => absurd rfl hj⟩
  | valued hk =>
    simp only [List.mem_cons, List.not_mem_nil, or_false] at hk
    refine ⟨completes_literal ?_, fun hj => absurd rfl hj⟩
    rcases hk with hk | hk | hk | hk <;> simp [literalOf?, hk]
  | oo hk => exact ⟨completes_literal (by simp [literalOf?, hk]), fun hj => absurd rfl hj⟩
  | null hk => exact ⟨completes_literal (by simp [literalOf?, hk]), fun hj => absurd rfl hj⟩
  | lineBreak hk => exact ⟨completes_literal (by simp [literalOf?, hk]), fun hj => absurd rfl hj⟩
  | grouping ho _ hc ih => exact ⟨completes_grouping ho hc ih.1, fun hj => absurd rfl hj⟩

/-- An expression is read whole if what follows it cannot belong to it. -/
theorem reads_of_expression {ts rest : List Token} {e : Expr} (h : Expression .assignment ts e)
    (hf : Follows .assignment rest) {budget : Nat} (hb : 2 * ts.length ≤ budget) :
    Reads (readWithin budget) (ts ++ rest) e rest := by
  have hlen := List.length_pos_iff.2 (expression_starts h).2
  obtain ⟨budget, rfl⟩ : ∃ b, budget = b + 1 := ⟨budget - 1, by omega⟩
  exact (expression_completes h).1 budget rest hb hf

end Grammar

end BisayaPlus
