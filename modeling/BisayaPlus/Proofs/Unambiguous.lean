import BisayaPlus.Proofs.ExpressionGrammar
/-!
# The expression grammar is unambiguous

A derivation is an expression with all its tokens, layer by layer. Its leaves
are the tokens it is written with, each once and in order, and they determine
it: no two derivations have the same leaves. So before a token that ends
expressions, the reader takes exactly the tokens that have a derivation, and
gives the tree of the only one.
-/

set_option autoImplicit false

namespace BisayaPlus.Grammar

open TokenReader BisayaPlus.Expr

/-! ## Derivations -/

/-- An expression of a layer with its tokens, by the rules of `Expression`. -/
inductive Derivation : Layer → Type where
  | tighter {layer : Layer} (hl : layer ≠ .primary) (operand : Derivation layer.tighter) : Derivation layer
  | assign (name sign : Token) (hn : name.kind = .identifier) (hs : sign.kind = .equal)
      (assigned : Derivation .assignment) : Derivation .assignment
  | compound (name sign : Token) (operator : Kind) (hn : name.kind = .identifier)
      (hs : (sign.kind, operator) ∈ compounds) (assigned : Derivation .assignment) : Derivation .assignment
  | joined {layer : Layer} (operator : Token) (hk : operator.kind ∈ layer.operators) (left : Derivation layer)
      (right : Derivation layer.tighter) : Derivation layer
  | unary (operator : Token) (hk : operator.kind ∈ [Kind.dili, .minus]) (operand : Derivation .unary) :
      Derivation .unary
  | stepBefore (operator name : Token) (hk : operator.kind ∈ [Kind.plusPlus, .minusMinus])
      (hn : name.kind = .identifier) : Derivation .unary
  | stepAfter (operator name : Token) (hk : operator.kind ∈ [Kind.plusPlus, .minusMinus])
      (hn : name.kind = .identifier) : Derivation .primary
  | var (name : Token) (hn : name.kind = .identifier) : Derivation .primary
  | valued (t : Token) (hk : t.kind ∈ [Kind.number, .string, .char, .escape]) : Derivation .primary
  | oo (t : Token) (hk : t.kind = .oo) : Derivation .primary
  | null (t : Token) (hk : t.kind = .null) : Derivation .primary
  | lineBreak (t : Token) (hk : t.kind = .dollar) : Derivation .primary
  | grouping (opening closing : Token) (ho : opening.kind = .leftParen) (hc : closing.kind = .rightParen)
      (inner : Derivation .assignment) : Derivation .primary

namespace Derivation

/-- The tokens of a derivation, from left to right. -/
def leaves {layer : Layer} : Derivation layer → List Token
  | tighter _ operand => operand.leaves
  | assign name sign _ _ assigned => name :: sign :: assigned.leaves
  | compound name sign _ _ _ assigned => name :: sign :: assigned.leaves
  | joined operator _ left right => left.leaves ++ operator :: right.leaves
  | unary operator _ operand => operator :: operand.leaves
  | stepBefore operator name _ _ => [operator, name]
  | stepAfter operator name _ _ => [name, operator]
  | var name _ => [name]
  | valued t _ => [t]
  | oo t _ => [t]
  | null t _ => [t]
  | lineBreak t _ => [t]
  | grouping opening closing _ _ inner => opening :: inner.leaves ++ [closing]

/-- The tree of a derivation. -/
def tree {layer : Layer} : Derivation layer → Expr
  | tighter _ operand => operand.tree
  | assign name _ _ _ assigned => .assign name assigned.tree
  | compound name sign operator _ _ assigned =>
    .assign name (.binary (.var name) ⟨operator, sign.lexeme.take 1, none, sign.line, none⟩ assigned.tree)
  | @joined layer operator _ left right => layer.join left.tree operator right.tree
  | unary operator _ operand => .unary operator operand.tree
  | stepBefore operator name _ _ => .step operator name true
  | stepAfter operator name _ _ => .step operator name false
  | var name _ => .var name
  | valued t _ => .literal (t.literal.getD .null)
  | oo _ _ => .literal (.tinuod true)
  | null _ _ => .literal .null
  | lineBreak _ _ => .literal (.pulong "\n")
  | grouping _ _ _ _ inner => .grouping inner.tree

/-- The leaves of a derivation are an expression with its tree. -/
theorem expression {layer : Layer} (d : Derivation layer) : Expression layer d.leaves d.tree := by
  induction d with
  | tighter hl _ ih => exact .tighter hl ih
  | assign _ _ hn hs _ ih => exact .assign hn hs ih
  | compound _ _ _ hn hs _ ih => exact .compound hn hs ih
  | joined _ hk _ _ ihl ihr => exact .joined hk ihl ihr
  | unary _ hk _ ih => exact .unary hk ih
  | stepBefore _ _ hk hn => exact .stepBefore hk hn
  | stepAfter _ _ hk hn => exact .stepAfter hk hn
  | var _ hn => exact .var hn
  | valued _ hk => exact .valued hk
  | oo _ hk => exact .oo hk
  | null _ hk => exact .null hk
  | lineBreak _ hk => exact .lineBreak hk
  | grouping _ _ ho hc _ ih => exact .grouping ho ih hc

/-- Every expression has a derivation. -/
theorem exists_of_expression {layer : Layer} {ts : List Token} {e : Expr} (h : Expression layer ts e) :
    ∃ d : Derivation layer, d.leaves = ts ∧ d.tree = e := by
  induction h with
  | tighter hl _ ih =>
    obtain ⟨d, rfl, rfl⟩ := ih
    exact ⟨.tighter hl d, rfl, rfl⟩
  | assign hn hs _ ih =>
    obtain ⟨d, rfl, rfl⟩ := ih
    exact ⟨.assign _ _ hn hs d, rfl, rfl⟩
  | compound hn hs _ ih =>
    obtain ⟨d, rfl, rfl⟩ := ih
    exact ⟨.compound _ _ _ hn hs d, rfl, rfl⟩
  | joined hk _ _ ihl ihr =>
    obtain ⟨left, rfl, rfl⟩ := ihl
    obtain ⟨right, rfl, rfl⟩ := ihr
    exact ⟨.joined _ hk left right, rfl, rfl⟩
  | unary hk _ ih =>
    obtain ⟨d, rfl, rfl⟩ := ih
    exact ⟨.unary _ hk d, rfl, rfl⟩
  | stepBefore hk hn => exact ⟨.stepBefore _ _ hk hn, rfl, rfl⟩
  | stepAfter hk hn => exact ⟨.stepAfter _ _ hk hn, rfl, rfl⟩
  | var hn => exact ⟨.var _ hn, rfl, rfl⟩
  | valued hk => exact ⟨.valued _ hk, rfl, rfl⟩
  | oo hk => exact ⟨.oo _ hk, rfl, rfl⟩
  | null hk => exact ⟨.null _ hk, rfl, rfl⟩
  | lineBreak hk => exact ⟨.lineBreak _ hk, rfl, rfl⟩
  | grouping ho _ hc ih =>
    obtain ⟨d, rfl, rfl⟩ := ih
    exact ⟨.grouping _ _ ho hc d, rfl, rfl⟩

/-! ## The layer of a tree -/

end Derivation

/-- The place of the tightest layer that has this tree. An operator belongs to
the layer right below those that it may follow. -/
def treeRank : Expr → Nat
  | .assign _ _ => 0
  | .binary _ operator _ => followRank operator.kind - 1
  | .logical _ operator _ => followRank operator.kind - 1
  | .unary _ _ => 7
  | .step _ _ before => if before then 7 else 8
  | _ => 8

theorem Layer.treeRank_join {layer : Layer} {operator : Token} (hk : operator.kind ∈ layer.operators) (l r : Expr) :
    treeRank (layer.join l operator r) = layer.rank := by
  have hrank := followRank_operator layer _ hk
  cases layer <;> simp [Layer.join, treeRank, hrank]

theorem Layer.join_inj {layer : Layer} {l l' r r' : Expr} {operator operator' : Token}
    (h : layer.join l operator r = layer.join l' operator' r') : l = l' ∧ operator = operator' ∧ r = r' := by
  cases layer <;> simpa [Layer.join] using h

namespace Derivation

/-- The rules of a layer give no tree of a looser one. -/
theorem rank_le_treeRank {layer : Layer} (d : Derivation layer) : layer.rank ≤ treeRank d.tree := by
  induction d with
  | tighter hl operand ih =>
    rw [Layer.rank_tighter hl] at ih
    exact Nat.le_of_succ_le ih
  | joined operator hk left right _ _ =>
    exact Nat.le_of_eq (Layer.treeRank_join hk _ _).symm
  | _ => exact Nat.le_refl _

/-- A tree of the layer itself is none of an operand. -/
theorem tree_ne_of_rank {layer : Layer} (hl : layer ≠ .primary) (d : Derivation layer.tighter) {e : Expr}
    (he : treeRank e = layer.rank) : d.tree ≠ e := by
  intro h
  have hrank := d.rank_le_treeRank
  rw [h, he, Layer.rank_tighter hl] at hrank
  exact absurd hrank (Nat.not_succ_le_self _)

/-- By induction on the derivation: its tree and its first leaves tell the rule
it ends with. -/
theorem eq_of_tree {layer : Layer} (d : Derivation layer) : ∀ (d' : Derivation layer) (rest rest' : List Token),
    d.tree = d'.tree → d.leaves ++ rest = d'.leaves ++ rest' → d = d' ∧ rest = rest' := by
  induction d with
  | tighter hl operand ih =>
    intro d' rest rest' htree hleaves
    cases d' with
    | tighter _ operand' =>
      obtain ⟨rfl, hrest⟩ := ih operand' rest rest' htree hleaves
      exact ⟨rfl, hrest⟩
    | joined operator hk l r => exact absurd htree (tree_ne_of_rank hl operand (Layer.treeRank_join hk _ _))
    | assign | compound | unary | stepBefore => exact absurd htree (tree_ne_of_rank hl operand rfl)
    | _ => exact absurd rfl hl
  | assign name sign hn hs assigned ih =>
    intro d' rest rest' htree hleaves
    cases d' with
    | tighter hl operand => exact absurd htree.symm (tree_ne_of_rank hl operand rfl)
    | assign name' sign' hn' hs' assigned' =>
      simp only [leaves, List.cons_append, List.cons.injEq] at hleaves
      obtain ⟨rfl, rfl, hvalue⟩ := hleaves
      obtain ⟨rfl, hrest⟩ := ih assigned' rest rest' (Expr.assign.inj htree).2 hvalue
      exact ⟨rfl, hrest⟩
    | compound name' sign' operator hn' hs' assigned' =>
      simp only [leaves, List.cons_append, List.cons.injEq] at hleaves
      rw [← hleaves.2.1, hs] at hs'
      simp [compounds] at hs'
    | joined operator hk => cases hk
  | compound name sign operator hn hs assigned ih =>
    intro d' rest rest' htree hleaves
    cases d' with
    | tighter hl operand => exact absurd htree.symm (tree_ne_of_rank hl operand rfl)
    | assign name' sign' hn' hs' assigned' =>
      simp only [leaves, List.cons_append, List.cons.injEq] at hleaves
      rw [hleaves.2.1, hs'] at hs
      simp [compounds] at hs
    | compound name' sign' operator' hn' hs' assigned' =>
      simp only [leaves, List.cons_append, List.cons.injEq] at hleaves
      obtain ⟨rfl, rfl, hvalue⟩ := hleaves
      simp only [tree, Expr.assign.injEq, Expr.binary.injEq, Token.mk.injEq, true_and, and_true] at htree
      obtain ⟨rfl, htree⟩ := htree
      obtain ⟨rfl, hrest⟩ := ih assigned' rest rest' htree hvalue
      exact ⟨rfl, hrest⟩
    | joined operator hk => cases hk
  | joined operator hk left right ihl ihr =>
    intro d' rest rest' htree hleaves
    cases d' with
    | tighter hl operand => exact absurd htree.symm (tree_ne_of_rank hl operand (Layer.treeRank_join hk _ _))
    | joined operator' hk' left' right' =>
      obtain ⟨hl, rfl, hr⟩ := Layer.join_inj htree
      simp only [leaves, List.append_assoc, List.cons_append] at hleaves
      obtain ⟨rfl, hright⟩ := ihl left' _ _ hl hleaves
      obtain ⟨rfl, hrest⟩ := ihr right' rest rest' hr (List.cons.inj hright).2
      exact ⟨rfl, hrest⟩
    | _ => cases hk
  | unary operator hk operand ih =>
    intro d' rest rest' htree hleaves
    cases d' with
    | tighter hl operand' => exact absurd htree.symm (tree_ne_of_rank hl operand' rfl)
    | unary operator' hk' operand' =>
      simp only [leaves, List.cons_append, List.cons.injEq] at hleaves
      obtain ⟨rfl, hleaves⟩ := hleaves
      obtain ⟨rfl, hrest⟩ := ih operand' rest rest' (Expr.unary.inj htree).2 hleaves
      exact ⟨rfl, hrest⟩
    | joined operator hk => cases hk
    | _ => cases htree
  | stepBefore operator name hk hn =>
    intro d' rest rest' htree hleaves
    cases d' with
    | tighter hl operand' => exact absurd htree.symm (tree_ne_of_rank hl operand' rfl)
    | stepBefore operator' name' hk' hn' =>
      obtain ⟨rfl, rfl, -⟩ := Expr.step.inj htree
      exact ⟨rfl, List.append_cancel_left hleaves⟩
    | joined operator hk => cases hk
    | _ => cases htree
  | grouping opening closing ho hc inner ih =>
    intro d' rest rest' htree hleaves
    cases d' with
    | tighter hl operand' => exact absurd rfl hl
    | grouping opening' closing' ho' hc' inner' =>
      simp only [leaves, List.cons_append, List.append_assoc, List.nil_append, List.cons.injEq] at hleaves
      obtain ⟨rfl, hleaves⟩ := hleaves
      obtain ⟨rfl, hclosing⟩ := ih inner' _ _ (Expr.grouping.inj htree) hleaves
      obtain ⟨rfl, hrest⟩ := List.cons.inj hclosing
      exact ⟨rfl, hrest⟩
    | joined operator hk => cases hk
    | _ => cases htree
  | stepAfter operator name hk hn =>
    intro d' rest rest' htree hleaves
    cases d' with
    | tighter hl operand' => exact absurd rfl hl
    | stepAfter operator' name' hk' hn' =>
      obtain ⟨rfl, rfl, -⟩ := Expr.step.inj htree
      exact ⟨rfl, List.append_cancel_left hleaves⟩
    | joined operator hk => cases hk
    | _ => cases htree
  | var name hn =>
    intro d' rest rest' htree hleaves
    cases d' with
    | tighter hl operand' => exact absurd rfl hl
    | var name' hn' =>
      obtain rfl := Expr.var.inj htree
      exact ⟨rfl, List.append_cancel_left hleaves⟩
    | joined operator hk => cases hk
    | _ => cases htree
  -- the token of a literal is told by its kind
  | _ t hk =>
    intro d' rest rest' htree hleaves
    cases d' with
    | tighter hl operand' => exact absurd rfl hl
    | valued | oo | null | lineBreak =>
      obtain ⟨rfl, hrest⟩ := List.cons.inj hleaves
      clear htree hleaves
      first | exact ⟨rfl, hrest⟩ | (exfalso; simp_all)
    | joined operator hk => cases hk
    | _ => cases htree

/-- By what the reader of the layer gives for the leaves. -/
theorem tree_eq_of_leaves {layer : Layer} {d d' : Derivation layer} (h : d.leaves = d'.leaves) : d.tree = d'.tree := by
  have hend : Follows layer [] := Nat.zero_le _
  have hd := (expression_completes d.expression).1 (2 * d.leaves.length) [] (by omega) hend
  have hd' := (expression_completes d'.expression).1 (2 * d'.leaves.length) [] (by omega) hend
  rw [← h] at hd'
  exact (Reading.read.inj (hd.symm.trans hd')).1

/-- The leaves determine the derivation. -/
theorem leaves_injective (layer : Layer) : Function.Injective (leaves : Derivation layer → List Token) := by
  intro d d' h
  exact (eq_of_tree d d' [] [] (tree_eq_of_leaves h) (by rw [h])).1

end Derivation

/-! ## What the reader takes -/

/-- The kinds of the tokens that end an expression. -/
def enders : List Kind := [.newline, .rightParen, .comma, .rightBrace, .katapusan, .eof]

theorem follows_of_ender {next : Token} (h : next.kind ∈ enders) (rest : List Token) :
    Follows .assignment (next :: rest) := by
  have hrank : ∀ k ∈ enders, followRank k = 0 := by decide
  rw [Follows, nextKind_cons, hrank _ h]
  exact Nat.zero_le _

/-- Before a token that ends expressions, tokens are read whole, without a
complaint, as a tree exactly if they are an expression with that tree. There is
then one derivation with these leaves, and its tree is the one that is read; so
each token is used once, and in one way. The budget of a program is twice the
number of its tokens and more. -/
theorem reads_expression_iff {next : Token} (hnext : next.kind ∈ enders) {budget : Nat} {ts : List Token}
    (hb : 2 * ts.length ≤ budget) (rest : List Token) :
    (∀ e, Reads (readWithin budget) (ts ++ next :: rest) e (next :: rest) ↔ Expression .assignment ts e) ∧
      (∀ e e', Expression .assignment ts e → Expression .assignment ts e' → e = e') ∧
      ∀ e, Expression .assignment ts e →
        ∃ d : Derivation .assignment, (d.leaves = ts ∧ d.tree = e) ∧
          ∀ d' : Derivation .assignment, d'.leaves = ts → d' = d := by
  have hfollows := follows_of_ender hnext rest
  refine ⟨fun e => ⟨fun h => ?_, fun h => reads_of_expression h hfollows hb⟩, fun e e' h h' => ?_, fun e h => ?_⟩
  · obtain ⟨taken, htaken, he⟩ := (readers_sound budget).2 _ _ _ h
    rwa [List.append_cancel_right htaken]
  · have hr := reads_of_expression h hfollows hb
    exact (Reading.read.inj (hr.symm.trans (reads_of_expression h' hfollows hb))).1
  · obtain ⟨d, rfl, rfl⟩ := Derivation.exists_of_expression h
    exact ⟨d, ⟨rfl, rfl⟩, fun d' hd' => Derivation.leaves_injective _ hd'⟩

/-- The tokens of `x += - y $ [n] * z`, where `$` joins texts and `[n]` is an
operand, before the end of a block. -/
theorem reads_expression_iff_compound :
    let t (k : Kind) : Token := { kind := k, lexeme := "+=", line := 1 }
    let ts := [t .identifier, t .plusEqual, t .minus, t .identifier, t .dollar, t .escape, t .star, t .identifier]
    let x := Expr.var (t .identifier)
    let e := Expr.assign (t .identifier) (.binary x { kind := .plus, lexeme := "+", line := 1 }
      (.binary (.unary (t .minus) x) (t .dollar) (.binary (.literal .null) (t .star) x)))
    (t .rightBrace).kind ∈ enders ∧ 2 * ts.length ≤ 16 ∧
      Reads (readWithin 16) (ts ++ [t .rightBrace]) e [t .rightBrace] ∧ Expression .assignment ts e ∧
      ∃ d : Derivation .assignment, (d.leaves = ts ∧ d.tree = e) ∧
        ∀ d' : Derivation .assignment, d'.leaves = ts → d' = d := by
  intro t ts x e
  have hnext : (t .rightBrace).kind ∈ enders := by decide
  have hb : 2 * ts.length ≤ 16 := by decide
  have hr : Reads (readWithin 16) (ts ++ [t .rightBrace]) e [t .rightBrace] := rfl
  obtain ⟨hiff, -, hunique⟩ := reads_expression_iff hnext hb []
  have he := (hiff e).1 hr
  exact ⟨hnext, hb, hr, he, hunique e he⟩

end BisayaPlus.Grammar
