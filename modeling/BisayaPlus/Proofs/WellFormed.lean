import BisayaPlus.Proofs.Reading
/-!
# Trees that are read are well formed

Whatever else of a program is malformed, a tree that was read has operators of
the right kinds, names that are names, and jumps only in the bodies of loops.
Its tokens are tokens that were read, apart from the operator inside a compound
assignment, which is made from the sign of the assignment.
-/

set_option autoImplicit false

namespace BisayaPlus

open TokenReader

/-! ## Well-formed trees -/

/-- The kinds of the binary operators that compute a value. -/
def Operation.binaryKinds : List Kind :=
  [.plus, .minus, .star, .slash, .percent, .greater, .greaterEqual, .less, .lessEqual, .equalEqual, .notEqual,
    .ampersand, .dollar, .escape]

-- `T` holds for the tokens that a tree may be made of
variable {T : Token → Prop} {clean : Prop}

namespace Expr

/-- A binary operator that was read, or the operator inside a compound
assignment. -/
inductive IsOperator (T : Token → Prop) : Token → Prop where
  | written {operator : Token} : T operator → operator.kind ∈ Operation.binaryKinds → IsOperator T operator
  | compound {sign : Token} {kind : Kind} : T sign → compound? sign.kind = some kind →
      IsOperator T (compoundOperator kind sign)

inductive WellFormed (T : Token → Prop) : Expr → Prop where
  | literal {value : Value} : WellFormed T (.literal value)
  | grouping {inner : Expr} : WellFormed T inner → WellFormed T (.grouping inner)
  | var {name : Token} : T name → name.kind = .identifier → WellFormed T (.var name)
  | assign {name : Token} {value : Expr} : T name → name.kind = .identifier → WellFormed T value →
      WellFormed T (.assign name value)
  | unary {operator : Token} {right : Expr} : T operator → operator.kind ∈ [Kind.dili, .minus] →
      WellFormed T right → WellFormed T (.unary operator right)
  | binary {left right : Expr} {operator : Token} : WellFormed T left → IsOperator T operator →
      WellFormed T right → WellFormed T (.binary left operator right)
  | logical {left right : Expr} {operator : Token} : WellFormed T left → T operator →
      operator.kind ∈ [Kind.ug, .o] → WellFormed T right → WellFormed T (.logical left operator right)
  | step {operator name : Token} {before : Bool} : T operator → operator.kind ∈ [Kind.plusPlus, .minusMinus] →
      T name → name.kind = .identifier → WellFormed T (.step operator name before)

end Expr

namespace Stmt

/-- A well-formed statement, inside a loop or not. A declared name has its own
initial value beside it, if it has one. The names of a declaration differ if the
program is clean, that is, read without a complaint. -/
inductive WellFormed (T : Token → Prop) (clean : Prop) : Bool → Stmt → Prop where
  | expr {inLoop : Bool} {e : Expr} : e.WellFormed T → WellFormed T clean inLoop (.expr e)
  | ipakita {inLoop : Bool} {keyword : Token} {e : Expr} : T keyword → keyword.kind = .ipakita → e.WellFormed T →
      WellFormed T clean inLoop (.ipakita keyword e)
  | mugna {inLoop : Bool} {keyword : Token} {declared : DataType} {names : List (Token × Option Expr)} :
      T keyword → keyword.kind = .mugna → (∀ entry ∈ names, T entry.1 ∧ entry.1.kind = .identifier) →
      (∀ entry ∈ names, ∀ e ∈ entry.2, e.WellFormed T) → (clean → (names.map (·.1.lexeme)).Nodup) →
      WellFormed T clean inLoop (.mugna keyword declared names)
  | dawat {inLoop : Bool} {keyword : Token} {names : List Token} : T keyword → keyword.kind = .dawat →
      (∀ name ∈ names, T name ∧ name.kind = .identifier) → WellFormed T clean inLoop (.dawat keyword names)
  | pundok {inLoop : Bool} {body : List Stmt} : (∀ s ∈ body, WellFormed T clean inLoop s) →
      WellFormed T clean inLoop (.pundok body)
  | kung {inLoop : Bool} {keyword : Token} {condition : Expr} {body : Stmt} {alternatives : List (Expr × Stmt)}
      {otherwise : Option Stmt} : T keyword → keyword.kind = .kung → condition.WellFormed T →
      WellFormed T clean inLoop body → (∀ branch ∈ alternatives, branch.1.WellFormed T) →
      (∀ branch ∈ alternatives, WellFormed T clean inLoop branch.2) → (∀ s ∈ otherwise, WellFormed T clean inLoop s) →
      WellFormed T clean inLoop (.kung keyword condition body alternatives otherwise)
  | mintras {inLoop : Bool} {keyword : Token} {condition : Expr} {body : Stmt} : T keyword →
      keyword.kind ∈ [Kind.mintras, .alangSa] → condition.WellFormed T → WellFormed T clean true body →
      WellFormed T clean inLoop (.mintras keyword condition body)
  | buhata {inLoop : Bool} {keyword : Token} {condition : Expr} {body : Stmt} : T keyword → keyword.kind = .buhata →
      WellFormed T clean true body → condition.WellFormed T → WellFormed T clean inLoop (.buhata keyword body condition)
  | hunong {keyword : Token} : T keyword → keyword.kind = .hunong → WellFormed T clean true (.hunong keyword)
  | padayon {keyword : Token} : T keyword → keyword.kind = .padayon → WellFormed T clean true (.padayon keyword)

end Stmt

/-! ## What a reader gives -/

namespace TokenReader

variable {α β : Type} {P : α → Prop} {Q : β → Prop}

/-- From tokens with `T`, the reader gives only values with `P`. If a clean
reading is asked for, only a reading without a complaint counts. -/
def Gives (T : Token → Prop) (clean : Prop) (P : α → Prop) (r : TokenReader α) : Prop :=
  ∀ ts a rest noted, (∀ t ∈ ts, T t) → r.run ts = .read a rest noted → (clean → noted = []) → P a

theorem Gives.bind {r : TokenReader α} {f : α → TokenReader β} (hr : Gives T clean P r)
    (hf : ∀ a, P a → Gives T clean Q (f a)) : Gives T clean Q (r >>= f) := by
  intro ts b rest noted hts hrun hclean
  rw [run_bind] at hrun
  have hsuffix := r.rest_suffix ts
  cases hfirst : r.run ts with
  | stuck complaint mid noted' => simp [hfirst] at hrun
  | read a mid noted' =>
    rw [hfirst] at hrun hsuffix
    dsimp only at hrun
    cases hsecond : (f a).run mid with
    | stuck complaint rest' noted'' => simp [hsecond, Reading.after] at hrun
    | read b' rest' noted'' =>
      rw [hsecond] at hrun
      obtain ⟨rfl, -, rfl⟩ := Reading.read.inj hrun
      -- both parts see tokens of the same list, and are clean if the whole is
      have hmid : ∀ t ∈ mid, T t := fun t ht => hts t (hsuffix.subset ht)
      have ha : P a := hr ts a mid noted' hts hfirst fun h => (List.append_eq_nil_iff.1 (hclean h)).1
      exact hf a ha mid b' rest' noted'' hmid hsecond fun h => (List.append_eq_nil_iff.1 (hclean h)).2

theorem gives_pure {a : α} (h : P a) : Gives T clean P (pure a) := by
  intro ts b rest noted _ hrun _
  obtain ⟨rfl, -, -⟩ := Reading.read.inj hrun
  exact h

/-- Nothing has to be known of a value that is not used. -/
theorem gives_true (r : TokenReader α) : Gives T clean (fun _ => True) r := fun _ _ _ _ _ _ _ => trivial

theorem gives_stuckAt (fault : SyntaxFault) (t : Token) : Gives T clean P (stuckAt fault t) := by
  intro ts a rest noted _ hrun
  cases hrun

theorem gives_stuckHere (fault : SyntaxFault) : Gives T clean P (stuckHere fault) := by
  intro ts a rest noted _ hrun
  cases hrun

/-- The next token is one with `T`, unless there is none. -/
theorem gives_peek : Gives T clean (fun t => t.kind ≠ .eof → T t) peek := by
  intro ts t rest noted hts hrun _
  obtain ⟨rfl, -, -⟩ := Reading.read.inj hrun
  cases ts with
  | nil => exact fun h => absurd rfl h
  | cons t ts => exact fun _ => hts t (by simp)

theorem gives_note (fault : SyntaxFault) (t : Token) : Gives T clean (fun _ => ¬clean) (note fault t) := by
  intro ts _ rest noted _ hrun hclean h
  obtain ⟨-, -, rfl⟩ := Reading.read.inj hrun
  cases hclean h

/-- What is noted under a condition, does not happen in a clean reading. -/
theorem gives_noting {c : Prop} [Decidable c] {fault : SyntaxFault} {t : Token} {f : PUnit → TokenReader β}
    (h : ∀ u, (clean → ¬ c) → Gives T clean Q (f u)) :
    Gives T clean Q (if c then note fault t >>= f else f ⟨⟩) := by
  split
  · exact (gives_note fault t).bind fun u hnot => h u fun hclean => absurd hclean hnot
  · next hc => exact h ⟨⟩ fun _ => hc

theorem gives_take? (wanted : Kind → Bool) :
    Gives T clean (fun o => ∀ t ∈ o, T t ∧ wanted t.kind = true) (take? wanted) := by
  intro ts o rest noted hts hrun _ t ht
  cases ts with
  | nil =>
    obtain ⟨rfl, -, -⟩ := Reading.read.inj hrun
    cases ht
  | cons t' ts =>
    simp only [take?] at hrun
    split at hrun <;> obtain ⟨rfl, -, -⟩ := Reading.read.inj hrun
    · next hw =>
      obtain rfl := Option.some.inj ht
      exact ⟨hts _ (by simp), hw⟩
    · cases ht

theorem gives_expect (kind : Kind) (fault : SyntaxFault) :
    Gives T clean (fun t => T t ∧ t.kind = kind) (expect kind fault) := by
  intro ts t rest noted hts hrun _
  cases ts with
  | nil => cases hrun
  | cons t' ts =>
    simp only [expect] at hrun
    split at hrun
    · next hk =>
      obtain ⟨rfl, -, -⟩ := Reading.read.inj hrun
      exact ⟨hts _ (by simp), hk⟩
    · cases hrun

theorem Gives.orResume {r : TokenReader α} (h : Gives T clean P r) :
    Gives T clean (fun o => ∀ a ∈ o, P a) (orResume r) := by
  intro ts o rest noted hts hrun hclean a ha
  rw [run_orResume] at hrun
  split at hrun <;> obtain ⟨rfl, -, rfl⟩ := Reading.read.inj hrun
  · next a' rest' noted' hread =>
    obtain rfl := Option.some.inj ha
    exact h ts _ rest' noted' hts hread hclean
  · cases ha

end TokenReader

/-! ## Expressions -/

namespace Expr

theorem gives_moreOperands {isOperator : Kind → Bool} {build : Expr → Token → Expr → Expr} {operand : TokenReader Expr}
    (hb : ∀ l operator r, l.WellFormed T → T operator → isOperator operator.kind = true → r.WellFormed T →
      (build l operator r).WellFormed T)
    (h : Gives T clean (WellFormed T) operand) (bound : Nat) :
    ∀ left, left.WellFormed T → Gives T clean (WellFormed T) (moreOperands isOperator build operand bound left) := by
  induction bound with
  | zero => exact fun left hl => gives_pure hl
  | succ bound ih =>
    intro left hl
    refine (gives_take? isOperator).bind fun o ho => ?_
    cases o with
    | none => exact gives_pure hl
    | some operator =>
      obtain ⟨hT, hk⟩ := ho operator rfl
      exact h.bind fun right hr => ih _ (hb left operator right hl hT hk hr)

theorem gives_leftGrouped (isOperator : Kind → Bool) {build : Expr → Token → Expr → Expr} {operand : TokenReader Expr}
    (hb : ∀ l operator r, l.WellFormed T → T operator → isOperator operator.kind = true → r.WellFormed T →
      (build l operator r).WellFormed T)
    (bound : Nat) (h : Gives T clean (WellFormed T) operand) :
    Gives T clean (WellFormed T) (leftGrouped isOperator build bound operand) :=
  h.bind fun left hl => gives_moreOperands hb h bound left hl

/-- The operators of a layer build a binary tree if they all compute a value. -/
theorem wellFormed_binary {isOperator : Kind → Bool}
    (hk : ∀ kind, isOperator kind = true → kind ∈ Operation.binaryKinds) (l : Expr) (operator : Token) (r : Expr)
    (hl : l.WellFormed T) (hT : T operator) (ho : isOperator operator.kind = true) (hr : r.WellFormed T) :
    (Expr.binary l operator r).WellFormed T :=
  .binary hl (.written hT (hk _ ho)) hr

theorem wellFormed_logical {kind : Kind} (hk : kind ∈ [Kind.ug, .o]) (l : Expr) (operator : Token) (r : Expr)
    (hl : l.WellFormed T) (hT : T operator) (ho : (operator.kind == kind) = true) (hr : r.WellFormed T) :
    (Expr.logical l operator r).WellFormed T := by
  obtain rfl := beq_iff_eq.1 ho
  exact .logical hl hT hk hr

theorem gives_readTerm (bound : Nat) {unary : TokenReader Expr} (h : Gives T clean (WellFormed T) unary) :
    Gives T clean (WellFormed T) (readTerm bound unary) := by
  have hfactor := gives_leftGrouped isFactorOperator
    (wellFormed_binary (by intro kind; cases kind <;> simp [isFactorOperator, Operation.binaryKinds])) bound h
  have hterm := gives_leftGrouped isTermOperator
    (wellFormed_binary (by intro kind; cases kind <;> simp [isTermOperator, Operation.binaryKinds])) bound hfactor
  refine hterm.bind fun term ht => (gives_true peek).bind fun t _ => ?_
  split
  · exact gives_stuckHere _
  · exact gives_pure ht

theorem gives_readDisjunction (bound : Nat) {unary : TokenReader Expr} (h : Gives T clean (WellFormed T) unary) :
    Gives T clean (WellFormed T) (readDisjunction bound unary) := by
  have hcomparison := gives_leftGrouped isComparison
    (wellFormed_binary (by intro kind; cases kind <;> simp [isComparison, Operation.binaryKinds])) bound
    (gives_readTerm bound h)
  have hequality := gives_leftGrouped isEquality
    (wellFormed_binary (by intro kind; cases kind <;> simp [isEquality, Operation.binaryKinds])) bound hcomparison
  have hug := gives_leftGrouped (· == .ug) (wellFormed_logical (by simp)) bound hequality
  exact gives_leftGrouped (· == .o) (wellFormed_logical (by simp)) bound hug

theorem isStep_mem {kind : Kind} (h : isStep kind = true) : kind ∈ [Kind.plusPlus, .minusMinus] := by
  cases kind <;> simp [isStep] at h ⊢

theorem gives_readPrimary {nested : TokenReader Expr} (h : Gives T clean (WellFormed T) nested) :
    Gives T clean (WellFormed T) (readPrimary nested) := by
  refine gives_peek.bind fun t ht => ?_
  cases literalOf? t with
  | some value => exact (gives_true skip).bind fun _ _ => gives_pure .literal
  | none =>
    dsimp only
    split
    · next hk =>
      have hT : T t := ht (by simp [hk])
      refine (gives_true skip).bind fun _ _ => (gives_take? isStep).bind fun o ho => ?_
      cases o with
      | none => exact gives_pure (.var hT hk)
      | some operator =>
        obtain ⟨hT', hstep⟩ := ho operator rfl
        exact gives_pure (.step hT' (isStep_mem hstep) hT hk)
    · refine (gives_true skip).bind fun _ _ => h.bind fun inner hi => ?_
      exact (gives_true _).bind fun _ _ => gives_pure (.grouping hi)
    · exact gives_stuckHere _

/-- What a sign of assignment gives to its variable. -/
theorem wellFormed_assignedValue {sign name : Token} {value : Expr} (hs : T sign) (hn : T name)
    (hk : name.kind = .identifier) (hv : value.WellFormed T) : (assignedValue sign name value).WellFormed T := by
  unfold assignedValue
  split
  · next kind hkind => exact .binary (.var hn hk) (.compound hs hkind) hv
  · exact hv

/-- By induction on the budget, for operands and whole expressions at once. -/
theorem gives_readers (budget : Nat) :
    Gives T clean (WellFormed T) (readUnary budget) ∧ Gives T clean (WellFormed T) (readWithin budget) := by
  induction budget with
  | zero => exact ⟨gives_stuckHere _, gives_stuckHere _⟩
  | succ budget ih =>
    obtain ⟨hunary, hwithin⟩ := ih
    constructor
    · rw [readUnary]
      refine (gives_take? _).bind fun o ho => ?_
      cases o with
      | none => exact gives_readPrimary hwithin
      | some operator =>
        obtain ⟨hT, hk⟩ := ho operator rfl
        refine hunary.bind fun right hr => ?_
        split
        · next hstep =>
          split
          · next name =>
            cases hr with
            | var hn hname => exact gives_pure (.step hT (isStep_mem hstep) hn hname)
          · exact gives_stuckAt _ _
        · next hstep =>
          -- without the steps, DILI and the minus are left
          exact gives_pure (.unary hT (by simpa [hstep] using hk) hr)
    · rw [readWithin]
      refine (gives_readDisjunction budget hunary).bind fun left hl => (gives_take? isAssignment).bind fun o ho => ?_
      cases o with
      | none => exact gives_pure hl
      | some sign =>
        obtain ⟨hT, -⟩ := ho sign rfl
        refine hwithin.bind fun value hv => ?_
        split
        · next name =>
          cases hl with
          | var hn hk => exact gives_pure (.assign hn hk (wellFormed_assignedValue hT hn hk hv))
        · exact gives_stuckAt _ _

end Expr

/-! ## Statements -/

namespace Stmt

variable {expression : TokenReader Expr} {statement : TokenReader Stmt} {inLoop : Bool}

theorem gives_readCondition (hx : Gives T clean (Expr.WellFormed T) expression) :
    Gives T clean (Expr.WellFormed T) (readCondition expression) := by
  refine (gives_true _).bind fun _ _ => hx.bind fun condition hc => ?_
  exact (gives_true _).bind fun _ _ => gives_pure hc

theorem gives_checkInitializer (declared : DataType) (start : Token) {e : Expr} (h : e.WellFormed T) :
    Gives T clean (Expr.WellFormed T) (checkInitializer declared start e) := by
  unfold checkInitializer
  split
  · exact gives_pure h
  · split
    · exact gives_pure .literal
    · exact gives_stuckAt _ _
  · split
    · exact gives_pure h
    · exact gives_stuckAt _ _
  · exact gives_pure h

theorem gives_readInitializer (declared : DataType) (hx : Gives T clean (Expr.WellFormed T) expression) :
    Gives T clean (fun o => ∀ e ∈ o, e.WellFormed T) (readInitializer declared expression) := by
  refine (gives_true _).bind fun o _ => ?_
  cases o with
  | none => exact gives_pure fun e he => nomatch he
  | some _ =>
    refine (gives_true peek).bind fun start _ => hx.bind fun e he => ?_
    refine (gives_checkInitializer declared start he).bind fun checked hc => gives_pure fun e' he' => ?_
    obtain rfl := Option.some.inj he'
    exact hc

/-- Declared names and their initial values, after the names seen before. -/
structure Declares (T : Token → Prop) (clean : Prop) (seen : List Text) (names : List (Token × Option Expr)) :
    Prop where
  isName : ∀ entry ∈ names, T entry.1 ∧ entry.1.kind = .identifier
  initials : ∀ entry ∈ names, ∀ e ∈ entry.2, e.WellFormed T
  nodup : clean → (names.map (·.1.lexeme)).Nodup
  fresh : clean → ∀ entry ∈ names, entry.1.lexeme ∉ seen

theorem declares_nil {seen : List Text} : Declares T clean seen [] :=
  ⟨by simp, by simp, fun _ => List.nodup_nil, by simp⟩

theorem Declares.cons {seen : List Text} {name : Token} {initial : Option Expr} {more : List (Token × Option Expr)}
    (hn : T name ∧ name.kind = .identifier) (hi : ∀ e ∈ initial, e.WellFormed T) (hnew : clean → name.lexeme ∉ seen)
    (h : Declares T clean (name.lexeme :: seen) more) : Declares T clean seen ((name, initial) :: more) where
  isName := List.forall_mem_cons.2 ⟨hn, h.isName⟩
  initials := List.forall_mem_cons.2 ⟨hi, h.initials⟩
  nodup hclean := by
    refine List.nodup_cons.2 ⟨fun hmem => ?_, h.nodup hclean⟩
    obtain ⟨entry, hentry, heq⟩ := List.mem_map.1 hmem
    exact h.fresh hclean entry hentry (heq ▸ List.mem_cons_self)
  fresh hclean := List.forall_mem_cons.2
    ⟨hnew hclean, fun entry hentry hseen => h.fresh hclean entry hentry (List.mem_cons_of_mem _ hseen)⟩

theorem gives_readDeclared (declared : DataType) (single : Bool) (hx : Gives T clean (Expr.WellFormed T) expression)
    (bound : Nat) : ∀ seen, Gives T clean (Declares T clean seen)
      (readDeclared declared single expression bound seen) := by
  induction bound with
  | zero => exact fun _ => gives_pure declares_nil
  | succ bound ih =>
    intro seen
    refine (gives_expect _ _).bind fun name hname => ?_
    refine gives_noting fun _ hnew => (gives_readInitializer declared hx).bind fun initial hinitial => ?_
    have hnew' : clean → name.lexeme ∉ seen := fun hclean => by simpa using hnew hclean
    split
    · exact gives_pure (declares_nil.cons hname hinitial hnew')
    · refine (gives_true _).bind fun o _ => ?_
      cases o with
      | none => exact gives_pure (declares_nil.cons hname hinitial hnew')
      | some _ => exact (ih _).bind fun more hmore => gives_pure (hmore.cons hname hinitial hnew')

theorem gives_readDeclaration {keyword : Token} (single : Bool) (bound : Nat) (hT : T keyword)
    (hk : keyword.kind = .mugna) (hx : Gives T clean (Expr.WellFormed T) expression) :
    Gives T clean (WellFormed T clean inLoop) (readDeclaration keyword single bound expression) := by
  refine (gives_true peek).bind fun t _ => ?_
  split
  · exact gives_stuckHere _
  · next declared _ =>
    refine (gives_true skip).bind fun _ _ => (gives_readDeclared declared single hx bound []).bind fun names hn => ?_
    exact gives_pure (.mugna hT hk hn.isName hn.initials hn.nodup)

theorem gives_readNames (bound : Nat) :
    Gives T clean (fun names => ∀ name ∈ names, T name ∧ name.kind = .identifier) (readNames bound) := by
  induction bound with
  | zero => exact gives_pure fun name hn => nomatch hn
  | succ bound ih =>
    refine (gives_expect _ _).bind fun name hname => (gives_true _).bind fun o _ => ?_
    cases o with
    | none => exact gives_pure (by simpa using hname)
    | some _ => exact ih.bind fun more hmore => gives_pure (List.forall_mem_cons.2 ⟨hname, hmore⟩)

theorem gives_readAlternatives (hx : Gives T clean (Expr.WellFormed T) expression)
    (hs : Gives T clean (WellFormed T clean inLoop) statement) (bound : Nat) :
    Gives T clean (fun branches => ∀ branch ∈ branches, branch.1.WellFormed T ∧ branch.2.WellFormed T clean inLoop)
      (readAlternatives expression statement bound) := by
  induction bound with
  | zero => exact gives_pure fun branch hb => nomatch hb
  | succ bound ih =>
    refine (gives_true _).bind fun o _ => ?_
    cases o with
    | none => exact gives_pure fun branch hb => nomatch hb
    | some _ =>
      refine (gives_readCondition hx).bind fun condition hc => hs.bind fun inner hi => ?_
      exact ih.bind fun more hmore => gives_pure (List.forall_mem_cons.2 ⟨⟨hc, hi⟩, hmore⟩)

theorem gives_readOtherwise (hs : Gives T clean (WellFormed T clean inLoop) statement) :
    Gives T clean (fun last => ∀ s ∈ last, s.WellFormed T clean inLoop) (readOtherwise statement) := by
  refine (gives_true _).bind fun o _ => ?_
  cases o with
  | none => exact gives_pure fun s hs => nomatch hs
  | some _ =>
    refine hs.bind fun inner hi => gives_pure fun s hs => ?_
    obtain rfl := Option.some.inj hs
    exact hi

/-- Statements read one after another, of which some may be missing. -/
theorem gives_round {others : TokenReader (List Stmt)} (hs : Gives T clean (WellFormed T clean inLoop) statement)
    (ho : Gives T clean (fun body => ∀ s ∈ body, s.WellFormed T clean inLoop) others) :
    Gives T clean (fun body => ∀ s ∈ body, s.WellFormed T clean inLoop)
      (orResume statement >>= fun read => others >>= fun more => pure (read.toList ++ more)) := by
  refine hs.orResume.bind fun read hread => ho.bind fun more hmore => gives_pure fun s hs => ?_
  rcases List.mem_append.1 hs with hs | hs
  · exact hread s (Option.mem_toList.1 hs)
  · exact hmore s hs

theorem gives_readItems (hs : Gives T clean (WellFormed T clean inLoop) statement) (bound : Nat) :
    Gives T clean (fun body => ∀ s ∈ body, s.WellFormed T clean inLoop) (readItems statement bound) := by
  induction bound with
  | zero => exact gives_pure fun s hs => nomatch hs
  | succ bound ih =>
    refine (gives_true peek).bind fun t _ => ?_
    dsimp only
    split
    · exact gives_pure fun s hs => nomatch hs
    · split
      · exact (gives_true skip).bind fun _ _ => ih
      · exact gives_round hs ih

theorem gives_readBlock (bound : Nat) (hs : Gives T clean (WellFormed T clean inLoop) statement) :
    Gives T clean (fun body => ∀ s ∈ body, s.WellFormed T clean inLoop) (readBlock bound statement) := by
  refine (gives_true _).bind fun _ _ => (gives_readItems hs bound).bind fun body hb => ?_
  exact (gives_true _).bind fun _ _ => gives_pure hb

theorem gives_readStart (bound : Nat) (hx : Gives T clean (Expr.WellFormed T) expression) :
    Gives T clean (fun start => ∀ s ∈ start, s.WellFormed T clean inLoop) (readStart bound expression) := by
  refine (gives_take? _).bind fun o ho => ?_
  cases o with
  | some keyword =>
    obtain ⟨hT, hk⟩ := ho keyword rfl
    have hdeclaration : Gives T clean (WellFormed T clean inLoop) (readDeclaration keyword true bound expression) :=
      gives_readDeclaration true bound hT (by simpa using hk) hx
    exact hdeclaration.bind fun declaration hd => gives_pure fun s hs => Option.some.inj hs ▸ hd
  | none =>
    refine (gives_true peek).bind fun t _ => ?_
    split
    · exact gives_pure fun s hs => nomatch hs
    · exact hx.bind fun e he => gives_pure fun s hs => Option.some.inj hs ▸ .expr he

theorem gives_readUnless (kind : Kind) (hx : Gives T clean (Expr.WellFormed T) expression) :
    Gives T clean (fun o => ∀ e ∈ o, e.WellFormed T) (readUnless kind expression) := by
  refine (gives_true peek).bind fun t _ => ?_
  split
  · exact gives_pure fun e he => nomatch he
  · exact hx.bind fun e he => gives_pure fun e' he' => Option.some.inj he' ▸ he

/-- The block and the loop of a counted loop are well formed if its parts are. -/
theorem wellFormed_countedLoop {keyword : Token} {start : Option Stmt} {condition increment : Option Expr} {body : Stmt}
    (hT : T keyword) (hk : keyword.kind = .alangSa) (hs : ∀ s ∈ start, s.WellFormed T clean inLoop)
    (hc : ∀ e ∈ condition, e.WellFormed T) (hi : ∀ e ∈ increment, e.WellFormed T) (hb : body.WellFormed T clean true) :
    (countedLoop keyword start condition increment body).WellFormed T clean inLoop := by
  have hround : (counted body increment).WellFormed T clean true := by
    cases increment with
    | none => exact hb
    | some e => exact .pundok (by simpa using ⟨hb, .expr (hi e rfl)⟩)
  have hcondition : (condition.getD (.literal (.tinuod true))).WellFormed T := by
    cases condition with
    | none => exact .literal
    | some e => exact hc e rfl
  have hloop : WellFormed T clean inLoop
      (.mintras keyword (condition.getD (.literal (.tinuod true))) (counted body increment)) :=
    .mintras hT (by simp [hk]) hcondition hround
  cases start with
  | none => exact hloop
  | some first => exact .pundok (by simpa using ⟨hs first rfl, hloop⟩)

theorem gives_readCountedLoop {keyword : Token} (bound : Nat) (hT : T keyword) (hk : keyword.kind = .alangSa)
    (hx : Gives T clean (Expr.WellFormed T) expression) (hs : Gives T clean (WellFormed T clean true) statement) :
    Gives T clean (WellFormed T clean inLoop) (readCountedLoop keyword bound expression statement) := by
  have hstart : Gives T clean (fun start => ∀ s ∈ start, s.WellFormed T clean inLoop) (readStart bound expression) :=
    gives_readStart bound hx
  refine (gives_true _).bind fun _ _ => hstart.bind fun start hstart => ?_
  refine (gives_true _).bind fun _ _ => (gives_readUnless .comma hx).bind fun condition hc => ?_
  refine (gives_true _).bind fun _ _ => (gives_readUnless .rightParen hx).bind fun increment hi => ?_
  refine (gives_true _).bind fun _ _ => hs.bind fun body hb => ?_
  exact gives_pure (wellFormed_countedLoop hT hk hstart hc hi hb)

theorem gives_readBody (hs : Gives T clean (WellFormed T clean inLoop) statement) :
    Gives T clean (WellFormed T clean inLoop) (readBody statement) :=
  (gives_true skipNewlines).bind fun _ _ => hs

theorem gives_ended {s : Stmt} (h : s.WellFormed T clean inLoop) :
    Gives T clean (WellFormed T clean inLoop) (endStatement >>= fun _ => pure s) :=
  (gives_true endStatement).bind fun _ _ => gives_pure h

/-- A jump is only read with a loop around it. -/
theorem gives_readJump {loops : Nat} (keyword : Token) {jump : Stmt} (h : jump.WellFormed T clean true)
    (hloops : inLoop = decide (loops ≠ 0)) :
    Gives T clean (WellFormed T clean inLoop) (readJump loops keyword jump) := by
  unfold readJump
  split
  · exact gives_stuckAt _ _
  · next hne =>
    obtain rfl : inLoop = true := by simp [hloops, hne]
    exact gives_ended h

theorem gives_readKeyword {loops : Nat} (bound : Nat) {keyword : Token} {inner : TokenReader Stmt} (hT : T keyword)
    (hloops : inLoop = decide (loops ≠ 0))
    (hx : Gives T clean (Expr.WellFormed T) expression) (hs : Gives T clean (WellFormed T clean inLoop) statement)
    (hl : Gives T clean (WellFormed T clean true) inner) :
    Gives T clean (WellFormed T clean inLoop) (readKeyword loops bound expression statement inner keyword) := by
  unfold readKeyword
  split
  · next hk => exact (gives_readDeclaration false bound hT hk hx).bind fun _ hd => gives_ended hd
  · next hk => exact (gives_true _).bind fun _ _ => hx.bind fun _ he => gives_ended (.ipakita hT hk he)
  · next hk =>
    exact (gives_true _).bind fun _ _ => (gives_readNames bound).bind fun _ hn => gives_ended (.dawat hT hk hn)
  · next hk =>
    refine (gives_readCondition hx).bind fun condition hc => (gives_readBody hs).bind fun body hb => ?_
    refine (gives_readAlternatives hx (gives_readBody hs) bound).bind fun branches hbranches => ?_
    refine (gives_readOtherwise (gives_readBody hs)).bind fun last hlast => gives_pure ?_
    exact .kung hT hk hc hb (fun branch h => (hbranches branch h).1) (fun branch h => (hbranches branch h).2) hlast
  · next hk =>
    refine (gives_readCondition hx).bind fun condition hc => (gives_readBody hl).bind fun body hb => ?_
    exact gives_pure (.mintras hT (by simp [hk]) hc hb)
  · next hk =>
    refine (gives_readBody hl).bind fun body hb => (gives_true _).bind fun _ _ => (gives_true _).bind fun _ _ => ?_
    exact (gives_readCondition hx).bind fun condition hc => gives_ended (.buhata hT hk hb hc)
  · next hk => exact gives_readCountedLoop bound hT hk hx (gives_readBody hl)
  · next hk => exact gives_readJump keyword (.hunong hT hk) hloops
  · next hk => exact gives_readJump keyword (.padayon hT hk) hloops
  · exact (gives_readBlock bound hs).bind fun body hb => gives_pure (.pundok hb)

/-- By induction on the budget, for every number of loops around the statement. -/
theorem gives_readWithin (budget : Nat) : ∀ loops : Nat,
    Gives T clean (WellFormed T clean (decide (loops ≠ 0))) (readWithin budget loops) := by
  induction budget with
  | zero => exact fun _ => gives_stuckHere _
  | succ budget ih =>
    intro loops
    have hx : Gives T clean (Expr.WellFormed T) (Expr.readWithin budget) := (Expr.gives_readers budget).2
    rw [readWithin]
    refine (gives_take? _).bind fun o ho => ?_
    cases o with
    | none => exact hx.bind fun e he => gives_ended (.expr he)
    | some keyword =>
      have hT : T keyword := (ho keyword rfl).1
      -- with one loop more there is a loop, whatever the number was
      exact gives_readKeyword budget hT rfl hx (ih loops) (by simpa using ih (loops + 1))

end Stmt

/-! ## Programs -/

namespace ReadProgram

open Stmt

theorem gives_readTop {statement : TokenReader Stmt} (hs : Gives T clean (Stmt.WellFormed T clean false) statement)
    (bound : Nat) : Gives T clean (fun body => ∀ s ∈ body, s.WellFormed T clean false) (readTop statement bound) := by
  induction bound with
  | zero => exact gives_pure fun s hs => nomatch hs
  | succ bound ih =>
    refine (gives_true peek).bind fun t _ => ?_
    split
    · exact gives_pure fun s hs => nomatch hs
    · split
      · exact (gives_true skip).bind fun _ _ => ih
      · split
        · exact (gives_true _).bind fun _ _ => (gives_true skip).bind fun _ _ => ih
        · exact gives_round hs ih

theorem gives_readAll (budget : Nat) :
    Gives T clean (fun result => ∀ s ∈ result.1, s.WellFormed T clean false) (readAll budget) := by
  have hstatement : Gives T clean (Stmt.WellFormed T clean false) (Stmt.readWithin budget 0) := by
    simpa using gives_readWithin budget 0
  have htop := gives_readTop hstatement budget
  refine (gives_true _).bind fun _ _ => (gives_true _).bind fun o _ => ?_
  have hrest : Gives T clean (fun result => ∀ s ∈ result.1, s.WellFormed T clean false)
      (readTop (Stmt.readWithin budget 0) budget >>= fun statements =>
        readEnd >>= fun ended => pure (statements, ended)) :=
    htop.bind fun statements hs => (gives_true readEnd).bind fun ended _ => gives_pure hs
  cases o with
  | none => exact (gives_true _).bind fun _ _ => (gives_true _).bind fun _ _ => hrest
  | some _ => exact hrest

/-- The statements that survive are well formed, whatever was complained about. -/
theorem wellFormed_ofTokens {ts : List Token} (hts : ∀ t ∈ ts, T t) (hclean : clean → (ofTokens ts).complaints = []) :
    ∀ s ∈ (ofTokens ts).statements, s.WellFormed T clean false := by
  unfold ofTokens at hclean ⊢
  cases h : (readAll (2 * ts.length + 3)).run ts with
  | read result rest noted =>
    rw [h] at hclean
    exact gives_readAll _ ts result rest noted hts h hclean
  | stuck complaint rest noted => exact fun s hs => nomatch hs

end ReadProgram

end BisayaPlus
