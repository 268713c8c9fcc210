import BisayaPlus.Tree
/-!
# The grammar

Which token sequences are expressions, statements and programs, and the tree
each of them stands for. The rules are stated without a reader: a phrase is
given by the tokens it is made of and, where it matters, by the tokens that
follow it.

Two rules look at what follows. A simple statement may end without a newline
right before the end of its block or of the program. And a KUNG leaves no
alternative behind: if KUNG PA or KUNG WALA could still belong to it, it does,
so each alternative belongs to the nearest KUNG that is open.
-/

set_option autoImplicit false

namespace BisayaPlus.Grammar

/-! ## Expressions -/

/-- The layers of expressions, from loose to tight. -/
inductive Layer where
  | assignment | disjunction | conjunction | equality | comparison | term | factor | unary | primary
  deriving DecidableEq

namespace Layer

/-- The layer of the operands of a layer. -/
def tighter : Layer → Layer
  | assignment => disjunction
  | disjunction => conjunction
  | conjunction => equality
  | equality => comparison
  | comparison => term
  | term => factor
  | factor => unary
  | unary => primary
  | primary => primary

/-- The operators that stand between the operands of a layer. -/
def operators : Layer → List Kind
  | disjunction => [.o]
  | conjunction => [.ug]
  | equality => [.equalEqual, .notEqual]
  | comparison => [.greater, .greaterEqual, .less, .lessEqual]
  | term => [.plus, .minus, .ampersand, .dollar, .escape]
  | factor => [.star, .slash, .percent]
  | _ => []

/-- The tree of two operands of a layer. -/
def join : Layer → Expr → Token → Expr → Expr
  | disjunction | conjunction => .logical
  | _ => .binary

end Layer

/-- The signs of compound assignment, each with the operator it applies. -/
def compounds : List (Kind × Kind) := [
  (.plusEqual, .plus), (.minusEqual, .minus), (.starEqual, .star), (.slashEqual, .slash), (.percentEqual, .percent)]

/-- The tokens `ts` are an expression of a layer, with this tree. Operators group
to the left and assignments to the right. -/
inductive Expression : Layer → List Token → Expr → Prop where
  | tighter {layer : Layer} {ts : List Token} {e : Expr} : layer ≠ .primary → Expression layer.tighter ts e →
      Expression layer ts e
  | assign {name sign : Token} {ts : List Token} {e : Expr} : name.kind = .identifier → sign.kind = .equal →
      Expression .assignment ts e → Expression .assignment (name :: sign :: ts) (.assign name e)
  /-- `x += e` stands for `x = x + e`, and so with the other signs. -/
  | compound {name sign : Token} {operator : Kind} {ts : List Token} {e : Expr} : name.kind = .identifier →
      (sign.kind, operator) ∈ compounds → Expression .assignment ts e →
      Expression .assignment (name :: sign :: ts)
        (.assign name (.binary (.var name) ⟨operator, sign.lexeme.take 1, none, sign.line, none⟩ e))
  | joined {layer : Layer} {operator : Token} {ls rs : List Token} {l r : Expr} : operator.kind ∈ layer.operators →
      Expression layer ls l → Expression layer.tighter rs r →
      Expression layer (ls ++ operator :: rs) (layer.join l operator r)
  | unary {operator : Token} {ts : List Token} {e : Expr} : operator.kind ∈ [Kind.dili, .minus] →
      Expression .unary ts e → Expression .unary (operator :: ts) (.unary operator e)
  | stepBefore {operator name : Token} : operator.kind ∈ [Kind.plusPlus, .minusMinus] → name.kind = .identifier →
      Expression .unary [operator, name] (.step operator name true)
  | stepAfter {operator name : Token} : operator.kind ∈ [Kind.plusPlus, .minusMinus] → name.kind = .identifier →
      Expression .primary [name, operator] (.step operator name false)
  | var {name : Token} : name.kind = .identifier → Expression .primary [name] (.var name)
  | valued {t : Token} : t.kind ∈ [Kind.number, .string, .char, .escape] →
      Expression .primary [t] (.literal (t.literal.getD .null))
  | oo {t : Token} : t.kind = .oo → Expression .primary [t] (.literal (.tinuod true))
  | null {t : Token} : t.kind = .null → Expression .primary [t] (.literal .null)
  | lineBreak {t : Token} : t.kind = .dollar → Expression .primary [t] (.literal (.pulong "\n"))
  | grouping {opening closing : Token} {ts : List Token} {e : Expr} : opening.kind = .leftParen →
      Expression .assignment ts e → closing.kind = .rightParen →
      Expression .primary (opening :: ts ++ [closing]) (.grouping e)

/-! ## Parts of statements -/

/-- Tokens that are all newlines. -/
def Blank (ts : List Token) : Prop := ∀ t ∈ ts, t.kind = .newline

/-- A token of this kind comes next, on this line or after newlines. -/
def Leads (kind : Kind) (ts : List Token) : Prop :=
  ∃ blank t rest, Blank blank ∧ t.kind = kind ∧ ts = blank ++ t :: rest

/-- What ends a simple statement, and what follows it: a newline before
anything, or nothing right before the end of a block or of the program. -/
inductive Terminator : List Token → List Token → Prop where
  | line {t : Token} {next : List Token} : t.kind = .newline → Terminator [t] next
  | before {t : Token} {next : List Token} : t.kind ∈ [Kind.katapusan, .rightBrace] → Terminator [] (t :: next)

/-- One or more items with commas between them. -/
inductive Separated {α : Type} (item : List Token → α → Prop) : List Token → List α → Prop where
  | one {ts : List Token} {a : α} : item ts a → Separated item ts [a]
  | more {comma : Token} {ts rest : List Token} {a : α} {as : List α} : item ts a → comma.kind = .comma →
      Separated item rest as → Separated item (ts ++ comma :: rest) (a :: as)

/-- A name. -/
inductive Name : List Token → Token → Prop where
  | mk {name : Token} : name.kind = .identifier → Name [name] name

/-- The word that declares a type. -/
def typeWord : DataType → Kind
  | .numero => .numero
  | .tipik => .tipik
  | .letra => .letra
  | .tinuod => .tinuod

/-- An initial value of a declared type, as written and as kept. A literal has
to be of the type, NULL is of every type, an integer literal is of the real
type too, and a truth value may be spelled as a text. Other expressions are not
judged before they have a value. -/
inductive Initial : DataType → Expr → Expr → Prop where
  | null {declared : DataType} : Initial declared (.literal .null) (.literal .null)
  | numero {i : Int64} : Initial .numero (.literal (.numero i)) (.literal (.numero i))
  | tipik {x : Binary64} : Initial .tipik (.literal (.tipik x)) (.literal (.tipik x))
  | whole {i : Int64} : Initial .tipik (.literal (.numero i)) (.literal (.numero i))
  | letra {code : Int32} : Initial .letra (.literal (.letra code)) (.literal (.letra code))
  | tinuod {b : Bool} : Initial .tinuod (.literal (.tinuod b)) (.literal (.tinuod b))
  | spelled {b : Bool} : Initial .tinuod (.literal (.pulong (Value.truthName b))) (.literal (.tinuod b))
  | computed {declared : DataType} {e : Expr} : (∀ v, e ≠ .literal v) → Initial declared e e

/-- A declared name with its initial value, if there is one. -/
inductive Declared (declared : DataType) : List Token → Token × Option Expr → Prop where
  | bare {name : Token} : name.kind = .identifier → Declared declared [name] (name, none)
  | initialized {name sign : Token} {ts : List Token} {e kept : Expr} : name.kind = .identifier →
      sign.kind = .equal → Expression .assignment ts e → Initial declared e kept →
      Declared declared (name :: sign :: ts) (name, some kept)

/-- A condition in parentheses. -/
inductive Condition : List Token → Expr → Prop where
  | mk {opening closing : Token} {ts : List Token} {e : Expr} : opening.kind = .leftParen →
      Expression .assignment ts e → closing.kind = .rightParen → Condition (opening :: ts ++ [closing]) e

/-- The first part of a counted loop: nothing, one declared name, or an
expression. -/
inductive Start : List Token → Option Stmt → Prop where
  | none : Start [] none
  | mugna {keyword word : Token} {declared : DataType} {ts : List Token} {name : Token × Option Expr} :
      keyword.kind = .mugna → word.kind = typeWord declared → Declared declared ts name →
      Start (keyword :: word :: ts) (some (.mugna keyword declared [name]))
  | expr {ts : List Token} {e : Expr} : Expression .assignment ts e → Start ts (some (.expr e))

/-- An expression or nothing. -/
inductive Optional : List Token → Option Expr → Prop where
  | none : Optional [] none
  | some {ts : List Token} {e : Expr} : Expression .assignment ts e → Optional ts (some e)

/-- The round of a counted loop: its body and its last part. -/
def round (body : Stmt) (increment : Option Expr) : Stmt :=
  increment.elim body fun e => .pundok [body, .expr e]

/-- The tree of a counted loop: its first part and a conditional loop, in a
block if there is a first part. -/
def counted (keyword : Token) (start : Option Stmt) (condition increment : Option Expr) (body : Stmt) : Stmt :=
  let loop := Stmt.mintras keyword (condition.getD (.literal (.tinuod true))) (round body increment)
  start.elim loop fun first => .pundok [first, loop]

/-! ## Statements -/

/-- What is derived: a statement, or a part of one that holds statements. -/
inductive Phrase where
  | statement (s : Stmt)
  | body (s : Stmt)
  | alternatives (branches : List (Expr × Stmt))
  | otherwise (last : Option Stmt)
  | items (statements : List Stmt)

/-- `Derives inLoop phrase ts next`: inside a loop or not, the tokens `ts` with
`next` after them are this phrase. -/
inductive Derives : Bool → Phrase → List Token → List Token → Prop where
  | mugna {inLoop : Bool} {keyword word : Token} {declared : DataType} {ts stop next : List Token}
      {names : List (Token × Option Expr)} : keyword.kind = .mugna → word.kind = typeWord declared →
      Separated (Declared declared) ts names → (names.map (·.1.lexeme)).Nodup → Terminator stop next →
      Derives inLoop (.statement (.mugna keyword declared names)) (keyword :: word :: ts ++ stop) next
  | ipakita {inLoop : Bool} {keyword colon : Token} {ts stop next : List Token} {e : Expr} :
      keyword.kind = .ipakita → colon.kind = .colon → Expression .assignment ts e → Terminator stop next →
      Derives inLoop (.statement (.ipakita keyword e)) (keyword :: colon :: ts ++ stop) next
  | dawat {inLoop : Bool} {keyword colon : Token} {ts stop next names : List Token} :
      keyword.kind = .dawat → colon.kind = .colon → Separated Name ts names → Terminator stop next →
      Derives inLoop (.statement (.dawat keyword names)) (keyword :: colon :: ts ++ stop) next
  | hunong {keyword : Token} {stop next : List Token} : keyword.kind = .hunong → Terminator stop next →
      Derives true (.statement (.hunong keyword)) (keyword :: stop) next
  | padayon {keyword : Token} {stop next : List Token} : keyword.kind = .padayon → Terminator stop next →
      Derives true (.statement (.padayon keyword)) (keyword :: stop) next
  | expr {inLoop : Bool} {ts stop next : List Token} {e : Expr} : Expression .assignment ts e → Terminator stop next →
      Derives inLoop (.statement (.expr e)) (ts ++ stop) next
  | pundok {inLoop : Bool} {keyword opening closing : Token} {ts next : List Token} {body : List Stmt} :
      keyword.kind = .pundok → opening.kind = .leftBrace → Derives inLoop (.items body) ts (closing :: next) →
      closing.kind = .rightBrace →
      Derives inLoop (.statement (.pundok body)) (keyword :: opening :: ts ++ [closing]) next
  | kung {inLoop : Bool} {keyword : Token} {cs bs as os next : List Token} {condition : Expr} {body : Stmt}
      {branches : List (Expr × Stmt)} {last : Option Stmt} : keyword.kind = .kung → Condition cs condition →
      Derives inLoop (.body body) bs (as ++ os ++ next) → Derives inLoop (.alternatives branches) as (os ++ next) →
      Derives inLoop (.otherwise last) os next →
      Derives inLoop (.statement (.kung keyword condition body branches last)) (keyword :: cs ++ bs ++ as ++ os) next
  | mintras {inLoop : Bool} {keyword : Token} {cs bs next : List Token} {condition : Expr} {body : Stmt} :
      keyword.kind = .mintras → Condition cs condition → Derives true (.body body) bs next →
      Derives inLoop (.statement (.mintras keyword condition body)) (keyword :: cs ++ bs) next
  | buhata {inLoop : Bool} {keyword word : Token} {bs blank cs stop next : List Token} {condition : Expr}
      {body : Stmt} : keyword.kind = .buhata → Derives true (.body body) bs (blank ++ word :: cs ++ stop ++ next) →
      Blank blank → word.kind = .mintras → Condition cs condition → Terminator stop next →
      Derives inLoop (.statement (.buhata keyword body condition)) (keyword :: bs ++ blank ++ word :: cs ++ stop) next
  | alangSa {inLoop : Bool} {keyword opening comma comma' closing : Token} {is cs ns bs next : List Token}
      {start : Option Stmt} {condition increment : Option Expr} {body : Stmt} : keyword.kind = .alangSa →
      opening.kind = .leftParen → Start is start → comma.kind = .comma → Optional cs condition →
      comma'.kind = .comma → Optional ns increment → closing.kind = .rightParen → Derives true (.body body) bs next →
      Derives inLoop (.statement (counted keyword start condition increment body))
        (keyword :: opening :: is ++ comma :: cs ++ comma' :: ns ++ closing :: bs) next
  | body {inLoop : Bool} {blank ts next : List Token} {s : Stmt} : Blank blank →
      Derives inLoop (.statement s) ts next → Derives inLoop (.body s) (blank ++ ts) next
  | noAlternative {inLoop : Bool} {next : List Token} : ¬ Leads .kungPa next →
      Derives inLoop (.alternatives []) [] next
  | alternative {inLoop : Bool} {word : Token} {blank cs bs as next : List Token} {condition : Expr} {body : Stmt}
      {branches : List (Expr × Stmt)} : Blank blank → word.kind = .kungPa → Condition cs condition →
      Derives inLoop (.body body) bs (as ++ next) → Derives inLoop (.alternatives branches) as next →
      Derives inLoop (.alternatives ((condition, body) :: branches)) (blank ++ word :: cs ++ bs ++ as) next
  | noOtherwise {inLoop : Bool} {next : List Token} : ¬ Leads .kungWala next →
      Derives inLoop (.otherwise none) [] next
  | otherwise {inLoop : Bool} {word : Token} {blank bs next : List Token} {body : Stmt} : Blank blank →
      word.kind = .kungWala → Derives inLoop (.body body) bs next →
      Derives inLoop (.otherwise (some body)) (blank ++ word :: bs) next
  | noItem {inLoop : Bool} {next : List Token} : Derives inLoop (.items []) [] next
  | newline {inLoop : Bool} {t : Token} {ts next : List Token} {statements : List Stmt} : t.kind = .newline →
      Derives inLoop (.items statements) ts next → Derives inLoop (.items statements) (t :: ts) next
  | item {inLoop : Bool} {ts more next : List Token} {s : Stmt} {statements : List Stmt} :
      Derives inLoop (.statement s) ts (more ++ next) → Derives inLoop (.items statements) more next →
      Derives inLoop (.items (s :: statements)) (ts ++ more) next

/-! ## Programs -/

/-- The tokens of a program, and its statements in order. -/
inductive IsProgram : List Token → List Stmt → Prop where
  | mk {before after ts : List Token} {start stop last : Token} {statements : List Stmt} : Blank before →
      start.kind = .sugod → Derives false (.items statements) ts (stop :: after ++ [last]) →
      stop.kind = .katapusan → Blank after → last.kind = .eof →
      IsProgram (before ++ start :: ts ++ stop :: after ++ [last]) statements

end BisayaPlus.Grammar
