import BisayaPlus.Tree
/-!
# Trees in print

A tree as a parenthesised text in prefix order. Groupings leave no trace.
-/

set_option autoImplicit false

namespace BisayaPlus

open Text

/-- Texts between parentheses with a space between neighbours. -/
def parenthesised (parts : List Text) : Text := byte '(' :: join [byte ' '] parts ++ [byte ')']

/-- A literal as it is shown in a tree: texts and characters in quotes. -/
def Value.shown : Value → Text
  | pulong t => quote t
  | letra code => byte '\'' :: ofCode code.toInt ++ [byte '\'']
  | v => v.display

/-- An expression in print. -/
def Expr.render : Expr → Text
  | literal value => value.shown
  | grouping inner => inner.render
  | var name => name.lexeme
  | assign name value => parenthesised ["=", name.lexeme, value.render]
  | unary operator right => parenthesised [operator.lexeme, right.render]
  | binary left operator right => parenthesised [operator.lexeme, left.render, right.render]
  | logical left operator right => parenthesised [operator.lexeme, left.render, right.render]
  | step operator name true => parenthesised [operator.lexeme, name.lexeme]
  | step operator name false => parenthesised [name.lexeme, operator.lexeme]

/-- A declared name, with its value if it has one. -/
def renderDeclared : Token × Option Expr → Text
  | (name, none) => name.lexeme
  | (name, some e) => parenthesised [name.lexeme, e.render]

mutual

/-- A statement in print, on one line. -/
def Stmt.render : Stmt → Text
  | .expr e => e.render
  | .ipakita _ e => parenthesised ["IPAKITA", e.render]
  | .dawat _ names => parenthesised ("DAWAT" :: names.map Token.lexeme)
  | .mugna _ declared names => parenthesised ("MUGNA" :: declared.name :: names.map renderDeclared)
  | .pundok body => parenthesised ("PUNDOK" :: renderAll body)
  | .kung _ condition body alternatives otherwise =>
    parenthesised ("KUNG" :: condition.render :: body.render ::
      (renderAlternatives alternatives ++ renderOtherwise otherwise))
  | .mintras _ condition body => parenthesised ["MINTRAS", condition.render, body.render]
  | .buhata _ body condition => parenthesised ["BUHATA", body.render, condition.render]
  | .hunong _ => parenthesised ["HUNONG"]
  | .padayon _ => parenthesised ["PADAYON"]

/-- Statements in print, one by one. -/
def renderAll : List Stmt → List Text
  | [] => []
  | s :: more => s.render :: renderAll more

/-- The KUNG PA alternatives in print. -/
def renderAlternatives : List (Expr × Stmt) → List Text
  | [] => []
  | (condition, body) :: more =>
    parenthesised ["KUNG PA", condition.render, body.render] :: renderAlternatives more

/-- The last alternative in print. -/
def renderOtherwise : Option Stmt → List Text
  | none => []
  | some body => [parenthesised ["KUNG WALA", body.render]]

end

end BisayaPlus
