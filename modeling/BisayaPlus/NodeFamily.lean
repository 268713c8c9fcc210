import BisayaPlus.Text.Blank
import BisayaPlus.Text.LowerCase
import BisayaPlus.Text.Quoted
/-!
# Families of tree nodes

Writes the declarations of a family of tree nodes: a closed interface, and a
structure for each node with a method that makes it a member.
-/

set_option autoImplicit false

namespace BisayaPlus

/-- A node of a family: its name and its fields. -/
structure NodeShape where
  name : Text
  fields : List Text
  deriving DecidableEq

/-- Why a description gives no node. -/
inductive NodeFault where
  | colonMissing
  | nameMissing
  deriving DecidableEq

/-- The wording of a fault. -/
def NodeFault.message : NodeFault → Text
  | colonMissing => "runtime error: index out of range [1] with length 1"
  | nameMissing => "runtime error: index out of range [0] with length 0"

namespace NodeShape

/-- Reads a description: a name, a colon, and fields between commas. -/
def read (description : Text) : Except NodeFault NodeShape :=
  match description.dropWhile (· != Text.byte ':') with
  | [] => .error .colonMissing
  | _ :: fields =>
    let name := Text.trim (description.takeWhile (· != Text.byte ':'))
    if name.isEmpty then .error .nameMissing
    else .ok { name := name, fields := (Text.pieces (Text.byte ',') (Text.trim fields)).map Text.trim }

/-- The name of the structure: the node's with a small first letter, and the
family's. The first byte is taken for a letter of its own. -/
def structureName (base : Text) : Text → Text
  | [] => base
  | b :: rest => Text.lower (Text.ofCode b.toNat) ++ rest ++ base

/-- A field on a line of its own. -/
def fieldLine (field : Text) : Text := "\t" ++ field ++ "\n"

/-- The declaration of a node. -/
def declaration (base : Text) (shape : NodeShape) : Text :=
  let name := structureName base shape.name
  "type " ++ name ++ " struct \x7b\n" ++ shape.fields.flatMap fieldLine ++ "\x7d\n\n" ++
    "func (*" ++ name ++ ") " ++ Text.lower base ++ "Node() \x7b\x7d"

/-- The width of the name of a field. -/
def nameWidth (field : Text) : Nat := (field.takeWhile (· != Text.byte ' ')).length

/-- The fields with their types in one column. -/
def aligned (shape : NodeShape) : NodeShape :=
  let width := (shape.fields.map nameWidth).foldl max 0
  let align (field : Text) : Text :=
    field.take (nameWidth field) ++ List.replicate (width - nameWidth field) (Text.byte ' ') ++
      field.drop (nameWidth field)
  { shape with fields := shape.fields.map align }

end NodeShape

namespace NodeFamily

/-- The interface of a family. -/
def interface (base : Text) : Text :=
  "// Code generated by cmd/astgen; DO NOT EDIT.\n\npackage internal\n\n" ++
    "type " ++ Text.lower base ++ " interface \x7b\n\t" ++ Text.lower base ++ "Node()\n\x7d"

/-- The declarations of a family. -/
def declarations (base : Text) (shapes : List NodeShape) : List Text :=
  interface base :: shapes.map (·.declaration base)

/-- Writes a family from the descriptions of its nodes, up to the first that
gives none. -/
def write (base : Text) (descriptions : List Text) : Except NodeFault Text := do
  let shapes ← descriptions.mapM NodeShape.read
  pure ((declarations base shapes).flatMap (· ++ "\n\n"))

/-! ## The families of the language -/

/-- The expressions. -/
def expressions : List NodeShape := [
  ⟨"Literal", ["value interface\x7b\x7d"]⟩,
  ⟨"Grouping", ["expression expr"]⟩,
  ⟨"Unary", ["operator *token", "right expr"]⟩,
  ⟨"Binary", ["left expr", "operator *token", "right expr"]⟩,
  ⟨"Logical", ["left expr", "operator *token", "right expr"]⟩,
  ⟨"Variable", ["name *token"]⟩,
  ⟨"Assign", ["name *token", "value expr"]⟩,
  ⟨"IncDec", ["operator *token", "target *variableExpr", "prefix bool"]⟩]

/-- The statements. -/
def statements : List NodeShape := [
  ⟨"Expr", ["expression expr"]⟩,
  ⟨"Print", ["keyword *token", "expression expr"]⟩,
  ⟨"MultiVar", ["keyword *token", "names []*token", "initializers []expr", "declared dataType"]⟩,
  ⟨"Block", ["stmts []stmt"]⟩,
  ⟨"If", ["keyword *token", "condition expr", "thenBranch stmt", "elifs []*elifBranch", "elseBranch stmt"]⟩,
  ⟨"While", ["keyword *token", "condition expr", "body stmt"]⟩,
  ⟨"DoWhile", ["keyword *token", "body stmt", "condition expr"]⟩,
  ⟨"Break", ["keyword *token"]⟩,
  ⟨"Continue", ["keyword *token"]⟩,
  ⟨"Scan", ["keyword *token", "names []*token"]⟩]

/-- The family with a name. -/
def ofName? (name : Text) : Option (List NodeShape) :=
  if name = Text.ofString "Expr" then some expressions
  else if name = Text.ofString "Stmt" then some statements
  else none

/-- Writes a family of the language in columns: its text, or why there is none. -/
def command : List Text → Except Text Text
  | [name] =>
    match ofName? name with
    | some shapes => .ok (Text.join "\n\n" (declarations name (shapes.map (·.aligned))) ++ "\n")
    | none => .error ("astgen: unknown node family " ++ Text.quote name ++ "\n")
  | _ => .error "Usage: astgen Expr|Stmt\n"

end NodeFamily

end BisayaPlus
