import BisayaPlus.Text.Utf8
import BisayaPlus.Number.Shortest
/-!
# Values

What a program computes with. Variables are declared with one of four types,
and a variable holds a value of its type or NULL. Texts come only from literals
and text operators, and no variable holds one.
-/

set_option autoImplicit false

namespace BisayaPlus

/-- The type a variable is declared with. -/
inductive DataType where
  | numero
  | tipik
  | letra
  | tinuod
  deriving DecidableEq, Inhabited

/-- The word that declares the type. -/
def DataType.name : DataType → Text
  | .numero => "NUMERO"
  | .tipik => "TIPIK"
  | .letra => "LETRA"
  | .tinuod => "TINUOD"

/-- A value: an integer, a real, a character code, a truth value, a text, or
nothing. -/
inductive Value where
  | null
  | numero (i : Int64)
  | tipik (x : Binary64)
  | letra (code : Int32)
  | tinuod (b : Bool)
  | pulong (t : Text)
  deriving DecidableEq, Inhabited

namespace Value

/-- The name of a value's kind. -/
def kindName : Value → Text
  | null => "NULL"
  | numero _ => DataType.numero.name
  | tipik _ => DataType.tipik.name
  | letra _ => DataType.letra.name
  | tinuod _ => DataType.tinuod.name
  | pulong _ => "PULONG"

/-- The spelling of the truth values. -/
def truthName (b : Bool) : Text := if b then "OO" else "DILI"

/-- The truth value with this spelling. -/
def truth? (t : Text) : Option Bool :=
  if t = truthName true then some true else if t = truthName false then some false else none

/-- A printed real has no exponent below `1e21`. -/
def printedPlain (exponent : Int) : Bool := exponent < 21

/-- The text a value prints as. -/
def display : Value → Text
  | null => "nil"
  | tinuod b => truthName b
  | numero i => Text.ofInt i.toInt
  | tipik x => x.write printedPlain
  | letra code => Text.ofCode code.toInt
  | pulong t => t

/-- Whether a value counts as true: all but NULL and DILI. -/
def truthy : Value → Bool
  | null => false
  | tinuod b => b
  | _ => true

end Value

end BisayaPlus
