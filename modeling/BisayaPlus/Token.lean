import BisayaPlus.Value
import BisayaPlus.Text.Quoted
/-!
# Tokens

The words, signs and literals of a program, each with the bytes it was read
from, its line and its offset.
-/

set_option autoImplicit false

namespace BisayaPlus

/-- The kind of a token. Every code has a kind, also one that no source
produces. -/
inductive Kind where
  | eof
  | newline
  | leftParen | rightParen | leftBrace | rightBrace | comma | colon | ampersand | dollar
  | plus | minus | star | slash | percent
  | plusEqual | minusEqual | starEqual | slashEqual | percentEqual | plusPlus | minusMinus
  | equal | equalEqual | notEqual | greater | greaterEqual | less | lessEqual
  | identifier | string | char | number | escape
  | sugod | katapusan | mugna | ipakita | dawat
  | numero | tipik | letra | tinuod
  | ug | o | dili | oo | null
  | kung | kungPa | kungWala | alangSa | mintras | buhata | hunong | padayon | pundok
  | unnamed (code : Int)
  deriving DecidableEq, Inhabited

namespace Kind

/-- The kinds with a name, in the order of their codes, which start at -1. -/
def named : List (Kind × String) := [
  (eof, "EOF"), (newline, "NEWLINE"), (leftParen, "LEFT_PAREN"), (rightParen, "RIGHT_PAREN"),
  (leftBrace, "LEFT_BRACE"), (rightBrace, "RIGHT_BRACE"), (comma, "COMMA"), (colon, "COLON"),
  (ampersand, "CONCAT"), (dollar, "NEW_LINE"), (plus, "PLUS"), (minus, "MINUS"), (star, "STAR"),
  (slash, "SLASH"), (percent, "PERCENT"), (plusEqual, "PLUS_EQUAL"), (minusEqual, "MINUS_EQUAL"),
  (starEqual, "STAR_EQUAL"), (slashEqual, "SLASH_EQUAL"), (percentEqual, "PERCENT_EQUAL"),
  (plusPlus, "INCREMENT"), (minusMinus, "DECREMENT"), (equal, "EQUAL"), (equalEqual, "EQUAL_EQUAL"),
  (notEqual, "NOT_EQUAL"), (greater, "GREATER"), (greaterEqual, "GREATER_EQUAL"), (less, "LESS"),
  (lessEqual, "LESS_EQUAL"), (identifier, "IDENTIFIER"), (string, "STRING"), (char, "CHAR"),
  (number, "NUMBER"), (escape, "ESCAPE"), (sugod, "START"), (katapusan, "END"), (mugna, "DECLARE"),
  (ipakita, "PRINT"), (dawat, "SCAN"), (numero, "NUMERO"), (tipik, "TIPIK"), (letra, "LETRA"),
  (tinuod, "TINUOD"), (ug, "AND"), (o, "OR"), (dili, "NOT"), (oo, "TRUE"), (null, "NULL"), (kung, "IF"),
  (kungPa, "ELIF"), (kungWala, "ELSE"), (alangSa, "FOR"), (mintras, "WHILE"), (buhata, "DO"),
  (hunong, "BREAK"), (padayon, "CONTINUE"), (pundok, "BLOCK")]

/-- The name shown in a token listing. -/
def name (k : Kind) : Text :=
  match k, named.lookup k with
  | _, some s => s
  | .unnamed code, none => ("tokenType(" : String) ++ Text.ofInt code ++ (")" : String)
  | _, none => []

/-- The kind with a name. -/
def ofName? (t : Text) : Option Kind := (named.find? fun p => Text.ofString p.2 == t).map (·.1)

/-- The kind with a code. -/
def ofCode (code : Int) : Kind :=
  match named[(code + 1).toNat]? with
  | some p => if code < -1 then .unnamed code else p.1
  | none => .unnamed code

/-- The type a type word declares. -/
def dataType? : Kind → Option DataType
  | .numero => some .numero
  | .tipik => some .tipik
  | .letra => some .letra
  | .tinuod => some .tinuod
  | _ => none

end Kind

/-- A token: its bytes, the value of a literal, and where it stands. A token
that no source holds has no offset. -/
structure Token where
  kind : Kind
  lexeme : Text
  literal : Option Value := none
  line : Nat
  pos : Option Nat := none
  deriving DecidableEq, Inhabited

namespace Token

/-- Stands for the place of what has no token. -/
def nowhere : Token := { kind := .eof, lexeme := [], line := 0 }

/-- Names the token's place in a diagnostic. -/
def place (t : Token) : Text :=
  match t.kind with
  | .eof => " at end"
  | .newline => " at end of line"
  | _ => (" at '" : String) ++ t.lexeme ++ ("'" : String)

/-- A listed real has no exponent from `0.0001` up to below `1e6`. -/
def listedPlain (exponent : Int) : Bool := -4 ≤ exponent && exponent ≤ 5

/-- A literal's value in a token listing. -/
def listedValue : Value → Text
  | .null => "<nil>"
  | .numero i => Text.ofInt i.toInt
  | .tipik x => x.write listedPlain
  | .letra code => Text.ofInt code.toInt
  | .tinuod b => (if b then "true" else "false" : String)
  | .pulong t => t

/-- The token's line in a listing, without the line feed. -/
def listed (t : Token) : Text :=
  Text.ofNat t.line ++ (" " : String) ++ t.kind.name ++ (" " : String) ++ Text.quote t.lexeme ++
    match t.literal with
    | none => []
    | some v => (" " : String) ++ listedValue v

end Token

end BisayaPlus
