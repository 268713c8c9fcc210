import BisayaPlus.Diagnostic
import BisayaPlus.Number.Numeral
/-!
# Conversions

How a value, or a field of input, becomes a value of a declared type.
-/

set_option autoImplicit false

namespace BisayaPlus.Value

/-- The value as a value of a declared type. Numbers convert where the value
stays exact or the type is real, a text converts to the truth value it spells,
and NULL belongs to every type. -/
def coerce (declared : DataType) (v : Value) : Except Cause Value :=
  match declared, v with
  | _, null => .ok null
  | .numero, numero i => .ok (numero i)
  | .numero, tipik x =>
    match x.exactInt? with
    | some i => .ok (numero i)
    | none => .error (.mismatch declared v)
  | .tipik, tipik x => .ok (tipik x)
  | .tipik, numero i => .ok (tipik (Binary64.ofInt i.toInt))
  | .letra, letra code => .ok (letra code)
  | .tinuod, tinuod b => .ok (tinuod b)
  | .tinuod, pulong t =>
    match truth? t with
    | some b => .ok (tinuod b)
    | none => .error (.mismatch declared v)
  | _, _ => .error (.mismatch declared v)

/-- An integer numeral, or a real numeral with an integer value. -/
def readNumero? (t : Text) : Option Int64 :=
  match Numeral.int64? t with
  | some i => some i
  | none => (Numeral.real? t).bind Binary64.exactInt?

/-- The value of a declared type that a field of input stands for. -/
def read? (declared : DataType) (t : Text) : Option Value :=
  match declared with
  | .numero => (readNumero? t).map numero
  | .tipik => (Numeral.real? t).map tipik
  | .letra => (Text.single? t).map fun c => letra (Int32.ofInt c.toNat)
  | .tinuod => (truth? (Text.trimBoth (· == Text.byte '"') t)).map tinuod

/-- Reads a field of input as a value of a declared type. -/
def read (declared : DataType) (t : Text) : Except Cause Value :=
  match read? declared t with
  | some v => .ok v
  | none => .error (.unreadable declared t)

end BisayaPlus.Value
