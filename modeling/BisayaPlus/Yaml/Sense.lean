import BisayaPlus.Number.Numeral
import BisayaPlus.Yaml.Node
/-!
# What scalars stand for

A scalar without quotes and without a tag may stand for something other than a
text, which its spelling decides. A tag may ask for something that the spelling
has to agree with, for bytes in base 64, or for a text.
-/

set_option autoImplicit false

namespace BisayaPlus.Yaml

/-- What a scalar stands for. A wide integer needs all 64 bits and no sign. -/
inductive Sense where
  | null
  | bool (b : Bool)
  | int (wide : Bool)
  | float
  | timestamp
  | text
  deriving DecidableEq

/-- The tag of a sense. -/
def Sense.tag : Sense → Text
  | null => "!!null"
  | bool _ => "!!bool"
  | int _ => "!!int"
  | float => "!!float"
  | timestamp => "!!timestamp"
  | text => "!!str"

/-! ## Numbers -/

/-- Digits in a base, at least one. -/
def areDigits (base : Nat) (t : Text) : Bool :=
  !t.isEmpty && t.all fun b => Numeral.isHexDigit b && Numeral.digitValue b < base

/-- The base an unsigned integer is written in, and its digits. -/
def basedDigits : Text → Nat × Text
  | 48 :: x :: b :: t =>
    if Text.lowerByte x = Text.byte 'x' then (16, b :: t)
    else if Text.lowerByte x = Text.byte 'b' then (2, b :: t)
    else if Text.lowerByte x = Text.byte 'o' then (8, b :: t)
    else (8, x :: b :: t)
  | 48 :: d :: t => (8, d :: t)
  | t => (10, t)

/-- The sense of a sign, which may be missing, and digits in a base, if they
stand for an integer of 64 bits. -/
def integer? (base : Nat) (signed : Bool) (negative : Bool) (digits : Text) : Option Sense :=
  let n := Numeral.digitsValue base digits
  if !areDigits base digits then none
  else if n < Nat.pow 2 63 || (negative && n = Nat.pow 2 63) then some (.int false)
  else if !signed && n < Nat.pow 2 64 then some (.int true)
  else none

/-- The sense of an integer with its base before the digits. -/
def basedInteger? (t : Text) : Option Sense :=
  let (negative, unsigned) := Numeral.signed t
  let (base, digits) := basedDigits unsigned
  integer? base (unsigned.length < t.length) negative digits

/-- The sense of an integer with a sign between its base and the digits. -/
def innerSigned? : Text → Option Sense
  | 48 :: x :: t =>
    let (negative, digits) := Numeral.signed t
    let signed := digits.length < t.length
    if x = Text.byte 'b' then integer? 2 signed negative digits
    else if x = Text.byte 'o' then integer? 8 signed negative digits
    else none
  | _ => none

/-- A decimal real. -/
def isReal (t : Text) : Bool :=
  let (_, u) := Numeral.signed t
  (Numeral.parts? Text.isDigit 'e' (some 0) u).isSome && (Numeral.real? t).isSome

/-! ## Times -/

/-- The number of days in a month. -/
def daysIn (year month : Nat) : Nat :=
  if month = 2 then (if year % 4 = 0 && (year % 100 != 0 || year % 400 = 0) then 29 else 28)
  else if month = 4 || month = 6 || month = 9 || month = 11 then 30
  else 31

/-- A number of one or two digits at the front of a text, and what follows. -/
def shortNumber? : Text → Option (Nat × Text)
  | a :: b :: t =>
    if !Text.isDigit a then none
    else if Text.isDigit b then some (Numeral.digitsValue 10 [a, b], t)
    else some (Numeral.digitsValue 10 [a], b :: t)
  | [a] => if Text.isDigit a then some (Numeral.digitsValue 10 [a], []) else none
  | [] => none

/-- What follows a character, if it is at the front. -/
def after? (ch : Char) : Text → Option Text
  | b :: t => if b = Text.byte ch then some t else none
  | [] => none

/-- What follows a date: a year of four digits, a month and a day. -/
def afterDate? (t : Text) : Option Text := do
  let year := t.take 4
  if year.length != 4 || !year.all Text.isDigit then none
  let t ← after? '-' (t.drop 4)
  let (month, t) ← shortNumber? t
  let t ← after? '-' t
  let (day, t) ← shortNumber? t
  if 1 ≤ month && month ≤ 12 && 1 ≤ day && day ≤ daysIn (Numeral.digitsValue 10 year) month then some t else none

/-- What follows a fraction of a second, which may be missing. -/
def afterFraction : Text → Text
  | b :: d :: t =>
    if (b = Text.byte '.' || b = Text.byte ',') && Text.isDigit d then t.dropWhile Text.isDigit else b :: d :: t
  | t => t

/-- What follows hours, minutes and seconds. -/
def afterClock? (t : Text) : Option Text := do
  let (hour, t) ← shortNumber? t
  let t ← after? ':' t
  let (minute, t) ← shortNumber? t
  let t ← after? ':' t
  let (second, t) ← shortNumber? t
  if hour < 24 && minute < 60 && second < 60 then some (afterFraction t) else none

/-- A time zone: the letter for the world's time, or a distance from it. -/
def isZone (t : Text) : Bool :=
  match t with
  | [sign, h, h', colon, m, m'] =>
    (sign = Text.byte '+' || sign = Text.byte '-') && colon = Text.byte ':' && [h, h', m, m'].all Text.isDigit &&
      Numeral.digitsValue 10 [h, h'] ≤ 24 && Numeral.digitsValue 10 [m, m'] ≤ 60
  | t => t = Text.ofString "Z"

/-- A date, alone, with a time of day and a zone, or with a time of day after
spaces. -/
def isTimestamp (t : Text) : Bool :=
  match afterDate? t with
  | none => false
  | some [] => true
  | some (b :: t) =>
    if b = Text.byte ' ' then afterClock? (t.dropWhile (· = Text.byte ' ')) = some []
    else if Text.lowerByte b = Text.byte 't' then
      match afterClock? t with
      | some zone => isZone zone
      | none => false
    else false

/-! ## Spellings -/

/-- The spellings with a fixed sense. -/
def words : List (String × Sense) := [
  ("true", .bool true), ("True", .bool true), ("TRUE", .bool true),
  ("false", .bool false), ("False", .bool false), ("FALSE", .bool false),
  ("", .null), ("~", .null), ("null", .null), ("Null", .null), ("NULL", .null),
  (".nan", .float), (".NaN", .float), (".NAN", .float),
  (".inf", .float), (".Inf", .float), (".INF", .float),
  ("+.inf", .float), ("+.Inf", .float), ("+.INF", .float),
  ("-.inf", .float), ("-.Inf", .float), ("-.INF", .float)]

/-- What a spelling stands for, a timestamp only where `timed` says so. In
numbers underscores are passed over. -/
def spelledSense (timed : Bool) (t : Text) : Sense :=
  match words.find? fun w => Text.ofString w.1 == t, t with
  | some w, _ => w.2
  | none, [] => .null
  | none, b :: _ =>
    let digits := t.filter (· != Text.byte '_')
    if b = Text.byte '.' then (if (Numeral.real? t).isSome then .float else .text)
    else if Text.isDigit b || b = Text.byte '+' || b = Text.byte '-' then
      if timed && isTimestamp t then .timestamp
      else
        match basedInteger? digits with
        | some s => s
        | none => if isReal digits then .float else (innerSigned? digits).getD .text
    else .text

/-! ## Base 64 -/

/-- The value of a digit in base 64. -/
def digit64? (b : UInt8) : Option Nat :=
  if 65 ≤ b && b ≤ 90 then some (b.toNat - 65)
  else if 97 ≤ b && b ≤ 122 then some (b.toNat - 71)
  else if Text.isDigit b then some (b.toNat + 4)
  else if b = Text.byte '+' then some 62
  else if b = Text.byte '/' then some 63
  else none

/-- The bytes that stand for a text in base 64 without line breaks. The last
four digits may be short, with equals signs in place of the missing ones. -/
def bytes64? : Text → Option Text
  | [] => some []
  | a :: b :: c :: d :: t => do
    let a ← digit64? a
    let b ← digit64? b
    if t.isEmpty && c = Text.byte '=' && d = Text.byte '=' then
      return [(a * 4 + b / 16).toUInt8]
    let c ← digit64? c
    let start := [(a * 4 + b / 16).toUInt8, (b % 16 * 16 + c / 4).toUInt8]
    if t.isEmpty && d = Text.byte '=' then return start
    let d ← digit64? d
    return start ++ (c % 4 * 64 + d).toUInt8 :: (← bytes64? t)
  | _ => none

/-! ## Nodes -/

/-- The tag for texts. -/
def textTag : Text := "!!str"

/-- The tag for the entry that takes over those of other mappings. -/
def mergeTag : Text := "!!merge"

/-- The spelling of the key of such an entry. -/
def mergeKey : Text := "<<"

/-- The tags that a spelling has to agree with. -/
def spelledTags : List Text := ["!!bool", "!!int", "!!float", "!!null", "!!timestamp"]

/-- The tag of a scalar, written or not. -/
def scalarTag (tag : Option Text) (plain : Bool) (value : Text) : Text :=
  match tag with
  | some tag => tag
  | none =>
    if !plain then textTag
    else if value = mergeKey then mergeTag
    else (spelledSense true value).tag

/-- The tag of a node, written or not. -/
def Node.tag : Node → Text
  | scalar tag plain value _ => scalarTag tag plain value
  | sequence tag _ _ => tag.getD "!!seq"
  | mapping tag _ _ => tag.getD "!!map"
  | reference _ _ _ => []

/-- What a spelling with one of the tags it has to agree with stands for. An
integer will do for a float, unless it is wide. -/
def agreedSense (tag value : Text) : Except Problem Sense :=
  let sense := spelledSense (tag = Sense.timestamp.tag) value
  if sense.tag = tag then .ok sense
  else if tag = Sense.float.tag && sense = .int false then .ok .float
  else .error (.tagMismatch sense.tag value tag)

/-- What a scalar stands for, and the text of it. -/
def scalarSense (tag : Option Text) (plain : Bool) (value : Text) : Except Problem (Sense × Text) :=
  match tag with
  | none => .ok (if plain && value != mergeKey then spelledSense true value else .text, value)
  | some tag =>
    if spelledTags.contains tag then (agreedSense tag value).map fun sense => (sense, value)
    else if tag = Text.ofString "!!binary" then
      match bytes64? (value.filter fun b => b != 10 && b != 13) with
      | some content => .ok (.text, content)
      | none => .error .binaryData
    else .ok (.text, value)

end BisayaPlus.Yaml
