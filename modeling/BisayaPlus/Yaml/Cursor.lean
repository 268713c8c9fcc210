import BisayaPlus.Text.Utf8
import BisayaPlus.Yaml.Source
/-!
# Places in a source

A cursor stands in a source and looks ahead as far as it is asked to. Behind the
last character the end goes on for ever, as the character with code zero, which
no source holds. Steps are taken by characters or by whole line breaks.
-/

set_option autoImplicit false

namespace BisayaPlus.Yaml

/-! ## Classes of characters -/

/-- Stands for the end of a source. -/
def ending : Char := Char.ofNat 0

/-- The mark that may start a source or a line. -/
def orderMark : Char := Char.ofNat 0xFEFF

/-- A space or tab. -/
def isBlank (ch : Char) : Bool := ch == ' ' || ch == '\t'

/-- A character that breaks a line. -/
def isBreak (ch : Char) : Bool :=
  ch == '\r' || ch == '\n' || ch == Char.ofNat 0x85 || ch == Char.ofNat 0x2028 || ch == Char.ofNat 0x2029

/-- A line break or the end. -/
def isLineEnd (ch : Char) : Bool := isBreak ch || ch == ending

/-- A blank, a line break or the end. -/
def isGap (ch : Char) : Bool := isBlank ch || isLineEnd ch

/-- A character of a name. -/
def isNameChar (ch : Char) : Bool := ch.isAlphanum || ch == '_' || ch == '-'

/-- The value of a hexadecimal digit. -/
def hexValue? (ch : Char) : Option Nat :=
  if ch.isDigit then some (ch.toNat - 48)
  else if 'a' ≤ ch && ch ≤ 'f' then some (ch.toNat - 87)
  else if 'A' ≤ ch && ch ≤ 'F' then some (ch.toNat - 55)
  else none

/-! ## Cursors -/

/-- Where a character stands: how many come before it in the source, the line,
counted from zero, and how many come before it on the line. -/
structure Mark where
  index : Nat := 0
  line : Nat := 0
  column : Nat := 0

/-- A place in a source. -/
structure Cursor where
  /-- The characters ahead that are at hand. -/
  rest : List Char := []
  /-- The portions behind them. -/
  pending : List Portion
  /-- How often the end is at hand behind the last character. -/
  ends : Nat := 0
  /-- The place of the first character ahead. -/
  mark : Mark := {}
  /-- The line breaks since the last character that is not blank. -/
  breaks : Nat := 0
  /-- What was ahead when a portion was last taken starts with the mark of a
  line. -/
  marked : Bool := false
  /-- Above the number of characters in the source. -/
  bound : Nat

namespace Cursor

/-- The start of a file. -/
def ofFile (file : Text) : Cursor :=
  let list := portions file
  { pending := list, bound := portionsLength list + 1 }

/-- Takes portions until so many characters are at hand. At the end of the
source one more end is. -/
def taken (n : Nat) : List Portion → List Char → Except Problem (List Char × List Portion × Nat)
  | [], rest => .ok (rest, [], 1)
  | .broken problem :: _, _ => .error problem
  | .chars list :: more, rest =>
    let rest := rest ++ list
    if (rest.drop (n - 1)).isEmpty then taken n more rest else .ok (rest, more, 0)

/-- Has so many characters at hand. -/
def ahead (n : Nat) (c : Cursor) : Except Problem Cursor :=
  if !(c.rest.drop (n - 1)).isEmpty || n ≤ c.rest.length + c.ends then .ok c
  else
    match taken n c.pending c.rest with
    | .error problem => .error problem
    | .ok (rest, pending, ends) =>
      .ok { c with rest := rest, pending := pending, ends := c.ends + ends, marked := rest.head? == some orderMark }

/-- The character so far ahead. -/
def char (c : Cursor) (n : Nat) : Char := c.rest.getD n ending

/-- The place after the next character. -/
def next (c : Cursor) : Cursor :=
  { c with
    rest := c.rest.drop 1
    ends := if c.rest.isEmpty then c.ends - 1 else c.ends
    mark := { c.mark with index := c.mark.index + 1, column := c.mark.column + 1 }
    breaks := if isBlank (c.char 0) then c.breaks else 0 }

/-- The number of characters in the line break that comes next. -/
def breakWidth (c : Cursor) : Nat :=
  if c.char 0 == '\r' && c.char 1 == '\n' then 2 else if isBreak (c.char 0) then 1 else 0

/-- The place after a line break, the same place if there is none. -/
def nextLine (c : Cursor) : Cursor :=
  let width := c.breakWidth
  if width = 0 then c
  else
    { c with
      rest := c.rest.drop width
      mark := { index := c.mark.index + width, line := c.mark.line + 1 }
      breaks := c.breaks + 1 }

/-- A sign three times at the start of a line, with a gap after it. -/
def atSign (c : Cursor) (sign : Char) : Bool :=
  c.mark.column == 0 && c.char 0 == sign && c.char 1 == sign && c.char 2 == sign && isGap (c.char 3)

/-- A mark that starts or ends a document. -/
def atDocumentMark (c : Cursor) : Bool := c.atSign '-' || c.atSign '.'

end Cursor

/-! ## Scanning -/

/-- Reads from a cursor, or finds a fault. -/
abbrev CharReader := StateT Cursor (Except Fault)

namespace CharReader

/-- The fault of a problem at the cursor, in something that starts at a mark.
It is reported there, or at the cursor if that is on the first line. -/
def faultAt (start here : Mark) (problem : Problem) : Fault :=
  let line := if start.line = 0 then here.line else start.line
  { line := if line = 0 then 0 else line + 1, problem := problem }

/-- Stops with a problem in something that starts at a mark. -/
def refuse {α : Type} (start : Mark) (problem : Problem) : CharReader α := do
  throw (faultAt start (← get).mark problem)

/-- Has so many characters at hand. -/
def need (n : Nat) : CharReader Unit := do
  match (← get).ahead n with
  | .ok c => set c
  | .error problem => throw { problem := problem }

/-- The next character. -/
def peek : CharReader Char := return (← get).char 0

/-- The character after the next one. -/
def peekSecond : CharReader Char := return (← get).char 1

/-- The place of the cursor. -/
def here : CharReader Mark := return (← get).mark

/-- The bound of loops over characters. -/
def bound : CharReader Nat := return (← get).bound

/-- Goes past the next character. -/
def skip : CharReader Unit := modify Cursor.next

/-- Goes past the next line break. -/
def skipBreak : CharReader Unit := do
  need 2
  modify Cursor.nextLine

/-- Goes past the next line break and gives it. The end of a line is a line
feed, that of a text line or paragraph is itself. -/
def takeBreak : CharReader (List Char) := do
  need 2
  let c ← get
  set c.nextLine
  let ch := c.char 0
  return if c.breakWidth = 0 then []
    else if ch == Char.ofNat 0x2028 || ch == Char.ofNat 0x2029 then [ch] else ['\n']

/-- Goes past characters of a class, up to a number of them. -/
def skipWhileWithin (p : Char → Bool) : Nat → CharReader Unit
  | 0 => pure ()
  | n + 1 => do
    need 1
    if p (← peek) then
      skip
      skipWhileWithin p n

/-- Goes past characters of a class, which does not hold the end. -/
def skipWhile (p : Char → Bool) : CharReader Unit := do skipWhileWithin p (← bound)

/-- Goes past characters of a class and gives them, up to a number of them,
after some that are given in reverse. -/
def takeWhileWithin (p : Char → Bool) : Nat → List Char → CharReader (List Char)
  | 0, done => return done.reverse
  | n + 1, done => do
    need 1
    let ch ← peek
    if p ch then
      skip
      takeWhileWithin p n (ch :: done)
    else return done.reverse

/-- Goes past characters of a class, which does not hold the end, and gives
them. -/
def takeWhile (p : Char → Bool) : CharReader (List Char) := do takeWhileWithin p (← bound) []

/-! ## Comments -/

/-- How far a comment is looked for. -/
def commentReach : Nat := 512

/-- Goes past lines up to a place and past the rest of the line that is there. -/
def skipToLineEnd (index : Nat) : Nat → CharReader Unit
  | 0 => pure ()
  | n + 1 => do
    need 1
    let reached := index ≤ (← here).index
    if isLineEnd (← peek) then
      if !reached then
        skipBreak
        skipToLineEnd index n
    else
      skip
      skipToLineEnd index n

/-- Goes past a comment that starts so far ahead. -/
def skipComment (distance : Nat) : CharReader Unit := do
  skipToLineEnd ((← here).index + distance) (← bound)

/-- The distance to a comment with only characters of a class before it, looked
for in so many steps from a distance on. -/
def findComment (passes : Char → Bool) : Nat → Nat → CharReader (Option Nat)
  | 0, _ => return none
  | n + 1, distance => do
    need (distance + 1)
    let ch := (← get).char distance
    if passes ch then findComment passes n (distance + 1)
    else return if ch == '#' then some distance else none

/-- Goes past a comment on the line of a token that has just ended. -/
def skipLineComment : CharReader Unit := do
  if (← get).breaks = 0 then
    match ← findComment isBlank commentReach 0 with
    | some distance => skipComment distance
    | none => pure ()

/-- Goes past the comments on the lines after one, as far as there are only
blanks and breaks of one byte between them. -/
def skipFurtherComments : Nat → CharReader Unit
  | 0 => pure ()
  | n + 1 => do
    let passes (ch : Char) : Bool := isBlank ch || ch == '\r' || ch == '\n'
    if (← peek).toNat < 0x80 then
      match ← findComment passes (commentReach - 1) 1 with
      | some distance =>
        skipComment distance
        skipFurtherComments n
      | none => pure ()

/-- Goes past a comment at the cursor and those after it. -/
def skipComments : CharReader Unit := do
  skipComment 0
  skipFurtherComments (← bound)

end CharReader

end BisayaPlus.Yaml
