import BisayaPlus.Yaml.Cursor
/-!
# Scalars

Reads a scalar as it is written, without quotes, in quotes or as a block, and
gives its text. Between lines, one break becomes a space and each further one a
line feed, except in a literal block.
-/

set_option autoImplicit false

namespace BisayaPlus.Yaml

open CharReader

/-! ## Folding -/

/-- A text that is being read, and the blanks and breaks after it, all in
reverse. -/
structure Folding where
  text : List Char := []
  blanks : List Char := []
  /-- A line has ended after the text. -/
  broken : Bool := false
  /-- The first break after the text, unless it is escaped. -/
  first : Option Char := none
  further : List Char := []

namespace Folding

/-- Adds what the blanks and breaks after the text stand for. -/
def joined (f : Folding) : Folding :=
  if f.broken then
    match f.first with
    | some '\n' => { text := if f.further.isEmpty then ' ' :: f.text else f.further ++ f.text }
    | some ch => { text := f.further ++ ch :: f.text }
    | none => { text := f.further ++ f.text }
  else { text := f.blanks ++ f.text }

/-- Adds a character. -/
def push (f : Folding) (ch : Char) : Folding := { f with text := ch :: f.text }

/-- The text without what comes after it. -/
def value (f : Folding) : Text := f.text.reverse.flatMap Text.ofChar

end Folding

/-- Goes past blanks and breaks after a text. Where `margin` is given, for a
scalar that starts at a mark, no tab may stand before that column. -/
def foldGap (margin : Option (Mark × Int)) : Nat → Folding → CharReader Folding
  | 0, f => return f
  | n + 1, f => do
    need 1
    let ch ← peek
    if isBlank ch then
      match margin with
      | some (start, column) =>
        if f.broken && ((← here).column : Int) < column && ch == '\t' then refuse start .tabViolation
      | none => pure ()
      skip
      foldGap margin n (if f.broken then f else { f with blanks := ch :: f.blanks })
    else if isBreak ch then
      let br ← takeBreak
      foldGap margin n
        (if f.broken then { f with further := br ++ f.further }
        else { f with blanks := [], broken := true, first := br.head? })
    else return f

/-! ## Plain scalars -/

/-- A character that ends a plain scalar in a flow collection. -/
def isFlowSign (ch : Char) : Bool :=
  ch == ',' || ch == '?' || ch == '[' || ch == ']' || ch == '{' || ch == '}'

/-- Reads the characters of a plain scalar up to a gap or its end. -/
def plainWord (flow : Bool) : Nat → Folding → CharReader Folding
  | 0, f => return f
  | n + 1, f => do
    let ch ← peek
    if isGap ch || (ch == ':' && isGap (← peekSecond)) || (flow && isFlowSign ch) then return f
    else
      skip
      need 2
      plainWord flow n (f.joined.push ch)

/-- Reads the words of a plain scalar that starts at a mark. -/
def plainWords (flow : Bool) (indent : Int) (start : Mark) : Nat → Folding → CharReader Folding
  | 0, f => return f
  | n + 1, f => do
    need 4
    if (← get).atDocumentMark || (← peek) == '#' then return f
    let f ← plainWord flow (← bound) f
    let ch ← peek
    if !(isBlank ch || isBreak ch) then return f
    let f ← foldGap (some (start, indent + 1)) (← bound) f
    if !flow && ((← here).column : Int) ≤ indent then return f
    plainWords flow indent start n f

/-- Reads a plain scalar inside a collection of this indentation. The second
part tells whether a line has ended after it. -/
def plainScalar (flow : Bool) (indent : Int) : CharReader (Text × Bool) := do
  let f ← plainWords flow indent (← here) (← bound) {}
  return (f.value, f.broken)

/-! ## Quoted scalars -/

/-- The characters with a short escape. -/
def escapes : List (Char × Char) := [
  ('0', Char.ofNat 0), ('a', '\x07'), ('b', '\x08'), ('t', '\t'), ('\t', '\t'), ('n', '\n'), ('v', '\x0b'),
  ('f', '\x0c'), ('r', '\r'), ('e', '\x1b'), (' ', ' '), ('"', '"'), ('\'', '\''), ('\\', '\\'),
  ('N', Char.ofNat 0x85), ('_', Char.ofNat 0xA0), ('L', Char.ofNat 0x2028), ('P', Char.ofNat 0x2029)]

/-- The number of digits of a coded escape. -/
def codeLength : Char → Nat
  | 'x' => 2
  | 'u' => 4
  | 'U' => 8
  | _ => 0

/-- The code written in hexadecimal digits. -/
def hexCode? : List Char → Nat → Option Nat
  | [], code => some code
  | ch :: more, code =>
    match hexValue? ch with
    | some digit => hexCode? more (code * 16 + digit)
    | none => none

/-- Goes past a number of characters. -/
def skipChars : Nat → CharReader Unit
  | 0 => pure ()
  | n + 1 => do
    skip
    skipChars n

/-- Reads an escape in a scalar that starts at a mark. -/
def escape (start : Mark) : CharReader Char := do
  let sign ← peekSecond
  match escapes.lookup sign with
  | some ch =>
    skipChars 2
    return ch
  | none =>
    let length := codeLength sign
    if length = 0 then refuse start .unknownEscape
    skipChars 2
    need length
    match hexCode? ((List.range length).map (← get).char) 0 with
    | none => refuse start .hexadecimal
    | some code =>
      if !code.isValidChar then refuse start .escapedCode
      skipChars length
      return Char.ofNat code

/-- Reads the characters of a quoted scalar up to a gap or its end. -/
def quotedWord (single : Bool) (start : Mark) : Nat → Folding → CharReader Folding
  | 0, f => return f
  | n + 1, f => do
    let ch ← peek
    let second ← peekSecond
    if isGap ch then return f
    else if single && ch == '\'' && second == '\'' then
      skipChars 2
      need 2
      quotedWord single start n (f.push '\'')
    else if ch == (if single then '\'' else '"') then return f
    else if !single && ch == '\\' && isBreak second then
      need 3
      skip
      skipBreak
      return { f with broken := true }
    else if !single && ch == '\\' then
      let value ← escape start
      need 2
      quotedWord single start n (f.push value)
    else
      skip
      need 2
      quotedWord single start n (f.push ch)

/-- Reads the words of a quoted scalar that starts at a mark. -/
def quotedWords (single : Bool) (start : Mark) : Nat → Folding → CharReader Folding
  | 0, f => return f
  | n + 1, f => do
    need 4
    if (← get).atDocumentMark then refuse start .markInQuotes
    if (← peek) == ending then refuse start .endInQuotes
    let f ← quotedWord single start (← bound) f
    need 1
    if (← peek) == (if single then '\'' else '"') then return f
    let f ← foldGap none (← bound) f
    quotedWords single start n f.joined

/-- Reads a scalar in single or double quotes. -/
def quotedScalar (single : Bool) : CharReader Text := do
  let start ← here
  skip
  let f ← quotedWords single start (← bound) {}
  skip
  return f.value

/-! ## Block scalars -/

/-- What is done with the breaks at the end of a block. -/
inductive Chomping where
  | strip
  | clip
  | keep
  deriving DecidableEq

/-- Reads how the end of a block is treated, if that is written. -/
def chomping? : CharReader (Option Chomping) := do
  need 1
  match ← peek with
  | '+' =>
    skip
    return some .keep
  | '-' =>
    skip
    return some .strip
  | _ => return none

/-- Reads the indentation of a block, zero if it is not written. -/
def increment (start : Mark) : CharReader Nat := do
  need 1
  let ch ← peek
  if ch == '0' then refuse start .zeroIndentation
  if ch.isDigit then
    skip
    return ch.toNat - 48
  else return 0

/-- Reads what may follow the sign of a block, in either order. -/
def blockHeader (start : Mark) : CharReader (Chomping × Nat) := do
  match ← chomping? with
  | some chomping => return (chomping, ← increment start)
  | none =>
    let n ← increment start
    if n = 0 then return (.clip, 0)
    else return ((← chomping?).getD .clip, n)

/-- Goes past indentation and empty lines of a block. A column of zero stands
for one that is not known yet. Gives the widest indentation and the breaks, in
reverse. -/
def blockGap (start : Mark) (column : Nat) : Nat → Nat → List Char → CharReader (Nat × List Char)
  | 0, widest, breaks => return (widest, breaks)
  | n + 1, widest, breaks => do
    if column = 0 then skipWhile (· == ' ')
    else skipWhileWithin (· == ' ') (column - (← here).column)
    need 1
    let reached := (← here).column
    let ch ← peek
    if (column = 0 || reached < column) && ch == '\t' then refuse start .tabIndentation
    if isBreak ch then
      let br ← takeBreak
      blockGap start column n (max widest reached) (br ++ breaks)
    else return (max widest reached, breaks)

/-- A block that is being read: its text and the breaks after it, in reverse. -/
structure BlockText where
  text : List Char := []
  /-- The last line starts with a blank. -/
  indented : Bool := false
  /-- The break after the last line. -/
  first : List Char := []
  further : List Char := []

/-- The breaks before a next line, in reverse. A single break between two lines
that start with no blank is folded unless the block is literal. -/
def BlockText.gap (b : BlockText) (literal blank : Bool) : List Char :=
  if !literal && !b.indented && !blank && b.first == ['\n'] then
    if b.further.isEmpty then [' '] else b.further
  else b.further ++ b.first

/-- Reads the lines of a block with a column. -/
def blockLines (start : Mark) (literal : Bool) (column : Nat) : Nat → BlockText → CharReader BlockText
  | 0, b => return b
  | n + 1, b => do
    need 1
    let ch ← peek
    if (← here).column != column || ch == ending then return b
    let blank := isBlank ch
    let line ← takeWhile fun ch => !isLineEnd ch
    let br ← takeBreak
    let (_, further) ← blockGap start column (← bound) 0 []
    blockLines start literal column n
      { text := line.reverse ++ b.gap literal blank ++ b.text, indented := blank, first := br, further := further }

/-- The text of a block. -/
def BlockText.value (b : BlockText) (chomping : Chomping) : Text :=
  let text :=
    match chomping with
    | .strip => b.text
    | .clip => b.first ++ b.text
    | .keep => b.further ++ b.first ++ b.text
  text.reverse.flatMap Text.ofChar

/-- Reads a block scalar inside a collection of this indentation. -/
def blockScalar (literal : Bool) (indent : Int) : CharReader Text := do
  let start ← here
  skip
  let (chomping, increment) ← blockHeader start
  skipWhile isBlank
  if (← peek) == '#' then skipWhile fun ch => !isLineEnd ch
  if !isLineEnd (← peek) then refuse start .noCommentOrBreak
  if isBreak (← peek) then skipBreak
  let column := if increment = 0 then 0 else (max indent 0).toNat + increment
  let (widest, breaks) ← blockGap start column (← bound) 0 []
  let column := if column = 0 then max (max widest (indent + 1).toNat) 1 else column
  let b ← blockLines start literal column (← bound) { further := breaks }
  return b.value chomping

end BisayaPlus.Yaml
