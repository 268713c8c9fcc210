import BisayaPlus.Diagnostic
import BisayaPlus.Number.Numeral
/-!
# Scanning

A source is cut into consecutive segments: tokens, single blanks, comments and
stretches that are at fault. Each segment is decided by the bytes at its start
and by the token before it, which tells a decrement from a comment.
-/

set_option autoImplicit false

namespace BisayaPlus

open Text

/-- What a segment of the source is. -/
inductive Piece where
  | token (kind : Kind) (literal : Option Value)
  | blank
  | comment
  | fault (fault : ScanFault)
  deriving DecidableEq

namespace Scan

/-! ## Spellings -/

/-- The signs, longer ones first. The two meanings of `--` are told apart
elsewhere. -/
def signs : List (String × Kind) := [
  ("++", .plusPlus), ("+=", .plusEqual), ("-=", .minusEqual), ("*=", .starEqual), ("/=", .slashEqual),
  ("%=", .percentEqual), ("==", .equalEqual), ("<>", .notEqual), ("<=", .lessEqual), (">=", .greaterEqual),
  ("(", .leftParen), (")", .rightParen), ("\x7b", .leftBrace), ("\x7d", .rightBrace), (",", .comma),
  (":", .colon), ("&", .ampersand), ("$", .dollar), ("+", .plus), ("-", .minus), ("*", .star),
  ("/", .slash), ("%", .percent), ("=", .equal), ("<", .less), (">", .greater), ("\n", .newline)]

/-- The reserved words. -/
def keywords : List (String × Kind) := [
  ("SUGOD", .sugod), ("KATAPUSAN", .katapusan), ("MUGNA", .mugna), ("IPAKITA", .ipakita), ("DAWAT", .dawat),
  ("NUMERO", .numero), ("TIPIK", .tipik), ("LETRA", .letra), ("TINUOD", .tinuod), ("UG", .ug), ("O", .o),
  ("DILI", .dili), ("OO", .oo), ("NULL", .null), ("KUNG", .kung), ("MINTRAS", .mintras),
  ("BUHATA", .buhata), ("HUNONG", .hunong), ("PADAYON", .padayon), ("PUNDOK", .pundok)]

/-- The reserved phrases: two words with exactly one space between. -/
def phrases : List (String × Kind) := [
  ("KUNG PA", .kungPa), ("KUNG WALA", .kungWala), ("KUNG DILI", .kungWala), ("ALANG SA", .alangSa)]

/-- The kind with a spelling in a table. -/
def spelled? (table : List (String × Kind)) (t : Text) : Option Kind :=
  (table.find? fun entry => ofString entry.1 == t).map (·.2)

/-- The tokens after which an operand is expected. -/
def expectsOperand : Kind → Bool
  | .equal | .leftParen | .comma | .colon | .plus | .minus | .star | .slash | .percent
  | .plusEqual | .minusEqual | .starEqual | .slashEqual | .percentEqual
  | .equalEqual | .notEqual | .greater | .greaterEqual | .less | .lessEqual
  | .ampersand | .ug | .o | .dili => true
  | _ => false

/-- What the escape letters stand for. -/
def escapeValue : UInt8 → UInt8
  | 110 => 10
  | 116 => 9
  | 114 => 13
  | b => b

/-! ## One segment -/

/-- The last token before a place, and whether it ends right there. -/
structure Before where
  kind : Option Kind := none
  touching : Bool := false

/-- The state before the next segment. -/
def Before.after (before : Before) : Piece → Before
  | .token kind _ => { kind := some kind, touching := true }
  | _ => { before with touching := false }

/-- Two minus signs are a decrement right after a name, and also where an
operand is expected and a letter follows. -/
def isDecrement (before : Before) (afterSigns : Text) : Bool :=
  match before.kind with
  | none => false
  | some kind => (kind == .identifier && before.touching) || (expectsOperand kind && afterSigns.head?.any isLetter)

/-- The text up to the closing quote. It may span lines. -/
def stringPiece (t : Text) : Piece × Nat :=
  let body := t.takeWhile (· != byte '"')
  if body.length < t.length then (.token .string (some (.pulong body)), body.length + 1)
  else (.fault .unterminatedString, body.length)

/-- One character up to the closing quote on the same line. -/
def charPiece (t : Text) : Piece × Nat :=
  let body := t.takeWhile fun b => b != byte '\'' && b != lineFeed
  if (t.drop body.length).head? == some (byte '\'') then
    match single? body with
    | some c => (.token .char (some (.letra (Int32.ofInt c.toNat))), body.length + 1)
    | none => (.fault .invalidCharacter, body.length + 1)
  else (.fault .unterminatedCharacter, body.length)

/-- At most one byte up to the closing bracket on the same line. The closing
bracket itself is written as `[]]`. -/
def escapePiece (t : Text) : Piece × Nat :=
  let body := t.takeWhile fun b => b != byte ']' && b != lineFeed
  match t.drop body.length with
  | 93 :: rest =>
    match body with
    | [] =>
      if rest.head? == some (byte ']') then (.token .escape (some (.pulong [byte ']'])), 2)
      else (.token .escape (some (.pulong [])), 1)
    | [b] => (.token .escape (some (.pulong [escapeValue b])), 2)
    | _ => (.fault .invalidEscape, body.length + 1)
  | _ => (.fault .unterminatedEscape, body.length)

/-- The length of digits with an optional fraction, and whether there is a
fraction. -/
def mantissa (s : Text) : Nat × Bool :=
  let whole := s.takeWhile isDigit
  match s.drop whole.length with
  | 46 :: rest =>
    let fraction := rest.takeWhile isDigit
    if fraction.isEmpty then (whole.length, false) else (whole.length + 1 + fraction.length, true)
  | _ => (whole.length, false)

/-- The value of a numeral: real if it has a fraction or an exponent. -/
def numeralPiece (isReal : Bool) (lexeme : Text) : Piece :=
  let value := if isReal then (Numeral.real? lexeme).map .tipik else (Numeral.int64? lexeme).map .numero
  match value with
  | some v => .token .number (some v)
  | none => .fault .invalidNumber

/-- Digits with an optional fraction and an optional exponent, with the length
of the whole. -/
def numberPiece (s : Text) : Piece × Nat :=
  let (size, hasFraction) := mantissa s
  match s.drop size with
  | e :: rest =>
    if lowerByte e == byte 'e' then
      let signSize := if rest.head? == some (byte '+') || rest.head? == some (byte '-') then 1 else 0
      let digits := (rest.drop signSize).takeWhile isDigit
      let total := size + 1 + signSize + digits.length
      if digits.isEmpty then (.fault .invalidExponent, total) else (numeralPiece true (s.take total), total)
    else (numeralPiece hasFraction (s.take size), size)
  | [] => (numeralPiece hasFraction (s.take size), size)

/-- The phrase that a word starts, given what follows the word, with the length
of its remainder. -/
def phrase? (word following : Text) : Option (Kind × Nat) :=
  match following with
  | 32 :: rest =>
    let second := rest.takeWhile isWordByte
    (spelled? phrases (word ++ 32 :: second)).map fun kind => (kind, second.length + 1)
  | _ => none

/-- A name, a reserved word or a reserved phrase. -/
def wordPiece (b : UInt8) (t : Text) : Piece × Nat :=
  let tail := t.takeWhile isWordByte
  match phrase? (b :: tail) (t.drop tail.length) with
  | some (kind, size) => (.token kind none, tail.length + size)
  | none => (.token ((spelled? keywords (b :: tail)).getD .identifier) none, tail.length)

/-- The sign at the front, with its length. -/
def sign? (s : Text) : Option (Kind × Nat) :=
  (signs.find? fun entry => (ofString entry.1).isPrefixOf s).map fun entry => (entry.2, (ofString entry.1).length)

/-- What the segment starting with this byte is, and how many bytes after the
first belong to it. -/
def pieceAt (before : Before) (b : UInt8) (t : Text) : Piece × Nat :=
  if b == byte '-' && t.head? == some (byte '-') then
    if isDecrement before (t.drop 1) then (.token .minusMinus none, 1)
    else (.comment, (t.takeWhile (· != lineFeed)).length)
  else if b == 32 || b == 13 || b == 9 then (.blank, 0)
  else if b == byte '"' then stringPiece t
  else if b == byte '\'' then charPiece t
  else if b == byte '[' then escapePiece t
  else if isDigit b || (b == byte '.' && t.head?.any isDigit) then
    let (piece, size) := numberPiece (b :: t)
    (piece, size - 1)
  else if isLetter b then wordPiece b t
  else
    match sign? (b :: t) with
    | some (kind, size) => (.token kind none, size - 1)
    | none => (.fault .unexpectedCharacter, ((front? (b :: t)).elim 1 Char.utf8Size) - 1)

/-! ## The whole source -/

/-- A stretch of the source, with its offset and the line counter at its start. -/
structure Segment where
  piece : Piece
  bytes : Text
  pos : Nat
  line : Nat
  deriving DecidableEq

/-- The line counter when a segment has been read. A text counts the line feeds
it goes over, also if it is not closed, and nothing else does. -/
def Segment.endLine (s : Segment) : Nat :=
  match s.piece with
  | .token .string _ | .fault .unterminatedString => s.line + lineFeeds s.bytes
  | _ => s.line

/-- The line counter for the next segment. A newline counts after its token is
made. -/
def Segment.nextLine (s : Segment) : Nat :=
  match s.piece with
  | .token .newline _ => s.endLine + 1
  | _ => s.endLine

/-- The token a segment is. -/
def Segment.token? (s : Segment) : Option Token :=
  match s.piece with
  | .token kind literal =>
    some { kind := kind, lexeme := s.bytes, literal := literal, line := s.endLine, pos := some s.pos }
  | _ => none

/-- The report of a segment at fault, which quotes its first line. -/
def Segment.diagnostic? (s : Segment) : Option Diagnostic :=
  match s.piece with
  | .fault fault =>
    let quoted := s.bytes.takeWhile (· != lineFeed)
    some { phase := .reading, line := s.endLine, place := (" at '" : String) ++ quoted ++ ("'" : String),
           message := fault.message }
  | _ => none

/-- The segments of a text, given what stands before it. -/
def segmentsFrom (before : Before) (pos line : Nat) : Text → List Segment
  | [] => []
  | b :: t =>
    let found := pieceAt before b t
    let segment : Segment := { piece := found.1, bytes := b :: t.take found.2, pos := pos, line := line }
    segment :: segmentsFrom (before.after found.1) (pos + segment.bytes.length) segment.nextLine (t.drop found.2)
termination_by s => s.length
decreasing_by simp only [List.length_drop, List.length_cons]; omega

/-- The line counter behind segments, given the one before them. -/
def lineAfter (line : Nat) (parts : List Segment) : Nat := parts.getLast?.elim line Segment.nextLine

end Scan

open Scan

/-- The segments of a source. -/
def segments (source : Text) : List Segment := segmentsFrom {} 0 1 source

/-- What scanning a source gives: its tokens, of which the last marks the end,
the reports of what is at fault, and the number of the last line. -/
structure Scanned where
  tokens : List Token
  diagnostics : List Diagnostic
  lastLine : Nat
  deriving DecidableEq

/-- Scans a source. -/
def scan (source : Text) : Scanned :=
  let parts := segments source
  let lastLine := lineAfter 1 parts
  let eof : Token := { kind := .eof, lexeme := [], line := lastLine, pos := some source.length }
  { tokens := parts.filterMap Segment.token? ++ [eof],
    diagnostics := parts.filterMap Segment.diagnostic?,
    lastLine := lastLine }

end BisayaPlus
