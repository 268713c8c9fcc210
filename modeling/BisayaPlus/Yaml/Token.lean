import BisayaPlus.Yaml.Scalar
/-!
# Tokens

The signs and scalars of a YAML text, among them the starts and ends of blocks,
which only the indentation shows.
-/

set_option autoImplicit false

namespace BisayaPlus.Yaml

open CharReader

/-- What a token is. -/
inductive TokenKind where
  | streamStart
  | streamEnd
  | version (major minor : Nat)
  | handle (name expansion : Text)
  | documentStart
  | documentEnd
  | blockSequence
  | blockMapping
  | blockEnd
  | entry
  | key
  | value
  | flowSequence
  | flowSequenceEnd
  | flowMapping
  | flowMappingEnd
  | separator
  | reference (name : Text)
  | anchor (name : Text)
  | tag (handle suffix : Text)
  | scalar (plain : Bool) (text : Text)
  deriving DecidableEq

/-- A token and the line it starts on, counted from zero. -/
structure Token where
  kind : TokenKind
  line : Nat
  deriving DecidableEq

/-- The bytes of characters. -/
def bytes (list : List Char) : Text := list.flatMap Text.ofChar

/-! ## Anchors -/

/-- A character that may follow the name of an anchor. -/
def endsAnchor (ch : Char) : Bool :=
  isGap ch || ch == '?' || ch == ':' || ch == ',' || ch == ']' || ch == '}' || ch == '%' || ch == '@' ||
    ch == Char.ofNat 0x60

/-- Reads the name of an anchor after its sign. -/
def anchorName : CharReader Text := do
  let start ← here
  skip
  let name ← takeWhile isNameChar
  if name.isEmpty || !endsAnchor (← peek) then refuse start .anchorName
  return bytes name

/-! ## Tags -/

/-- A character of a tag, apart from those of names. -/
def isTagSign (ch : Char) : Bool := ";/?:@&=+$,.%!~*'()[]".toList.contains ch

/-- Reads an escaped byte. -/
def escapedByte (start : Mark) : CharReader UInt8 := do
  need 3
  let c ← get
  match c.char 0 == '%', hexValue? (c.char 1), hexValue? (c.char 2) with
  | true, some high, some low =>
    skipChars 3
    return (high * 16 + low).toUInt8
  | _, _, _ => refuse start .escapedOctet

/-- Reads escaped bytes that continue a character. -/
def escapedTrail (start : Mark) : Nat → CharReader Text
  | 0 => return []
  | n + 1 => do
    let b ← escapedByte start
    if !isTrailing b then refuse start .escapedTrailingOctet
    return b :: (← escapedTrail start n)

/-- Reads the escaped bytes of a character. -/
def escapedChar (start : Mark) : CharReader Text := do
  let b ← escapedByte start
  if sequenceWidth b = 0 then refuse start .escapedLeadingOctet
  return b :: (← escapedTrail start (sequenceWidth b - 1))

/-- Reads the characters of a tag after those read so far. -/
def tagChars (start : Mark) : Nat → Text → CharReader Text
  | 0, done => return done
  | n + 1, done => do
    need 1
    let ch ← peek
    if ch == '%' then tagChars start n (done ++ (← escapedChar start))
    else if isNameChar ch || isTagSign ch then
      skip
      tagChars start n (done ++ Text.ofChar ch)
    else return done

/-- Reads at least one character of a tag. -/
def tagUri (start : Mark) : CharReader Text := do
  let uri ← tagChars start (← bound) []
  if uri.isEmpty then refuse start .tagUri
  return uri

/-- Reads a handle: an exclamation mark and, if another one follows, the name
between them and that one. Without it, what was read is the start of a tag. -/
def tagHandle (start : Mark) : CharReader (Text × Bool) := do
  need 1
  if (← peek) != '!' then refuse start .tagMark
  skip
  let name := bytes (← takeWhile isNameChar)
  if (← peek) == '!' then
    skip
    return ("!" ++ name ++ "!", true)
  else return ("!" ++ name, false)

/-- Reads a tag. The one that is only an exclamation mark has no handle. -/
def tag : CharReader TokenKind := do
  let start ← here
  need 2
  let (handle, suffix) ←
    if (← peekSecond) == '<' then do
      skipChars 2
      let uri ← tagUri start
      if (← peek) != '>' then refuse start .tagClose
      skip
      pure ([], uri)
    else do
      let (handle, closed) ← tagHandle start
      if closed then pure (handle, ← tagUri start)
      else
        let suffix ← tagChars start (← bound) (handle.drop 1)
        pure (if suffix.isEmpty then ([], Text.ofString "!") else (Text.ofString "!", suffix))
  need 1
  if !isGap (← peek) then refuse start .noBlankOrBreak
  return .tag handle suffix

/-! ## Directives -/

/-- Reads a part of a version number. -/
def versionPart (start : Mark) : Nat → Option Nat → CharReader Nat
  | 0, _ => refuse start .longVersion
  | n + 1, value => do
    need 1
    let ch ← peek
    if ch.isDigit then
      if n = 0 then refuse start .longVersion
      skip
      versionPart start n (some (value.getD 0 * 10 + (ch.toNat - 48)))
    else
      match value with
      | some value => return value
      | none => refuse start .noVersion

/-- Reads the version in a directive. Its parts have at most two digits. -/
def versionDirective (start : Mark) : CharReader TokenKind := do
  skipWhile isBlank
  let major ← versionPart start 3 none
  if (← peek) != '.' then refuse start .versionPoint
  skip
  let minor ← versionPart start 3 none
  return .version major minor

/-- Reads a handle and what it stands for in a directive. -/
def handleDirective (start : Mark) : CharReader TokenKind := do
  skipWhile isBlank
  let (name, closed) ← tagHandle start
  if !closed && name != Text.ofString "!" then refuse start .tagMark
  need 1
  if !isBlank (← peek) then refuse start .noBlank
  skipWhile isBlank
  let expansion ← tagUri start
  need 1
  if !isGap (← peek) then refuse start .noBlankOrBreak
  return .handle name expansion

/-- Reads a directive to the end of its line. -/
def directive : CharReader TokenKind := do
  let start ← here
  skip
  let name ← takeWhile isNameChar
  if name.isEmpty then refuse start .directiveName
  if !isGap (← peek) then refuse start .directiveNameEnd
  let kind ←
    if name == "YAML".toList then versionDirective start
    else if name == "TAG".toList then handleDirective start
    else refuse start .unknownDirective
  skipWhile isBlank
  if (← peek) == '#' then skipWhile fun ch => !isLineEnd ch
  if !isLineEnd (← peek) then refuse start .noCommentOrBreak
  if isBreak (← peek) then skipBreak
  return kind

end BisayaPlus.Yaml
