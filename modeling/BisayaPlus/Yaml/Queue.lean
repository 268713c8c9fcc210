import BisayaPlus.Yaml.Token
/-!
# The queue of tokens

Tokens wait in a queue, because a mapping and its key may start at a token that
is known for a key only when the colon after it is found. Up to then the token
is kept back. A key without a question mark has to stand on one line, and its
colon at most 1024 characters after its start.
-/

set_option autoImplicit false

namespace BisayaPlus.Yaml

/-- A place where a key may have started. -/
structure KeyStart where
  /-- A colon here would make it a key. -/
  possible : Bool := false
  /-- It has to be a key, since it stands where the block's keys do. -/
  required : Bool := false
  /-- The token at it is kept back. -/
  awaited : Bool := false
  /-- The number of the token. -/
  number : Nat := 0
  mark : Mark := {}

/-- How many characters after its start the colon of a key may stand. -/
def keyReach : Nat := 1024

/-- A key that starts here would have had its colon before a place. -/
def KeyStart.isOver (k : KeyStart) (m : Mark) : Bool :=
  k.mark.line < m.line || k.mark.index + keyReach < m.index

/-- The greatest depth of collections, in each style. -/
def maxDepth : Nat := 10000

/-- The tokens that are read and not taken, and what decides on the next. -/
structure Queue where
  cursor : Cursor
  started : Bool := false
  tokens : List Token := []
  /-- How many tokens were taken. -/
  taken : Nat := 0
  /-- The last place where a key may have started, for each open flow
  collection and the block around them, the innermost first. -/
  keys : List KeyStart := [{}]
  keyAllowed : Bool := true
  /-- The column of the innermost block, below zero for none. -/
  indent : Int := -1
  /-- Those of the blocks around it. -/
  outer : List Int := []
  /-- The number of open flow collections. -/
  flow : Nat := 0

/-- Reads from a queue, or finds a fault. -/
abbrev Feed := StateT Queue (Except Fault)

namespace Feed

/-- Reads from the cursor. -/
def scan {α : Type} (s : CharReader α) : Feed α := do
  let q ← get
  let (a, c) ← s.run q.cursor
  set { q with cursor := c }
  return a

/-- Stops with a problem in something that starts at a mark. -/
def refuse {α : Type} (start : Mark) (problem : Problem) : Feed α := scan (CharReader.refuse start problem)

/-- Adds a token at the end. -/
def push (kind : TokenKind) (line : Nat) : Feed Unit :=
  modify fun q => { q with tokens := q.tokens ++ [⟨kind, line⟩] }

/-- Adds a token before the one with a number, at the end if that is taken. -/
def insert (number : Nat) (kind : TokenKind) (line : Nat) : Feed Unit :=
  modify fun q =>
    if number < q.taken then { q with tokens := q.tokens ++ [⟨kind, line⟩] }
    else
      let (before, after) := q.tokens.splitAt (number - q.taken)
      { q with tokens := before ++ ⟨kind, line⟩ :: after }

/-! ## Keys -/

/-- A key may start with the next token or not. -/
def allowKey (b : Bool) : Feed Unit := modify fun q => { q with keyAllowed := b }

/-- The place where the innermost key may have started. -/
def lastKey : Feed KeyStart := return (← get).keys.headD {}

/-- A colon at the cursor would make this a key. -/
def holds (k : KeyStart) : Feed Bool := do
  if !k.possible then return false
  else if k.isOver (← get).cursor.mark then
    if k.required then refuse k.mark .keyWithoutValue
    return false
  else return true

/-- Gives up the innermost key, unless there has to be one. -/
def dropKey : Feed Unit := do
  let k ← lastKey
  if k.possible then
    if k.required then refuse k.mark .keyWithoutValue
    modify fun q => { q with keys := { k with possible := false, awaited := false } :: q.keys.drop 1 }

/-- Notes that a key may start at the cursor, where keys are allowed. -/
def saveKey : Feed Unit := do
  let q ← get
  if q.keyAllowed then
    dropKey
    let k : KeyStart :=
      { possible := true
        required := q.flow = 0 && q.indent = q.cursor.mark.column
        awaited := true
        number := q.taken + q.tokens.length
        mark := q.cursor.mark }
    modify fun q => { q with keys := k :: q.keys.drop 1 }

/-- Enters a flow collection. -/
def enterFlow : Feed Unit := do
  let q ← get
  if maxDepth ≤ q.flow then refuse q.cursor.mark .depth
  let k : KeyStart := { number := q.taken + q.tokens.length, mark := q.cursor.mark }
  set { q with keys := k :: q.keys, flow := q.flow + 1 }

/-- Leaves a flow collection, if there is one. A token that might have started
a key in it or at its opening sign is kept back no longer. -/
def leaveFlow : Feed Unit :=
  modify fun q =>
    match q.flow, q.keys with
    | flow + 1, inner :: k :: more =>
      let k := if k.number = inner.number then { k with awaited := false } else k
      { q with flow := flow, keys := k :: more }
    | _, _ => q

/-! ## Blocks -/

/-- Enters a block at a column, unless one is open there. Its token comes
before the one with the number, or at the end. -/
def enterBlock (column : Nat) (number : Option Nat) (kind : TokenKind) (line : Nat) : Feed Unit := do
  let q ← get
  if q.flow = 0 && q.indent < column then
    if maxDepth ≤ q.outer.length then refuse (← lastKey).mark .depth
    set { q with indent := column, outer := q.indent :: q.outer }
    match number with
    | some number => insert number kind line
    | none => push kind line

/-- Leaves the blocks to the right of a column. -/
def leaveBlocksFrom (column : Int) (line : Nat) : List Int → Feed Unit
  | [] => pure ()
  | around :: more => do
    if column < (← get).indent then
      push .blockEnd line
      modify fun q => { q with indent := around, outer := more }
      leaveBlocksFrom column line more

/-- Leaves the blocks to the right of a column, outside flow collections. -/
def leaveBlocks (column : Int) (line : Nat) : Feed Unit := do
  let q ← get
  if q.flow = 0 then leaveBlocksFrom column line q.outer

/-! ## Single tokens -/

/-- Reads a token from the cursor and adds it. -/
def read (s : CharReader TokenKind) : Feed Unit := do
  let line := (← get).cursor.mark.line
  let kind ← scan s
  push kind line

/-- Reads a sign. -/
def readSign (kind : TokenKind) (width : Nat) : Feed Unit :=
  read do
    skipChars width
    return kind

/-- Goes past blanks, comments and line breaks. Tabs count as blanks where no
key may start. -/
def toToken : Nat → Feed Unit
  | 0 => pure ()
  | n + 1 => do
    scan (CharReader.need 1)
    let q ← get
    if q.cursor.marked && q.cursor.mark.column = 0 then scan CharReader.skip
    let tabs := 0 < q.flow || !q.keyAllowed
    let ch ← scan do
      CharReader.skipWhile fun ch => ch == ' ' || (tabs && ch == '\t')
      if (← CharReader.peek) == '#' then CharReader.skipComments
      CharReader.peek
    if isBreak ch then
      scan CharReader.skipBreak
      if q.flow = 0 then allowKey true
      toToken n

/-- Reads the end of the source, which is on a line of its own. -/
def readEnd : Feed Unit := do
  modify fun q =>
    let m := q.cursor.mark
    if m.column = 0 then q
    else { q with cursor := { q.cursor with mark := { m with line := m.line + 1, column := 0 } } }
  let line := (← get).cursor.mark.line
  leaveBlocks (-1) line
  dropKey
  allowKey false
  push .streamEnd line

/-- Reads something that ends all blocks. -/
def readBetween (s : CharReader TokenKind) : Feed Unit := do
  leaveBlocks (-1) (← get).cursor.mark.line
  dropKey
  allowKey false
  read s

/-- Reads the sign that opens a flow collection. -/
def readOpening (kind : TokenKind) : Feed Unit := do
  saveKey
  enterFlow
  allowKey true
  readSign kind 1

/-- Reads the sign that closes a flow collection. -/
def readClosing (kind : TokenKind) : Feed Unit := do
  dropKey
  leaveFlow
  allowKey false
  readSign kind 1

/-- Reads the sign between the entries of a flow collection. -/
def readSeparator : Feed Unit := do
  dropKey
  allowKey true
  readSign .separator 1

/-- Reads the sign of an entry in a block sequence. -/
def readEntry : Feed Unit := do
  let q ← get
  let m := q.cursor.mark
  if q.flow = 0 then
    if !q.keyAllowed then refuse m .entryPlace
    enterBlock m.column none .blockSequence m.line
  dropKey
  allowKey true
  readSign .entry 1

/-- Reads the sign before a key. -/
def readKey : Feed Unit := do
  let q ← get
  let m := q.cursor.mark
  if q.flow = 0 then
    if !q.keyAllowed then refuse m .keyPlace
    enterBlock m.column none .blockMapping m.line
  dropKey
  allowKey (q.flow = 0)
  readSign .key 1

/-- Reads the sign before a value. What stands before it on the line is its
key, if it can be one. -/
def readValue : Feed Unit := do
  let q ← get
  let m := q.cursor.mark
  let k ← lastKey
  if ← holds k then
    insert k.number .key k.mark.line
    enterBlock k.mark.column (some k.number) .blockMapping k.mark.line
    modify fun q => { q with keys := { k with possible := false, awaited := false } :: q.keys.drop 1 }
    allowKey false
  else
    if q.flow = 0 then
      if !q.keyAllowed then refuse m .valuePlace
      enterBlock m.column none .blockMapping m.line
    allowKey (q.flow = 0)
  readSign .value 1

/-- Reads something that may be, or be part of, a key. -/
def readInline (s : CharReader TokenKind) : Feed Unit := do
  saveKey
  allowKey false
  read s

/-- Reads a block scalar. -/
def readBlockScalar (literal : Bool) : Feed Unit := do
  let indent := (← get).indent
  dropKey
  allowKey true
  read do return .scalar false (← blockScalar literal indent)

/-- Reads a plain scalar. A key may start after one that ends with its line. -/
def readPlain : Feed Unit := do
  let q ← get
  saveKey
  allowKey false
  let line := q.cursor.mark.line
  let (text, broken) ← scan (plainScalar (0 < q.flow) q.indent)
  if broken then allowKey true
  push (.scalar true text) line

/-- A character that starts no plain scalar by itself. -/
def isSign (ch : Char) : Bool := "-?:,[]{}#&*!|>'\"%@".toList.contains ch || ch == Char.ofNat 0x60

/-- A plain scalar may start with these two characters. -/
def startsPlain (flow : Bool) (first second : Char) : Bool :=
  !(isGap first || isSign first) || (first == '-' && !isBlank second) ||
    (!flow && (first == '?' || first == ':') && !isGap second)

/-- Reads the token at the cursor, which starts with these two characters. -/
def readToken (first second : Char) : Feed Unit := do
  let q ← get
  let flow := 0 < q.flow
  let spaced := flow || isGap second
  if first == '[' then readOpening .flowSequence
  else if first == '{' then readOpening .flowMapping
  else if first == ']' then readClosing .flowSequenceEnd
  else if first == '}' then readClosing .flowMappingEnd
  else if first == ',' then readSeparator
  else if first == '-' && isGap second then readEntry
  else if first == '?' && spaced then readKey
  else if first == ':' && spaced then readValue
  else if first == '*' then readInline do return .reference (← anchorName)
  else if first == '&' then readInline do return .anchor (← anchorName)
  else if first == '!' then readInline tag
  else if first == '|' && !flow then readBlockScalar true
  else if first == '>' && !flow then readBlockScalar false
  else if first == '\'' then readInline do return .scalar false (← quotedScalar true)
  else if first == '"' then readInline do return .scalar false (← quotedScalar false)
  else if startsPlain flow first second then readPlain
  else refuse q.cursor.mark .noToken

/-- Goes past a comment after the last token, unless that is the sign of an
entry. -/
def afterToken : Feed Unit := do
  let q ← get
  match q.tokens.getLast? with
  | some ⟨.entry, _⟩ => pure ()
  | _ => scan CharReader.skipLineComment

/-- Reads the next token. -/
def fetch : Feed Unit := do
  scan (CharReader.need 1)
  let q ← get
  if !q.started then
    set { q with started := true }
    push .streamStart q.cursor.mark.line
  else
    toToken q.cursor.bound
    leaveBlocks (← get).cursor.mark.column q.cursor.mark.line
    scan (CharReader.need 4)
    let c := (← get).cursor
    if c.char 0 == ending then readEnd
    else if c.mark.column = 0 && c.char 0 == '%' then readBetween directive
    else if c.atSign '-' then readBetween do skipChars 3; return .documentStart
    else if c.atSign '.' then readBetween do skipChars 3; return .documentEnd
    else
      readToken (c.char 0) (c.char 1)
      afterToken

/-! ## Taking tokens -/

/-- The first token is kept back, since a key may start at it. -/
def isKept : Feed Bool := do
  let q ← get
  match (q.keys.takeWhile (q.taken ≤ ·.number)).find? fun k => k.awaited && k.number = q.taken with
  | some k => holds k
  | none => return false

/-- Reads tokens until three are there and the first is not kept back. -/
def fill : Nat → Feed Unit
  | 0 => pure ()
  | n + 1 => do
    let more ← if ((← get).tokens.drop 2).isEmpty then pure true else isKept
    if more then
      fetch
      fill n

/-- The first token. -/
def peek : Feed Token := do
  fill ((← get).cursor.bound + 4)
  let q ← get
  return q.tokens.headD ⟨.streamEnd, q.cursor.mark.line⟩

/-- Takes the first token. -/
def next : Feed Unit := modify fun q => { q with tokens := q.tokens.drop 1, taken := q.taken + 1 }

end Feed

end BisayaPlus.Yaml
