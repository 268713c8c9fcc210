import BisayaPlus.Yaml.Queue
/-!
# Events

What the tokens of a document say, one after another: scalars, references and
the starts and ends of collections. What may come next is kept as a stack of
goals, so that a document may be as deep as it likes.
-/

set_option autoImplicit false

namespace BisayaPlus.Yaml

/-! ## Events and goals -/

/-- What may stand before a node. An empty tag stands for none. -/
structure Properties where
  anchor : Option Text := none
  tag : Text := []

/-- A step through a document. Lines are counted from zero. -/
inductive Event where
  | reference (name : Text) (line : Nat)
  | scalar (properties : Properties) (plain : Bool) (text : Text) (line : Nat)
  | sequence (properties : Properties) (line : Nat)
  | mapping (properties : Properties) (line : Nat)
  | close

/-- A scalar that is not written. -/
def Event.absent (line : Nat) : Event := .scalar {} true [] line

/-- What is to be read next. The collections keep the line they start on. -/
inductive Goal where
  | node
  | content
  | blockEntry (line : Nat)
  | looseEntry
  | blockKey (line : Nat)
  | blockValue (line : Nat)
  | flowEntry (first : Bool) (line : Nat)
  | pairKey
  | pairValue
  | pairEnd
  | flowKey (first : Bool) (line : Nat)
  | flowValue (line : Nat)
  | flowNoValue (line : Nat)

/-- A document that is being read. -/
structure Outline where
  queue : Queue
  /-- The handles of tags, and what they stand for. -/
  handles : List (Text × Text) := []
  goals : List Goal := []

/-- Reads a document, or finds a fault. -/
abbrev Read := StateT Outline (Except Fault)

namespace Read

/-- Reads from the queue. -/
def feed {α : Type} (f : Feed α) : Read α := do
  let o ← get
  let (a, q) ← f.run o.queue
  set { o with queue := q }
  return a

/-- The next token. -/
def peek : Read Token := feed Feed.peek

/-- Takes a token and looks at the one after it. -/
def advance : Read Token := do
  feed Feed.next
  peek

/-- Takes a token. -/
def skip : Read Unit := feed Feed.next

/-- Stops with a problem at a token, in something that starts on a line. -/
def refuse {α : Type} (start : Nat) (token : Token) (problem : Problem) : Read α :=
  throw { line := if start = 0 then token.line else start, problem := problem }

/-- Adds a goal before the others. -/
def aim (g : Goal) : Read Unit := modify fun o => { o with goals := g :: o.goals }

/-! ## Nodes -/

/-- The whole tag that a handle and a suffix stand for. -/
def wholeTag (start : Nat) (token : Token) (handle suffix : Text) : Read Text := do
  if handle.isEmpty then return suffix
  match (← get).handles.lookup handle with
  | some expansion => return expansion ++ suffix
  | none => refuse start token .undefinedHandle

/-- Reads the anchor and the tag before a node, in either order. -/
def properties : Read Properties := do
  let token ← peek
  match token.kind with
  | .anchor name =>
    let second ← advance
    match second.kind with
    | .tag handle suffix =>
      let _ ← advance
      return { anchor := some name, tag := ← wholeTag token.line second handle suffix }
    | _ => return { anchor := some name }
  | .tag handle suffix =>
    let second ← advance
    match second.kind with
    | .anchor name =>
      let _ ← advance
      return { anchor := some name, tag := ← wholeTag token.line token handle suffix }
    | _ => return { tag := ← wholeTag token.line token handle suffix }
  | _ => return {}

/-- Reads the start of a node. Block collections are possible where `block` says
so, and a sequence that is not indented where `loose` does. -/
def node (block loose : Bool) : Read Event := do
  let start ← peek
  if let .reference name := start.kind then
    skip
    return .reference name start.line
  let p ← properties
  let token ← peek
  let line := start.line
  match token.kind, block with
  | .scalar plain text, _ =>
    skip
    return .scalar p plain text line
  | .flowSequence, _ =>
    aim (.flowEntry true token.line)
    skip
    return .sequence p line
  | .flowMapping, _ =>
    aim (.flowKey true token.line)
    skip
    return .mapping p line
  | .blockSequence, true =>
    aim (.blockEntry token.line)
    skip
    return .sequence p line
  | .blockMapping, true =>
    aim (.blockKey token.line)
    skip
    return .mapping p line
  | kind, _ =>
    if loose && kind = .entry then
      aim .looseEntry
      return .sequence p line
    else if p.anchor.isSome || !p.tag.isEmpty then return .scalar p true [] line
    else refuse line token .noContent

/-! ## Collections -/

/-- Reads on in a block sequence. -/
def blockEntry (line : Nat) : Read Event := do
  let token ← peek
  match token.kind with
  | .entry =>
    aim (.blockEntry line)
    let content ← advance
    match content.kind with
    | .entry | .blockEnd => return .absent token.line
    | _ => node true false
  | .blockEnd =>
    skip
    return .close
  | _ => refuse line token .noEntry

/-- Reads on in a block sequence that is not indented. -/
def looseEntry : Read Event := do
  let token ← peek
  match token.kind with
  | .entry =>
    aim .looseEntry
    let content ← advance
    match content.kind with
    | .entry | .key | .value | .blockEnd => return .absent token.line
    | _ => node true false
  | _ => return .close

/-- Reads a key of a block mapping. -/
def blockKey (line : Nat) : Read Event := do
  let token ← peek
  match token.kind with
  | .key =>
    aim (.blockValue line)
    let content ← advance
    match content.kind with
    | .key | .value | .blockEnd => return .absent token.line
    | _ => node true true
  | .blockEnd =>
    skip
    return .close
  | _ => refuse line token .noKey

/-- Reads a value of a block mapping. -/
def blockValue (line : Nat) : Read Event := do
  let token ← peek
  aim (.blockKey line)
  match token.kind with
  | .value =>
    let content ← advance
    match content.kind with
    | .key | .value | .blockEnd => return .absent token.line
    | _ => node true true
  | _ => return .absent token.line

/-- Goes past the separator before an entry, which the first one has none of. -/
def separated (first : Bool) (line : Nat) (problem : Problem) : Read Token := do
  let token ← peek
  if first then return token
  else if token.kind = .separator then advance
  else refuse line token problem

/-- Reads on in a flow sequence. A key in it starts a mapping of one pair. -/
def flowEntry (first : Bool) (line : Nat) : Read Event := do
  if (← peek).kind = .flowSequenceEnd then
    skip
    return .close
  let token ← separated first line .noSequenceSeparator
  match token.kind with
  | .key =>
    aim (.flowEntry false line)
    aim .pairKey
    skip
    return .mapping {} token.line
  | .flowSequenceEnd =>
    skip
    return .close
  | _ =>
    aim (.flowEntry false line)
    node false false

/-- Reads the key of a pair in a flow sequence. Where it is missing, the sign
after it is passed over. -/
def pairKey : Read Event := do
  let token ← peek
  aim .pairValue
  match token.kind with
  | .value | .separator | .flowSequenceEnd =>
    skip
    return .absent token.line
  | _ => node false false

/-- Reads the value of a pair in a flow sequence. -/
def pairValue : Read Event := do
  let token ← peek
  aim .pairEnd
  match token.kind with
  | .value =>
    let content ← advance
    match content.kind with
    | .separator | .flowSequenceEnd => return .absent token.line
    | _ => node false false
  | _ => return .absent token.line

/-- Ends a pair in a flow sequence. -/
def pairEnd : Read Event := do
  let _ ← peek
  return .close

/-- Reads a key of a flow mapping. One without its sign has no value. -/
def flowKey (first : Bool) (line : Nat) : Read Event := do
  if (← peek).kind = .flowMappingEnd then
    skip
    return .close
  let token ← separated first line .noMappingSeparator
  match token.kind with
  | .key =>
    aim (.flowValue line)
    let content ← advance
    match content.kind with
    | .value | .separator | .flowMappingEnd => return .absent content.line
    | _ => node false false
  | .flowMappingEnd =>
    skip
    return .close
  | _ =>
    aim (.flowNoValue line)
    node false false

/-- Reads a value of a flow mapping. -/
def flowValue (line : Nat) : Read Event := do
  let token ← peek
  aim (.flowKey false line)
  match token.kind with
  | .value =>
    let content ← advance
    match content.kind with
    | .separator | .flowMappingEnd => return .absent content.line
    | _ => node false false
  | _ => return .absent token.line

/-- Gives the value of a key in a flow mapping that has none. -/
def flowNoValue (line : Nat) : Read Event := do
  let token ← peek
  aim (.flowKey false line)
  return .absent token.line

/-! ## Documents -/

/-- Reads the root of a document after its mark, which may be missing. -/
def content : Read Event := do
  let token ← peek
  match token.kind with
  | .version _ _ | .handle _ _ | .documentStart | .documentEnd | .streamEnd => return .absent token.line
  | _ => node true false

/-- Reads what a goal asks for. -/
def reach : Goal → Read Event
  | .node => node true false
  | .content => content
  | .blockEntry line => blockEntry line
  | .looseEntry => looseEntry
  | .blockKey line => blockKey line
  | .blockValue line => blockValue line
  | .flowEntry first line => flowEntry first line
  | .pairKey => pairKey
  | .pairValue => pairValue
  | .pairEnd => pairEnd
  | .flowKey first line => flowKey first line
  | .flowValue line => flowValue line
  | .flowNoValue line => flowNoValue line

/-- The next event, none after the root is complete. -/
def event? : Read (Option Event) := do
  match (← get).goals with
  | [] => return none
  | g :: more =>
    modify fun o => { o with goals := more }
    return some (← reach g)

/-- The handles that need no directive. -/
def standardHandles : List (Text × Text) := [("!", "!"), ("!!", "tag:yaml.org,2002:")]

/-- Reads the directives before a document. -/
def directives : Nat → Bool → Read Unit
  | 0, _ => pure ()
  | n + 1, versioned => do
    let token ← peek
    match token.kind with
    | .version major minor =>
      if versioned then refuse 0 token .repeatedVersion
      if major != 1 || minor != 1 then refuse 0 token .version
      skip
      directives n true
    | .handle name expansion =>
      if ((← get).handles.lookup name).isSome then refuse 0 token .repeatedHandle
      modify fun o => { o with handles := (name, expansion) :: o.handles }
      skip
      directives n versioned
    | _ => modify fun o => { o with handles := o.handles ++ standardHandles }

/-- Reads up to the root of the first document. Tells whether there is one. -/
def start : Read Bool := do
  let _ ← peek
  let token ← advance
  match token.kind with
  | .streamEnd => return false
  | .version _ _ | .handle _ _ | .documentStart =>
    directives (← get).queue.cursor.bound false
    let token ← peek
    if token.kind != .documentStart then refuse 0 token .noDocumentStart
    aim .content
    skip
    return true
  | _ =>
    directives 1 false
    aim .node
    return true

end Read

end BisayaPlus.Yaml
