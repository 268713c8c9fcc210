import BisayaPlus.Yaml.Event
/-!
# Nodes

The values of a document: scalars, sequences, mappings and references to other
nodes, each with the line it starts on. A reference leads to the node that had
its anchor last, which may be one that it is part of.
-/

set_option autoImplicit false

namespace BisayaPlus.Yaml

/-- A value of a document. Tags are in their short form, and none means that
the tag is not written. The nodes with an anchor are numbered. -/
inductive Node where
  | scalar (tag : Option Text) (plain : Bool) (value : Text) (line : Nat)
  | sequence (tag : Option Text) (items : List Node) (line : Nat)
  | mapping (tag : Option Text) (entries : List (Node × Node)) (line : Nat)
  | reference (name : Text) (target : Nat) (line : Nat)
  deriving Inhabited

/-- The line a node starts on. -/
def Node.line : Node → Nat
  | scalar _ _ _ line => line
  | sequence _ _ line => line
  | mapping _ _ line => line
  | reference _ _ line => line

/-- A document: its root, and the nodes with an anchor by their numbers. -/
structure Document where
  root : Node
  anchored : List (Nat × Node) := []

/-- The node that a reference leads to. -/
def Document.target? (d : Document) (number : Nat) : Option Node := d.anchored.lookup number

/-! ## Building -/

/-- The tags that have a short form start like this. -/
def standardTag : Text := "tag:yaml.org,2002:"

/-- The short form of a tag, none for one that says nothing. -/
def shortTag (tag : Text) : Option Text :=
  if tag.isEmpty || tag = Text.ofString "!" then none
  else if standardTag.isPrefixOf tag then some ("!!" ++ tag.drop standardTag.length)
  else some tag

/-- A collection that is not complete, with its latest parts first. -/
inductive Unfinished where
  | sequence (items : List Node)
  | mapping (entries : List (Node × Node)) (key : Option Node)

/-- A collection that is not complete, and what is known of it. -/
structure Frame where
  unfinished : Unfinished
  tag : Option Text
  line : Nat
  number : Option Nat

/-- The node a collection is when it is complete. -/
def Frame.node (f : Frame) : Node :=
  match f.unfinished with
  | .sequence items => .sequence f.tag items.reverse f.line
  | .mapping entries _ => .mapping f.tag entries.reverse f.line

/-- Adds a node to a collection. -/
def Frame.add (f : Frame) (node : Node) : Frame :=
  { f with
    unfinished :=
      match f.unfinished with
      | .sequence items => .sequence (node :: items)
      | .mapping entries none => .mapping entries (some node)
      | .mapping entries (some key) => .mapping ((key, node) :: entries) none }

/-- A document that is not complete. -/
structure Building where
  /-- The collections around the next node, the innermost first. -/
  frames : List Frame := []
  /-- The anchors so far, and the numbers of their nodes. -/
  names : List (Text × Nat) := []
  anchored : List (Nat × Node) := []
  root : Option Node := none

namespace Building

/-- Takes a complete node, with its number if it has an anchor. -/
def take (b : Building) (node : Node) (number : Option Nat) : Building :=
  let anchored :=
    match number with
    | some number => (number, node) :: b.anchored
    | none => b.anchored
  match b.frames with
  | [] => { b with anchored := anchored, root := some node }
  | f :: more => { b with anchored := anchored, frames := f.add node :: more }

/-- Numbers a node that has an anchor. -/
def name (b : Building) (p : Properties) : Building × Option Nat :=
  match p.anchor with
  | some name => ({ b with names := (name, b.names.length) :: b.names }, some b.names.length)
  | none => (b, none)

/-- Opens a collection. -/
def enter (b : Building) (p : Properties) (unfinished : Unfinished) (line : Nat) : Building :=
  let (b, number) := b.name p
  { b with frames := ⟨unfinished, shortTag p.tag, line, number⟩ :: b.frames }

/-- Takes the next event. -/
def step (b : Building) : Event → Except Fault Building
  | .reference name line =>
    match b.names.lookup name with
    | some number => .ok (b.take (.reference name number (line + 1)) none)
    | none => .error { problem := .unknownAnchor name }
  | .scalar p plain text line =>
    let (b, number) := b.name p
    .ok (b.take (.scalar (shortTag p.tag) plain text (line + 1)) number)
  | .sequence p line => .ok (b.enter p (.sequence []) (line + 1))
  | .mapping p line => .ok (b.enter p (.mapping [] none) (line + 1))
  | .close =>
    match b.frames with
    | [] => .ok b
    | f :: more => .ok ({ b with frames := more }.take f.node f.number)

end Building

/-- Reads the nodes of a document, in a bounded number of events. -/
def readNodes : Nat → Building → Read Building
  | 0, b => return b
  | n + 1, b => do
    match ← Read.event? with
    | none => return b
    | some event => readNodes n (← b.step event)

/-- Reads the first document. What follows its root is looked at only as far as
reading the root has looked. -/
def readDocument : Read (Option Document) := do
  if ← Read.start then
    let bound := (← get).queue.cursor.bound
    let b ← readNodes (8 * bound) {}
    let _ ← Read.peek
    return b.root.map fun root => { root := root, anchored := b.anchored }
  else return none

/-- The first document of a file, none if there is none. -/
def document? (file : Text) : Except Fault (Option Document) :=
  readDocument.run' { queue := { cursor := Cursor.ofFile file } }

end BisayaPlus.Yaml
