import BisayaPlus.Disk
import BisayaPlus.Event
import BisayaPlus.Yaml.Sense
/-!
# Settings

The settings shared by runs and sessions, read over the defaults from a YAML
file. Every entry has to name a setting and to fit it.
-/

set_option autoImplicit false

namespace BisayaPlus

/-- The settings, with their defaults. -/
structure Settings where
  logLevel : Text := "warning"
  color : Bool := true
  prompt : Text := "bisaya> "
  history : Text := ".bisaya_history"
  deriving DecidableEq

namespace Settings

/-! ## Paths -/

/-- The name of the settings file in the home directory. -/
def fileName : Text := ".bisaya.yaml"

/-- The settings file that is read if none is named. An empty home is unknown. -/
def defaultPath (home : Text) : Text := if home.isEmpty then fileName else Path.inside home fileName

/-- The history file, in the home directory unless its path is absolute. An
empty one stands for none. -/
def historyPath (s : Settings) (home : Text) : Text :=
  if s.history.isEmpty || Path.isAbsolute s.history || home.isEmpty then s.history
  else Path.inside home s.history

/-! ## Misfits -/

/-- What an entry does not fit. -/
inductive Target where
  | settings
  | text
  | bool
  deriving DecidableEq

/-- The name of a target. -/
def Target.name : Target → Text
  | settings => "config.Config"
  | text => "string"
  | bool => "bool"

/-- Why an entry is refused. -/
inductive Misfit where
  | unfit (line : Nat) (tag value : Text) (target : Target)
  | unknown (line : Nat) (key : Text)
  | again (line : Nat) (key : Text)
  | repeated (line : Nat) (key : Text) (first : Nat)
  deriving DecidableEq

/-- A value as quoted in a complaint, cut when it is long. -/
def excerpt (value : Text) : Text :=
  if 10 < value.length then " \x60" ++ value.take 7 ++ "...\x60" else " \x60" ++ value ++ "\x60"

/-- A tag and a value as named in a complaint. The tags of collections go
without a quoted value. -/
def described (tag value : Text) : Text :=
  if tag = Text.ofString "!!seq" || tag = Text.ofString "!!map" then tag ++ value else tag ++ excerpt value

/-- The wording of a complaint. -/
def Misfit.message : Misfit → Text
  | unfit line tag value target =>
    "line " ++ Text.ofNat line ++ ": cannot unmarshal " ++ described tag value ++ " into " ++ target.name
  | unknown line key => "line " ++ Text.ofNat line ++ ": field " ++ key ++ " not found in type config.Config"
  | again line key => "line " ++ Text.ofNat line ++ ": field " ++ key ++ " already set in type config.Config"
  | repeated line key first =>
    "line " ++ Text.ofNat line ++ ": mapping key " ++ Text.quote key ++ " already defined at line " ++ Text.ofNat first

/-- An entry of a mapping. -/
abbrev Entry := Yaml.Node × Yaml.Node

/-- Two keys count as one: both are scalars of one spelling, references by one
name, or collections of one kind. -/
def sameKey : Yaml.Node → Yaml.Node → Bool
  | .scalar _ _ a _, .scalar _ _ b _ => a == b
  | .reference a _ _, .reference b _ _ => a == b
  | .sequence _ _ _, .sequence _ _ _ => true
  | .mapping _ _ _, .mapping _ _ _ => true
  | _, _ => false

/-- The spelling of a key in a complaint. -/
def spelling : Yaml.Node → Text
  | .scalar _ _ value _ => value
  | .reference name _ _ => name
  | _ => []

/-- The complaints about keys that occur again. -/
def repetitions : List Entry → List Misfit
  | [] => []
  | (key, _) :: more =>
    (more.filter (sameKey key ·.1)).map (fun e => .repeated e.1.line (spelling e.1) key.line) ++ repetitions more

/-- The complaints about a node that does not fit. A mapping with a key that
occurs again is not looked at further. -/
def complaints (target : Target) (node : Yaml.Node) : List Misfit :=
  match node with
  | .mapping _ entries line =>
    if (repetitions entries).isEmpty then [.unfit line node.tag [] target] else repetitions entries
  | .scalar _ _ value line => [.unfit line node.tag value target]
  | _ => [.unfit node.line node.tag [] target]

/-! ## Fields -/

/-- A setting. -/
inductive Field where
  | logLevel
  | color
  | prompt
  | history
  deriving DecidableEq

/-- The setting with a name. -/
def Field.ofName? (name : Text) : Option Field :=
  if name = Text.ofString "log_level" then some logLevel
  else if name = Text.ofString "color" then some color
  else if name = Text.ofString "prompt" then some prompt
  else if name = Text.ofString "history" then some history
  else none

/-- The texts that stand for true and for false besides the two words. -/
def boolWords : List (String × Bool) := [
  ("y", true), ("Y", true), ("yes", true), ("Yes", true), ("YES", true), ("on", true), ("On", true), ("ON", true),
  ("n", false), ("N", false), ("no", false), ("No", false), ("NO", false), ("off", false), ("Off", false),
  ("OFF", false)]

/-- The truth value that a scalar stands for. -/
def bool? : Yaml.Sense × Text → Option Bool
  | (.bool b, _) => some b
  | (.text, t) => (boolWords.find? fun w => Text.ofString w.1 == t).map (·.2)
  | _ => none

/-! ## Taking a document over settings -/

/-- Settings as read so far. -/
structure Reading where
  settings : Settings
  misfits : List Misfit := []
  /-- The names that entries taken over from other mappings may not set, if
  such entries are being read. -/
  names : Option (List Text) := none
  /-- How many nodes were visited, and how many of them through references. -/
  visits : Nat := 0
  viaReference : Nat := 0

/-- Reads a document, or finds a fault. -/
abbrev Taking := StateT Reading (Except Yaml.Fault)

/-- Stops with a problem. -/
def refuse {α : Type} (problem : Yaml.Problem) : Taking α := throw { problem := problem }

/-- Notes complaints. -/
def complain (misfits : List Misfit) : Taking Unit := modify fun r => { r with misfits := r.misfits ++ misfits }

/-- Notes the visit of a node. References may not take up almost all visits of a
long reading. -/
def visit (viaReference : Bool) : Taking Unit := do
  let r ← get
  let r := { r with visits := r.visits + 1, viaReference := r.viaReference + if viaReference then 1 else 0 }
  if 100 < r.viaReference && 1000 < r.visits && 99 * r.visits < 100 * r.viaReference then refuse .excessiveAliasing
  set r

/-- A node that is no reference, and the anchored nodes that contain it on the
way to it. -/
abbrev Place := Yaml.Node × List Nat

/-- Visits a node, following a reference. -/
def arrive (d : Yaml.Document) (inside : List Nat) (node : Yaml.Node) : Taking Place := do
  visit !inside.isEmpty
  match node with
  | .reference name target _ =>
    if inside.contains target then refuse (.selfReference name)
    match d.target? target with
    | none => refuse (.unknownAnchor name)
    | some node =>
      visit true
      return (node, target :: inside)
  | node => return (node, inside)

/-- What a scalar stands for and its text, none if that is nothing or another
node is there, which is a misfit. -/
def scalar? (target : Target) (node : Yaml.Node) : Taking (Option (Yaml.Sense × Text)) := do
  match node with
  | .scalar tag plain value _ =>
    match Yaml.scalarSense tag plain value with
    | .error problem => refuse problem
    | .ok (.null, _) => return none
    | .ok result => return some result
  | node =>
    complain (complaints target node)
    return none

/-- Takes the value of a text setting, unless it is null. -/
def takeText (node : Yaml.Node) (put : Settings → Text → Settings) : Taking Unit := do
  match ← scalar? .text node with
  | some (_, t) => modify fun r => { r with settings := put r.settings t }
  | none => pure ()

/-- Takes the value of a setting. -/
def takeField (node : Yaml.Node) : Field → Taking Unit
  | .logLevel => takeText node fun s t => { s with logLevel := t }
  | .prompt => takeText node fun s t => { s with prompt := t }
  | .history => takeText node fun s t => { s with history := t }
  | .color => do
    match ← scalar? .bool node with
    | some result =>
      match bool? result with
      | some b => modify fun r => { r with settings := { r.settings with color := b } }
      | none => complain (complaints .bool node)
    | none => pure ()

/-- The key of the entry that takes over entries of other mappings. -/
def isMerge : Yaml.Node → Bool
  | .scalar tag plain value _ => value = Yaml.mergeKey && Yaml.scalarTag tag plain value = Yaml.mergeTag
  | _ => false

/-- An entry with this name is not to be read, and no later one is. -/
def isShadowed (name : Text) : Taking Bool := do
  let r ← get
  match r.names with
  | none => return false
  | some names =>
    if names.contains name then return true
    set { r with names := some (name :: names) }
    return false

/-- Takes entries over, apart from those that take over others, where `done`
are the settings of the mapping so far. -/
def takeEntries (d : Yaml.Document) (inside : List Nat) : List Entry → List Field → Taking Unit
  | [], _ => pure ()
  | (key, value) :: more, done => do
    if isMerge key then takeEntries d inside more done
    else
      let (node, _) ← arrive d inside key
      match ← scalar? .text node with
      | none => takeEntries d inside more done
      | some (_, name) =>
        if ← isShadowed name then takeEntries d inside more done
        else
          match Field.ofName? name with
          | none =>
            complain [.unknown key.line name]
            takeEntries d inside more done
          | some field =>
            if done.contains field then
              complain [.again key.line name]
              takeEntries d inside more done
            else
              let (node, _) ← arrive d inside value
              takeField node field
              takeEntries d inside more (field :: done)

/-- The names of a mapping's own entries. -/
def ownNames (d : Yaml.Document) (inside : List Nat) : List Entry → Taking (List Text)
  | [] => return []
  | (key, _) :: more => do
    let (node, _) ← arrive d inside key
    let name :=
      match node with
      | .scalar tag plain value _ =>
        match Yaml.scalarSense tag plain value with
        | .ok (.text, t) => [t]
        | _ => []
      | _ => []
    return name ++ (← ownNames d inside more)

/-- The nodes that a mapping takes its further entries from. -/
def sources : Yaml.Node → List Yaml.Node
  | .sequence _ items _ => items
  | node => [node]

/-- Takes a mapping over: its own entries, and then, for settings it does not
name, those of the mappings it refers to. `bound` limits how deep this goes. -/
def takeMapping (d : Yaml.Document) : Nat → List Nat → List Entry → Taking Unit
  | 0, _, _ => pure ()
  | bound + 1, inside, entries => do
    if !(repetitions entries).isEmpty then complain (repetitions entries)
    else
      takeEntries d inside entries []
      match entries.find? (isMerge ·.1) with
      | none => pure ()
      | some (_, merged) =>
        let outermost := (← get).names.isNone
        if outermost then
          let names ← ownNames d inside entries
          modify fun r => { r with names := some names }
        (sources merged).forM fun node => do
          match ← arrive d inside node with
          | (.mapping _ entries _, inside) => takeMapping d bound inside entries
          | _ => refuse .mergeValue
        if outermost then modify fun r => { r with names := none }

/-- Takes a document over, where `bound` limits how deep entries are taken over
from others. -/
def takeDocument (d : Yaml.Document) (bound : Nat) : Taking Unit := do
  visit false
  let (node, inside) ← arrive d [] d.root
  match node with
  | .mapping _ entries _ => takeMapping d bound inside entries
  | node =>
    match ← scalar? .settings node with
    | some _ => complain (complaints .settings node)
    | none => pure ()

/-! ## Files -/

/-- Why a settings file gives no settings. -/
inductive Fault where
  | unopened (fault : FileFault)
  | unreadable (fault : FileFault)
  | malformed (fault : Yaml.Fault)
  | misfits (list : List Misfit)
  | unknownLevel (name : Text)
  deriving DecidableEq

/-- The wording of a fault in the file at a path. -/
def Fault.message (path : Text) : Fault → Text
  | unopened fault => "config: open " ++ path ++ ": " ++ fault.message path
  | unreadable fault => "config: parse " ++ path ++ ": yaml: input error: " ++ fault.message path
  | malformed fault => "config: parse " ++ path ++ ": " ++ fault.message
  | misfits list =>
    "config: parse " ++ path ++ ": yaml: unmarshal errors:" ++ list.flatMap fun m => Text.ofString "\n  " ++ m.message
  | unknownLevel name => "config: " ++ path ++ ": " ++ Level.unknownName name

/-- The level of the log. -/
def level? (s : Settings) : Option Level := Level.ofName? s.logLevel

/-- The settings in the content of a file. -/
def ofContent (content : Text) : Except Fault Settings :=
  let checked (s : Settings) : Except Fault Settings :=
    if s.level?.isSome then .ok s else .error (.unknownLevel s.logLevel)
  match Yaml.document? content with
  | .error fault => .error (.malformed fault)
  | .ok none => checked {}
  | .ok (some d) =>
    match (takeDocument d ((d.anchored.length + 1) * (content.length + 1))).run { settings := {} } with
    | .error fault => .error (.malformed fault)
    | .ok (_, r) => if r.misfits.isEmpty then checked r.settings else .error (.misfits r.misfits)

/-- The settings in a file, where `read` gives its content. The defaults hold
if there is no file. -/
def load (read : Text → Except FileFault Text) (path : Text) : Except Fault Settings :=
  if path.isEmpty then .ok {}
  else
    match read path with
    | .ok content => ofContent content
    | .error .absent => .ok {}
    | .error .isDirectory => .error (.unreadable .isDirectory)
    | .error fault => .error (.unopened fault)

end Settings

end BisayaPlus
