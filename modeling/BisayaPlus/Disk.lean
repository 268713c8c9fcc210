import BisayaPlus.Path
/-!
# Disks

Files and directories below a working directory, and why a path cannot be read.
What lies outside the working directory is taken to be empty.
-/

set_option autoImplicit false

namespace BisayaPlus

/-- Why a file cannot be read. -/
inductive FileFault where
  | absent
  | notDirectory
  | isDirectory
  | nameTooLong
  | invalidName
  | other (reason : Text)
  deriving DecidableEq

/-- The wording of a fault in reading a path. -/
def FileFault.message (path : Text) : FileFault → Text
  | absent => "open " ++ path ++ ": no such file or directory"
  | notDirectory => "open " ++ path ++ ": not a directory"
  | isDirectory => "read " ++ path ++ ": is a directory"
  | nameTooLong => "open " ++ path ++ ": file name too long"
  | invalidName => "open " ++ path ++ ": invalid argument"
  | other reason => "open " ++ path ++ ": " ++ reason

/-- What stands at a place. -/
inductive Entry where
  | file (content : Text)
  | directory

/-- A place is given by the names that lead to it. -/
abbrev Place := List Text

/-- The files and the directories below a working directory. -/
structure Disk where
  files : List (Place × Text)
  directories : List Place

namespace Disk

/-- The top of all directories. -/
def root : Place := [[]]

/-- The places a path from the working directory names. -/
def placeOf (path : Text) : Place := (Text.pieces Path.slash path).filter (!·.isEmpty)

/-- A disk with these files, where a name that ends in a slash is a directory. -/
def ofFiles (files : List (Text × Text)) (directories : List Text) : Disk :=
  let isDirectoryName (name : Text) : Bool := name.getLast? == some Path.slash
  { files := (files.filter (!isDirectoryName ·.1)).map fun (name, content) => (placeOf name, content)
    directories := directories.map placeOf ++ (files.filter (isDirectoryName ·.1)).map (placeOf ·.1) }

/-- What stands at a place. Each directory above a file or directory exists. -/
def entry? (d : Disk) (place : Place) : Option Entry :=
  match d.files.lookup place with
  | some content => some (.file content)
  | none =>
    let known := place == root || place.all (· == Path.above) || d.directories.any (place.isPrefixOf ·) ||
      d.files.any (place.isPrefixOf ·.1)
    if known then some .directory else none

/-- The directory above a place. -/
def parent (place : Place) : Place :=
  if place == root then root
  else if place.all (· == Path.above) then Path.above :: place
  else place.dropLast

/-- The longest name of an entry. -/
def longestName : Nat := 255

/-- The longest path. -/
def longestPath : Nat := 4095

/-- Follows names from a place, each from a directory. -/
def follow (d : Disk) (place : Place) : List Text → Except FileFault Place
  | [] => .ok place
  | name :: more =>
    match d.entry? place with
    | none => .error .absent
    | some (.file _) => .error .notDirectory
    | some .directory =>
      if name.isEmpty || name == Path.here then d.follow place more
      else if name == Path.above then d.follow (parent place) more
      else if longestName < name.length then .error .nameTooLong
      else d.follow (place ++ [name]) more

/-- The place a path leads to. -/
def locate (d : Disk) (path : Text) : Except FileFault Place :=
  if path.contains 0 then .error .invalidName
  else if path.isEmpty then .error .absent
  else if longestPath < path.length then .error .nameTooLong
  else d.follow (if Path.isAbsolute path then root else []) (Text.pieces Path.slash path)

/-- The content of a file. -/
def read (d : Disk) (path : Text) : Except FileFault Text := do
  let place ← d.locate path
  match d.entry? place with
  | some (.file content) => .ok content
  | some .directory => .error .isDirectory
  | none => .error .absent

/-- A place where a file may be created: in a directory on the disk. -/
def isFree (d : Disk) (place : Place) : Bool :=
  match d.entry? place, d.entry? place.dropLast with
  | none, some .directory => place.head?.any fun name => !name.isEmpty && name != Path.above
  | _, _ => false

/-- Writes a file, new or not. Nothing happens where none can be. -/
def write (d : Disk) (path content : Text) : Disk :=
  match d.locate path with
  | .error _ => d
  | .ok place =>
    match d.entry? place with
    | some (.file _) => { d with files := d.files.map fun f => if f.1 == place then (place, content) else f }
    | some .directory => d
    | none =>
      if path.getLast? != some Path.slash && d.isFree place then { d with files := d.files ++ [(place, content)] }
      else d

/-- The files that are new or have another content than before. -/
def changes (before after : Disk) : List (Text × Text) :=
  (after.files.filter fun (place, content) => before.files.lookup place != some content).map
    fun (place, content) => (Text.join [Path.slash] place, content)

end Disk

end BisayaPlus
