import BisayaPlus.Text
/-!
# Paths

A path is a text of names between slashes.
-/

set_option autoImplicit false

namespace BisayaPlus.Path

/-- The slash between names. -/
def slash : UInt8 := Text.byte '/'

/-- The name of the directory itself. -/
def here : Text := "."

/-- The name of the directory above. -/
def above : Text := ".."

/-- A path that does not depend on the working directory. -/
def isAbsolute (path : Text) : Bool := path.head? == some slash

/-- Takes one more name, where `names` are those so far, latest first. -/
def enter (absolute : Bool) (names : List Text) (name : Text) : List Text :=
  if name.isEmpty || name == here then names
  else if name == above then
    match names with
    | [] => if absolute then [] else [above]
    | top :: below => if top == above then above :: names else below
  else name :: names

/-- The shortest path with the same meaning, if no name is a link. -/
def clean (path : Text) : Text :=
  let absolute := isAbsolute path
  let names := ((Text.pieces slash path).foldl (enter absolute) []).reverse
  if absolute then slash :: Text.join [slash] names
  else if names.isEmpty then here
  else Text.join [slash] names

/-- A path inside a directory. -/
def inside (directory path : Text) : Text := clean (directory ++ slash :: path)

end BisayaPlus.Path
