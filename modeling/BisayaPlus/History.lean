import BisayaPlus.Input
import BisayaPlus.Text.Utf8
/-!
# History

The lines entered in sessions. A line is not entered twice in a row, and only
the latest lines are kept.
-/

set_option autoImplicit false

namespace BisayaPlus

/-- The lines of a history, latest first. -/
abbrev History := List Text

namespace History

/-- The number of lines that are kept. -/
def limit : Nat := 1000

/-- Adds a line. -/
def push (h : History) (line : Text) : History := (line :: h).take limit

/-- Adds a line unless it is the latest. -/
def enter (h : History) (line : Text) : History := if h.head? = some line then h else h.push line

/-- Adds the lines of a file up to one that is too long or no UTF-8. -/
def readPieces (h : History) : List Input.Piece → History
  | [] => h
  | p :: more => if p.goesOn || !Text.isUtf8 p.text then h else readPieces (h.push p.text) more

/-- Reads a history. -/
def ofContent (content : Text) : History := readPieces [] (Input.pieces content)

/-- The content of the file of a history. -/
def content (h : History) : Text := h.reverse.flatMap (· ++ [Text.lineFeed])

end History

end BisayaPlus
