import BisayaPlus.Event
/-!
# Standard input

A program in a file reads whole lines. A session reads through a buffer: a line
that fills it is delivered in pieces.
-/

set_option autoImplicit false

namespace BisayaPlus.Input

/-- The carriage return, which may stand before a line feed. -/
def carriageReturn : UInt8 := 13

/-! ## Whole lines -/

/-- What is taken from the front of an input: a text, whether the end of the
input was met, and the input after it. -/
structure Taken where
  text : Text
  atEnd : Bool
  rest : Text

/-- Takes the text up to a delimiter and with it. Where none comes, the text is
all that is left, and the end is met. -/
def takeThrough (delimiter : UInt8) (t : Text) : Taken :=
  match t.dropWhile (· != delimiter) with
  | [] => { text := t, atEnd := true, rest := [] }
  | _ :: rest => { text := t.takeWhile (· != delimiter) ++ [delimiter], atEnd := false, rest := rest }

/-- The next line, without the line feed and the carriage returns at its end, and
the input after it. The end is a failure only if no text stands before it. -/
def readLine (t : Text) : Reply × Text :=
  let taken := takeThrough Text.lineFeed t
  if taken.atEnd && taken.text.isEmpty then (.failure "EOF", taken.rest)
  else (.line (Text.trimRight (fun b => b == carriageReturn || b == Text.lineFeed) taken.text), taken.rest)

theorem length_lt_of_readLine {t line rest : Text} (h : readLine t = (.line line, rest)) : rest.length < t.length := by
  have hdrop := (List.dropWhile_sublist (· != Text.lineFeed) (l := t)).length_le
  unfold readLine takeThrough at h
  cases hstop : t.dropWhile (· != Text.lineFeed) with
  | nil =>
    cases t with
    | nil => simp [hstop] at h
    | cons b t =>
      simp only [hstop, List.isEmpty_cons, Bool.and_false, Bool.false_eq_true, if_false, Prod.mk.injEq] at h
      rw [← h.2]
      exact Nat.succ_pos _
  | cons b after =>
    simp only [hstop, Bool.false_and, Bool.false_eq_true, if_false, Prod.mk.injEq] at h
    rw [hstop, List.length_cons, h.2] at hdrop
    exact hdrop

/-- The lines of an input, read one after another to its end. -/
def lines (t : Text) : List Text :=
  match h : readLine t with
  | (.failure _, _) => []
  | (.line line, rest) =>
    have := length_lt_of_readLine h
    line :: lines rest
termination_by t.length

/-- What a program that reads whole lines gets from this input. -/
def replies (t : Text) : List Reply := (lines t).map .line

/-! ## Buffered lines -/

/-- A line, or a piece of a line that goes on. -/
structure Piece where
  text : Text
  goesOn : Bool

/-- The number of bytes a buffer holds. -/
def capacity : Nat := 4096

/-- A line without the carriage return at its end, of which it drops one. -/
def withoutReturn (line : Text) : Text := if line.getLast? = some carriageReturn then line.dropLast else line

/-- The length of a piece that fills the buffer. A carriage return at its end
is left to the next piece, since a line feed may follow. -/
def fullLength (window : Text) : Nat :=
  if window.getLast? = some carriageReturn then capacity - 1 else capacity

theorem fullLength_pos (window : Text) : 0 < fullLength window := by
  unfold fullLength capacity
  split <;> omega

/-- The pieces of a text as a buffer delivers them. -/
def pieces (t : Text) : List Piece :=
  if t.isEmpty then []
  else
    let window := t.take capacity
    let line := window.takeWhile (· != Text.lineFeed)
    if line.length = capacity then ⟨window.take (fullLength window), true⟩ :: pieces (t.drop (fullLength window))
    else if line.length = t.length then [⟨line, false⟩]
    else ⟨withoutReturn line, false⟩ :: pieces (t.drop (line.length + 1))
termination_by t.length
decreasing_by
  all_goals
    have : t.length ≠ 0 := by cases t <;> simp_all
    simp only [List.length_drop]
    have := fullLength_pos (t.take capacity)
    omega

/-- What a session gets from this input. -/
def sessionReplies (t : Text) : List Reply := (pieces t).map (.line ·.text)

end BisayaPlus.Input
