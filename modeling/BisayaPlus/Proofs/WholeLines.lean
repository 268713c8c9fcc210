import Mathlib.Data.List.DropRight
import BisayaPlus.Input
import BisayaPlus.Proofs.Fields
import BisayaPlus.Proofs.Inputs
/-!
# Every line is read once

A program in a file reads its input by calls, each on what the one before has
left. A call ends at a line feed or at the end of the input, and only the end
with no text before it is a failure. `reads_every_line_once`: the calls yield the
texts between the line feeds, a blank one too and the last one also without a
line feed, and from then on the end.
-/

set_option autoImplicit false

namespace BisayaPlus.Input

open Text Execution

variable {line rest : Text}

/-! ## One call -/

theorem takeThrough_delimiter {delimiter : UInt8} (h : delimiter ∉ line) (rest : Text) :
    takeThrough delimiter (line ++ delimiter :: rest) =
      { text := line ++ [delimiter], atEnd := false, rest := rest } := by
  have hline : ∀ b ∈ line, (b != delimiter) = true := fun b hb => bne_iff_ne.2 fun heq => h (heq ▸ hb)
  have hstop : ∀ b ∈ (delimiter :: rest).head?, (b != delimiter) = false := by simp
  rw [takeThrough, Scan.dropWhile_append_stop hline hstop, Scan.takeWhile_append_stop hline hstop]

theorem takeThrough_end {delimiter : UInt8} (h : delimiter ∉ line) :
    takeThrough delimiter line = { text := line, atEnd := true, rest := [] } := by
  have hline : ∀ b ∈ line, (b != delimiter) = true := fun b hb => bne_iff_ne.2 fun heq => h (heq ▸ hb)
  rw [takeThrough, List.dropWhile_eq_nil_iff.2 hline]

/-- Where there is no line feed, only carriage returns are trimmed. -/
theorem trimRight_of_not_mem (h : lineFeed ∉ line) :
    trimRight (fun b => b == carriageReturn || b == lineFeed) line = trimRight (· == carriageReturn) line := by
  change line.rdropWhile _ = line.rdropWhile _
  -- from the end, where the trimming starts
  induction line using List.reverseRecOn with
  | nil => rfl
  | append_singleton line b ih =>
    have hb : (b == lineFeed) = false := beq_eq_false_iff_ne.2 fun heq => h (by simp [heq])
    have hline : lineFeed ∉ line := fun hmem => h (List.mem_append_left _ hmem)
    rw [List.rdropWhile_concat, List.rdropWhile_concat, hb, Bool.or_false, ih hline]

theorem readLine_nil : readLine [] = (.failure "EOF", []) := rfl

/-- A line with its line feed is read without it, also if it is blank. -/
theorem readLine_ended (h : lineFeed ∉ line) (rest : Text) :
    readLine (line ++ lineFeed :: rest) = (.line (trimRight (· == carriageReturn) line), rest) := by
  have htrim : trimRight (fun b => b == carriageReturn || b == lineFeed) (line ++ [lineFeed]) =
      trimRight (· == carriageReturn) line :=
    (List.rdropWhile_concat_pos _ _ _ rfl).trans (trimRight_of_not_mem h)
  rw [readLine, takeThrough_delimiter h rest]
  dsimp only
  rw [htrim]
  rfl

example : readLine "3,4\r\r\n\nlast" = (Reply.line "3,4", ofString "\nlast") := by decide +kernel

/-- Text before the end of the input is a line, although the end is met. -/
theorem readLine_last (h : lineFeed ∉ line) (hne : line ≠ []) :
    readLine line = (.line (trimRight (· == carriageReturn) line), []) := by
  have hempty : line.isEmpty = false := List.isEmpty_eq_false_iff.2 hne
  rw [readLine, takeThrough_end h]
  dsimp only
  rw [hempty, trimRight_of_not_mem h]
  rfl

/-! ## All lines -/

/-- Induction over the lines of a text. -/
@[elab_as_elim]
theorem byLines {motive : Text → Prop} (t : Text) (empty : motive [])
    (last : ∀ line, lineFeed ∉ line → line ≠ [] → motive line)
    (ended : ∀ line rest, lineFeed ∉ line → motive rest → motive (line ++ lineFeed :: rest)) : motive t := by
  induction hn : t.length using Nat.strongRecOn generalizing t with
  | ind n ih =>
    by_cases hmem : lineFeed ∈ t
    -- cut at the first line feed, so that none stands before it
    · obtain ⟨line, rest, rfl, hline⟩ := List.eq_append_cons_of_mem hmem
      have hlt : rest.length < n := by
        rw [← hn, List.length_append, List.length_cons]
        omega
      exact ended line rest hline (ih rest.length hlt rest rfl)
    · by_cases hne : t = []
      · exact hne ▸ empty
      · exact last t hmem hne

theorem lines_of_line {t : Text} (h : readLine t = (.line line, rest)) : lines t = line :: lines rest := by
  rw [lines]
  split
  · next heq => cases h.symm.trans heq
  · next heq =>
    cases h.symm.trans heq
    rfl

theorem lines_nil : lines [] = [] := by
  rw [lines]
  split
  · rfl
  · next heq => cases readLine_nil.symm.trans heq

/-- The pieces without the last one, if it is empty. -/
def withoutLastEmpty (pieces : List Text) : List Text :=
  if pieces.getLast? = some [] then pieces.dropLast else pieces

theorem withoutLastEmpty_cons (piece : Text) {more : List Text} (hne : more ≠ []) :
    withoutLastEmpty (piece :: more) = piece :: withoutLastEmpty more := by
  obtain ⟨next, rest, rfl⟩ := List.exists_cons_of_ne_nil hne
  rw [withoutLastEmpty, withoutLastEmpty, List.getLast?_cons_cons, List.dropLast_cons_cons]
  split <;> rfl

theorem withoutLastEmpty_ended (h : lineFeed ∉ line) (rest : Text) :
    withoutLastEmpty (Text.pieces lineFeed (line ++ lineFeed :: rest)) =
      line :: withoutLastEmpty (Text.pieces lineFeed rest) := by
  rw [pieces_append h, withoutLastEmpty_cons line (separated_pieces lineFeed rest).ne_nil]

theorem withoutLastEmpty_last (h : lineFeed ∉ line) (hne : line ≠ []) :
    withoutLastEmpty (Text.pieces lineFeed line) = [line] := by
  rw [pieces_eq_singleton h, withoutLastEmpty, if_neg (by simpa using hne)]

/-- The lines that are read are the texts between the line feeds. -/
theorem lines_eq (t : Text) :
    lines t = (withoutLastEmpty (Text.pieces lineFeed t)).map (trimRight (· == carriageReturn)) := by
  induction t using byLines with
  | empty => exact lines_nil
  | last line h hne =>
    rw [lines_of_line (readLine_last h hne), lines_nil, withoutLastEmpty_last h hne, List.map_singleton]
  | ended line rest h ih =>
    rw [lines_of_line (readLine_ended h rest), ih, withoutLastEmpty_ended h rest, List.map_cons]

/-- Each line feed ends a line, and text behind the last one is a line. -/
theorem length_lines (t : Text) :
    (lines t).length = t.count lineFeed + if t ≠ [] ∧ t.getLast? ≠ some lineFeed then 1 else 0 := by
  induction t using byLines with
  | empty =>
    rw [lines_nil]
    rfl
  | last line h hne =>
    have hlast : line.getLast? ≠ some lineFeed := fun hlast => h (List.mem_of_getLast? hlast)
    rw [lines_of_line (readLine_last h hne), lines_nil, List.count_eq_zero_of_not_mem h, if_pos ⟨hne, hlast⟩]
    rfl
  | ended line rest h ih =>
    have hlast : (line ++ lineFeed :: rest ≠ [] ∧ (line ++ lineFeed :: rest).getLast? ≠ some lineFeed) ↔
        rest ≠ [] ∧ rest.getLast? ≠ some lineFeed := by
      cases rest with
      | nil => simp
      | cons b rest => simp [List.getLast?_append, List.getLast?_cons_cons]
    rw [lines_of_line (readLine_ended h rest), List.length_cons, ih, List.count_append,
      List.count_eq_zero_of_not_mem h, List.count_cons_self, if_congr hlast rfl rfl]
    omega

/-! ## Calls in a row -/

/-- The answers of so many calls, each on what the one before has left. -/
def calls : Nat → Text → List Reply
  | 0, _ => []
  | n + 1, t => (readLine t).1 :: calls n (readLine t).2

/-- A call takes the first reply of the input, and the end stays the end. -/
theorem readLine_eq (t : Text) :
    (readLine t).1 = nextReply (replies t) ∧ replies (readLine t).2 = (replies t).tail := by
  have hline {line rest : Text} (h : readLine t = (.line line, rest)) :
      (readLine t).1 = nextReply (replies t) ∧ replies (readLine t).2 = (replies t).tail := by
    rw [replies, replies, lines_of_line h, h]
    exact ⟨rfl, rfl⟩
  cases t using byLines with
  | empty =>
    rw [readLine_nil, replies, lines_nil]
    exact ⟨rfl, rfl⟩
  | last line h hne => exact hline (readLine_last h hne)
  | ended line rest h _ => exact hline (readLine_ended h rest)

theorem calls_eq (n : Nat) (t : Text) : calls n t = firstAnswers n (replies t) := by
  induction n generalizing t with
  | zero => rfl
  | succ n ih =>
    obtain ⟨hreply, hrest⟩ := readLine_eq t
    rw [calls, firstAnswers, ih, hreply, hrest]

/-- Reading an input by calls. The calls yield the texts between its line feeds,
in order and without a last one that is empty, each without the carriage returns
at its end, and then the end of the input for ever. There are as many lines as
line feeds, and one more if text follows the last. A program is answered by just
these calls. -/
theorem reads_every_line_once (t : Text) :
    ∃ between, Separated lineFeed t between ∧
      let expected := (withoutLastEmpty between).map (trimRight (· == carriageReturn))
      lines t = expected ∧
      (∀ n, calls n t = (expected.take n).map .line ++ List.replicate (n - expected.length) (.failure "EOF")) ∧
      expected.length = t.count lineFeed + (if t ≠ [] ∧ t.getLast? ≠ some lineFeed then 1 else 0) ∧
      ∀ (p : Program) (watchers : Watchers) (rounds : Nat),
        let answers := (p.run watchers rounds (replies t)).answers
        answers = calls answers.length t := by
  refine ⟨_, separated_pieces lineFeed t, ?_⟩
  intro expected
  have hlines : lines t = expected := lines_eq t
  refine ⟨hlines, fun n => ?_, hlines ▸ length_lines t, fun p watchers rounds => ?_⟩
  · rw [calls_eq, replies, hlines, firstAnswers_lines]
  · intro answers
    rw [calls_eq]
    exact (p.consults_run watchers rounds (replies t)).1

end BisayaPlus.Input
