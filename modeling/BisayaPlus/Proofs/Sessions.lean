import BisayaPlus.CommandLine
import BisayaPlus.Proofs.Inputs
/-!
# Sessions as sequences of runs

The lines of an input go to the prompts of a session and to the programs that it
runs. A program that is run takes the lines it reads and leaves the others, so
the next program starts right after them. Each run is then the run of its program
on the lines that were meant for it, as if the rest of the input were not there.
-/

set_option autoImplicit false

namespace BisayaPlus

open Execution

/-! ## Lines that a run reads -/

/-- The line that an answer gives. -/
def Reply.line? : Reply → Option Text
  | .line text => some text
  | .failure _ => none

/-- The lines that a run read, in order. -/
def RunResult.linesRead (r : RunResult) : List Text := r.answers.filterMap Reply.line?

theorem lines_firstAnswers (n : Nat) (lines : List Text) :
    (firstAnswers n (lines.map .line)).filterMap Reply.line? = lines.take n := by
  have hlines : (lines.take n).filterMap (Reply.line? ∘ .line) = lines.take n := List.filterMap_some
  have hend (k : Nat) : (List.replicate k (Reply.failure "EOF")).filterMap Reply.line? = [] := by
    refine List.filterMap_eq_nil_iff.2 fun reply hreply => ?_
    rw [List.eq_of_mem_replicate hreply, Reply.line?]
  rw [firstAnswers_lines, List.filterMap_append, List.filterMap_map, hlines, hend, List.append_nil]

theorem firstAnswers_take (n : Nat) (replies : List Reply) :
    firstAnswers n (replies.take n) = firstAnswers n replies := by
  induction n generalizing replies with
  | zero => rfl
  | succ n ih => cases replies <;> simp [firstAnswers, nextReply, ih]

/-- A run that reads the first lines of an input leaves the others, and is the
run on those first lines alone. -/
theorem Program.run_of_linesRead {watchers : Watchers} {rounds : Nat} {p : Program} {answers rest : List Text}
    (h : (p.run watchers rounds ((answers ++ rest).map .line)).linesRead = answers) :
    p.run watchers rounds ((answers ++ rest).map .line) =
      { p.run watchers rounds (answers.map .line) with unread := rest.map .line } := by
  obtain ⟨hanswers, hsame⟩ := p.consults_run watchers rounds ((answers ++ rest).map .line)
  generalize hn : (p.run watchers rounds ((answers ++ rest).map .line)).answers.length = n at hanswers hsame
  have htake : (answers ++ rest).take n = answers := by
    rw [← lines_firstAnswers, ← hanswers]
    exact h
  have hdrop : (answers ++ rest).drop n = rest := by
    have hsplit := List.take_append_drop n (answers ++ rest)
    rw [htake] at hsplit
    exact List.append_cancel_left hsplit
  have halone : p.run watchers rounds (answers.map .line) =
      { p.run watchers rounds ((answers ++ rest).map .line) with unread := (answers.map .line).drop n } := by
    refine hsame _ ?_
    rw [← firstAnswers_take n ((answers ++ rest).map .line), ← List.map_take, htake]
  have hrest := hsame _ rfl
  rw [halone]
  rw [← List.map_drop, hdrop] at hrest
  exact hrest

/-! ## Line editors -/

namespace LineEditor

/-- The editor shows the prompt of a session, and the one for further lines. -/
structure Shows (editor : LineEditor) (prompt : Text) : Prop where
  first : editor.refuses prompt = false
  further : editor.refuses (Session.continuation prompt) = false

/-- The editor gives these lines of an input, however long they are, one by one, and
an error at the end. -/
def ReturnsLines (editor : LineEditor) (input : Text) (lines : List Text) : Prop :=
  editor.delivers input = lines.map .line

open Input in
/-- Lines that fit into the buffer are delivered as they are. -/
theorem returnsLines_buffered {lines : List Text} (h : ∀ line ∈ lines, line.length < capacity ∧
    Text.lineFeed ∉ line ∧ line.getLast? ≠ some carriageReturn) :
    buffered.ReturnsLines (lines.flatMap (· ++ [Text.lineFeed])) lines := by
  unfold ReturnsLines buffered sessionReplies
  dsimp only
  induction lines with
  | nil => simp [pieces]
  | cons line lines ih =>
    obtain ⟨hshort, hfeed, hreturn⟩ := h line (by simp)
    generalize hmore : lines.flatMap (· ++ [Text.lineFeed]) = more at ih
    have hfirst : ((line ++ Text.lineFeed :: more).take capacity).takeWhile (· != Text.lineFeed) = line := by
      rw [List.take_append, List.take_of_length_le (Nat.le_of_lt hshort), List.takeWhile_append_of_pos]
      · rw [List.take_cons (by omega), List.takeWhile_cons]
        simp
      · intro b hb
        have : b ≠ Text.lineFeed := fun heq => hfeed (heq ▸ hb)
        simpa using this
    have hnext : (line ++ Text.lineFeed :: more).drop (line.length + 1) = more := by simp
    have hpieces : pieces (line ++ Text.lineFeed :: more) = ⟨line, false⟩ :: pieces more := by
      rw [pieces, if_neg (by simp)]
      dsimp only
      rw [hfirst, if_neg (Nat.ne_of_lt hshort), if_neg (by simp), hnext, withoutReturn, if_neg hreturn]
    rw [List.flatMap_cons, hmore, List.append_assoc, List.singleton_append, hpieces, List.map_cons, List.map_cons]
    rw [ih fun l hl => h l (by simp [hl])]

/-- A text that starts with a character of one byte. -/
theorem glyphs_byte_cons {c : Char} (hc : String.utf8EncodeChar c = [Text.byte c]) (t : Text) :
    Text.glyphs (Text.byte c :: t) = .char c :: Text.glyphs t := by
  have hfront : Text.front? (Text.byte c :: t) = some c := by
    unfold Text.front?
    rw [List.take_succ_cons, ← List.singleton_append, List.toByteArray_append, ← hc]
    exact ByteArray.utf8DecodeChar?_utf8EncodeChar_append
  have hsize : c.utf8Size = 1 := by
    rw [← String.length_utf8EncodeChar, hc]
    rfl
  rw [Text.glyphs, hfront]
  simp [hsize]

theorem isUnfit_continuation (prompt : Text) : isUnfit (Session.continuation prompt) = false := by
  have hspace : Text.glyphs [Text.byte ' '] = [.char ' '] := by
    rw [glyphs_byte_cons (by decide), Text.glyphs]
  have hdots (n : Nat) : isUnfit (List.replicate n (Text.byte '.') ++ [Text.byte ' ']) = false := by
    unfold isUnfit
    induction n with
    | zero =>
      rw [List.replicate_zero, List.nil_append, hspace]
      decide +kernel
    | succ n ih =>
      rw [List.replicate_succ, List.cons_append, glyphs_byte_cons (by decide), List.any_cons, ih]
      decide +kernel
  exact hdots _

/-- Every continuation of a prompt can be shown. -/
theorem shows_buffered {prompt : Text} (h : isUnfit prompt = false) : buffered.Shows prompt :=
  ⟨h, isUnfit_continuation prompt⟩

end LineEditor

namespace Session

/-! ## Scripts -/

/-- A program as it is entered, and the lines that it is to read. -/
structure Part where
  program : List Text
  answers : List Text

/-- The text of the program. -/
def Part.source (part : Part) : Text := part.program.flatMap (· ++ [Text.lineFeed])

/-- The lines of an input that is made of these parts. -/
def linesOf (parts : List Part) : List Text := parts.flatMap fun part => part.program ++ part.answers

/-- The lines are taken for one program: the first one starts it, and only the
last one ends it. -/
structure IsEntry (lines : List Text) : Prop where
  begins : ∀ line ∈ lines.head?, Text.trim line ≠ [] ∧ Text.trim line ≠ quitWord
  ends : ∃ line ∈ lines.getLast?, Text.trim line = lastWord
  once : ∀ line ∈ lines.dropLast, Text.trim line ≠ lastWord

/-- Each part holds a program and just those lines that the program reads, before
it ends, when everything after it is there to be read. -/
inductive Scripted (s : Session) : List Part → Prop where
  | nil : s.Scripted []
  | cons {part : Part} {more : List Part} (entry : IsEntry part.program)
      (ends : (s.run part.source ((part.answers ++ linesOf more).map .line)).outcome ≠ .unfinished)
      (reads : (s.run part.source ((part.answers ++ linesOf more).map .line)).linesRead = part.answers)
      (rest : s.Scripted more) : s.Scripted (part :: more)

/-- The run of a turn, with its source. -/
def ran? : Turn → Option (Text × RunResult)
  | .ran source result => some (source, result)
  | _ => none

/-- The lines that a turn takes from the input. -/
def taken : Turn → List Text
  | .entered line => [line]
  | .ran _ result => result.linesRead
  | _ => []

/-! ## Turns -/

theorem refuses_promptFor {s : Session} (hshows : s.editor.Shows s.prompt) (program : Text) :
    s.editor.refuses (s.promptFor program) = false := by
  unfold promptFor
  split
  · exact hshows.first
  · exact hshows.further

/-- The turns in which these lines are entered, where `program` is what has been
collected before them. -/
def entering (s : Session) : Text → List Text → List Turn
  | _, [] => []
  | program, line :: more =>
    .prompted (s.promptFor program) :: .entered line :: s.entering (program ++ line ++ [Text.lineFeed]) more

theorem ran?_entering (s : Session) (program : Text) (lines : List Text) :
    (s.entering program lines).filterMap ran? = [] := by
  induction lines generalizing program with
  | nil => rfl
  | cons line more ih => simpa [entering, ran?] using ih _

theorem taken_entering (s : Session) (program : Text) (lines : List Text) :
    (s.entering program lines).flatMap taken = lines := by
  induction lines generalizing program with
  | nil => rfl
  | cons line more ih => simpa [entering, taken] using ih _

/-- The turns of an input that is made of these parts. -/
def scriptTurns (s : Session) : List Part → List Turn
  | [] => [.prompted s.prompt, .ended]
  | part :: more =>
    s.entering [] part.program ++
      .ran part.source { s.run part.source (part.answers.map .line) with unread := (linesOf more).map .line } ::
        s.scriptTurns more

section Steps

variable {s : Session} (hshows : s.editor.Shows s.prompt)
include hshows

/-- A line that goes to the program. -/
theorem turnsFrom_line {program line : Text}
    (hline : program = [] → Text.trim line ≠ [] ∧ Text.trim line ≠ quitWord) (budget : Nat) (rest : List Reply) :
    s.turnsFrom (budget + 1) program (.line line :: rest) =
      .prompted (s.promptFor program) :: .entered line ::
        if Text.trim line = lastWord then
          .ran (program ++ line ++ [Text.lineFeed]) (s.run (program ++ line ++ [Text.lineFeed]) rest) ::
            s.turnsFrom budget [] (s.run (program ++ line ++ [Text.lineFeed]) rest).unread
        else s.turnsFrom budget (program ++ line ++ [Text.lineFeed]) rest := by
  have hquit : (program.isEmpty && decide (Text.trim line = quitWord)) = false := by
    cases program with
    | nil => simp [(hline rfl).2]
    | cons => rfl
  have hblank : (program.isEmpty && (Text.trim line).isEmpty) = false := by
    cases program with
    | nil => simp [(hline rfl).1]
    | cons => rfl
  simp only [turnsFrom, refuses_promptFor hshows, hquit, hblank, Bool.false_eq_true, if_false]

/-- The lines of a program, and then its run. -/
theorem turnsFrom_entry (program : Text) {lines : List Text}
    (hbegins : program = [] → ∀ line ∈ lines.head?, Text.trim line ≠ [] ∧ Text.trim line ≠ quitWord)
    (hends : ∃ line ∈ lines.getLast?, Text.trim line = lastWord)
    (honce : ∀ line ∈ lines.dropLast, Text.trim line ≠ lastWord) (budget : Nat) (rest : List Reply) :
    let source := program ++ lines.flatMap (· ++ [Text.lineFeed])
    s.turnsFrom (budget + lines.length) program (lines.map .line ++ rest) =
      s.entering program lines ++ .ran source (s.run source rest) ::
        s.turnsFrom budget [] (s.run source rest).unread := by
  -- On the lines: the program grows by each of them, and only the last one ends it.
  induction lines generalizing program with
  | nil => simp at hends
  | cons line more ih =>
    have hline : program = [] → Text.trim line ≠ [] ∧ Text.trim line ≠ quitWord :=
      fun hnew => hbegins hnew line rfl
    dsimp only
    rw [List.map_cons, List.cons_append, List.length_cons, ← Nat.add_assoc, turnsFrom_line hshows hline]
    cases more with
    | nil =>
      obtain ⟨last, hlast, htrim⟩ := hends
      obtain rfl : line = last := by simpa using hlast
      simp [htrim, entering]
    | cons next more =>
      have hnot : Text.trim line ≠ lastWord := honce line (by simp)
      have hgrown : program ++ line ++ [Text.lineFeed] ≠ [] := by simp
      have hnext := ih (program ++ line ++ [Text.lineFeed]) (fun hnew => absurd hnew hgrown) (by simpa using hends)
        fun l hl => honce l (by simpa using .inr hl)
      rw [if_neg hnot, hnext]
      simp [entering]

/-- A session on an input that is made of parts takes them one by one. -/
theorem turnsFrom_linesOf {parts : List Part} (h : s.Scripted parts) {budget : Nat}
    (hbudget : (linesOf parts).length < budget) :
    s.turnsFrom budget [] ((linesOf parts).map .line) = s.scriptTurns parts := by
  induction h generalizing budget with
  | nil =>
    obtain ⟨budget, rfl⟩ : ∃ b, budget = b + 1 := ⟨budget - 1, by simp [linesOf] at hbudget; omega⟩
    simp only [linesOf, List.flatMap_nil, List.map_nil, turnsFrom, refuses_promptFor hshows, scriptTurns]
    rfl
  | @cons part more entry _ reads rest ih =>
    have hlines : linesOf (part :: more) = part.program ++ (part.answers ++ linesOf more) := by simp [linesOf]
    rw [hlines] at hbudget ⊢
    obtain ⟨left, rfl⟩ : ∃ left, budget = left + part.program.length := by
      refine ⟨budget - part.program.length, ?_⟩
      rw [List.length_append] at hbudget
      omega
    have hturns := turnsFrom_entry hshows [] (fun _ => entry.begins) entry.ends entry.once left
      ((part.answers ++ linesOf more).map .line)
    have hrun : s.run part.source ((part.answers ++ linesOf more).map .line) =
        { s.run part.source (part.answers.map .line) with unread := (linesOf more).map .line } :=
      Program.run_of_linesRead reads
    rw [List.map_append, hturns, List.nil_append]
    change _ ++ .ran part.source (s.run part.source _) :: s.turnsFrom left [] (s.run part.source _).unread = _
    rw [hrun, ih (by simp at hbudget; omega), scriptTurns]

end Steps

/-! ## Whole sessions -/

theorem runs_scriptTurns {s : Session} {parts : List Part} (h : s.Scripted parts) :
    ((s.scriptTurns parts).filterMap ran?).map (fun ran => (ran.1, ran.2.linesRead, ran.2.events, ran.2.outcome)) =
      parts.map fun part =>
        (part.source, part.answers, (s.run part.source (part.answers.map .line)).events,
          (s.run part.source (part.answers.map .line)).outcome) := by
  induction h with
  | nil => rfl
  | @cons part more _ _ reads _ ih =>
    rw [run, Program.run_of_linesRead reads] at reads
    simp only [scriptTurns, List.filterMap_append, ran?_entering, List.nil_append, List.filterMap_cons, ran?,
      List.map_cons, ih, run, reads]

theorem taken_scriptTurns {s : Session} {parts : List Part} (h : s.Scripted parts) :
    (s.scriptTurns parts).flatMap taken = linesOf parts := by
  induction h with
  | nil => rfl
  | @cons part more _ _ reads _ ih =>
    rw [run, Program.run_of_linesRead reads] at reads
    rw [scriptTurns, List.flatMap_append, taken_entering, List.flatMap_cons, ih, taken, run, reads, ← List.append_assoc]
    rfl

theorem getLast?_scriptTurns (s : Session) (parts : List Part) : (s.scriptTurns parts).getLast? = some .ended := by
  induction parts with
  | nil => rfl
  | cons part more ih => simp [scriptTurns, List.getLast?_append, List.getLast?_cons, ih]

/-- Where the line editor shows the prompts and returns the lines of the input, and
these are made of programs and the lines they read, a session runs just those
programs in order. Each run reads its own lines and is the run of the program on
them alone. Each line is taken once, and the session ends at the end of the input
with status zero. -/
theorem runs_programs_in_turn (s : Surroundings) (level : Level) (settings : Settings) (parts : List Part)
    (hshows : s.editor.Shows settings.prompt) (hlines : s.editor.ReturnsLines s.input (linesOf parts))
    (hparts : Scripted { prompt := settings.prompt, level := level, rounds := s.rounds, editor := s.editor } parts) :
    let session : Session := { prompt := settings.prompt, level := level, rounds := s.rounds, editor := s.editor }
    let turns := session.turns s.input
    (turns.filterMap ran?).map (fun ran => (ran.1, ran.2.linesRead, ran.2.events, ran.2.outcome)) =
        parts.map (fun part =>
          let alone := session.run part.source (part.answers.map .line)
          (part.source, part.answers, alone.events, alone.outcome)) ∧
      turns.flatMap taken = linesOf parts ∧ turns.getLast? = some .ended ∧
      (CommandLine.sessionCommand s level settings).shown = turns.flatMap (session.shown s.stamp) ∧
      (CommandLine.sessionCommand s level settings).status = 0 := by
  intro session turns
  have hturns : turns = session.scriptTurns parts := by
    unfold turns Session.turns
    dsimp only
    rw [show session.editor.delivers s.input = _ from hlines]
    exact turnsFrom_linesOf hshows hparts (by simp)
  refine ⟨?_, ?_, ?_, rfl, rfl⟩
  · rw [hturns]
    exact runs_scriptTurns hparts
  · rw [hturns]
    exact taken_scriptTurns hparts
  · rw [hturns]
    exact getLast?_scriptTurns session parts

/-- A program that a fault stops before it asks again, and one that comes right
after the line it read. -/
theorem runs_programs_in_turn_after_fault :
    let stopped : Part :=
      { program := ["SUGOD", "MUGNA NUMERO x", "DAWAT: x", "IPAKITA: x / 0", "DAWAT: x", "KATAPUSAN"]
        answers := ["7"] }
    let next : Part := { program := ["SUGOD", "IPAKITA: 1", " KATAPUSAN"], answers := [] }
    let s : Surroundings :=
      { home := [], read := fun _ => .error .absent, stamp := [], rounds := 0,
        input := (linesOf [stopped, next]).flatMap (· ++ [Text.lineFeed]) }
    let session : Session := { prompt := "> ", level := .warning, rounds := 0, editor := s.editor }
    session.Scripted [stopped, next] ∧
      ((session.turns s.input).filterMap ran?).map (fun ran => (ran.2.linesRead, ran.2.outcome)) =
        [([[55]], .runtimeError), ([], .ok)] := by
  intro stopped next s session
  have hparts : session.Scripted [stopped, next] :=
    .cons ⟨by decide +kernel, by decide +kernel, by decide +kernel⟩ (by decide +kernel) (by decide +kernel)
      (.cons ⟨by decide +kernel, by decide +kernel, by decide +kernel⟩ (by decide +kernel) (by decide +kernel) .nil)
  have hshows : s.editor.Shows "> " := LineEditor.shows_buffered (by decide +kernel)
  have hlines : s.editor.ReturnsLines s.input (linesOf [stopped, next]) :=
    LineEditor.returnsLines_buffered (by decide +kernel)
  obtain ⟨hruns, -⟩ := runs_programs_in_turn s .warning { prompt := "> " } [stopped, next] hshows hlines hparts
  have houtcomes := congrArg (List.map fun ran => (ran.2.1, ran.2.2.2)) hruns
  rw [List.map_map, List.map_map] at houtcomes
  refine ⟨hparts, houtcomes.trans ?_⟩
  decide +kernel

end Session

end BisayaPlus
