import BisayaPlus.History
import BisayaPlus.Input
import BisayaPlus.Output
import BisayaPlus.Run
import BisayaPlus.Text.Control
/-!
# Sessions

A session collects lines until the word that ends a program, runs the program,
and starts over. Prompts and running programs take their lines from one input,
through a line editor.
-/

set_option autoImplicit false

namespace BisayaPlus

/-! ## Line editors -/

/-- A line editor, where the input is no terminal. -/
structure LineEditor where
  /-- Whether it refuses to show a prompt, and gives the end of the input instead. -/
  refuses : Text → Bool
  /-- What it delivers from an input, call by call, until it is at the end. -/
  delivers : Text → List Reply

namespace LineEditor

/-- A prompt that cannot be shown. -/
def isUnfit (prompt : Text) : Bool :=
  (Text.glyphs prompt).any fun g =>
    match g with
    | .char c => Text.isControl c
    | .stray _ => false

/-- The editor that reads through a buffer. -/
def buffered : LineEditor where
  refuses := isUnfit
  delivers := Input.sessionReplies

end LineEditor

/-! ## Sessions -/

/-- What a session is run with. -/
structure Session where
  prompt : Text
  level : Level
  rounds : Nat
  editor : LineEditor

/-- What happens in a session, in order. -/
inductive Turn where
  | prompted (prompt : Text)
  | entered (line : Text)
  | ran (source : Text) (result : RunResult)
  /-- The input has ended. -/
  | ended

namespace Session

/-- The line that leaves a session. -/
def quitWord : Text := ":quit"

/-- The word that ends a program. -/
def lastWord : Text := "KATAPUSAN"

/-- The prompt for a further line of a program: a dot for each byte of the
prompt without the spaces at its end. -/
def continuation (prompt : Text) : Text :=
  List.replicate (Text.trimRight (· == Text.byte ' ') prompt).length (Text.byte '.') ++ [Text.byte ' ']

/-- The prompt, where `program` is what has been collected. -/
def promptFor (s : Session) (program : Text) : Text := if program.isEmpty then s.prompt else continuation s.prompt

/-- What a program shows and reads in a session. -/
def watchers (level : Level) : Watchers where
  printer := some fun _ => none
  reporter := true
  reader := true
  logger := some level

/-- Runs a program with the rest of the input. -/
def run (s : Session) (source : Text) (replies : List Reply) : RunResult :=
  (Program.ofSource source).run (watchers s.level) s.rounds replies

/-- The turns of a session, where `program` is what has been collected and the
budget bounds the lines. -/
def turnsFrom (s : Session) : Nat → Text → List Reply → List Turn
  | 0, _, _ => []
  | budget + 1, program, replies =>
    if s.editor.refuses (s.promptFor program) then [.ended]
    else
      .prompted (s.promptFor program) ::
        match replies with
        | [] => [.ended]
        | .failure _ :: _ => [.ended]
        | .line line :: rest =>
          if program.isEmpty && Text.trim line = quitWord then []
          else if program.isEmpty && (Text.trim line).isEmpty then s.turnsFrom budget program rest
          else
            let program := program ++ line ++ [Text.lineFeed]
            .entered line ::
              if Text.trim line = lastWord then
                let result := s.run program rest
                .ran program result :: s.turnsFrom budget [] result.unread
              else s.turnsFrom budget program rest

/-- The turns of a session on an input. -/
def turns (s : Session) (input : Text) : List Turn :=
  let replies := s.editor.delivers input
  s.turnsFrom (replies.length + 1) [] replies

/-- The log entry after a program. -/
def finished (outcome : Outcome) : LogEntry :=
  { level := .debug, message := "program finished", fields := [("outcome", .text outcome.name)] }

/-- What is shown in a turn. -/
def shown (s : Session) (stamp : Text) : Turn → List Shown
  | .prompted prompt => [.out prompt]
  | .entered _ => []
  | .ran _ result => result.events.flatMap (·.shown stamp) ++ (finished result.outcome).shown s.level stamp
  | .ended => [.starved, .out "\n"]

/-- Adds what is entered in a turn to a history. -/
def remember (h : History) : Turn → History
  | .entered line => h.enter line
  | _ => h

end Session

end BisayaPlus
