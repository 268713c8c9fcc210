import BisayaPlus.Invocation
import BisayaPlus.Session
import BisayaPlus.Settings
/-!
# The command

Runs a program from a file, shows its tokens or its tree, or holds a session.
-/

set_option autoImplicit false

namespace BisayaPlus

/-- What a command is run in: the home directory, the files, the input, the
time shown in log lines, the rounds granted to each loop, and the line editor of
sessions. -/
structure Surroundings where
  home : Text
  read : Text → Except FileFault Text
  input : Text
  stamp : Text
  rounds : Nat
  editor : LineEditor := .buffered

/-- What a command gives: its exit status, what it shows, and the file it
writes with its content. -/
structure Report where
  status : Nat
  shown : List Shown := []
  saved : Option (Text × Text) := none

namespace CommandLine

/-- The exit status after a fault in the arguments, settings or files. -/
def usageStatus : Nat := 64

/-- The exit status after a fault in the program. -/
def syntaxStatus : Nat := 65

/-- The exit status after a fault in the run. -/
def runtimeStatus : Nat := 70

/-- The exit status after a run. -/
def statusOf : Outcome → Nat
  | .ok => 0
  | .syntaxError => syntaxStatus
  | .runtimeError => runtimeStatus
  | .unfinished => runtimeStatus

/-- A command that ends with a complaint. -/
def complaint (message : Text) : Report := { status := usageStatus, shown := [.err (message ++ "\n")] }

/-- The report on refused arguments. -/
def refusal (settings : Text) (fault : Invocation.Fault) : Report :=
  let message := fault.message?.elim [] (· ++ [Text.lineFeed])
  { status := usageStatus, shown := [.err (message ++ Invocation.usage settings)] }

/-! ## Programs in files -/

/-- A listing after the reports, if any. -/
def listing (text : Text) (diagnostics : List Diagnostic) : Report :=
  { status := if diagnostics.isEmpty then 0 else syntaxStatus
    shown := diagnostics.map (·.shown) ++ [.out text] }

/-- Shows the tokens of a program. -/
def showTokens (p : Program) : Report := listing p.tokenListing p.scanned.diagnostics

/-- Shows the tree of a program. -/
def showTree (p : Program) : Report := listing p.treeListing p.diagnostics

/-- Runs a program. -/
def runProgram (s : Surroundings) (level : Level) (p : Program) : Report :=
  let result := p.run (Session.watchers level) s.rounds (Input.replies s.input)
  { status := statusOf result.outcome, shown := result.events.flatMap (·.shown s.stamp) }

/-- What is asked of a program in a file. -/
def work (s : Surroundings) (level : Level) (i : Invocation) (p : Program) : Report :=
  if i.tokens then showTokens p else if i.tree then showTree p else runProgram s level p

/-- The log entry before a program from a file. -/
def running (path : Text) : LogEntry := { level := .debug, message := "running file", fields := [("path", .text path)] }

/-- Does what is asked of the program in a file. -/
def fileCommand (s : Surroundings) (level : Level) (i : Invocation) (path : Text) : Report :=
  match s.read path with
  | .error fault => complaint (fault.message path)
  | .ok source =>
    let report := work s level i (Program.ofSource source)
    { report with shown := (running path).shown level s.stamp ++ report.shown }

/-! ## Sessions -/

/-- The history in the file at a path. -/
def historyAt (s : Surroundings) (path : Text) : History :=
  match s.read path with
  | .ok content => History.ofContent content
  | .error _ => []

/-- Holds a session. Without a path no history is kept. -/
def sessionCommand (s : Surroundings) (level : Level) (settings : Settings) : Report :=
  let session : Session := { prompt := settings.prompt, level := level, rounds := s.rounds, editor := s.editor }
  let turns := session.turns s.input
  let path := settings.historyPath s.home
  let history := turns.foldl Session.remember (historyAt s path)
  { status := 0
    shown := turns.flatMap (session.shown s.stamp)
    saved := if path.isEmpty then none else some (path, history.content) }

/-! ## The whole command -/

/-- Does what is asked with given settings. -/
def perform (s : Surroundings) (i : Invocation) (settings : Settings) : Report :=
  let settings := if i.logLevel.isEmpty then settings else { settings with logLevel := i.logLevel }
  match settings.level? with
  | none => complaint (Level.unknownName settings.logLevel)
  | some level =>
    match i.operands with
    | [] => sessionCommand s level settings
    | path :: _ => fileCommand s level i path

/-- Runs the command. -/
def run (s : Surroundings) (arguments : List Text) : Report :=
  let standard := Settings.defaultPath s.home
  match Invocation.ofArguments standard arguments with
  | .error fault => refusal standard fault
  | .ok i =>
    match Settings.load s.read i.settings with
    | .error fault => complaint (fault.message i.settings)
    | .ok settings => perform s i settings

end CommandLine

end BisayaPlus
