import BisayaPlus.CommandLine
import Std.Time.Format
/-!
# The program

Looks up the files a command needs, runs it and shows what it gives. While the
command lacks input, more is read and the command is run again: what it has
shown before stays the same.
-/

set_option autoImplicit false

namespace BisayaPlus

namespace Console

/-- The bytes of a text. -/
def bytesOf (t : Text) : ByteArray := ⟨t.toArray⟩

/-- Why the system refused to read a file. -/
def faultOf : IO.Error → FileFault
  | .noFileOrDirectory _ _ _ => .absent
  | .inappropriateType none _ _ => .isDirectory
  | .inappropriateType (some _) _ _ => .notDirectory
  | .permissionDenied _ _ _ => .other "permission denied"
  | .invalidArgument _ _ _ => .nameTooLong
  | e => .other (toString e)

/-- Reads a file. -/
def readFile (path : Text) : IO (Except FileFault Text) := do
  match String.fromUTF8? (bytesOf path) with
  | none => pure (.error .invalidName)
  | some name =>
    if path.contains 0 then pure (.error .invalidName)
    else
      try
        let content ← IO.FS.readBinFile name
        pure (.ok content.toList)
      catch e => pure (.error (faultOf e))

/-- Writes a file if it can be written. -/
def writeFile (path content : Text) : IO Unit := do
  match String.fromUTF8? (bytesOf path) with
  | none => pure ()
  | some name =>
    try IO.FS.writeBinFile name (bytesOf content)
    catch _ => pure ()

/-- The content of files as read. -/
abbrev Files := List (Text × Except FileFault Text)

/-- The content of the file at a path. -/
def Files.read (files : Files) (path : Text) : Except FileFault Text := (files.lookup path).getD (.error .absent)

/-- Reads the files a command needs. -/
def gather (home : Text) (arguments : List Text) : IO Files := do
  match Invocation.ofArguments (Settings.defaultPath home) arguments with
  | .error _ => pure []
  | .ok i =>
    let settings : Files := [(i.settings, ← readFile i.settings)]
    match i.operands, Settings.load settings.read i.settings with
    | path :: _, _ => pure (settings ++ [(path, ← readFile path)])
    | [], .ok s => pure (settings ++ [(s.historyPath home, ← readFile (s.historyPath home))])
    | [], .error _ => pure settings

/-- Shows texts on the output streams. -/
def display (shown : List Shown) : IO Unit := do
  let stdout ← IO.getStdout
  let stderr ← IO.getStderr
  for s in shown do
    match s with
    | .out t => stdout.write (bytesOf t)
    | .err t =>
      stdout.flush
      stderr.write (bytesOf t)
    | .starved => pure ()
  stdout.flush
  stderr.flush

/-- Reads to the end of the input. -/
partial def readRest (stdin : IO.FS.Stream) (before : ByteArray) : IO ByteArray := do
  let more ← stdin.read 65536
  if more.isEmpty then pure before else readRest stdin (before ++ more)

/-- Reads more input: a line from a terminal, and everything from elsewhere. -/
def readMore (stdin : IO.FS.Stream) : IO Text := do
  if ← stdin.isTty then
    let line ← stdin.getLine
    pure line.toUTF8.toList
  else
    let rest ← readRest stdin ByteArray.empty
    pure rest.toList

/-- Runs a command, with more input as long as it lacks some. The first texts
have been shown before. -/
partial def converse (s : Surroundings) (arguments : List Text) (before : Nat) (inputEnded : Bool) : IO Report := do
  let report := CommandLine.run s arguments
  let settled := report.shown.takeWhile (· != .starved)
  if inputEnded || settled.length == report.shown.length then
    display (report.shown.drop before)
    pure report
  else
    display (settled.drop before)
    let more ← readMore (← IO.getStdin)
    converse { s with input := s.input ++ more } arguments settled.length more.isEmpty

/-- The rounds granted to each loop, more than any run can use. -/
def rounds : Nat := Nat.pow 2 64

end Console

end BisayaPlus

open BisayaPlus Console in
/-- Runs the command. -/
def main (arguments : List String) : IO UInt32 := do
  let home : Text := Text.ofString ((← IO.getEnv "HOME").getD "")
  let arguments := arguments.map Text.ofString
  let files ← gather home arguments
  let stamp := (← Std.Time.DateTime.now).toISO8601String
  let report ← converse
    { home := home, read := files.read, input := [], stamp := stamp, rounds := rounds } arguments 0 false
  match report.saved with
  | some (path, content) => writeFile path content
  | none => pure ()
  pure report.status.toUInt32
