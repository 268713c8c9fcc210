import BisayaPlus.Text.Quoted
/-!
# Invocations

What the arguments of a command ask for. Flags stand before the operands, with
one dash or two. A flag with a value takes it after an equals sign or from the
next argument; a switch only after an equals sign.
-/

set_option autoImplicit false

namespace BisayaPlus

/-- What the arguments of a command ask for. -/
structure Invocation where
  settings : Text
  logLevel : Text := []
  tokens : Bool := false
  tree : Bool := false
  operands : List Text := []
  deriving DecidableEq

namespace Invocation

/-- The flags of the command. -/
inductive Flag where
  | settings
  | logLevel
  | tokens
  | tree
  deriving DecidableEq

/-- The flag with a name. -/
def Flag.ofName? (name : Text) : Option Flag :=
  if name = Text.ofString "config" then some settings
  else if name = Text.ofString "log-level" then some logLevel
  else if name = Text.ofString "tokens" then some tokens
  else if name = Text.ofString "ast" then some tree
  else none

/-- Why arguments are refused. -/
inductive Fault where
  | help
  | malformed (argument : Text)
  | unknown (name : Text)
  | valueMissing (name : Text)
  | notBool (value name : Text)
  | tooManyOperands
  deriving DecidableEq

/-- The wording of a fault, if it has one besides the usage. -/
def Fault.message? : Fault → Option Text
  | help => none
  | malformed argument => some ("bad flag syntax: " ++ argument)
  | unknown name => some ("flag provided but not defined: -" ++ name)
  | valueMissing name => some ("flag needs an argument: -" ++ name)
  | notBool value name => some ("invalid boolean value " ++ Text.quote value ++ " for -" ++ name ++ ": parse error")
  | tooManyOperands => none

/-- What can be asked for, where `settings` is the settings file that is read if
none is named. -/
def usage (settings : Text) : Text :=
  "Usage: bisaya [flags] [/path/to/source.bpp]\n" ++
    "  -ast\n    \tprint the syntax tree of the program and exit\n" ++
    "  -config string\n    \tpath to the settings file (default " ++ Text.quote settings ++ ")\n" ++
    "  -log-level string\n    \tlog level (overrides the settings file)\n" ++
    "  -tokens\n    \tprint the tokens of the program and exit\n"

/-! ## Arguments -/

/-- The words for true. -/
def trueWords : List String := ["1", "t", "T", "TRUE", "true", "True"]

/-- The words for false. -/
def falseWords : List String := ["0", "f", "F", "FALSE", "false", "False"]

/-- The value of a switch. -/
def bool? (t : Text) : Option Bool :=
  if trueWords.any (Text.ofString · == t) then some true
  else if falseWords.any (Text.ofString · == t) then some false
  else none

/-- What a single argument is. -/
inductive Argument where
  | operand
  | lastFlag
  | malformed
  | flag (name : Text) (value : Option Text)

/-- Splits the text of a flag at the first equals sign after its first byte. -/
def splitFlag : Text → Argument
  | [] => .malformed
  | b :: rest =>
    if b = Text.byte '-' || b = Text.byte '=' then .malformed
    else
      let name := b :: rest.takeWhile (· != Text.byte '=')
      match rest.dropWhile (· != Text.byte '=') with
      | [] => .flag name none
      | _ :: value => .flag name (some value)

/-- Tells what an argument is. -/
def classify : Text → Argument
  | 45 :: 45 :: [] => .lastFlag
  | 45 :: 45 :: rest => splitFlag rest
  | 45 :: b :: rest => splitFlag (b :: rest)
  | _ => .operand

/-- The words that ask for help. -/
def isHelp (name : Text) : Bool := name == Text.ofString "help" || name == Text.ofString "h"

/-- Sets a switch. -/
def switch (i : Invocation) (flag : Flag) (b : Bool) : Invocation :=
  match flag with
  | .tokens => { i with tokens := b }
  | .tree => { i with tree := b }
  | _ => i

/-- Sets a flag that has a value. -/
def assign (i : Invocation) (flag : Flag) (value : Text) : Invocation :=
  match flag with
  | .settings => { i with settings := value }
  | .logLevel => { i with logLevel := value }
  | _ => i

/-- Reads arguments over what has been asked for. -/
def read (i : Invocation) : List Text → Except Fault Invocation
  | [] => .ok i
  | argument :: more =>
    match classify argument with
    | .operand => .ok { i with operands := argument :: more }
    | .lastFlag => .ok { i with operands := more }
    | .malformed => .error (.malformed argument)
    | .flag name value =>
      match Flag.ofName? name with
      | none => .error (if isHelp name then .help else .unknown name)
      | some flag =>
        if flag = .tokens || flag = .tree then
          match value with
          | none => (i.switch flag true).read more
          | some v =>
            match bool? v with
            | some b => (i.switch flag b).read more
            | none => .error (.notBool v name)
        else
          match value, more with
          | some v, more => (i.assign flag v).read more
          | none, v :: more => (i.assign flag v).read more
          | none, [] => .error (.valueMissing name)

/-- Reads the arguments of a command, where `settings` is the settings file
that is read if none is named. -/
def ofArguments (settings : Text) (arguments : List Text) : Except Fault Invocation := do
  let i ← read { settings := settings } arguments
  if 1 < i.operands.length then .error .tooManyOperands else .ok i

end Invocation

end BisayaPlus
