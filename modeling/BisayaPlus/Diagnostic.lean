import BisayaPlus.Token
/-!
# Faults and diagnostics

What can be wrong with a program, and the one-line report of it. Each fault is
a cause, and its wording is decided here only.
-/

set_option autoImplicit false

namespace BisayaPlus

/-- What can be wrong with the bytes of a program. -/
inductive ScanFault where
  | unexpectedCharacter
  | unterminatedString
  | unterminatedCharacter
  | invalidCharacter
  | unterminatedEscape
  | invalidEscape
  | invalidExponent
  | invalidNumber
  deriving DecidableEq

/-- The wording of a fault in the bytes. -/
def ScanFault.message : ScanFault → Text
  | unexpectedCharacter => "Unexpected character."
  | unterminatedString => "Unterminated string."
  | unterminatedCharacter => "Unterminated character literal."
  | invalidCharacter => "Character literal must contain exactly one character."
  | unterminatedEscape => "Unterminated escape code."
  | invalidEscape => "Invalid escape code."
  | invalidExponent => "Invalid scientific notation: expected digit after 'e'."
  | invalidNumber => "Invalid number format."

/-- What can be wrong with the tokens of a program. -/
inductive SyntaxFault where
  | expectedStart
  | expectedEnd
  | afterEnd
  | expectedNewline
  | expectedExpression
  | expectedName
  | invalidDataType
  | duplicateName
  | invalidTruth
  | initializerMismatch
  | invalidAssignment
  | invalidStep
  | missingConcat
  | expectedColon
  | expectedOpenParen
  | unclosedParen
  | expectedOpenBrace
  | unclosedBrace
  | unexpectedBrace
  | expectedComma
  | expectedWhile
  | outsideLoop
  deriving DecidableEq

/-- The wording of a fault in the tokens. -/
def SyntaxFault.message : SyntaxFault → Text
  | expectedStart => "Expect 'SUGOD' at the start of the program."
  | expectedEnd => "Expect 'KATAPUSAN' at the end of the program."
  | afterEnd => "Unexpected token after 'KATAPUSAN'."
  | expectedNewline => "Expect new line after statement."
  | expectedExpression => "Expect expression."
  | expectedName => "Expected variable name."
  | invalidDataType => "Invalid data type."
  | duplicateName => "Variable is already declared in this statement."
  | invalidTruth => "Invalid boolean value. Use \"OO\" or \"DILI\"."
  | initializerMismatch => "Type mismatch in declaration."
  | invalidAssignment => "Invalid assignment target."
  | invalidStep => "Can only increment or decrement a variable."
  | missingConcat => "Missing '&' operator between expressions."
  | expectedColon => "Expect ':' after keyword."
  | expectedOpenParen => "Expect '(' before condition."
  | unclosedParen => "Expect ')' after expression."
  | expectedOpenBrace => "Expect '\x7b' after 'PUNDOK'."
  | unclosedBrace => "Expect '\x7d' after block."
  | unexpectedBrace => "Unexpected '\x7d' outside a block."
  | expectedComma => "Expect ',' in 'ALANG SA' header."
  | expectedWhile => "Expect 'MINTRAS' after 'BUHATA' body."
  | outsideLoop => "Can only be used inside a loop."

/-- What can go wrong while a program runs. -/
inductive Cause where
  | undefinedVariable (name : Text)
  | mismatch (declared : DataType) (value : Value)
  | unreadable (declared : DataType) (text : Text)
  | onlyNumbers
  | onlyNumber
  | invalidPlus
  | divisionByZero
  | undefinedOperator (lexeme : Text)
  | inputCount (expected got : Nat)
  | inputAbsent
  | inputFailed (reason : Text)
  | printFailed (reason : Text)
  deriving DecidableEq

/-- The wording of a fault of a run. -/
def Cause.message : Cause → Text
  | undefinedVariable name => ("Undefined variable '" : String) ++ name ++ ("'." : String)
  | mismatch declared value =>
    ("Type mismatch: expected " : String) ++ declared.name ++ (" but got " : String) ++ value.kindName ++
      (" " : String) ++ value.display
  | unreadable declared text =>
    ("Type mismatch: cannot read " : String) ++ Text.quote text ++ (" as " : String) ++ declared.name
  | onlyNumbers => "Operands must be numbers."
  | onlyNumber => "Operand must be a number."
  | invalidPlus => "Operands must be two numbers, two strings or two characters."
  | divisionByZero => "Division by zero."
  | undefinedOperator lexeme => ("Undefined operator '" : String) ++ lexeme ++ ("'." : String)
  | inputCount expected got =>
    ("Wrong number of input values: expected " : String) ++ Text.ofNat expected ++ (" but got " : String) ++
      Text.ofNat got ++ ("." : String)
  | inputAbsent => "Cannot read input"
  | inputFailed reason => ("Cannot read input: " : String) ++ reason
  | printFailed reason => reason

/-- A fault of a run, at the token it is blamed on. -/
structure Fault where
  token : Token
  cause : Cause
  deriving DecidableEq

/-! ## Reports -/

/-- Whether a program was refused before it ran, or failed while running. -/
inductive Phase where
  | reading
  | running
  deriving DecidableEq

/-- A report of one fault. -/
structure Diagnostic where
  phase : Phase
  line : Nat
  place : Text
  message : Text
  deriving DecidableEq

namespace Diagnostic

/-- The report on one line, without the line feed. -/
def text (d : Diagnostic) : Text :=
  ("[line " : String) ++ Text.ofNat d.line ++
    (match d.phase with | .reading => "] Error" | .running => "] Runtime error" : String) ++
    d.place ++ (": " : String) ++ d.message

/-- The report of a fault in the tokens, at a token. -/
def ofSyntax (fault : SyntaxFault) (token : Token) : Diagnostic :=
  { phase := .reading, line := token.line, place := token.place, message := fault.message }

/-- The report of a fault of a run. -/
def ofFault (fault : Fault) : Diagnostic :=
  { phase := .running, line := fault.token.line, place := fault.token.place, message := fault.cause.message }

end Diagnostic

end BisayaPlus
