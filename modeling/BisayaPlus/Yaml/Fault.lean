import BisayaPlus.Text
/-!
# Faults of a YAML text

Why a text gives no document, and the line where that shows.
-/

set_option autoImplicit false

namespace BisayaPlus.Yaml

/-- What is wrong with a text. -/
inductive Problem where
  -- characters
  | leadingOctet
  | trailingOctet
  | sequenceLength
  | notACharacter
  | incompleteSequence
  | incompleteUnit
  | lowSurrogate
  | incompletePair
  | noLowSurrogate
  | controlCharacter
  -- tokens
  | noToken
  | depth
  | entryPlace
  | keyPlace
  | valuePlace
  | keyWithoutValue
  | anchorName
  | directiveName
  | directiveNameEnd
  | unknownDirective
  | versionPoint
  | longVersion
  | noVersion
  | noBlank
  | noBlankOrBreak
  | noCommentOrBreak
  | tagUri
  | tagMark
  | tagClose
  | escapedOctet
  | escapedLeadingOctet
  | escapedTrailingOctet
  | zeroIndentation
  | tabIndentation
  | tabViolation
  | markInQuotes
  | endInQuotes
  | unknownEscape
  | hexadecimal
  | escapedCode
  -- structure
  | noDocumentStart
  | version
  | repeatedVersion
  | repeatedHandle
  | undefinedHandle
  | noContent
  | noEntry
  | noKey
  | noSequenceSeparator
  | noMappingSeparator
  -- values
  | unknownAnchor (name : Text)
  | selfReference (name : Text)
  | excessiveAliasing
  | mergeValue
  | binaryData
  | tagMismatch (found value tag : Text)
  deriving DecidableEq

/-- The wording of a problem. -/
def Problem.message : Problem → Text
  | leadingOctet => "invalid leading UTF-8 octet"
  | trailingOctet => "invalid trailing UTF-8 octet"
  | sequenceLength => "invalid length of a UTF-8 sequence"
  | notACharacter => "invalid Unicode character"
  | incompleteSequence => "incomplete UTF-8 octet sequence"
  | incompleteUnit => "incomplete UTF-16 character"
  | lowSurrogate => "unexpected low surrogate area"
  | incompletePair => "incomplete UTF-16 surrogate pair"
  | noLowSurrogate => "expected low surrogate area"
  | controlCharacter => "control characters are not allowed"
  | noToken => "found character that cannot start any token"
  | depth => "exceeded max depth of 10000"
  | entryPlace => "block sequence entries are not allowed in this context"
  | keyPlace => "mapping keys are not allowed in this context"
  | valuePlace => "mapping values are not allowed in this context"
  | keyWithoutValue => "could not find expected ':'"
  | anchorName => "did not find expected alphabetic or numeric character"
  | directiveName => "could not find expected directive name"
  | directiveNameEnd => "found unexpected non-alphabetical character"
  | unknownDirective => "found unknown directive name"
  | versionPoint => "did not find expected digit or '.' character"
  | longVersion => "found extremely long version number"
  | noVersion => "did not find expected version number"
  | noBlank => "did not find expected whitespace"
  | noBlankOrBreak => "did not find expected whitespace or line break"
  | noCommentOrBreak => "did not find expected comment or line break"
  | tagUri => "did not find expected tag URI"
  | tagMark => "did not find expected '!'"
  | tagClose => "did not find the expected '>'"
  | escapedOctet => "did not find URI escaped octet"
  | escapedLeadingOctet => "found an incorrect leading UTF-8 octet"
  | escapedTrailingOctet => "found an incorrect trailing UTF-8 octet"
  | zeroIndentation => "found an indentation indicator equal to 0"
  | tabIndentation => "found a tab character where an indentation space is expected"
  | tabViolation => "found a tab character that violates indentation"
  | markInQuotes => "found unexpected document indicator"
  | endInQuotes => "found unexpected end of stream"
  | unknownEscape => "found unknown escape character"
  | hexadecimal => "did not find expected hexdecimal number"
  | escapedCode => "found invalid Unicode character escape code"
  | noDocumentStart => "did not find expected <document start>"
  | version => "found incompatible YAML document"
  | repeatedVersion => "found duplicate %YAML directive"
  | repeatedHandle => "found duplicate %TAG directive"
  | undefinedHandle => "found undefined tag handle"
  | noContent => "did not find expected node content"
  | noEntry => "did not find expected '-' indicator"
  | noKey => "did not find expected key"
  | noSequenceSeparator => "did not find expected ',' or ']'"
  | noMappingSeparator => "did not find expected ',' or '\x7d'"
  | unknownAnchor name => "unknown anchor '" ++ name ++ "' referenced"
  | selfReference name => "anchor '" ++ name ++ "' value contains itself"
  | excessiveAliasing => "document contains excessive aliasing"
  | mergeValue => "map merge requires map or sequence of maps as the value"
  | binaryData => "!!binary value contains invalid base64 data"
  | tagMismatch found value tag => "cannot decode " ++ found ++ " \x60" ++ value ++ "\x60 as a " ++ tag

/-- A problem and the line it is reported on, where zero stands for none. -/
structure Fault where
  line : Nat := 0
  problem : Problem
  deriving DecidableEq

/-- The wording of a fault. -/
def Fault.message (f : Fault) : Text :=
  if f.line = 0 then "yaml: " ++ f.problem.message
  else "yaml: line " ++ Text.ofNat f.line ++ ": " ++ f.problem.message

end BisayaPlus.Yaml
