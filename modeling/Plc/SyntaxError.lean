/-
Why a text could not be read.

A `SyntaxError` says what is wrong, where, and, when the reader was waiting for
something, what it wanted and what it found instead.  The wording is in
`SyntaxError.message`.

Most faults are syntax errors.  A passed resource bound is a fault of its own kind because no recovery
is tried after it.  The last two have no place: a digit character was announced that no number can be
read from, and a duration had no finite length.
-/
import Plc.Limits
import Plc.Span

namespace Plc

/-- What can be wrong with a text. -/
inductive SyntaxError.Kind where
  | unexpectedToken
  | unexpectedEnd
  | unknownCharacter
  | invalidNumber
  | unclosedString
  | unterminatedComment
  | invalidTimeLiteral
  | invalidTimeUnit
  | invalidDirectAddress
  | missingSemicolon
  | missingTerminator
  | unclosedParen
  | unclosedBracket
  | invalidOperator
  | invalidExpression
  | invalidStatement
  | invalidDeclaration
  | invalidType
  | securityLimit
  deriving DecidableEq

/-- A fault at a place in the text; `detail` quotes the bad character or literal. -/
structure SyntaxError where
  kind : SyntaxError.Kind
  span : Span
  expected : Option String := none
  found : Option String := none
  detail : Option String := none

namespace SyntaxError

/-- The words for each kind of fault, before any detail. -/
def Kind.summary : Kind → String
  | .unexpectedToken => "unexpected token"
  | .unexpectedEnd => "unexpected end of file"
  | .unknownCharacter => "unknown character"
  | .invalidNumber => "invalid number literal"
  | .unclosedString => "unclosed string literal"
  | .unterminatedComment => "unterminated block comment"
  | .invalidTimeLiteral => "invalid time literal"
  | .invalidTimeUnit => "invalid unit in time literal"
  | .invalidDirectAddress => "invalid direct address"
  | .missingSemicolon => "missing semicolon"
  | .missingTerminator => "missing terminator"
  | .unclosedParen => "unclosed parenthesis"
  | .unclosedBracket => "unclosed bracket"
  | .invalidOperator => "invalid operator"
  | .invalidExpression => "invalid expression"
  | .invalidStatement => "invalid statement"
  | .invalidDeclaration => "invalid declaration"
  | .invalidType => "invalid type"
  | .securityLimit => "security limit exceeded"

/-- The name of the kind. -/
def Kind.code : Kind → String
  | .unexpectedToken => "UNEXPECTED_TOKEN"
  | .unexpectedEnd => "UNEXPECTED_EOF"
  | .unknownCharacter => "UNKNOWN_CHARACTER"
  | .invalidNumber => "INVALID_NUMBER"
  | .unclosedString => "UNCLOSED_STRING"
  | .unterminatedComment => "UNTERMINATED_COMMENT"
  | .invalidTimeLiteral => "INVALID_TIME_LITERAL"
  | .invalidTimeUnit => "INVALID_TIME_UNIT"
  | .invalidDirectAddress => "INVALID_DIRECT_ADDRESS"
  | .missingSemicolon => "MISSING_SEMICOLON"
  | .missingTerminator => "MISSING_TERMINATOR"
  | .unclosedParen => "UNCLOSED_PAREN"
  | .unclosedBracket => "UNCLOSED_BRACKET"
  | .invalidOperator => "INVALID_OPERATOR"
  | .invalidExpression => "INVALID_EXPRESSION"
  | .invalidStatement => "INVALID_STATEMENT"
  | .invalidDeclaration => "INVALID_DECLARATION"
  | .invalidType => "INVALID_TYPE"
  | .securityLimit => "SECURITY_LIMIT"

/-- Every kind. -/
def Kind.all : List Kind := [
  .unexpectedToken, .unexpectedEnd, .unknownCharacter, .invalidNumber, .unclosedString,
  .unterminatedComment, .invalidTimeLiteral, .invalidTimeUnit, .invalidDirectAddress,
  .missingSemicolon, .missingTerminator, .unclosedParen, .unclosedBracket, .invalidOperator,
  .invalidExpression, .invalidStatement, .invalidDeclaration, .invalidType, .securityLimit]

/-- The summary with its detail in quotes; an empty detail is left out. -/
def detailed (e : SyntaxError) : String :=
  match e.detail with
  | some d => if d.isEmpty then e.kind.summary else e.kind.summary ++ " '" ++ d ++ "'"
  | none => e.kind.summary

/-- The fault in words, without its place. -/
def message (e : SyntaxError) : String :=
  match e.kind, e.expected, e.found with
  | .unexpectedToken, some want, some got =>
    "unexpected token: expected " ++ want ++ ", found " ++ got
  | .unexpectedToken, some want, none => "unexpected token: expected " ++ want
  | .unexpectedToken, none, some got => "unexpected token " ++ got
  | .unexpectedToken, none, none => "unexpected token"
  | .missingTerminator, some want, _ => "missing " ++ want
  | _, _, _ => e.detailed

/-- The fault in words, with its place. -/
def located (e : SyntaxError) : String :=
  e.message ++ " at " ++ e.span.render

/-- The fault above the line of the source it is about. -/
def excerpt (e : SyntaxError) (source : List Char) : String :=
  e.span.excerpt source ("error: " ++ e.message)

end SyntaxError

/-- Why a reading ended without a result. -/
inductive Fault where
  /-- The text breaks the grammar. -/
  | grammar (e : SyntaxError)
  /-- A resource bound was passed. -/
  | limit (e : LimitError)
  /-- The digits announced in a number are none that a number can be read from, or too many. -/
  | unreadableDigits
  /-- A duration is too long for a finite sum. -/
  | infiniteDuration
  /-- A text is its own part, so that taking it apart comes to no end. -/
  | endless

end Plc
