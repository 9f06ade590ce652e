import LosslessYaml.Text

/-!
# Failures of path expressions

Why an expression is not a path, and at which of its characters.
-/

namespace LosslessYaml

/-- What an expression lacks at some place. -/
inductive Expected where
  | char (c : Char)
  | segment
  | segmentAfterSlash
  | dotOrBracket
  | bracketBody
  | openingQuote
  | closingQuote (quote : Char)
deriving Repr, DecidableEq

/-- What was expected, in words. -/
def Expected.message : Expected → String
  | .char c => s!"'{c}'"
  | .segment => "path segment"
  | .segmentAfterSlash => "path segment after '/'"
  | .dotOrBracket => "'.' or '['"
  | .bracketBody => "index, slice, '*' or quoted key"
  | .openingQuote => "quote"
  | .closingQuote quote => s!"closing quote '{quote}'"

/-- Why an expression is not a path. -/
inductive PathCause where
  | unexpected (found : Char) (expected : Expected)
  | ended (expected : Expected)
  | emptyExpression
  | emptySegment
  | partWildcard (name : Text)
  | missingName
  | missingNumber
  | unknownEscape
  | numberOutOfRange (digits : Text)
  | reversedSlice (start stop : Int64)
deriving Repr, DecidableEq

/-- A cause, with what remains of the expression where it arose. -/
structure PathFailure where
  cause : PathCause
  rest : Text
deriving Repr, DecidableEq

/-- A cause, and the number of characters of the expression before the place where it arose. -/
structure PathError where
  cause : PathCause
  position : Nat
deriving Repr, DecidableEq

/-- The error of a failure that arose while reading `expression`. -/
def PathFailure.locate (expression : Text) (failure : PathFailure) : PathError where
  cause := failure.cause
  position := expression.length - failure.rest.length

/-- The error in words. -/
def PathError.message (error : PathError) : String :=
  match error.cause with
  | .unexpected found expected =>
    s!"Unexpected token '{found}' at position {error.position}, expected {expected.message}"
  | .ended expected => s!"Unexpected end of input, expected {expected.message}"
  | .emptyExpression => "Invalid path syntax: Empty path expression"
  | .emptySegment => s!"Invalid path syntax: Empty path segment at position {error.position}"
  | .partWildcard name =>
    s!"Invalid path syntax: Partial wildcard '{String.ofList name}' is not supported"
  | .missingName => "Invalid path syntax: Expected identifier"
  | .missingNumber => "Invalid path syntax: Expected number"
  | .unknownEscape => "Invalid path syntax: Invalid escape sequence"
  | .numberOutOfRange digits => s!"Invalid path syntax: Invalid number: {String.ofList digits}"
  | .reversedSlice start stop =>
    s!"Invalid path syntax: Invalid slice: start ({start.toInt}) > end ({stop.toInt})"

end LosslessYaml
