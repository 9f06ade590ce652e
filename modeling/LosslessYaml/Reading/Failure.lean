import LosslessYaml.Text

/-!
# Failures of reading

Why a source cannot be read, and where. While reading, a place is the text that remains there;
once reading has failed, the source tells the line and the column of that place.
-/

namespace LosslessYaml

/-- Why a source cannot be read. -/
inductive Cause where
  | tag
  | complexKey
  | sequenceOnKeyLine
  | mappingOnKeyLine
  | namelessAnchor
  | anchoredAlias
  | emptyKey
  | missingColon
  | missingFlowColon
  | keyWithoutValue
  | pairInSequence
  | missingSeparator (closing : Char)
  | endInsideFlow
  | unclosedMapping
  | unclosedSequence
  | unclosedDoubleQuote
  | unclosedSingleQuote
  | contentAfterRoot
  | tooDeep
deriving Repr, DecidableEq

/-- The wording of a cause. -/
def Cause.message : Cause → String
  | .tag => "tags are not supported"
  | .complexKey => "complex mapping keys are not supported"
  | .sequenceOnKeyLine => "a block sequence cannot start on the same line as its key"
  | .mappingOnKeyLine => "a nested mapping cannot start on the same line as its key"
  | .namelessAnchor => "anchor without a name"
  | .anchoredAlias => "an alias cannot carry an anchor"
  | .emptyKey => "empty mapping key"
  | .missingColon => "expected ':' after mapping key"
  | .missingFlowColon => "expected ':' after flow mapping key"
  | .keyWithoutValue => "flow mapping keys without a value are not supported"
  | .pairInSequence => "single-pair mappings inside flow sequences are not supported"
  | .missingSeparator closing => s!"expected ',' or '{closing}' in flow collection"
  | .endInsideFlow => "unexpected end of input inside a flow collection"
  | .unclosedMapping => "unterminated flow mapping"
  | .unclosedSequence => "unterminated flow sequence"
  | .unclosedDoubleQuote => "unterminated double-quoted scalar"
  | .unclosedSingleQuote => "unterminated single-quoted scalar"
  | .contentAfterRoot => "unexpected content after the document root"
  | .tooDeep => "nesting too deep"

/-- A cause, with what remains of the source where it arose. -/
structure Failure where
  cause : Cause
  rest : Text
deriving Repr, DecidableEq

/-- A place in a source, both numbers counted from one and the column in characters. -/
structure Location where
  line : Nat
  column : Nat
deriving Repr, DecidableEq

/-- The place that is reached by reading the text from the start of a source. -/
def Location.after (before : Text) : Location where
  line := before.count '\n' + 1
  column := (before.reverse.takeWhile (· != '\n')).length + 1

/-- A cause and its place in the source. -/
structure ParseError where
  location : Location
  cause : Cause
deriving Repr, DecidableEq

/-- The error of a failure that arose while reading `source`. -/
def Failure.locate (source : Text) (failure : Failure) : ParseError where
  location := .after (source.take (source.length - failure.rest.length))
  cause := failure.cause

/-- The error in one line. -/
def ParseError.message (error : ParseError) : String :=
  s!"line {error.location.line}, column {error.location.column}: {error.cause.message}"

end LosslessYaml
