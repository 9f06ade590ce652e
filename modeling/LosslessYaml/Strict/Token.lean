import LosslessYaml.Bytes

/-!
# Tokens of strict reading

Tokens for the starts and ends of block collections, which no character stands for, follow from the
columns; the token for a key is put in when the colon after it is found. The tokens of a text end
with `ended`, or with `malformed` where the text cannot be cut any further.
-/

namespace LosslessYaml.Strict

/-- What a directive at the start of a document says. -/
inductive Directive where
  | version (major minor : Nat)
  /-- Tags with the handle start with the given bytes. -/
  | handle (name : Text) (start : Bytes)
deriving Repr, DecidableEq

/-- A token of a text that is read strictly. -/
inductive Token where
  | directive (directive : Directive)
  | documentStart
  | documentEnd
  | sequenceStart
  | mappingStart
  | blockEnd
  | openBracket
  | closeBracket
  | openBrace
  | closeBrace
  | dash
  | comma
  | key
  | colon
  | aliasNode (name : Text)
  | anchor (name : Text)
  | tag (handle : Text) (suffix : Bytes)
  | scalar (isPlain : Bool) (text : Text)
  | ended
  | malformed
deriving Repr, DecidableEq

/-- Whether a token is an anchor or a tag. -/
def Token.isProperty : Token → Bool
  | .anchor _ => true
  | .tag _ _ => true
  | _ => false

/-- Whether a token bounds a document: a directive, a mark, or the end of the text. -/
def Token.isBoundary : Token → Bool
  | .directive _ => true
  | .documentStart => true
  | .documentEnd => true
  | .ended => true
  | _ => false

end LosslessYaml.Strict
