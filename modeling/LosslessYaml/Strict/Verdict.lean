import LosslessYaml.Strict.Intake
import LosslessYaml.Strict.Intake.Datum
import LosslessYaml.Strict.Release
import LosslessYaml.Strict.Release.Datum

/-!
# Verdicts

Whether a text may be taken in, and which of its documents keeps it from being given out.
-/

namespace LosslessYaml.Strict

/-- The documents of tokens. -/
def allDocuments (dialect : Dialect) (tokens : List Token) : List (Option (List Event)) :=
  documents dialect (tokens.length + 2) true true tokens

/-- Whether a text may be taken in. -/
def acceptsInput (text : Text) : Bool :=
  (allDocuments .intake (Intake.tokens text)).all fun found => found.any Intake.isDocument

/-- The number of the first document that keeps a text from being given out. -/
def firstInvalid (text : Text) : Option Nat :=
  ((allDocuments .release (Release.tokens text)).findIdx? fun found =>
    !found.any Release.isDocument).map (· + 1)

end LosslessYaml.Strict
