import LosslessYaml.Reading.Block

/-!
# Streams

Reading of a whole source: documents, their marks, directives and a byte order mark.

Main definition: `Stream.parse`.
-/

namespace LosslessYaml

open Lookahead

namespace Reader

/-- The preamble of a document that comes next: trivia and directives. -/
def preamble (r : Reader) : Text := r.taken (preambleLength (r.column == 0) false r.rest)

/-- The reader after the preamble of a document. -/
def afterPreamble (r : Reader) : Reader := r.skip (preambleLength (r.column == 0) false r.rest)

/-- Reads what follows the root of a document: the end of the source, the mark of the document's
end, or the mark of the next document's start, which is left for it. -/
def ending (r : Reader) : Except Failure (Ending × Reader) :=
  let next := r.afterTrivia
  if next.rest.isEmpty then .ok ({ lead := r.trivia }, next)
  else if next.column == 0 && atDots next.rest then
    .ok ({ lead := r.trivia, explicit := true }, next.skip 3)
  else if next.column == 0 && atDashes next.rest then .ok ({ lead := r.trivia }, next)
  else next.fail .contentAfterRoot

/-- Reads a document whose preamble was read already. -/
def document (fuel : Nat) (lead : Text) (r : Reader) : Except Failure (Document × Reader) := do
  let explicit := r.column == 0 && atDashes r.rest
  let (root, afterRoot) ← block fuel 0 .root (if explicit then r.skip 3 else r)
  let (ending, after) ← afterRoot.ending
  .ok ({ lead, explicit, root, ending }, after)

/-- Reads the documents after the first, and the trivia after the last. -/
def moreDocuments (fuel : Nat) (r : Reader) : Except Failure (List Document × Text × Reader) :=
  match fuel with
  | 0 => r.fail .tooDeep
  | fuel + 1 =>
    if r.afterPreamble.rest.isEmpty then .ok ([], r.preamble, r.afterPreamble)
    else do
      let (document, after) ← document fuel r.preamble r.afterPreamble
      let (documents, suffix, last) ← moreDocuments fuel after
      .ok (document :: documents, suffix, last)

/-- Reads a stream. `mark` is the byte order mark, which belongs to the first document. A source
without content is one empty document. -/
def stream (fuel : Nat) (mark : Text) (r : Reader) : Except Failure (Stream × Reader) :=
  let lead := mark ++ r.preamble
  if r.afterPreamble.rest.isEmpty then
    .ok ({ documents := [⟨lead, [], false, .empty, {}⟩] }, r.afterPreamble)
  else do
    let (first, after) ← document fuel lead r.afterPreamble
    let (documents, suffix, last) ← moreDocuments fuel after
    .ok ({ documents := first :: documents, suffix }, last)

end Reader

/-- The byte order mark that a source may start with, and what follows it. -/
def splitMark : Text → Text × Text
  | '\ufeff' :: rest => (['\ufeff'], rest)
  | source => ([], source)

/-- A bound on the nested calls that reading the text takes. -/
def readingFuel (text : Text) : Nat := 4 * text.length + 4

/-- What reading a source gives: the stream, and the anchors that it does not hold. -/
structure Parsed where
  stream : Stream
  dropped : List Anchor
deriving Repr

/-- Reads a source. -/
def Stream.read (source : Text) : Except ParseError Parsed :=
  let (mark, body) := splitMark source
  match Reader.stream (readingFuel body) mark { rest := body } with
  | .ok (stream, r) => .ok ⟨stream, r.dropped⟩
  | .error failure => .error (failure.locate body)

/-- The stream of a source. -/
def Stream.parse (source : Text) : Except ParseError Stream :=
  (Stream.read source).map Parsed.stream

end LosslessYaml
