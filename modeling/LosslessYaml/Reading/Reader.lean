import LosslessYaml.Reading.Failure
import LosslessYaml.Reading.Lookahead
import LosslessYaml.Tree

/-!
# Readers

A reader is a place in a source: the text that remains, and the byte column of its first character.
It also keeps the anchors that found no home in the tree, since a node carries one anchor only.

This module holds the steps of a reader and the parts of a node that hold no other node: anchors,
quoted scalars and keys.
-/

namespace LosslessYaml

open Text Lookahead

/-- A place in a source. -/
structure Reader where
  /-- The text that remains to be read. -/
  rest : Text
  /-- The bytes between the start of the line and this place. -/
  column : Nat := 0
  /-- The anchors that gave way to an anchor before them. -/
  dropped : List Anchor := []
deriving Repr, DecidableEq

/-- Where a node in block context stands. -/
inductive Place where
  | root
  | mappingValue
  | sequenceItem
deriving Repr, DecidableEq

namespace Reader

/-! ## Steps -/

/-- The next `n` characters. -/
def taken (r : Reader) (n : Nat) : Text := r.rest.take n

/-- The reader after the next `n` characters. -/
def skip (r : Reader) (n : Nat) : Reader :=
  { r with rest := r.rest.drop n, column := columnAfter r.column (r.rest.take n) }

/-- A failure at this place. -/
def fail {α : Type} (r : Reader) (cause : Cause) : Except Failure α := .error ⟨cause, r.rest⟩

/-- The trivia that comes next. -/
def trivia (r : Reader) : Text := r.taken (triviaLength r.rest)

/-- The reader after the trivia that comes next. -/
def afterTrivia (r : Reader) : Reader := r.skip (triviaLength r.rest)

/-- The spaces and tabs that come next. -/
def blanks (r : Reader) : Text := r.taken (blankLength r.rest)

/-- The reader after the spaces and tabs that come next. -/
def afterBlanks (r : Reader) : Reader := r.skip (blankLength r.rest)

/-- Whether a document starts or ends at this place by a mark of its own. -/
def atDocumentMark (r : Reader) : Bool := r.column == 0 && (atDashes r.rest || atDots r.rest)

/-- Whether a node that starts at this place, on a line of its own, belongs to the place whose
nested content starts at column `floor` or later. A sequence that is the value of a mapping entry
may also start at the column of the entry's key. -/
def continues (floor : Nat) (place : Place) (r : Reader) : Bool :=
  !r.atDocumentMark &&
    (floor ≤ r.column || (place == .mappingValue && r.column + 1 == floor && atDash r.rest))

/-! ## Anchors -/

/-- Reads `&name`. -/
def anchorName (r : Reader) : Except Failure (Text × Reader) :=
  let body := r.skip 1
  let n := nameLength body.rest
  if n == 0 then r.fail .namelessAnchor else .ok (body.taken n, body.skip n)

/-- Gives the node that was read after an anchor its anchor and lead. An anchor that the node has
already is dropped. -/
def attach (lead : Text) (anchor : Anchor) (start : Reader) :
    Block × Reader → Except Failure (Block × Reader)
  | (block, r) =>
    match block.withAnchor? lead anchor with
    | none => start.fail .anchoredAlias
    | some anchored => .ok (anchored, { r with dropped := r.dropped ++ block.anchor.toList })

/-! ## Scalars and aliases -/

/-- Reads `*name`. -/
def aliasNode (lead : Text) (r : Reader) : Block × Reader :=
  let body := r.skip 1
  let n := nameLength body.rest
  (.aliasNode { lead, name := body.taken n }, body.skip n)

/-- Reads a quoted scalar. -/
def quoted (quote : Char) (lead : Text) (r : Reader) : Except Failure (Scalar × Reader) :=
  let body := r.skip 1
  match quotedLength false quote body.rest with
  | none => r.fail (if quote == '"' then .unclosedDoubleQuote else .unclosedSingleQuote)
  | some n =>
    let style := if quote == '"' then .doubleQuoted else .singleQuoted
    .ok ({ lead, style, text := body.taken n }, body.skip (n + 1))

/-- Reads a literal or folded scalar. -/
def literal (style : Style) (floor : Nat) (lead : Text) (r : Reader) : Block × Reader :=
  let body := r.skip 1
  let n := literalLength floor body.rest
  (.scalar { lead, style, text := body.taken n }, body.skip n)

/-- Reads a plain scalar of the given length. -/
def plain (n : Nat) (lead : Text) (r : Reader) : Block × Reader :=
  (.scalar { lead, text := r.taken n }, r.skip n)

/-! ## Keys -/

/-- Reads the anchor of a key, if the key has one. -/
def keyAnchor (r : Reader) : Except Failure (Option Anchor × Reader) :=
  if r.rest.head? == some '&' then do
    let (name, after) ← r.anchorName
    .ok (some ⟨name, after.blanks⟩, after.afterBlanks)
  else .ok (none, r)

/-- Reads a plain key of the given length, which must not be zero. -/
def plainKey (n : Nat) (r : Reader) : Except Failure (Scalar × Reader) :=
  if n == 0 then r.fail .emptyKey else .ok ({ lead := [], text := r.taken n }, r.skip n)

/-- Reads a key of a block mapping, from after its anchor. -/
def bareBlockKey (r : Reader) : Except Failure (Scalar × Reader) :=
  match r.rest with
  | '"' :: _ => r.quoted '"' []
  | '\'' :: _ => r.quoted '\'' []
  | _ => r.plainKey (plainKeyLength r.rest)

/-- Reads a key of a flow mapping, from after its anchor. -/
def bareFlowKey (r : Reader) : Except Failure (Scalar × Reader) :=
  match r.rest with
  | '"' :: _ => r.quoted '"' []
  | '\'' :: _ => r.quoted '\'' []
  | '[' :: _ => r.fail .complexKey
  | '\x7b' :: _ => r.fail .complexKey
  | _ => r.plainKey (plainFlowLength r.rest)

/-- Reads a key with its anchor. -/
def keyWith (bare : Reader → Except Failure (Scalar × Reader)) (start : Reader) :
    Except Failure (Scalar × Reader) := do
  let (anchor, r) ← start.keyAnchor
  let (key, after) ← bare r
  .ok ({ key with anchor }, after)

/-- Reads a key of a block mapping. -/
def blockKey : Reader → Except Failure (Scalar × Reader) := keyWith bareBlockKey

/-- Reads a key of a flow mapping. -/
def flowKey : Reader → Except Failure (Scalar × Reader) := keyWith bareFlowKey

end Reader

end LosslessYaml
