import LosslessYaml.Proofs.Reading.Spacing

/-!
# The pieces of a text

A stream prints as a row of pieces, each with a role: trivia, a mark of a document, an anchor, the
text of a scalar or of a key, and so on.  `Stream.pieces` gives the row.  A flow collection is one
piece, whatever stands in it.

`pieceAt` finds the piece that a character belongs to, and how far into the piece the character is.
`Falls` says of a row that this piece has some property.  Rows are put together from shorter ones,
so `Falls` comes with lemmas for `++` and for a piece in front.
-/

namespace LosslessYaml

/-- What a piece of a text is. -/
inductive Role where
  /-- White space, comments and directives. -/
  | trivia
  /-- The mark of a document's start. -/
  | start
  /-- The mark of a document's end. -/
  | finish
  /-- Anchors, with what stands between them and their node. -/
  | anchor
  | aliasNode
  /-- The dash of an item, the colon of an entry, and commas. -/
  | indicator
  | value (style : Style)
  | key (style : Style)
  /-- A flow collection. -/
  | flow
deriving Repr, DecidableEq

/-- Whether line starts mean nothing within a piece: it is a quoted scalar or a flow collection. -/
def Role.encloses : Role → Bool
  | .value .singleQuoted | .value .doubleQuoted => true
  | .key .singleQuoted | .key .doubleQuoted => true
  | .flow => true
  | _ => false

/-- A part of a text, with its role. -/
structure Piece where
  role : Role
  text : Text
deriving Repr, DecidableEq

/-- The text of a row of pieces. -/
def textOf (pieces : List Piece) : Text := pieces.flatMap Piece.text

@[simp] theorem textOf_nil : textOf [] = [] := rfl

@[simp] theorem textOf_cons (piece : Piece) (pieces : List Piece) :
    textOf (piece :: pieces) = piece.text ++ textOf pieces := List.flatMap_cons

@[simp] theorem textOf_append (first second : List Piece) :
    textOf (first ++ second) = textOf first ++ textOf second := List.flatMap_append

/-! ## The pieces of a stream -/

/-- The pieces of a scalar, whose text has the role. -/
def Scalar.pieces (role : Style → Role) (s : Scalar) : List Piece :=
  [⟨.trivia, s.lead⟩, ⟨.anchor, Anchor.printOption s.anchor⟩, ⟨role s.style, s.printBody⟩]

mutual

/-- The pieces of a node after its anchor. -/
def Block.bodyPieces : Block → List Piece
  | .scalar s => [⟨.value s.style, s.printBody⟩]
  | .aliasNode a => [⟨.aliasNode, '*' :: a.name⟩]
  | .mapping ⟨_, _, _, .block, entries⟩ => entriesPieces entries
  | .mapping ⟨_, _, _, .flow closing, entries⟩ =>
    [⟨.flow, '\x7b' :: printEntries entries ++ (closing ++ ['\x7d'])⟩]
  | .sequence ⟨_, _, _, .block, _, items⟩ => itemsPieces items
  | .sequence ⟨_, _, _, .flow closing, _, items⟩ =>
    [⟨.flow, '[' :: printItems items ++ (closing ++ [']'])⟩]

/-- The pieces of entries, one after the other. -/
def entriesPieces : List (Entry Block) → List Piece
  | [] => []
  | ⟨lead, _, key, beforeColon, value, comma⟩ :: entries =>
    (⟨.trivia, lead⟩ :: key.pieces .key) ++ [⟨.trivia, beforeColon⟩, ⟨.indicator, [':']⟩] ++
      (⟨.trivia, value.lead⟩ :: ⟨.anchor, Anchor.printOption value.anchor⟩ :: value.bodyPieces) ++
      ⟨.indicator, printComma comma⟩ :: entriesPieces entries

/-- The pieces of items, one after the other. -/
def itemsPieces : List (Item Block) → List Piece
  | [] => []
  | ⟨lead, _, dash, value, comma⟩ :: items =>
    [⟨.trivia, lead⟩, ⟨.indicator, printDash dash⟩] ++
      (⟨.trivia, value.lead⟩ :: ⟨.anchor, Anchor.printOption value.anchor⟩ :: value.bodyPieces) ++
      ⟨.indicator, printComma comma⟩ :: itemsPieces items

end

/-- The pieces of a node after its lead. -/
def Block.contentPieces (block : Block) : List Piece :=
  ⟨.anchor, Anchor.printOption block.anchor⟩ :: block.bodyPieces

/-- The pieces of a node. -/
def Block.pieces (block : Block) : List Piece := ⟨.trivia, block.lead⟩ :: block.contentPieces

/-- The pieces of a document after its lead. -/
def Document.contentPieces (document : Document) : List Piece :=
  ⟨.start, printDashes document.explicit⟩ :: document.root.pieces ++
    [⟨.trivia, document.ending.lead⟩, ⟨.finish, printDots document.ending.explicit⟩]

/-- The pieces of a document. -/
def Document.pieces (document : Document) : List Piece :=
  ⟨.trivia, document.lead⟩ :: document.contentPieces

/-- The pieces of a stream. -/
def Stream.pieces (stream : Stream) : List Piece :=
  stream.documents.flatMap Document.pieces ++ [⟨.trivia, stream.suffix⟩]

theorem Scalar.textOf_pieces (role : Style → Role) (s : Scalar) :
    textOf (s.pieces role) = s.print := by
  simp [Scalar.pieces, Scalar.print]

mutual

theorem Block.textOf_bodyPieces : ∀ block : Block, textOf block.bodyPieces = block.body
  | .scalar s => by simp [Block.bodyPieces, Block.body]
  | .aliasNode a => by simp [Block.bodyPieces, Block.body]
  | .mapping ⟨_, _, _, .block, entries⟩ => by
      rw [Block.bodyPieces, textOf_entriesPieces entries]
      simp [Block.body, Layout.printOpening, Layout.printClosing]
  | .mapping ⟨_, _, _, .flow closing, entries⟩ => by
      simp [Block.bodyPieces, Block.body, Layout.printOpening, Layout.printClosing]
  | .sequence ⟨_, _, _, .block, _, items⟩ => by
      rw [Block.bodyPieces, textOf_itemsPieces items]
      simp [Block.body, Layout.printOpening, Layout.printClosing]
  | .sequence ⟨_, _, _, .flow closing, _, items⟩ => by
      simp [Block.bodyPieces, Block.body, Layout.printOpening, Layout.printClosing]

theorem textOf_entriesPieces : ∀ entries : List (Entry Block),
    textOf (entriesPieces entries) = printEntries entries
  | [] => by simp [entriesPieces, printEntries]
  | ⟨lead, _, key, beforeColon, value, comma⟩ :: entries => by
      simp [entriesPieces, printEntries, Scalar.textOf_pieces, Block.print_eq_append,
        Block.textOf_bodyPieces value, textOf_entriesPieces entries]

theorem textOf_itemsPieces : ∀ items : List (Item Block),
    textOf (itemsPieces items) = printItems items
  | [] => by simp [itemsPieces, printItems]
  | ⟨lead, _, dash, value, comma⟩ :: items => by
      simp [itemsPieces, printItems, Block.print_eq_append, Block.textOf_bodyPieces value,
        textOf_itemsPieces items]

end

theorem Block.textOf_contentPieces (block : Block) :
    textOf block.contentPieces = block.content := by
  rw [contentPieces, textOf_cons, block.textOf_bodyPieces, Block.content]

theorem Block.textOf_pieces (block : Block) : textOf block.pieces = block.print := by
  rw [pieces, textOf_cons, block.textOf_contentPieces, block.print_eq_content]

theorem Document.textOf_pieces (document : Document) : textOf document.pieces = document.print := by
  simp [pieces, contentPieces, Document.print, Block.textOf_pieces]

/-- The pieces of a stream are all of its text. -/
theorem Stream.textOf_pieces (stream : Stream) : textOf stream.pieces = stream.print := by
  have hdocuments : ∀ documents : List Document,
      textOf (documents.flatMap Document.pieces) = documents.flatMap Document.print := by
    intro documents
    induction documents with
    | nil => rfl
    | cons document documents ih =>
        rw [List.flatMap_cons, textOf_append, ih, document.textOf_pieces, List.flatMap_cons]
  rw [pieces, textOf_append, hdocuments, Stream.print]
  simp

/-! ## Finding a piece -/

/-- The piece that the character at a place belongs to, and where in it the character is. -/
def pieceAt : List Piece → Nat → Option (Piece × Nat)
  | [], _ => none
  | piece :: pieces, n =>
    if n < piece.text.length then some (piece, n) else pieceAt pieces (n - piece.text.length)

theorem pieceAt_append_left {first : List Piece} {n : Nat} {found : Piece × Nat}
    (h : pieceAt first n = some found) (second : List Piece) :
    pieceAt (first ++ second) n = some found := by
  induction first generalizing n with
  | nil => cases h
  | cons piece first ih =>
      rw [pieceAt] at h
      rw [List.cons_append, pieceAt]
      split at h
      next hlt => rwa [if_pos hlt]
      next hge =>
        rw [if_neg hge]
        exact ih h

theorem pieceAt_append_right (first second : List Piece) (n : Nat) :
    pieceAt (first ++ second) ((textOf first).length + n) = pieceAt second n := by
  induction first with
  | nil => simp
  | cons piece first ih =>
      have hge : ¬ (textOf (piece :: first)).length + n < piece.text.length := by
        rw [textOf_cons, List.length_append]
        omega
      have hsub : (textOf (piece :: first)).length + n - piece.text.length =
          (textOf first).length + n := by
        rw [textOf_cons, List.length_append]
        omega
      rw [List.cons_append, pieceAt, if_neg hge, hsub, ih]

/-- The piece at a place has the property, for the place that it is at within the piece. -/
def Falls (P : Piece → Nat → Prop) (pieces : List Piece) (n : Nat) : Prop :=
  ∃ piece offset, pieceAt pieces n = some (piece, offset) ∧ P piece offset

namespace Falls

variable {P : Piece → Nat → Prop} {pieces first second : List Piece} {piece : Piece} {n : Nat}

theorem lt (h : Falls P pieces n) : n < (textOf pieces).length := by
  obtain ⟨found, offset, hat, -⟩ := h
  induction pieces generalizing n with
  | nil => cases hat
  | cons piece pieces ih =>
      rw [pieceAt] at hat
      rw [textOf_cons, List.length_append]
      split at hat
      next hlt => omega
      next hge =>
        have hrest := ih hat
        omega

theorem head (hn : n < piece.text.length) (h : P piece n) (pieces : List Piece) :
    Falls P (piece :: pieces) n :=
  ⟨piece, n, by rw [pieceAt, if_pos hn], h⟩

theorem append_left (h : Falls P first n) (second : List Piece) : Falls P (first ++ second) n := by
  obtain ⟨piece, offset, hat, hP⟩ := h
  exact ⟨piece, offset, pieceAt_append_left hat second, hP⟩

theorem append_right (h : Falls P second n) (first : List Piece) :
    Falls P (first ++ second) ((textOf first).length + n) := by
  obtain ⟨piece, offset, hat, hP⟩ := h
  exact ⟨piece, offset, by rw [pieceAt_append_right, hat], hP⟩

theorem cons (h : Falls P second n) (piece : Piece) :
    Falls P (piece :: second) (piece.text.length + n) := by
  simpa using h.append_right [piece]

/-- A place that is not in the piece in front is behind it. -/
theorem behind (h : Falls P (piece :: second) n) (hnot : ∀ offset, ¬ P piece offset) :
    ∃ rest, n = piece.text.length + rest ∧ Falls P second rest := by
  obtain ⟨found, offset, hat, hP⟩ := h
  rw [pieceAt] at hat
  split at hat
  next =>
    cases hat
    exact absurd hP (hnot _)
  next hge => exact ⟨n - piece.text.length, by omega, found, offset, hat, hP⟩

end Falls

end LosslessYaml
