import LosslessYaml.Proofs.ReadBack.Legible
import LosslessYaml.Proofs.Reading.Spacing

/-!
# Where the nodes of a tree stand

`Stream.spots` lists the nodes of a stream, each with its place in the text that the stream prints
as: what the node is nested in, the column at which it starts after its anchor, and the text that
follows it.  Columns are counted in bytes from the start of the line, and the byte order mark takes
none.

A tree that was read holds one anchor for each node, and the other anchors of a node are dropped, so
that its own text is not the source where a node has several.  The tree whose text is the source has
these anchors in the trail of the first one, and `Stream.unstacked` takes it to the tree that was
read.  Where no anchor was dropped the two are the same (`Stream.unstacked_eq_self`).
-/

namespace LosslessYaml

open Text Lookahead

/-! ## Spots -/

/-- What a node is nested in: a document, a flow collection, or a block collection at a column, as
a value or as an item. -/
inductive Nesting where
  | root
  | inFlow
  | value (column : Nat)
  | item (column : Nat)
deriving Repr, DecidableEq

/-- The column of the block collection that the node is a value or an item of. -/
def Nesting.column? : Nesting → Option Nat
  | .root | .inFlow => none
  | .value column | .item column => some column

/-- The column at which nested lines start, in block context. -/
def Nesting.context : Nesting → Option Nat
  | .root => some 0
  | .inFlow => none
  | .value column | .item column => some (column + 1)

theorem Nesting.context_of_column? {nesting : Nesting} {column : Nat}
    (h : nesting.column? = some column) : nesting.context = some (column + 1) := by
  cases nesting <;> simp_all [column?, context]

/-- What the values in a collection are nested in. -/
def Layout.nesting (inner : Nesting) : Layout → Nesting
  | .block => inner
  | .flow _ => .inFlow

/-- A node in its place. -/
structure Spot where
  nesting : Nesting
  /-- The column at which the node starts, after its anchor. -/
  column : Nat
  node : Block
  /-- The text that follows the node. -/
  after : Text

mutual

/-- The spots of the nodes at and below a node that starts at the column, after its lead, and is
followed by the text. -/
def Block.spots (nesting : Nesting) (column : Nat) (after : Text) : Block → List Spot
  | .scalar s => [⟨nesting, columnAfter column (Anchor.printOption s.anchor), .scalar s, after⟩]
  | .aliasNode a => [⟨nesting, column, .aliasNode a, after⟩]
  | .mapping ⟨lead, markers, anchor, layout, entries⟩ =>
    let start := columnAfter column (Anchor.printOption anchor)
    ⟨nesting, start, .mapping ⟨lead, markers, anchor, layout, entries⟩, after⟩ ::
      entriesSpots (layout.nesting (.value start))
        (columnAfter start (layout.printOpening '\x7b')) (layout.printClosing '\x7d' ++ after)
        entries
  | .sequence ⟨lead, markers, anchor, layout, indentless, items⟩ =>
    let start := columnAfter column (Anchor.printOption anchor)
    ⟨nesting, start, .sequence ⟨lead, markers, anchor, layout, indentless, items⟩, after⟩ ::
      itemsSpots (layout.nesting (.item start)) (columnAfter start (layout.printOpening '['))
        (layout.printClosing ']' ++ after) items

/-- The spots of the nodes in entries, where the first of them starts at the column with its
lead. -/
def entriesSpots (nesting : Nesting) (column : Nat) (after : Text) : List (Entry Block) → List Spot
  | [] => []
  | ⟨lead, markers, key, beforeColon, value, comma⟩ :: entries =>
    let start := columnAfter column (lead ++ key.print ++ beforeColon ++ [':'] ++ value.lead)
    let next := columnAfter column (printEntries [⟨lead, markers, key, beforeColon, value, comma⟩])
    value.spots nesting start (printComma comma ++ printEntries entries ++ after) ++
      entriesSpots nesting next after entries

/-- The spots of the nodes in items, where the first of them starts at the column with its lead. -/
def itemsSpots (nesting : Nesting) (column : Nat) (after : Text) : List (Item Block) → List Spot
  | [] => []
  | ⟨lead, markers, dash, value, comma⟩ :: items =>
    let start := columnAfter column (lead ++ printDash dash ++ value.lead)
    let next := columnAfter column (printItems [⟨lead, markers, dash, value, comma⟩])
    value.spots nesting start (printComma comma ++ printItems items ++ after) ++
      itemsSpots nesting next after items

end

/-- The spots of the nodes in documents, where the first of them starts at the column. -/
def documentsSpots (column : Nat) (after : Text) : List Document → List Spot
  | [] => []
  | document :: documents =>
    let start := columnAfter column
      (document.lead ++ printDashes document.explicit ++ document.root.lead)
    let ending := document.ending.lead ++ printDots document.ending.explicit
    document.root.spots .root start (ending ++ documents.flatMap Document.print ++ after) ++
      documentsSpots (columnAfter column document.print) after documents

/-- The spots of the nodes in a stream.  The byte order mark takes no column. -/
def Stream.spots (stream : Stream) : List Spot :=
  match stream.documents with
  | [] => []
  | first :: documents =>
    documentsSpots 0 stream.suffix ({ first with lead := (splitMark first.lead).2 } :: documents)

/-- The columns at which the keys of entries start, where the first entry starts at the column with
its lead. -/
def keyColumns (column : Nat) : List (Entry Block) → List Nat
  | [] => []
  | entry :: entries =>
    columnAfter column entry.lead :: keyColumns (columnAfter column (printEntries [entry])) entries

/-- The columns of the dashes of items, where the first item starts at the column with its lead. -/
def dashColumns (column : Nat) : List (Item Block) → List Nat
  | [] => []
  | item :: items =>
    columnAfter column item.lead :: dashColumns (columnAfter column (printItems [item])) items

/-! ## Stacked anchors -/

/-- The anchor without those that its trail goes on with. -/
def Anchor.unstacked (anchor : Anchor) : Anchor :=
  { anchor with trail := anchor.trail.take (triviaLength anchor.trail) }

theorem Anchor.unstacked_eq (name : Text) {trivia rest : Text} (htrivia : IsTrivia trivia)
    (hrest : triviaLength rest = 0) : Anchor.unstacked ⟨name, trivia ++ rest⟩ = ⟨name, trivia⟩ := by
  simp [Anchor.unstacked, htrivia rest, hrest]

mutual

/-- The node with one anchor on each node. -/
def Block.unstacked : Block → Block
  | .scalar s => .scalar { s with anchor := s.anchor.map Anchor.unstacked }
  | .aliasNode a => .aliasNode a
  | .mapping ⟨lead, markers, anchor, layout, entries⟩ =>
    .mapping ⟨lead, markers, anchor.map Anchor.unstacked, layout, unstackedEntries entries⟩
  | .sequence ⟨lead, markers, anchor, layout, indentless, items⟩ =>
    .sequence ⟨lead, markers, anchor.map Anchor.unstacked, layout, indentless,
      unstackedItems items⟩

/-- The entries with one anchor on each node in them.  Keys never have more. -/
def unstackedEntries : List (Entry Block) → List (Entry Block)
  | [] => []
  | ⟨lead, markers, key, beforeColon, value, comma⟩ :: entries =>
    ⟨lead, markers, key, beforeColon, value.unstacked, comma⟩ :: unstackedEntries entries

/-- The items with one anchor on each node in them. -/
def unstackedItems : List (Item Block) → List (Item Block)
  | [] => []
  | ⟨lead, markers, dash, value, comma⟩ :: items =>
    ⟨lead, markers, dash, value.unstacked, comma⟩ :: unstackedItems items

end

/-- The document with one anchor on each node. -/
def Document.unstacked (document : Document) : Document :=
  { document with root := document.root.unstacked }

/-- The stream with one anchor on each node. -/
def Stream.unstacked (stream : Stream) : Stream :=
  { stream with documents := stream.documents.map Document.unstacked }

theorem Block.lead_unstacked (block : Block) : block.unstacked.lead = block.lead := by
  cases block <;> simp [Block.unstacked, Block.lead]

/-- Attaching an anchor commutes with taking the others away. -/
theorem Block.unstacked_withAnchor (lead : Text) (anchor : Anchor) (block : Block) :
    block.unstacked.withAnchor? lead anchor.unstacked =
      (block.withAnchor? lead anchor).map Block.unstacked := by
  cases block <;> simp [Block.unstacked, Block.withAnchor?]

/-- An anchor in front of a node keeps those of the node in its trail. -/
theorem Block.exists_stacked {full node : Block} {lead name trivia : Text}
    (htrivia : IsTrivia trivia)
    (hanchor : full.unstacked.withAnchor? lead ⟨name, trivia⟩ = some node) :
    ∃ outer, full.withAnchor? lead ⟨name, trivia ++ Anchor.printOption full.anchor⟩ = some outer ∧
      outer.unstacked = node := by
  have hbehind : triviaLength (Anchor.printOption full.anchor) = 0 := by
    cases full.anchor <;> rfl
  rwa [← Anchor.unstacked_eq name htrivia hbehind, Block.unstacked_withAnchor,
    Option.map_eq_some_iff] at hanchor

/-- The new one prints shorter than the old one, or is the old one. -/
def Shrinks {α : Type} (print : α → Text) (old new : α) : Prop :=
  (print new).length ≤ (print old).length ∧
    ((print old).length ≤ (print new).length → new = old)

theorem Anchor.shrinks_unstacked (anchor : Option Anchor) :
    Shrinks Anchor.printOption anchor (anchor.map Anchor.unstacked) := by
  cases anchor with
  | none => exact ⟨Nat.le_refl _, fun _ => rfl⟩
  | some anchor =>
      have hle := triviaLength_le anchor.trail
      simp only [Shrinks, Option.map_some, Anchor.printOption, Anchor.print, Anchor.unstacked,
        List.length_append, List.length_cons, List.length_take, Nat.min_eq_left hle]
      refine ⟨by omega, fun hlength => ?_⟩
      rw [List.take_of_length_le (by omega)]

mutual

theorem Block.shrinks_unstacked (block : Block) : Shrinks Block.print block block.unstacked := by
  match block with
  | .scalar s =>
    obtain ⟨hle, heq⟩ := Anchor.shrinks_unstacked s.anchor
    simp only [Shrinks, Block.unstacked, Block.print, Scalar.print, Scalar.printBody,
      List.length_append]
    refine ⟨by omega, fun hlength => ?_⟩
    rw [heq (by omega)]
  | .aliasNode a => simp [Shrinks, Block.unstacked]
  | .mapping ⟨lead, markers, anchor, layout, entries⟩ =>
    obtain ⟨hle, heq⟩ := Anchor.shrinks_unstacked anchor
    obtain ⟨hles, heqs⟩ := shrinks_unstackedEntries entries
    simp only [Shrinks, Block.unstacked, Block.print, List.length_append]
    refine ⟨by omega, fun hlength => ?_⟩
    rw [heq (by omega), heqs (by omega)]
  | .sequence ⟨lead, markers, anchor, layout, indentless, items⟩ =>
    obtain ⟨hle, heq⟩ := Anchor.shrinks_unstacked anchor
    obtain ⟨hles, heqs⟩ := shrinks_unstackedItems items
    simp only [Shrinks, Block.unstacked, Block.print, List.length_append]
    refine ⟨by omega, fun hlength => ?_⟩
    rw [heq (by omega), heqs (by omega)]

theorem shrinks_unstackedEntries (entries : List (Entry Block)) :
    Shrinks printEntries entries (unstackedEntries entries) := by
  match entries with
  | [] => simp [Shrinks, unstackedEntries]
  | ⟨lead, markers, key, beforeColon, value, comma⟩ :: entries =>
    obtain ⟨hle, heq⟩ := Block.shrinks_unstacked value
    obtain ⟨hles, heqs⟩ := shrinks_unstackedEntries entries
    simp only [Shrinks, unstackedEntries, printEntries, List.length_append, List.length_cons]
    refine ⟨by omega, fun hlength => ?_⟩
    rw [heq (by omega), heqs (by omega)]

theorem shrinks_unstackedItems (items : List (Item Block)) :
    Shrinks printItems items (unstackedItems items) := by
  match items with
  | [] => simp [Shrinks, unstackedItems]
  | ⟨lead, markers, dash, value, comma⟩ :: items =>
    obtain ⟨hle, heq⟩ := Block.shrinks_unstacked value
    obtain ⟨hles, heqs⟩ := shrinks_unstackedItems items
    simp only [Shrinks, unstackedItems, printItems, List.length_append]
    refine ⟨by omega, fun hlength => ?_⟩
    rw [heq (by omega), heqs (by omega)]

end

theorem shrinks_unstackedDocuments (documents : List Document) :
    Shrinks (List.flatMap Document.print) documents (documents.map Document.unstacked) := by
  induction documents with
  | nil => simp [Shrinks]
  | cons document documents ih =>
      obtain ⟨hle, heq⟩ := document.root.shrinks_unstacked
      obtain ⟨hles, heqs⟩ := ih
      simp only [Shrinks, List.map_cons, List.flatMap_cons, List.length_append, Document.print,
        Document.unstacked]
      refine ⟨by omega, fun hlength => ?_⟩
      rw [heq (by omega), heqs (by omega)]

/-- A stream whose text does not change has no stacked anchors. -/
theorem Stream.unstacked_eq_self {stream : Stream} (h : stream.unstacked.print = stream.print) :
    stream.unstacked = stream := by
  obtain ⟨-, heq⟩ := shrinks_unstackedDocuments stream.documents
  have hlength := congrArg List.length h
  simp only [Stream.print, Stream.unstacked, List.length_append] at hlength
  rw [Stream.unstacked, heq (by omega)]

/-! ## What reading establishes -/

/-- The keys of a block mapping start where it does, to the right of the collection around it. -/
def Mapping.Indented (nesting : Nesting) (column : Nat) (m : Mapping Block) : Prop :=
  m.layout = .block →
    (∀ key ∈ keyColumns column m.entries, key = column) ∧
      ∀ outer ∈ nesting.column?, outer < column

/-- The dashes of a block sequence stand where it starts, to the right of the collection around it,
or at the column of the mapping that it is a value of.  In that case only it is indentless. -/
structure Sequence.Indented (nesting : Nesting) (column : Nat) (q : Sequence Block) : Prop where
  dashes : q.layout = .block → ∀ dash ∈ dashColumns column q.items, dash = column
  nested : q.layout = .block → ∀ outer ∈ nesting.column?, outer < column ∨ nesting = .value column
  indentless : q.indentless = true ↔ q.layout = .block ∧ nesting = .value column

/-- A scalar is as long as the reader finds it before the text that follows. -/
structure Scalar.Measured (context : Option Nat) (after : Text) (s : Scalar) : Prop where
  plain : s.legible context after = true
  visible : s.style = .plain → triviaLength s.text = 0
  literal : s.style = .literal ∨ s.style = .folded →
    ∀ floor ∈ context, literalLength floor (s.text ++ after) = s.text.length

/-- What reading establishes about a node in its place. -/
def Spot.AsRead (spot : Spot) : Prop :=
  match spot.node with
  | .scalar s => s.Measured spot.nesting.context spot.after
  | .aliasNode _ => True
  | .mapping m => m.Indented spot.nesting spot.column
  | .sequence q => q.Indented spot.nesting spot.column

/-- An anchor in front moves a node, and changes nothing else about it. -/
theorem Block.asRead_withAnchor {lead : Text} {anchor : Anchor} {block node : Block}
    (hanchor : block.withAnchor? lead anchor = some node) {nesting : Nesting}
    {column start : Nat} {after : Text}
    (hcolumn : columnAfter start anchor.print =
      columnAfter column (Anchor.printOption block.anchor))
    (h : ∀ spot ∈ block.spots nesting column after, spot.AsRead) :
    ∀ spot ∈ node.spots nesting start after, spot.AsRead := by
  cases block with
  | aliasNode a => simp [Block.withAnchor?] at hanchor
  | scalar s =>
      cases hanchor
      have hread := h _ (List.mem_singleton.mpr rfl)
      intro spot hspot
      rw [List.mem_singleton.mp hspot]
      exact ⟨hread.plain, hread.visible, hread.literal⟩
  | mapping m =>
      cases hanchor
      simp only [Block.spots, Anchor.printOption, List.forall_mem_cons] at h ⊢
      rw [hcolumn]
      exact h
  | sequence q =>
      cases hanchor
      simp only [Block.spots, Anchor.printOption, List.forall_mem_cons] at h ⊢
      rw [hcolumn]
      exact ⟨⟨h.1.dashes, h.1.nested, h.1.indentless⟩, h.2⟩

end LosslessYaml
