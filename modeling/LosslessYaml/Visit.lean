import LosslessYaml.Edit

/-!
# Visits

A visitor goes through a tree from the root downwards, and meets each node with a cursor whose
innermost frame is the node itself.  `Visitor.walkStream` does what `Visitor.editStream` does, and
keeps a record of the nodes that it meets, in the order in which it meets them.
-/

namespace LosslessYaml

/-- A node that a visitor can meet. -/
inductive Node where
  | stream (stream : Stream)
  | document (document : Document)
  | block (block : Block)
  | entry (entry : Entry Block)
  | item (item : Item Block)
deriving Repr

/-- A meeting of a visitor with a node. -/
structure Visit where
  /-- The node that is met. -/
  node : Node
  /-- The way to the node, the node's own frame included. -/
  cursor : Cursor
deriving Repr

/-- A traversal that keeps a record of its visits, the first one first. -/
abbrev Recorded := StateM (List Visit)

/-- Adds a visit at the end of the record. -/
def Visit.record (node : Node) (cursor : Cursor) : Recorded Unit :=
  modify fun visits => visits ++ [⟨node, cursor⟩]

namespace Visitor

mutual

/-- The edit of a block below the cursor. A node is met before the nodes below it, and the visitor
decides about it after them. -/
def walkBlock (visitor : Visitor) (cursor : Cursor) : Block → Recorded Edit
  | .scalar s => do
    Visit.record (.block (.scalar s)) (.scalar :: cursor)
    return visitor.editBlock cursor (.scalar s)
  | .aliasNode a => do
    Visit.record (.block (.aliasNode a)) (.aliasNode :: cursor)
    return visitor.editBlock cursor (.aliasNode a)
  | .mapping ⟨lead, markers, anchor, layout, entries⟩ => do
    Visit.record (.block (.mapping ⟨lead, markers, anchor, layout, entries⟩)) (.mapping :: cursor)
    return .ofChildren (← walkEntries visitor (.mapping :: cursor) entries)
  | .sequence ⟨lead, markers, anchor, layout, indentless, items⟩ => do
    Visit.record (.block (.sequence ⟨lead, markers, anchor, layout, indentless, items⟩))
      (.sequence :: cursor)
    return .ofChildren (← walkItems visitor (.sequence :: cursor) items.length 0 items)

/-- The edits of the values of mapping entries. Keys are not met. -/
def walkEntries (visitor : Visitor) (cursor : Cursor) : List (Entry Block) → Recorded (List Edit)
  | [] => return []
  | ⟨lead, markers, key, beforeColon, value, comma⟩ :: entries => do
    let entry := ⟨lead, markers, key, beforeColon, value, comma⟩
    let position := .entry key.text :: cursor
    Visit.record (.entry entry) position
    let below ← walkBlock visitor position value
    let edit := ((visitor.value position entry).map .replaced).getD below
    return edit :: (← walkEntries visitor cursor entries)

/-- The edits of the values of sequence items, the first of them being the `index`-th of
`length`. -/
def walkItems (visitor : Visitor) (cursor : Cursor) (length index : Nat) :
    List (Item Block) → Recorded (List Edit)
  | [] => return []
  | ⟨lead, markers, dash, value, comma⟩ :: items => do
    let position := .item index length :: cursor
    Visit.record (.item ⟨lead, markers, dash, value, comma⟩) position
    let edit ← walkBlock visitor position value
    return edit :: (← walkItems visitor cursor length (index + 1) items)

end

/-- The edit of the root of a document below the cursor. -/
def walkDocument (visitor : Visitor) (cursor : Cursor) (document : Document) : Recorded Edit := do
  Visit.record (.document document) (.document :: cursor)
  visitor.walkBlock (.document :: cursor) document.root

/-- The edits of the roots of a stream's documents. -/
def walkStream (visitor : Visitor) (stream : Stream) : Recorded (List Edit) := do
  Visit.record (.stream stream) [.stream]
  stream.documents.mapM (visitor.walkDocument [.stream])

end Visitor

/-- The edits and the visits of a visitor that changes nothing. -/
def Stream.visited (stream : Stream) : List Edit × List Visit :=
  (Visitor.walkStream {} stream).run []

end LosslessYaml
