import LosslessYaml.Tree.Cursor

/-!
# Edits

An edit tells, node by node, what becomes of a tree. A kept node stays as it is, with all that lies
below it; a rebuilt node keeps its own texts and stands above some change; a replaced node is a new
one. So an edit shows which parts of the result are shared with the tree that it is applied to.

Nodes have identities, which are not in the trees here: it is the edit that tells them. A kept node
is the old one itself. A rebuilt node is a copy with the identity of the old one. A replaced node
has an identity of its own, even if it looks like the old one.

A visitor decides about single nodes, and `Visitor.editBlock` collects its decisions into an edit,
from the leaves upwards.
-/

namespace LosslessYaml

/-- What becomes of a node and of the nodes below it. -/
inductive Edit where
  /-- The node stays, and all below it. -/
  | kept
  /-- A new node takes its place, with a new identity. -/
  | replaced (block : Block)
  /-- The node is copied with its identity, and its values are edited. -/
  | rebuilt (children : List Edit)
deriving Repr

namespace Edit

/-- Whether an edit leaves its node alone. -/
def isKept : Edit → Bool
  | .kept => true
  | _ => false

/-- The edit of a collection: it is kept when all of its values are. -/
def ofChildren (children : List Edit) : Edit :=
  if children.all isKept then .kept else .rebuilt children

mutual

/-- The node after the edit. -/
def apply : Edit → Block → Block
  | .kept, block => block
  | .replaced block, _ => block
  | .rebuilt children, .mapping ⟨lead, markers, anchor, layout, entries⟩ =>
    .mapping ⟨lead, markers, anchor, layout, applyEntries children entries⟩
  | .rebuilt children, .sequence ⟨lead, markers, anchor, layout, indentless, items⟩ =>
    .sequence ⟨lead, markers, anchor, layout, indentless, applyItems children items⟩
  | .rebuilt _, block => block

/-- The entries after the edits of their values. Entries without an edit stay as they are. -/
def applyEntries : List Edit → List (Entry Block) → List (Entry Block)
  | edit :: edits, ⟨lead, markers, key, beforeColon, value, comma⟩ :: entries =>
    ⟨lead, markers, key, beforeColon, edit.apply value, comma⟩ :: applyEntries edits entries
  | _, entries => entries

/-- The items after the edits of their values. Items without an edit stay as they are. -/
def applyItems : List Edit → List (Item Block) → List (Item Block)
  | edit :: edits, ⟨lead, markers, dash, value, comma⟩ :: items =>
    ⟨lead, markers, dash, edit.apply value, comma⟩ :: applyItems edits items
  | _, items => items

end

/-! ## What an edit touches -/

/-- What happened to a node that is not kept: it was copied with its identity, or it gave way to a
node with a new one. -/
inductive Touch where
  | rebuilt
  | replaced
deriving Repr, DecidableEq

mutual

/-- The nodes that are not kept, each with the entry numbers that lead to it, parents first.
Nothing below a replaced node is listed. -/
def touched (address : List Nat) : Edit → List (List Nat × Touch)
  | .kept => []
  | .replaced _ => [(address, .replaced)]
  | .rebuilt children => (address, .rebuilt) :: touchedFrom address 0 children

/-- What the edits of a collection's values touch, the first of them being the `index`-th. -/
def touchedFrom (address : List Nat) (index : Nat) : List Edit → List (List Nat × Touch)
  | [] => []
  | edit :: edits => edit.touched (address ++ [index]) ++ touchedFrom address (index + 1) edits

end

end Edit

/-! ## Visitors -/

/-- What is to be done at single nodes. `none` leaves the decision to the nodes below. -/
structure Visitor where
  /-- A new scalar for one in value position. -/
  scalar : Cursor → Scalar → Option Scalar := fun _ _ => none
  /-- A new alias for an alias. -/
  aliasNode : Cursor → Alias → Option Alias := fun _ _ => none
  /-- A new value for a mapping entry, which is visited after its value. -/
  value : Cursor → Entry Block → Option Block := fun _ _ => none

namespace Visitor

mutual

/-- The edit of a block below the cursor. -/
def editBlock (visitor : Visitor) (cursor : Cursor) : Block → Edit
  | .scalar s =>
    ((visitor.scalar (.scalar :: cursor) s).map fun new => .replaced (.scalar new)).getD .kept
  | .aliasNode a =>
    ((visitor.aliasNode (.aliasNode :: cursor) a).map fun new =>
      .replaced (.aliasNode new)).getD .kept
  | .mapping ⟨_, _, _, _, entries⟩ => .ofChildren (editEntries visitor (.mapping :: cursor) entries)
  | .sequence ⟨_, _, _, _, _, items⟩ =>
    .ofChildren (editItems visitor (.sequence :: cursor) items.length 0 items)

/-- The edits of the values of mapping entries. -/
def editEntries (visitor : Visitor) (cursor : Cursor) : List (Entry Block) → List Edit
  | [] => []
  | ⟨lead, markers, key, beforeColon, value, comma⟩ :: entries =>
    let position := .entry key.text :: cursor
    let below := editBlock visitor position value
    let decided := visitor.value position ⟨lead, markers, key, beforeColon, value, comma⟩
    (decided.map .replaced).getD below :: editEntries visitor cursor entries

/-- The edits of the values of sequence items. -/
def editItems (visitor : Visitor) (cursor : Cursor) (length index : Nat) :
    List (Item Block) → List Edit
  | [] => []
  | ⟨_, _, _, value, _⟩ :: items =>
    editBlock visitor (.item index length :: cursor) value ::
      editItems visitor cursor length (index + 1) items

end

/-- The edits of the roots of a stream's documents. -/
def editStream (visitor : Visitor) (stream : Stream) : List Edit :=
  stream.documents.map fun document => visitor.editBlock [.document, .stream] document.root

/-- Gives new text to the scalars that have the text `old`, and a new name to the aliases that have
the name `old`. A scalar that gets new text loses its anchor. -/
def rename (old new : Text) : Visitor where
  scalar _ s :=
    if s.text == old then some { lead := s.lead, style := s.style, text := new } else none
  aliasNode _ a := if a.name == old then some { lead := a.lead, name := new } else none

end Visitor

/-! ## Edits of streams -/

namespace Stream

/-- The documents after the edits of their roots. -/
def applyDocuments : List Edit → List Document → List Document
  | edit :: edits, document :: documents =>
    { document with root := edit.apply document.root } :: applyDocuments edits documents
  | _, documents => documents

/-- The stream after the edits of its documents' roots. -/
def apply (edits : List Edit) (stream : Stream) : Stream :=
  { stream with documents := applyDocuments edits stream.documents }

end Stream

/-- Whether any of the edits changes anything. -/
def Edit.anyChange (edits : List Edit) : Bool := edits.any fun edit => !edit.isKept

end LosslessYaml
