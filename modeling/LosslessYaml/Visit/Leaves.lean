import LosslessYaml.Visit

/-!
# Visitors of leaves

A visitor that decides about scalars and aliases only.  It is shown all nodes on the way to a leaf,
and it may remember what it has seen: its answers can depend on the leaves that it was asked about
before.  The walk keeps a collection if the visitor keeps all leaves in it, and else rebuilds it.
-/

namespace LosslessYaml

/-- A node on the way to a position, with its frame. -/
structure Waypoint where
  frame : Frame
  node : Node

/-- The nodes on the way to a position, innermost first. -/
abbrev Trail := List Waypoint

/-- The frames on the way. -/
def Trail.cursor (trail : Trail) : Cursor := trail.map Waypoint.frame

/-- What is to be done at scalars and aliases, by a visitor that has a state. `none` keeps the
leaf. -/
structure LeafVisitor (σ : Type) where
  /-- A new scalar for one in value position. -/
  scalar : Trail → Scalar → StateM σ (Option Scalar) := fun _ _ => pure none
  /-- A new alias for an alias. -/
  aliasNode : Trail → Alias → StateM σ (Option Alias) := fun _ _ => pure none

/-- The edit of a leaf. -/
def Edit.ofReply (reply : Option Block) : Edit := (reply.map .replaced).getD .kept

namespace LeafVisitor

variable {σ : Type}

/-- The new leaf for one below the trail. -/
def ask (visitor : LeafVisitor σ) (trail : Trail) : Block → StateM σ (Option Block)
  | .scalar s => do
    let new ← visitor.scalar (⟨.scalar, .block (.scalar s)⟩ :: trail) s
    return new.map .scalar
  | .aliasNode a => do
    let new ← visitor.aliasNode (⟨.aliasNode, .block (.aliasNode a)⟩ :: trail) a
    return new.map .aliasNode
  | _ => return none

mutual

/-- The edit of a block below the trail. -/
def walkBlock (visitor : LeafVisitor σ) (trail : Trail) : Block → StateM σ Edit
  | .scalar s => do return .ofReply (← visitor.ask trail (.scalar s))
  | .aliasNode a => do return .ofReply (← visitor.ask trail (.aliasNode a))
  | .mapping ⟨lead, markers, anchor, layout, entries⟩ => do
    let stop := ⟨.mapping, .block (.mapping ⟨lead, markers, anchor, layout, entries⟩)⟩
    return .ofChildren (← walkEntries visitor (stop :: trail) entries)
  | .sequence ⟨lead, markers, anchor, layout, indentless, items⟩ => do
    let stop :=
      ⟨.sequence, .block (.sequence ⟨lead, markers, anchor, layout, indentless, items⟩)⟩
    return .ofChildren (← walkItems visitor (stop :: trail) items.length 0 items)

/-- The edits of the values of mapping entries. -/
def walkEntries (visitor : LeafVisitor σ) (trail : Trail) :
    List (Entry Block) → StateM σ (List Edit)
  | [] => return []
  | ⟨lead, markers, key, beforeColon, value, comma⟩ :: entries => do
    let stop := ⟨.entry key.text, .entry ⟨lead, markers, key, beforeColon, value, comma⟩⟩
    let edit ← walkBlock visitor (stop :: trail) value
    return edit :: (← walkEntries visitor trail entries)

/-- The edits of the values of sequence items, the first of them being the `index`-th of
`length`. -/
def walkItems (visitor : LeafVisitor σ) (trail : Trail) (length index : Nat) :
    List (Item Block) → StateM σ (List Edit)
  | [] => return []
  | ⟨lead, markers, dash, value, comma⟩ :: items => do
    let stop := ⟨.item index length, .item ⟨lead, markers, dash, value, comma⟩⟩
    let edit ← walkBlock visitor (stop :: trail) value
    return edit :: (← walkItems visitor trail length (index + 1) items)

end

/-- The edits of the roots of documents below the trail. -/
def walkDocuments (visitor : LeafVisitor σ) (trail : Trail) :
    List Document → StateM σ (List Edit)
  | [] => return []
  | document :: documents => do
    let edit ← visitor.walkBlock (⟨.document, .document document⟩ :: trail) document.root
    return edit :: (← walkDocuments visitor trail documents)

/-- The edits of the roots of a stream's documents. -/
def walkStream (visitor : LeafVisitor σ) (stream : Stream) : StateM σ (List Edit) :=
  visitor.walkDocuments [⟨.stream, .stream stream⟩] stream.documents

/-- The visitor that decides by the address and the leaf alone. -/
def ofReplies (scalar : Cursor → Scalar → Option Scalar)
    (aliasNode : Cursor → Alias → Option Alias) : LeafVisitor Unit where
  scalar trail s := return scalar trail.cursor s
  aliasNode trail a := return aliasNode trail.cursor a

end LeafVisitor

end LosslessYaml
