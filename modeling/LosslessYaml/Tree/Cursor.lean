import LosslessYaml.Path
import LosslessYaml.Tree

/-!
# Cursors

A cursor is a position in a tree during a traversal: the frames of the nodes on the way from the
stream to the node, innermost first. The steps of a cursor are its address within its own document,
which is what paths are matched against.
-/

namespace LosslessYaml

/-- A node on the way to a position, with what its address needs. -/
inductive Frame where
  | stream
  | document
  | mapping
  | entry (key : Text)
  | sequence
  | item (index length : Nat)
  | scalar
  | aliasNode
deriving Repr, DecidableEq

/-- The frames on the way to a position, innermost first. -/
abbrev Cursor := List Frame

namespace Frame

/-- Whether the frame lies above the nodes of a document. -/
def isOuter : Frame → Bool
  | .stream | .document => true
  | _ => false

/-- The step into the node, if entering it is one. -/
def step? : Frame → Option Step
  | .entry key => some (.key key)
  | .item index length => some (.item index length)
  | _ => none

end Frame

namespace Cursor

/-- The steps from the root of the document to the position. -/
def steps (cursor : Cursor) : List Step :=
  ((cursor.takeWhile fun frame => !frame.isOuter).filterMap Frame.step?).reverse

/-- The number of nodes on the way, the position's own included. -/
def depth (cursor : Cursor) : Nat := cursor.length

end Cursor

/-- A step as it is shown to a user. -/
def Step.display : Step → Text
  | .key name => name
  | .item index _ => '[' :: (toString index).toList ++ [']']

/-- An address as it is shown to a user. -/
def Step.displayAll (steps : List Step) : Text := '/' :: ['/'].intercalate (steps.map Step.display)

/-- The position as it is shown to a user. -/
def Cursor.describe (cursor : Cursor) : Text := Step.displayAll cursor.steps

/-! ## Visiting -/

mutual

/-- The positions of the nodes at and below a block, each before those below it. Keys are not
visited. -/
def Block.visits (cursor : Cursor) : Block → List Cursor
  | .scalar _ => [.scalar :: cursor]
  | .aliasNode _ => [.aliasNode :: cursor]
  | .mapping ⟨_, _, _, _, entries⟩ =>
    (.mapping :: cursor) :: visitEntries (.mapping :: cursor) entries
  | .sequence ⟨_, _, _, _, _, items⟩ =>
    (.sequence :: cursor) :: visitItems (.sequence :: cursor) items.length 0 items

/-- The positions of entries and of the nodes below them. -/
def visitEntries (cursor : Cursor) : List (Entry Block) → List Cursor
  | [] => []
  | ⟨_, _, key, _, value, _⟩ :: entries =>
    let entry := .entry key.text :: cursor
    entry :: value.visits entry ++ visitEntries cursor entries

/-- The positions of items, the first of them being the `index`-th of `length`, and of the nodes
below them. -/
def visitItems (cursor : Cursor) (length index : Nat) : List (Item Block) → List Cursor
  | [] => []
  | ⟨_, _, _, value, _⟩ :: items =>
    let item := .item index length :: cursor
    item :: value.visits item ++ visitItems cursor length (index + 1) items

end

/-- The positions of a document and of the nodes below it. -/
def Document.visits (cursor : Cursor) (document : Document) : List Cursor :=
  (.document :: cursor) :: document.root.visits (.document :: cursor)

/-- The positions of a stream and of the nodes below it. -/
def Stream.visits (stream : Stream) : List Cursor :=
  [.stream] :: stream.documents.flatMap (Document.visits [.stream])

end LosslessYaml
