import LosslessYaml.Text

/-!
# Trees

The tree of a YAML stream. Every character of a source has one home in it: in a key, a scalar or
an indicator, or in the `lead` of the node that it stands before. White space and comments are
called trivia; a `lead` is the trivia in front of a node.

The collections are parameterised by the type of their values, so that `Block` is one inductive
type over plain structures.
-/

namespace LosslessYaml

/-- A note on a node that is not part of its text. -/
inductive Marker where
  /-- The file that the node was read from. -/
  | provenance (path : Text)
  /-- A remark about the node. -/
  | diagnostic (message : Text)
deriving Repr, DecidableEq

/-- The first file named by the markers. -/
def Marker.firstProvenance : List Marker → Option Text
  | [] => none
  | .provenance path :: _ => some path
  | .diagnostic _ :: rest => firstProvenance rest

/-- How a scalar is written. -/
inductive Style where
  | plain
  | singleQuoted
  | doubleQuoted
  | literal
  | folded
deriving Repr, DecidableEq, Inhabited

/-- An anchor `&name`, with the trivia between it and the node it names. -/
structure Anchor where
  name : Text
  trail : Text
deriving Repr, DecidableEq

/-- A scalar. Its text is source text: without quotes and block indicators, escapes as written. -/
structure Scalar where
  lead : Text
  markers : List Marker := []
  anchor : Option Anchor := none
  style : Style := .plain
  text : Text
deriving Repr, DecidableEq, Inhabited

/-- An alias `*name`. -/
structure Alias where
  lead : Text
  markers : List Marker := []
  name : Text
deriving Repr, DecidableEq

/-- How a collection is written: by indentation, or in brackets, with the trivia before the closing
one. -/
inductive Layout where
  | block
  | flow (closing : Text)
deriving Repr, DecidableEq

/-- An entry of a mapping. `comma` is the trivia before a comma that follows the entry. -/
structure Entry (β : Type) where
  lead : Text
  markers : List Marker := []
  key : Scalar
  beforeColon : Text
  value : β
  comma : Option Text := none
deriving Repr, DecidableEq, Inhabited

/-- An item of a sequence. `comma` is the trivia before a comma that follows the item. -/
structure Item (β : Type) where
  lead : Text
  markers : List Marker := []
  dash : Bool
  value : β
  comma : Option Text := none
deriving Repr, DecidableEq, Inhabited

/-- A mapping. -/
structure Mapping (β : Type) where
  lead : Text
  markers : List Marker := []
  anchor : Option Anchor := none
  layout : Layout := .block
  entries : List (Entry β)
deriving Repr, DecidableEq

/-- A sequence. It is `indentless` when its dashes stand at the column of the key it belongs to. -/
structure Sequence (β : Type) where
  lead : Text
  markers : List Marker := []
  anchor : Option Anchor := none
  layout : Layout := .block
  indentless : Bool := false
  items : List (Item β)
deriving Repr, DecidableEq

/-- A node that can be the root of a document, the value of an entry or the value of an item. -/
inductive Block where
  | scalar (scalar : Scalar)
  | aliasNode (node : Alias)
  | mapping (mapping : Mapping Block)
  | sequence (sequence : Sequence Block)
deriving Repr

/-- How a document ends: the trivia after its root, and whether `...` follows. -/
structure Ending where
  lead : Text := []
  markers : List Marker := []
  explicit : Bool := false
deriving Repr, DecidableEq

/-- A document. It is `explicit` when it starts with `---`. -/
structure Document where
  lead : Text
  markers : List Marker := []
  explicit : Bool
  root : Block
  ending : Ending
deriving Repr

/-- A stream: its documents, and the trivia after the last of them. -/
structure Stream where
  markers : List Marker := []
  documents : List Document
  suffix : Text := []
deriving Repr

namespace Block

/-- The node that stands where nothing is written. -/
def empty : Block := .scalar { lead := [], text := [] }

instance : Inhabited Block := ⟨empty⟩

/-- The trivia in front of the node. -/
def lead : Block → Text
  | .scalar s => s.lead
  | .aliasNode a => a.lead
  | .mapping m => m.lead
  | .sequence q => q.lead

/-- The anchor that the node carries. An alias has none. -/
def anchor : Block → Option Anchor
  | .scalar s => s.anchor
  | .aliasNode _ => none
  | .mapping m => m.anchor
  | .sequence q => q.anchor

/-- The node with another anchor, and with the lead in front of it. An alias takes no anchor. -/
def withAnchor? (lead : Text) (anchor : Anchor) : Block → Option Block
  | .scalar s => some (.scalar { s with lead, anchor := some anchor })
  | .aliasNode _ => none
  | .mapping m => some (.mapping { m with lead, anchor := some anchor })
  | .sequence q => some (.sequence { q with lead, anchor := some anchor })

end Block

/-- The first entry with the key. -/
def Mapping.get? {β : Type} (mapping : Mapping β) (key : Text) : Option (Entry β) :=
  mapping.entries.find? fun entry => entry.key.text == key

/-- The stream with one marker more. -/
def Stream.mark (stream : Stream) (marker : Marker) : Stream :=
  { stream with markers := stream.markers ++ [marker] }

end LosslessYaml
