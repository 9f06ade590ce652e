import LosslessYaml.Proofs.Reading.Lossless

/-!
# What a tree says, and whether its text says so

`Stream.data` is what a stream says: the kinds, names and texts of its nodes, in order, without the
trivia between them.

The text of a tree that was read says what the tree says.  The text of a tree that was changed may
not, since two things depend on what stands after a node.  How far a plain scalar goes is measured
in the text, so a comment that is not set off from it, or a line that continues it, becomes part of
it.  And an anchor belongs to a key if a key follows on its line.  `Stream.legible` asks for these
two things wherever they matter, and for nothing else.

`Proofs/ReadBack/Stream.lean` proves that this is what it takes.
-/

namespace LosslessYaml

open Text Lookahead

/-! ## Data -/

/-- What a node says. -/
inductive Data where
  | scalar (anchor : Option Text) (style : Style) (text : Text)
  | aliasNode (name : Text)
  | mapping (anchor : Option Text) (entries : List ((Option Text × Style × Text) × Data))
  | sequence (anchor : Option Text) (items : List Data)
deriving Repr

/-- What a key says: the name of its anchor, its style and its text. -/
def Scalar.keyData (key : Scalar) : Option Text × Style × Text :=
  (key.anchor.map Anchor.name, key.style, key.text)

mutual

/-- What a node says, without its trivia. -/
def Block.data : Block → Data
  | .scalar s => .scalar (s.anchor.map Anchor.name) s.style s.text
  | .aliasNode a => .aliasNode a.name
  | .mapping ⟨_, _, anchor, _, entries⟩ => .mapping (anchor.map Anchor.name) (entriesData entries)
  | .sequence ⟨_, _, anchor, _, _, items⟩ => .sequence (anchor.map Anchor.name) (itemsData items)

/-- What entries say, in order. -/
def entriesData : List (Entry Block) → List ((Option Text × Style × Text) × Data)
  | [] => []
  | ⟨_, _, key, _, value, _⟩ :: entries => (key.keyData, value.data) :: entriesData entries

/-- What items say, in order. -/
def itemsData : List (Item Block) → List Data
  | [] => []
  | ⟨_, _, _, value, _⟩ :: items => value.data :: itemsData items

end

/-- What the documents of a stream say, in order. -/
def Stream.data (stream : Stream) : List Data := stream.documents.map fun d => d.root.data

/-- What a node says about its anchor. -/
def Data.anchor : Data → Option Text
  | .scalar anchor _ _ => anchor
  | .aliasNode _ => none
  | .mapping anchor _ => anchor
  | .sequence anchor _ => anchor

/-- What a node says once it has an anchor. -/
def Data.withAnchor (name : Text) : Data → Data
  | .scalar _ style text => .scalar (some name) style text
  | .aliasNode target => .aliasNode target
  | .mapping _ entries => .mapping (some name) entries
  | .sequence _ items => .sequence (some name) items

theorem Data.withAnchor_inj {name : Text} {data data' : Data} (hnone : data.anchor = none)
    (hnone' : data'.anchor = none) (h : data.withAnchor name = data'.withAnchor name) :
    data = data' := by
  cases data <;> cases data' <;> simp_all [Data.withAnchor, Data.anchor]

theorem Block.data_anchor (block : Block) : block.data.anchor = block.anchor.map Anchor.name := by
  cases block <;> simp [Block.data, Data.anchor, Block.anchor]

theorem Block.data_withAnchor {lead : Text} {anchor : Anchor} {block node : Block}
    (h : block.withAnchor? lead anchor = some node) :
    node.data = block.data.withAnchor anchor.name := by
  cases block with
  | aliasNode a => simp [Block.withAnchor?] at h
  | _ =>
      simp only [Block.withAnchor?, Option.some.injEq] at h
      subst h
      simp [Block.data, Data.withAnchor]

/-- Nodes that say the same with an anchor say the same without it. -/
theorem Block.data_of_withAnchor {lead lead' name trail trail' : Text}
    {block block' node node' : Block} (h : block.withAnchor? lead ⟨name, trail⟩ = some node)
    (h' : block'.withAnchor? lead' ⟨name, trail'⟩ = some node') (hnone : block.anchor = none)
    (hnone' : block'.anchor = none) (hdata : node'.data = node.data) :
    block'.data = block.data := by
  rw [Block.data_withAnchor h, Block.data_withAnchor h'] at hdata
  refine Data.withAnchor_inj ?_ ?_ hdata
  · rw [Block.data_anchor, hnone']
    rfl
  · rw [Block.data_anchor, hnone]
    rfl

/-- Whether a node takes an anchor can be told from what it says. -/
theorem Block.exists_withAnchor {lead : Text} {anchor : Anchor} {block block' node : Block}
    (hdata : block'.data = block.data) (h : block.withAnchor? lead anchor = some node)
    (lead' : Text) (anchor' : Anchor) : ∃ node', block'.withAnchor? lead' anchor' = some node' := by
  cases block' with
  | aliasNode a =>
      cases block with
      | aliasNode => simp [Block.withAnchor?] at h
      | scalar | mapping | sequence => simp [Block.data] at hdata
  | scalar | mapping | sequence => exact ⟨_, rfl⟩

/-! ## Legible trees -/

/-- Whether a scalar that is followed by the text is read as it is written.  A plain scalar is, if
it is as long as the reader finds it; in block context `context` is the column at which nested
lines start.  Other scalars have marks of their own, and one without text is not there. -/
def Scalar.legible (context : Option Nat) (after : Text) (scalar : Scalar) : Bool :=
  scalar.style != .plain || scalar.text.isEmpty ||
    match context with
    | none => plainFlowLength (scalar.text ++ after) == scalar.text.length
    | some floor => plainBlockLength floor (scalar.text ++ after) == scalar.text.length

/-- Whether an anchor before the text is read as the anchor of a node, and not of a key. -/
def anchorLegible (context : Option Nat) (anchor : Option Anchor) (after : Text) : Bool :=
  context.isNone || anchor.isNone || !atKey (Anchor.printOption anchor ++ after)

/-- The column at which the values in a collection nest, if they nest by columns. -/
def Layout.context (column : Nat) : Layout → Option Nat
  | .block => some (column + 1)
  | .flow _ => none

mutual

/-- Whether a node that starts at the column, after its lead, is read as it is written when the
text follows it. -/
def Block.legible (context : Option Nat) (column : Nat) (after : Text) : Block → Bool
  | .scalar s =>
    anchorLegible context s.anchor (s.printBody ++ after) && s.legible context after
  | .aliasNode _ => true
  | .mapping ⟨_, _, anchor, layout, entries⟩ =>
    let closing := layout.printClosing '\x7d' ++ after
    let start := columnAfter column (Anchor.printOption anchor)
    anchorLegible context anchor (layout.printOpening '\x7b' ++ printEntries entries ++ closing) &&
      entriesLegible (layout.context start) start closing entries
  | .sequence ⟨_, _, anchor, layout, _, items⟩ =>
    let closing := layout.printClosing ']' ++ after
    let start := columnAfter column (Anchor.printOption anchor)
    anchorLegible context anchor (layout.printOpening '[' ++ printItems items ++ closing) &&
      itemsLegible (layout.context start) start closing items

/-- Whether the values of entries are read as they are written, where the keys start at the
column. -/
def entriesLegible (context : Option Nat) (column : Nat) (after : Text) :
    List (Entry Block) → Bool
  | [] => true
  | ⟨_, _, key, beforeColon, value, comma⟩ :: entries =>
    let start := columnAfter column (key.print ++ beforeColon ++ [':'] ++ value.lead)
    value.legible context start (printComma comma ++ printEntries entries ++ after) &&
      entriesLegible context column after entries

/-- Whether the values of items are read as they are written, where the items start at the
column. -/
def itemsLegible (context : Option Nat) (column : Nat) (after : Text) : List (Item Block) → Bool
  | [] => true
  | ⟨_, _, dash, value, comma⟩ :: items =>
    let start := columnAfter column (printDash dash ++ value.lead)
    value.legible context start (printComma comma ++ printItems items ++ after) &&
      itemsLegible context column after items

end

theorem anchorLegible_flow (anchor : Option Anchor) (after : Text) :
    anchorLegible none anchor after = true := rfl

theorem anchorLegible_none (context : Option Nat) (after : Text) :
    anchorLegible context none after = true := by
  simp [anchorLegible]

/-- A node with an anchor is legible when the anchor is, and the node is after it. -/
theorem Block.legible_withAnchor {lead : Text} {anchor : Anchor} {block node : Block}
    (h : block.withAnchor? lead anchor = some node) (hnone : block.anchor = none)
    (context : Option Nat) (column : Nat) (after : Text) :
    node.legible context column after =
      (anchorLegible context (some anchor) (block.body ++ after) &&
        block.legible context (columnAfter column anchor.print) after) := by
  cases block with
  | aliasNode a => simp [Block.withAnchor?] at h
  | scalar s =>
      simp only [Block.withAnchor?, Option.some.injEq] at h
      subst h
      replace hnone : s.anchor = none := hnone
      simp [Block.legible, Block.body, hnone, anchorLegible_none, Scalar.legible, Scalar.printBody]
  | mapping m | sequence m =>
      simp only [Block.withAnchor?, Option.some.injEq] at h
      subst h
      replace hnone : m.anchor = none := hnone
      simp [Block.legible, Block.body, hnone, anchorLegible_none, Anchor.printOption, columnAfter]

/-- Whether documents that start at the column are read as they are written. -/
def documentsLegible (column : Nat) (after : Text) : List Document → Bool
  | [] => true
  | document :: documents =>
    let start := columnAfter column
      (document.lead ++ printDashes document.explicit ++ document.root.lead)
    let ending := document.ending.lead ++ printDots document.ending.explicit
    document.root.legible (some 0) start
        (ending ++ documents.flatMap Document.print ++ after) &&
      documentsLegible (columnAfter column document.print) after documents

/-- Whether a stream is read as it is written.  The byte order mark takes no column. -/
def Stream.legible (stream : Stream) : Bool :=
  match stream.documents with
  | [] => true
  | first :: documents =>
    documentsLegible 0 stream.suffix ({ first with lead := (splitMark first.lead).2 } :: documents)

end LosslessYaml
