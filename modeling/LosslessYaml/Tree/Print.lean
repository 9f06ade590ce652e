import LosslessYaml.Tree

/-!
# Printing

A tree prints as the concatenation of its texts, in the order of the source.
-/

namespace LosslessYaml

/-- The anchor as written, with what stands between it and its node. -/
def Anchor.print (anchor : Anchor) : Text := '&' :: anchor.name ++ anchor.trail

/-- Nothing for a node without an anchor. -/
def Anchor.printOption : Option Anchor → Text
  | none => []
  | some anchor => anchor.print

/-- The scalar with the marks of its style. -/
def Scalar.printBody (scalar : Scalar) : Text :=
  match scalar.style with
  | .plain => scalar.text
  | .singleQuoted => '\'' :: scalar.text ++ ['\'']
  | .doubleQuoted => '"' :: scalar.text ++ ['"']
  | .literal => '|' :: scalar.text
  | .folded => '>' :: scalar.text

/-- The text of a scalar, with its lead and its anchor. -/
def Scalar.print (scalar : Scalar) : Text :=
  scalar.lead ++ Anchor.printOption scalar.anchor ++ scalar.printBody

/-- The text of an alias, with its lead. -/
def Alias.print (a : Alias) : Text := a.lead ++ '*' :: a.name

/-- The comma after an entry or an item, with the trivia before it. -/
def printComma : Option Text → Text
  | none => []
  | some lead => lead ++ [',']

/-- What a collection opens with. -/
def Layout.printOpening (bracket : Char) : Layout → Text
  | .block => []
  | .flow _ => [bracket]

/-- What a collection closes with. -/
def Layout.printClosing (bracket : Char) : Layout → Text
  | .block => []
  | .flow closing => closing ++ [bracket]

/-- The mark of an item in a block sequence. -/
def printDash : Bool → Text
  | false => []
  | true => ['-']

mutual

/-- The text of a node, with its lead. -/
def Block.print : Block → Text
  | .scalar s => s.print
  | .aliasNode a => a.print
  | .mapping ⟨lead, _, anchor, layout, entries⟩ =>
    lead ++ Anchor.printOption anchor ++ layout.printOpening '\x7b' ++ printEntries entries ++
      layout.printClosing '\x7d'
  | .sequence ⟨lead, _, anchor, layout, _, items⟩ =>
    lead ++ Anchor.printOption anchor ++ layout.printOpening '[' ++ printItems items ++
      layout.printClosing ']'

/-- The text of entries, one after the other. -/
def printEntries : List (Entry Block) → Text
  | [] => []
  | ⟨lead, _, key, beforeColon, value, comma⟩ :: entries =>
    lead ++ key.print ++ beforeColon ++ ':' :: value.print ++ printComma comma ++
      printEntries entries

/-- The text of items, one after the other. -/
def printItems : List (Item Block) → Text
  | [] => []
  | ⟨lead, _, dash, value, comma⟩ :: items =>
    lead ++ printDash dash ++ value.print ++ printComma comma ++ printItems items

end

/-- The mark of a document's start. -/
def printDashes : Bool → Text
  | false => []
  | true => ['-', '-', '-']

/-- The mark of a document's end. -/
def printDots : Bool → Text
  | false => []
  | true => ['.', '.', '.']

/-- The text of a document, with the marks of its start and its end. -/
def Document.print (document : Document) : Text :=
  document.lead ++ printDashes document.explicit ++ document.root.print ++ document.ending.lead ++
    printDots document.ending.explicit

/-- The text of a stream. -/
def Stream.print (stream : Stream) : Text :=
  stream.documents.flatMap Document.print ++ stream.suffix

end LosslessYaml
