import LosslessYaml.Tree
import Mathlib.Data.List.Chain

/-!
# Well-formed trees

A tree can hold more than a stream can say: a block mapping without entries, a flow sequence whose
items have dashes, a lead with words in it.  This file says which trees are well formed, part by
part and without regard to how they came about.  That reading gives such trees only is proved in
`Proofs/WellFormed/Reading.lean`, and that recipes give such trees only in
`Proofs/WellFormed/Runs.lean`.

What a collection holds itself, beside the values in it, is a matter of its own:
`Mapping.WellFormed` and `Sequence.WellFormed` do not look at values, and hold on when values are
replaced.
-/

namespace LosslessYaml

open Text

/-! ## What stands between nodes -/

/-- White space and comments, each comment with the end of its line. -/
inductive Trivia : Text → Prop
  | nil : Trivia []
  | space {c : Char} {rest : Text} (hc : c ∈ [' ', '\t', '\r', '\n']) (hrest : Trivia rest) :
      Trivia (c :: rest)
  | comment {words rest : Text} (hwords : '\n' ∉ words) (hrest : Trivia rest) :
      Trivia ('#' :: (words ++ '\n' :: rest))

/-- White space, comments and directives, the latter two with the ends of their lines.  A directive
is a line that starts with `%`; the flag says whether the text starts a line. -/
inductive Preamble : Bool → Text → Prop
  | nil {lineStart : Bool} : Preamble lineStart []
  | lineEnd {lineStart : Bool} {rest : Text} (hrest : Preamble true rest) :
      Preamble lineStart ('\n' :: rest)
  | space {lineStart : Bool} {c : Char} {rest : Text} (hc : c ∈ [' ', '\t', '\r'])
      (hrest : Preamble false rest) : Preamble lineStart (c :: rest)
  | comment {lineStart : Bool} {words rest : Text} (hwords : '\n' ∉ words)
      (hrest : Preamble true rest) : Preamble lineStart ('#' :: (words ++ '\n' :: rest))
  | directive {words rest : Text} (hwords : '\n' ∉ words) (hrest : Preamble true rest) :
      Preamble true ('%' :: (words ++ '\n' :: rest))

/-! ## Anchors and scalars -/

/-- An anchor has a name, in which nothing can end it, and trivia behind the name. -/
structure Anchor.WellFormed (anchor : Anchor) : Prop where
  name_ne_nil : anchor.name ≠ []
  name : ∀ c ∈ anchor.name, c ∉ [' ', '\t', '\n', '\r', '\x0c'] ∧ isFlowIndicator c = false
  trail : Trivia anchor.trail

/-- In a flow collection there are no literal and no folded scalars, and a plain one stays on its
line and within its part of the collection. -/
structure Scalar.WellFormed (inFlow : Bool) (scalar : Scalar) : Prop where
  lead : Trivia scalar.lead
  anchor : ∀ anchor ∈ scalar.anchor, anchor.WellFormed
  style : inFlow = true → scalar.style ≠ .literal ∧ scalar.style ≠ .folded
  plain : inFlow = true → scalar.style = .plain →
    ∀ c ∈ scalar.text, c ≠ '\n' ∧ isFlowIndicator c = false

/-- A key is a plain or quoted scalar right where its entry starts. -/
structure Scalar.IsKey (inFlow : Bool) (key : Scalar) : Prop extends key.WellFormed inFlow where
  lead_eq_nil : key.lead = []
  plain_or_quoted : key.style = .plain ∨ key.style = .singleQuoted ∨ key.style = .doubleQuoted
  text_ne_nil : key.style = .plain → key.text ≠ []

/-! ## Collections -/

/-- Whether the collection is written in brackets. -/
def Layout.isFlow : Layout → Bool
  | .block => false
  | .flow _ => true

/-- Whether the parts of a collection are kept apart as its layout has it, given the comma of each.
A block collection has parts and no commas, and is not inside of brackets; in brackets every part
but the last one has a comma. -/
def Layout.Separates (inFlow : Bool) (commas : List (Option Text)) : Layout → Prop
  | .block => inFlow = false ∧ commas ≠ [] ∧ ∀ comma ∈ commas, comma = none
  | .flow closing =>
    Trivia closing ∧ (∀ comma ∈ commas.dropLast, comma ≠ none) ∧
      ∀ text, some text ∈ commas → Trivia text

/-- What an entry holds beside its value. -/
structure Entry.WellFormed {β : Type} (inFlow : Bool) (entry : Entry β) : Prop where
  lead : Trivia entry.lead
  key : entry.key.IsKey inFlow
  beforeColon : Trivia entry.beforeColon

/-- What an item holds beside its value: a dash, or nothing in brackets, where the trivia belongs to
the value. -/
structure Item.WellFormed {β : Type} (inFlow : Bool) (item : Item β) : Prop where
  dash : item.dash = !inFlow
  lead : Trivia item.lead
  lead_eq_nil : inFlow = true → item.lead = []

/-- What a mapping holds beside its values. -/
structure Mapping.WellFormed {β : Type} (inFlow : Bool) (m : Mapping β) : Prop where
  lead : Trivia m.lead
  anchor : ∀ anchor ∈ m.anchor, anchor.WellFormed
  separates : m.layout.Separates inFlow (m.entries.map Entry.comma)
  entries : ∀ entry ∈ m.entries, entry.WellFormed m.layout.isFlow

/-- What a sequence holds beside its values. -/
structure Sequence.WellFormed {β : Type} (inFlow : Bool) (q : Sequence β) : Prop where
  lead : Trivia q.lead
  anchor : ∀ anchor ∈ q.anchor, anchor.WellFormed
  separates : q.layout.Separates inFlow (q.items.map Item.comma)
  items : ∀ item ∈ q.items, item.WellFormed q.layout.isFlow

/-- A node is well formed, inside of a flow collection or not, if all that it holds is.  Everything
below a flow collection is inside of it. -/
inductive Block.WellFormed : Bool → Block → Prop
  | scalar {inFlow : Bool} {s : Scalar} (hscalar : s.WellFormed inFlow) :
      WellFormed inFlow (.scalar s)
  | aliasNode {inFlow : Bool} {a : Alias} (hlead : Trivia a.lead) : WellFormed inFlow (.aliasNode a)
  | mapping {inFlow : Bool} {m : Mapping Block} (hmapping : m.WellFormed inFlow)
      (hvalues : ∀ entry ∈ m.entries, WellFormed m.layout.isFlow entry.value) :
      WellFormed inFlow (.mapping m)
  | sequence {inFlow : Bool} {q : Sequence Block} (hsequence : q.WellFormed inFlow)
      (hvalues : ∀ item ∈ q.items, WellFormed q.layout.isFlow item.value) :
      WellFormed inFlow (.sequence q)

/-! ## Streams

The last line of a source need not be ended.  A text that can stand at the end of a source is one
that the end of a line completes. -/

structure Stream.WellFormed (stream : Stream) : Prop where
  /-- Even a source without content is a document. -/
  documents_ne_nil : stream.documents ≠ []
  roots : ∀ document ∈ stream.documents, document.root.WellFormed false
  /-- A mark stands between documents. -/
  apart : stream.documents.IsChain fun before after =>
    after.explicit = true ∨ before.ending.explicit = true
  /-- Text after the last document needs the mark of its end. -/
  ended : stream.suffix ≠ [] → ∀ last ∈ stream.documents.getLast?, last.ending.explicit = true
  /-- The first document may start with a byte order mark. -/
  first : ∀ first ∈ stream.documents.head?, ∃ mark preamble, first.lead = mark ++ preamble ∧
    (mark = [] ∨ mark = ['\ufeff']) ∧ Preamble true (preamble ++ ['\n'])
  leads : ∀ document ∈ stream.documents.tail, Preamble false document.lead
  endings : ∀ document ∈ stream.documents, Trivia (document.ending.lead ++ ['\n'])
  suffix : Preamble false (stream.suffix ++ ['\n'])

end LosslessYaml
