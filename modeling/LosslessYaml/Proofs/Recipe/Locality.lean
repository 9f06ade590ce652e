import LosslessYaml.Proofs.Recipe.TopDown
import LosslessYaml.Tree.Print

/-!
# A change of values, in the printed text

The printed text of a stream after a recipe differs from the text before it at the values that were
replaced, and nowhere else.  `ChangeValue.targets` lists these values: those of the outermost
selected entries that do not have the new value already.  The text before is cut at them, and the
text after is made of the same pieces.

Main statement: `ChangeValue.print_run_eq_splice`.
-/

namespace LosslessYaml

/-- Pieces of text with values between them. -/
def splice : List Text → List Text → Text
  | text :: texts, value :: values => text ++ value ++ splice texts values
  | texts, _ => texts.flatten

namespace ChangeValue

/-! ## The values that are replaced -/

mutual

/-- The values below the node at the address that the recipe replaces, in the order of the text. -/
def targetsIn (recipe : ChangeValue) (address : List Step) : Block → List Block
  | .scalar _ => []
  | .aliasNode _ => []
  | .mapping ⟨_, _, _, _, entries⟩ => targetsInEntries recipe address entries
  | .sequence ⟨_, _, _, _, _, items⟩ => targetsInItems recipe address items.length 0 items

/-- The values at and below the entries of the mapping at the address that the recipe replaces.
Nothing below a selected entry is looked at. -/
def targetsInEntries (recipe : ChangeValue) (address : List Step) :
    List (Entry Block) → List Block
  | [] => []
  | ⟨_, _, key, _, value, _⟩ :: entries =>
    let here := address ++ [.key key.text]
    let found :=
      if recipe.path.selects here then
        if recipe.isNew value then [] else [value]
      else targetsIn recipe here value
    found ++ targetsInEntries recipe address entries

/-- The values below the items of the sequence at the address that the recipe replaces, the first
item being the `index`-th of `length`. -/
def targetsInItems (recipe : ChangeValue) (address : List Step) (length index : Nat) :
    List (Item Block) → List Block
  | [] => []
  | ⟨_, _, _, value, _⟩ :: items =>
    targetsIn recipe (address ++ [.item index length]) value ++
      targetsInItems recipe address length (index + 1) items

end

/-- The values in the stream that the recipe replaces, in the order of the text. -/
def targets (recipe : ChangeValue) (stream : Stream) : List Block :=
  stream.documents.flatMap fun document => recipe.targetsIn [] document.root

/-! ## Texts that agree outside the replaced values -/

/-- The first text holds the printed targets in order, and the second text has the new value in
their places. -/
inductive Spliced (recipe : ChangeValue) : List Block → Text → Text → Prop
  | rest (text : Text) : Spliced recipe [] text text
  | target {targets : List Block} {text text' : Text} (before : Text) (value : Block)
      (h : Spliced recipe targets text text') :
      Spliced recipe (value :: targets) (before ++ (value.print ++ text))
        (before ++ (newLead value ++ recipe.options.value ++ text'))

namespace Spliced

variable {recipe : ChangeValue} {targets others : List Block} {text text' more more' : Text}

theorem prepend (before : Text) (h : Spliced recipe targets text text') :
    Spliced recipe targets (before ++ text) (before ++ text') := by
  cases h with
  | rest => exact .rest _
  | target piece value h => simpa using target (before ++ piece) value h

theorem append (h : Spliced recipe targets text text') (hmore : Spliced recipe others more more') :
    Spliced recipe (targets ++ others) (text ++ more) (text' ++ more') := by
  induction h with
  | rest text => exact hmore.prepend text
  | target before value _ ih => simpa using target before value ih

theorem replaced (value : Block) :
    Spliced recipe [value] value.print (recipe.newValue value).print := by
  simpa [newValue, Block.print, Scalar.print, Scalar.printBody, Anchor.printOption] using
    target [] value (.rest [])

theorem exists_splice (h : Spliced recipe targets text text') :
    ∃ texts, texts.length = targets.length + 1 ∧ text = splice texts (targets.map Block.print) ∧
      text' = splice texts (targets.map fun value => newLead value ++ recipe.options.value) := by
  induction h with
  | rest text => exact ⟨[text], rfl, by simp [splice]⟩
  | target before value _ ih =>
      obtain ⟨texts, hlength, rfl, rfl⟩ := ih
      exact ⟨before :: texts, by simp [hlength], by simp [splice]⟩

end Spliced

/-! ## The printed text of a run -/

mutual

theorem print_descendBlock (recipe : ChangeValue) (address : List Step) :
    ∀ block, Spliced recipe (recipe.targetsIn address block) block.print
      (recipe.descendBlock address block).print
  | .scalar s => .rest _
  | .aliasNode a => .rest _
  | .mapping ⟨lead, _, anchor, layout, entries⟩ => by
    have hentries := (print_descendEntries recipe address entries).prepend
      (lead ++ Anchor.printOption anchor ++ layout.printOpening '\x7b')
    have hclosed := hentries.append (.rest (layout.printClosing '\x7d'))
    rw [List.append_nil] at hclosed
    rwa [targetsIn, descendBlock, Block.print, Block.print]
  | .sequence ⟨lead, _, anchor, layout, _, items⟩ => by
    have hitems := (print_descendItems recipe address items.length 0 items).prepend
      (lead ++ Anchor.printOption anchor ++ layout.printOpening '[')
    have hclosed := hitems.append (.rest (layout.printClosing ']'))
    rw [List.append_nil] at hclosed
    rwa [targetsIn, descendBlock, Block.print, Block.print]

theorem print_descendEntries (recipe : ChangeValue) (address : List Step) :
    ∀ entries, Spliced recipe (recipe.targetsInEntries address entries) (printEntries entries)
      (printEntries (recipe.descendEntries address entries))
  | [] => .rest _
  | ⟨lead, _, key, beforeColon, value, comma⟩ :: entries => by
    have hvalue : Spliced recipe
        (if recipe.path.selects (address ++ [.key key.text]) then
          if recipe.isNew value then [] else [value]
        else recipe.targetsIn (address ++ [.key key.text]) value) value.print
        (if recipe.path.selects (address ++ [.key key.text]) then
          if recipe.isNew value then value else recipe.newValue value
        else recipe.descendBlock (address ++ [.key key.text]) value).print := by
      split
      · split
        · exact .rest _
        · exact .replaced value
      · exact print_descendBlock recipe _ value
    have hentry := (hvalue.prepend (lead ++ key.print ++ beforeColon ++ [':'])).append
      (.rest (printComma comma))
    have hall := hentry.append (print_descendEntries recipe address entries)
    rw [targetsInEntries, descendEntries_cons, printEntries, printEntries]
    simpa using hall

theorem print_descendItems (recipe : ChangeValue) (address : List Step) (length index : Nat) :
    ∀ items, Spliced recipe (recipe.targetsInItems address length index items) (printItems items)
      (printItems (recipe.descendItems address length index items))
  | [] => .rest _
  | ⟨lead, _, dash, value, comma⟩ :: items => by
    have hvalue := print_descendBlock recipe (address ++ [.item index length]) value
    have hitem := (hvalue.prepend (lead ++ printDash dash)).append (.rest (printComma comma))
    have hall := hitem.append (print_descendItems recipe address length (index + 1) items)
    rw [targetsInItems, descendItems, printItems, printItems]
    simpa using hall

end

private theorem print_descend_documents (recipe : ChangeValue) (documents : List Document) :
    Spliced recipe (documents.flatMap fun document => recipe.targetsIn [] document.root)
      (documents.flatMap Document.print)
      ((documents.map fun document =>
        { document with root := recipe.descendBlock [] document.root }).flatMap
          Document.print) := by
  induction documents with
  | nil => exact .rest []
  | cons document documents ih =>
      have hroot := (print_descendBlock recipe [] document.root).prepend
        (document.lead ++ printDashes document.explicit)
      have hdocument := hroot.append
        (.rest (document.ending.lead ++ printDots document.ending.explicit))
      simpa [Document.print] using hdocument.append ih

/-- The text of a stream is cut at the values that a recipe replaces, and the text after the recipe
has the new value, with the lead that it gets there, in each of these places. -/
theorem print_run_eq_splice (recipe : ChangeValue) (stream : Stream) :
    ∃ texts, texts.length = (recipe.targets stream).length + 1 ∧
      stream.print = splice texts ((recipe.targets stream).map Block.print) ∧
      (recipe.run stream).print =
        splice texts ((recipe.targets stream).map fun value =>
          newLead value ++ recipe.options.value) := by
  have hdocuments := print_descend_documents recipe stream.documents
  have hstream := hdocuments.append (.rest stream.suffix)
  rw [List.append_nil] at hstream
  rw [run_eq]
  exact hstream.exists_splice

end ChangeValue

end LosslessYaml
