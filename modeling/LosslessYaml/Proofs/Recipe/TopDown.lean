import LosslessYaml.Recipe.ChangeValue

/-!
# A change of values, from the root downwards

A recipe visits a tree from its leaves upwards, with a cursor that knows the nodes above it.  What
it does is easier to say from the root downwards: go to each mapping entry by its address, and give
the entry a new value if the path selects the address, or else look below it.
`ChangeValue.descendBlock` says so, and this file proves that it is what a run gives.

The second half of the statement is about all that a run leaves alone.  `PatchedBlock` relates a
tree to one that differs from it in values of mapping entries only.

Main statement: `ChangeValue.run_eq_descend`.
-/

namespace LosslessYaml

/-! ## Addresses -/

namespace Cursor

@[simp] theorem steps_root : steps [.document, .stream] = [] := rfl

@[simp] theorem steps_mapping (cursor : Cursor) : steps (.mapping :: cursor) = cursor.steps := rfl

@[simp] theorem steps_sequence (cursor : Cursor) : steps (.sequence :: cursor) = cursor.steps := rfl

@[simp] theorem steps_entry (key : Text) (cursor : Cursor) :
    steps (.entry key :: cursor) = cursor.steps ++ [.key key] := by
  simp [steps, Frame.isOuter, Frame.step?]

@[simp] theorem steps_item (index length : Nat) (cursor : Cursor) :
    steps (.item index length :: cursor) = cursor.steps ++ [.item index length] := by
  simp [steps, Frame.isOuter, Frame.step?]

end Cursor

namespace ChangeValue

/-! ## New leads -/

/-- A new value has the lead of the old one, indented further if need be, or is set off by a space
if there was none. -/
theorem newLead_cases (value : Block) :
    (value.lead = [] ∧ newLead value = [' ']) ∨
    (value.lead ≠ [] ∧ ∃ more, newLead value = value.lead ++ more ∧
      ∀ c ∈ more, c = ' ') := by
  have hplain : ∀ lead : Text, (lead = [] ∧ (if lead.isEmpty then [' '] else lead) = [' ']) ∨
      (lead ≠ [] ∧ ∃ more, (if lead.isEmpty then [' '] else lead) = lead ++ more ∧
        ∀ c ∈ more, c = ' ') := by
    intro lead
    cases lead with
    | nil => exact .inl ⟨rfl, rfl⟩
    | cons c lead => exact .inr ⟨by simp, [], by simp, by simp⟩
  cases value with
  | scalar s => exact hplain s.lead
  | aliasNode a => exact hplain a.lead
  | mapping m => exact hplain m.lead
  | sequence q =>
      simp only [newLead, Block.lead]
      split
      next hindent =>
        simp only [Bool.and_eq_true, List.contains_iff_mem] at hindent
        exact .inr ⟨List.ne_nil_of_mem hindent.2, [' ', ' '], rfl, by simp⟩
      next => exact hplain q.lead

/-! ## The change from the root downwards -/

/-- Whether a value is an unanchored plain scalar with the text, whatever its lead and markers. -/
instance decidablePlain (text : Text) : (value : Block) → Decidable (∃ lead markers,
    value = .scalar { lead, markers, anchor := none, style := .plain, text })
  | .scalar s =>
    decidable_of_iff (s.anchor = none ∧ s.style = .plain ∧ s.text = text) (by cases s; simp)
  | .aliasNode _ | .mapping _ | .sequence _ => .isFalse (by simp)

mutual

/-- The node at the address after the change of the entries below it. -/
def descendBlock (recipe : ChangeValue) (address : List Step) : Block → Block
  | .scalar s => .scalar s
  | .aliasNode a => .aliasNode a
  | .mapping ⟨lead, markers, anchor, layout, entries⟩ =>
    .mapping ⟨lead, markers, anchor, layout, descendEntries recipe address entries⟩
  | .sequence ⟨lead, markers, anchor, layout, indentless, items⟩ =>
    .sequence ⟨lead, markers, anchor, layout, indentless,
      descendItems recipe address items.length 0 items⟩

/-- The entries of the mapping at the address after the change.  A selected entry keeps its value
if that is an unanchored plain scalar with the new text.  Otherwise it gets one, which has no
markers and the lead that fits the old value; nothing below it is looked at. -/
def descendEntries (recipe : ChangeValue) (address : List Step) :
    List (Entry Block) → List (Entry Block)
  | [] => []
  | ⟨lead, markers, key, beforeColon, value, comma⟩ :: entries =>
    let here := address ++ [.key key.text]
    let text := recipe.options.value
    let after :=
      if recipe.path.selects here then
        if ∃ lead markers,
            value = .scalar { lead, markers, anchor := none, style := .plain, text } then value
        else .scalar
          { lead := newLead value, markers := [], anchor := none, style := .plain, text }
      else descendBlock recipe here value
    ⟨lead, markers, key, beforeColon, after, comma⟩ :: descendEntries recipe address entries

/-- The items of the sequence at the address after the change of the entries below them, the first
of them being the `index`-th of `length`. -/
def descendItems (recipe : ChangeValue) (address : List Step) (length index : Nat) :
    List (Item Block) → List (Item Block)
  | [] => []
  | ⟨lead, markers, dash, value, comma⟩ :: items =>
    ⟨lead, markers, dash, descendBlock recipe (address ++ [.item index length]) value, comma⟩ ::
      descendItems recipe address length (index + 1) items

end

/-- The stream after the change of the entries below the roots of its documents. -/
def descend (recipe : ChangeValue) (stream : Stream) : Stream :=
  { stream with
    documents := stream.documents.map fun document =>
      { document with root := recipe.descendBlock [] document.root } }

/-- The values that a recipe keeps are those that it takes for new. -/
theorem isNew_iff {recipe : ChangeValue} {value : Block} :
    recipe.isNew value = true ↔ ∃ lead markers, value = .scalar
      { lead, markers, anchor := none, style := .plain, text := recipe.options.value } := by
  cases value with
  | scalar s =>
      obtain ⟨lead, markers, anchor, style, text⟩ := s
      simp [isNew, and_assoc, and_left_comm]
  | aliasNode | mapping | sequence => simp [isNew]

/-- The first entry after the change, by the steps that the recipe takes there. -/
theorem descendEntries_cons (recipe : ChangeValue) (address : List Step) (entry : Entry Block)
    (entries : List (Entry Block)) :
    recipe.descendEntries address (entry :: entries) =
      { entry with value :=
        if recipe.path.selects (address ++ [.key entry.key.text]) then
          if recipe.isNew entry.value then entry.value else recipe.newValue entry.value
        else recipe.descendBlock (address ++ [.key entry.key.text]) entry.value } ::
      recipe.descendEntries address entries := by
  rw [descendEntries]
  simp only [isNew_iff]
  rfl

/-! ## What a change leaves alone -/

mutual

/-- The second node is the first with new values for some of the mapping entries below it. -/
inductive PatchedBlock (recipe : ChangeValue) : Block → Block → Prop
  | scalar (s : Scalar) : PatchedBlock recipe (.scalar s) (.scalar s)
  | aliasNode (a : Alias) : PatchedBlock recipe (.aliasNode a) (.aliasNode a)
  | mapping {lead : Text} {markers : List Marker} {anchor : Option Anchor} {layout : Layout}
      {entries entries' : List (Entry Block)} (hentries : PatchedEntries recipe entries entries') :
      PatchedBlock recipe (.mapping ⟨lead, markers, anchor, layout, entries⟩)
        (.mapping ⟨lead, markers, anchor, layout, entries'⟩)
  | sequence {lead : Text} {markers : List Marker} {anchor : Option Anchor} {layout : Layout}
      {indentless : Bool} {items items' : List (Item Block)}
      (hitems : PatchedItems recipe items items') :
      PatchedBlock recipe (.sequence ⟨lead, markers, anchor, layout, indentless, items⟩)
        (.sequence ⟨lead, markers, anchor, layout, indentless, items'⟩)

/-- The second entries are the first with new values, or with new values below.  A new value is a
plain scalar without anchor and markers. -/
inductive PatchedEntries (recipe : ChangeValue) : List (Entry Block) → List (Entry Block) → Prop
  | nil : PatchedEntries recipe [] []
  | inside {lead : Text} {markers : List Marker} {key : Scalar} {beforeColon : Text}
      {value value' : Block} {comma : Option Text} {entries entries' : List (Entry Block)}
      (hvalue : PatchedBlock recipe value value')
      (hentries : PatchedEntries recipe entries entries') :
      PatchedEntries recipe (⟨lead, markers, key, beforeColon, value, comma⟩ :: entries)
        (⟨lead, markers, key, beforeColon, value', comma⟩ :: entries')
  | replaced {lead : Text} {markers : List Marker} {key : Scalar} {beforeColon : Text}
      {value : Block} {comma : Option Text} {entries entries' : List (Entry Block)}
      (hentries : PatchedEntries recipe entries entries') :
      PatchedEntries recipe (⟨lead, markers, key, beforeColon, value, comma⟩ :: entries)
        (⟨lead, markers, key, beforeColon, .scalar
          { lead := newLead value, markers := [], anchor := none, style := .plain,
            text := recipe.options.value }, comma⟩ :: entries')

/-- The second items are the first with new values below. -/
inductive PatchedItems (recipe : ChangeValue) : List (Item Block) → List (Item Block) → Prop
  | nil : PatchedItems recipe [] []
  | inside {lead : Text} {markers : List Marker} {dash : Bool} {value value' : Block}
      {comma : Option Text} {items items' : List (Item Block)}
      (hvalue : PatchedBlock recipe value value') (hitems : PatchedItems recipe items items') :
      PatchedItems recipe (⟨lead, markers, dash, value, comma⟩ :: items)
        (⟨lead, markers, dash, value', comma⟩ :: items')

end

/-- The second documents are the first with new values below their roots. -/
inductive PatchedDocuments (recipe : ChangeValue) : List Document → List Document → Prop
  | nil : PatchedDocuments recipe [] []
  | inside {lead : Text} {markers : List Marker} {explicit : Bool} {root root' : Block}
      {ending : Ending} {documents documents' : List Document}
      (hroot : PatchedBlock recipe root root')
      (hdocuments : PatchedDocuments recipe documents documents') :
      PatchedDocuments recipe (⟨lead, markers, explicit, root, ending⟩ :: documents)
        (⟨lead, markers, explicit, root', ending⟩ :: documents')

/-- The second stream is the first with new values below the roots of its documents. -/
structure Patched (recipe : ChangeValue) (stream stream' : Stream) : Prop where
  markers : stream'.markers = stream.markers
  suffix : stream'.suffix = stream.suffix
  documents : PatchedDocuments recipe stream.documents stream'.documents

mutual

theorem PatchedBlock.refl (recipe : ChangeValue) : ∀ block, PatchedBlock recipe block block
  | .scalar s => .scalar s
  | .aliasNode a => .aliasNode a
  | .mapping ⟨_, _, _, _, entries⟩ => .mapping (PatchedEntries.refl recipe entries)
  | .sequence ⟨_, _, _, _, _, items⟩ => .sequence (PatchedItems.refl recipe items)

theorem PatchedEntries.refl (recipe : ChangeValue) :
    ∀ entries, PatchedEntries recipe entries entries
  | [] => .nil
  | ⟨_, _, _, _, value, _⟩ :: entries =>
    .inside (PatchedBlock.refl recipe value) (PatchedEntries.refl recipe entries)

theorem PatchedItems.refl (recipe : ChangeValue) : ∀ items, PatchedItems recipe items items
  | [] => .nil
  | ⟨_, _, _, value, _⟩ :: items =>
    .inside (PatchedBlock.refl recipe value) (PatchedItems.refl recipe items)

end

mutual

theorem descendBlock_patched (recipe : ChangeValue) (address : List Step) :
    ∀ block, PatchedBlock recipe block (recipe.descendBlock address block)
  | .scalar s => .scalar s
  | .aliasNode a => .aliasNode a
  | .mapping ⟨_, _, _, _, entries⟩ => by
    rw [descendBlock]
    exact .mapping (descendEntries_patched recipe address entries)
  | .sequence ⟨_, _, _, _, _, items⟩ => by
    rw [descendBlock]
    exact .sequence (descendItems_patched recipe address items.length 0 items)

theorem descendEntries_patched (recipe : ChangeValue) (address : List Step) :
    ∀ entries, PatchedEntries recipe entries (recipe.descendEntries address entries)
  | [] => by
    rw [descendEntries]
    exact .nil
  | ⟨_, _, key, _, value, _⟩ :: entries => by
    have hentries := descendEntries_patched recipe address entries
    rw [descendEntries]
    split
    · split
      · exact .inside (.refl recipe value) hentries
      · exact .replaced hentries
    · exact .inside (descendBlock_patched recipe _ value) hentries

theorem descendItems_patched (recipe : ChangeValue) (address : List Step) (length index : Nat) :
    ∀ items, PatchedItems recipe items (recipe.descendItems address length index items)
  | [] => by
    rw [descendItems]
    exact .nil
  | ⟨_, _, _, value, _⟩ :: items => by
    rw [descendItems]
    exact .inside (descendBlock_patched recipe _ value)
      (descendItems_patched recipe address length (index + 1) items)

end

end ChangeValue

/-! ## Edits of collections -/

namespace Edit

theorem isKept_iff {edit : Edit} : edit.isKept = true ↔ edit = .kept := by
  cases edit <;> simp [isKept]

theorem applyEntries_kept {edits : List Edit} (h : edits.all isKept = true)
    (entries : List (Entry Block)) : applyEntries edits entries = entries := by
  induction edits generalizing entries with
  | nil => rw [applyEntries]; simp
  | cons edit edits ih =>
      simp only [List.all_cons, Bool.and_eq_true, isKept_iff] at h
      match entries with
      | [] => rw [applyEntries]; simp
      | ⟨_, _, _, _, value, _⟩ :: entries => rw [applyEntries, h.1, apply, ih h.2]

theorem applyItems_kept {edits : List Edit} (h : edits.all isKept = true)
    (items : List (Item Block)) : applyItems edits items = items := by
  induction edits generalizing items with
  | nil => rw [applyItems]; simp
  | cons edit edits ih =>
      simp only [List.all_cons, Bool.and_eq_true, isKept_iff] at h
      match items with
      | [] => rw [applyItems]; simp
      | ⟨_, _, _, value, _⟩ :: items => rw [applyItems, h.1, apply, ih h.2]

/-- Whether a mapping is kept or rebuilt, its values are edited one by one. -/
theorem apply_ofChildren_mapping (children : List Edit) (lead : Text) (markers : List Marker)
    (anchor : Option Anchor) (layout : Layout) (entries : List (Entry Block)) :
    (ofChildren children).apply (.mapping ⟨lead, markers, anchor, layout, entries⟩) =
      .mapping ⟨lead, markers, anchor, layout, applyEntries children entries⟩ := by
  unfold ofChildren
  split
  next hkept => rw [apply, applyEntries_kept hkept]
  next => rw [apply]

/-- Whether a sequence is kept or rebuilt, its values are edited one by one. -/
theorem apply_ofChildren_sequence (children : List Edit) (lead : Text) (markers : List Marker)
    (anchor : Option Anchor) (layout : Layout) (indentless : Bool) (items : List (Item Block)) :
    (ofChildren children).apply (.sequence ⟨lead, markers, anchor, layout, indentless, items⟩) =
      .sequence ⟨lead, markers, anchor, layout, indentless, applyItems children items⟩ := by
  unfold ofChildren
  split
  next hkept => rw [apply, applyItems_kept hkept]
  next => rw [apply]

end Edit

theorem Stream.applyDocuments_kept {edits : List Edit} (h : edits.all Edit.isKept = true)
    (documents : List Document) : Stream.applyDocuments edits documents = documents := by
  induction edits generalizing documents with
  | nil => rfl
  | cons edit edits ih =>
      simp only [List.all_cons, Bool.and_eq_true, Edit.isKept_iff] at h
      cases documents with
      | nil => rfl
      | cons document documents => rw [Stream.applyDocuments, h.1, Edit.apply, ih h.2]

/-! ## The two ways give one tree -/

namespace ChangeValue

mutual

theorem apply_editBlock (recipe : ChangeValue) (cursor : Cursor) :
    ∀ block, (recipe.visitor.editBlock cursor block).apply block =
      recipe.descendBlock cursor.steps block
  | .scalar s => by simp [Visitor.editBlock, visitor, Edit.apply, descendBlock]
  | .aliasNode a => by simp [Visitor.editBlock, visitor, Edit.apply, descendBlock]
  | .mapping ⟨_, _, _, _, entries⟩ => by
    rw [Visitor.editBlock, Edit.apply_ofChildren_mapping, descendBlock,
      apply_editEntries recipe (.mapping :: cursor) entries, Cursor.steps_mapping]
  | .sequence ⟨_, _, _, _, _, items⟩ => by
    rw [Visitor.editBlock, Edit.apply_ofChildren_sequence, descendBlock,
      apply_editItems recipe (.sequence :: cursor) items.length 0 items, Cursor.steps_sequence]

theorem apply_editEntries (recipe : ChangeValue) (cursor : Cursor) :
    ∀ entries, Edit.applyEntries (recipe.visitor.editEntries cursor entries) entries =
      recipe.descendEntries cursor.steps entries
  | [] => by simp [Visitor.editEntries, Edit.applyEntries, descendEntries]
  | ⟨lead, markers, key, beforeColon, value, comma⟩ :: entries => by
    have hbelow := apply_editBlock recipe (.entry key.text :: cursor) value
    rw [Cursor.steps_entry] at hbelow
    rw [Visitor.editEntries, Edit.applyEntries, descendEntries_cons,
      apply_editEntries recipe cursor entries]
    -- the entry is decided by its old value, whatever became of the nodes below it
    by_cases hselected : recipe.path.selects (cursor.steps ++ [.key key.text])
    · by_cases hnew : recipe.isNew value
      · match value with
        | .scalar s => simp [visitor, hselected, hnew, Visitor.editBlock, Edit.apply]
        | .aliasNode _ | .mapping _ | .sequence _ => simp [isNew] at hnew
      · simp [visitor, hselected, hnew, Edit.apply]
    · have hnone : recipe.visitor.value (.entry key.text :: cursor)
          ⟨lead, markers, key, beforeColon, value, comma⟩ = none := by
        simp [visitor, hselected]
      simp only [hnone, Option.map_none, Option.getD_none, hbelow, hselected]
      rfl

theorem apply_editItems (recipe : ChangeValue) (cursor : Cursor) (length index : Nat) :
    ∀ items, Edit.applyItems (recipe.visitor.editItems cursor length index items) items =
      recipe.descendItems cursor.steps length index items
  | [] => by simp [Visitor.editItems, Edit.applyItems, descendItems]
  | ⟨_, _, _, value, _⟩ :: items => by
    rw [Visitor.editItems, Edit.applyItems, descendItems,
      apply_editItems recipe cursor length (index + 1) items,
      apply_editBlock recipe (.item index length :: cursor) value, Cursor.steps_item]

end

private theorem applyDocuments_edits (recipe : ChangeValue) (documents : List Document) :
    Stream.applyDocuments
        (documents.map fun document =>
          recipe.visitor.editBlock [.document, .stream] document.root) documents =
      documents.map fun document =>
        { document with root := recipe.descendBlock [] document.root } := by
  induction documents with
  | nil => rfl
  | cons document documents ih =>
      rw [List.map_cons, Stream.applyDocuments, List.map_cons, ih, apply_editBlock,
        Cursor.steps_root]

private theorem descend_documents_patched (recipe : ChangeValue) (documents : List Document) :
    PatchedDocuments recipe documents
      (documents.map fun document =>
        { document with root := recipe.descendBlock [] document.root }) := by
  induction documents with
  | nil => exact .nil
  | cons document documents ih => exact .inside (descendBlock_patched recipe [] document.root) ih

theorem run_eq (recipe : ChangeValue) (stream : Stream) :
    recipe.run stream = recipe.descend stream := by
  unfold run edits Visitor.editStream Stream.apply descend
  rw [applyDocuments_edits]

theorem run_patched (recipe : ChangeValue) (stream : Stream) :
    recipe.Patched stream (recipe.run stream) := by
  rw [run_eq]
  exact ⟨rfl, rfl, descend_documents_patched recipe stream.documents⟩

/-- A run changes the entries that the path selects by their address from the root of their own
document, and nothing but the values of mapping entries. -/
theorem run_eq_descend (recipe : ChangeValue) (stream : Stream) :
    recipe.run stream = recipe.descend stream ∧ recipe.Patched stream (recipe.run stream) :=
  ⟨run_eq recipe stream, run_patched recipe stream⟩

end ChangeValue

end LosslessYaml
