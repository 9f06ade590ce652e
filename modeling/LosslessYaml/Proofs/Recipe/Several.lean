import LosslessYaml.Proofs.Recipe.Sharing
import LosslessYaml.Tree.Print

/-!
# Several recipes

Recipes run one after the other, each on the result of the one before it, and they may select the
same entries, or entries inside of entries that another one selects.  This file proves what that
does not depend on: a second run of all of them ends with the same stream, and two recipes may
change places unless both select an entry and give it different values.

Entries keep their addresses while they are there, so all recipes of a list meet at an entry:
`ChangeValue.settle` is what one of them makes of its value.  A collection that is selected becomes
a scalar, whose lead depends on the lead of the collection and not on what is in it; and a scalar
that a recipe wrote keeps its lead from then on.

Main statements: `runAll_idempotent`, `runAll_swap`.
-/

namespace LosslessYaml

/-! ## Induction on nodes -/

private theorem sizeOf_entry_lt {m : Mapping Block} {entry : Entry Block}
    (h : entry ∈ m.entries) : sizeOf entry.value < sizeOf m := by
  have hlist := List.sizeOf_lt_of_mem h
  cases m
  cases entry
  simp only [Mapping.mk.sizeOf_spec, Entry.mk.sizeOf_spec] at hlist ⊢
  omega

private theorem sizeOf_item_lt {q : Sequence Block} {item : Item Block}
    (h : item ∈ q.items) : sizeOf item.value < sizeOf q := by
  have hlist := List.sizeOf_lt_of_mem h
  cases q
  cases item
  simp only [Sequence.mk.sizeOf_spec, Item.mk.sizeOf_spec] at hlist ⊢
  omega

/-- To prove something of every node, prove it of a collection whose values have it. -/
@[elab_as_elim]
theorem Block.induction {motive : Block → Prop} (scalar : ∀ s, motive (.scalar s))
    (aliasNode : ∀ a, motive (.aliasNode a))
    (mapping : ∀ m : Mapping Block, (∀ entry ∈ m.entries, motive entry.value) →
      motive (.mapping m))
    (sequence : ∀ q : Sequence Block, (∀ item ∈ q.items, motive item.value) →
      motive (.sequence q)) (block : Block) : motive block := by
  match block with
  | .scalar s => exact scalar s
  | .aliasNode a => exact aliasNode a
  | .mapping m =>
    refine mapping m fun entry hentry => ?_
    have hsmaller := sizeOf_entry_lt hentry
    exact Block.induction scalar aliasNode mapping sequence entry.value
  | .sequence q =>
    refine sequence q fun item hitem => ?_
    have hsmaller := sizeOf_item_lt hitem
    exact Block.induction scalar aliasNode mapping sequence item.value
termination_by sizeOf block

namespace ChangeValue

/-! ## One recipe at one entry -/

/-- What a recipe makes of the value of the entry at the address. -/
def settle (recipe : ChangeValue) (address : List Step) (value : Block) : Block :=
  if recipe.path.selects address then
    if recipe.isNew value then value else recipe.newValue value
  else recipe.descendBlock address value

theorem descendEntries_eq_map (recipe : ChangeValue) (address : List Step)
    (entries : List (Entry Block)) :
    recipe.descendEntries address entries = entries.map fun entry =>
      { entry with value := recipe.settle (address ++ [.key entry.key.text]) entry.value } := by
  induction entries with
  | nil => rw [descendEntries]; rfl
  | cons entry entries ih =>
      rw [descendEntries_cons, ih]
      rfl

theorem descendItems_eq_mapIdx (recipe : ChangeValue) (address : List Step) (length index : Nat)
    (items : List (Item Block)) :
    recipe.descendItems address length index items = items.mapIdx fun offset item =>
      { item with
        value := recipe.descendBlock (address ++ [.item (offset + index) length]) item.value } := by
  induction items generalizing index with
  | nil => rw [descendItems]; rfl
  | cons item items ih =>
      rw [descendItems, ih, List.mapIdx_cons]
      simp only [Nat.zero_add, Nat.add_assoc, Nat.add_comm 1 index]

theorem descendBlock_mapping (recipe : ChangeValue) (address : List Step) (m : Mapping Block) :
    recipe.descendBlock address (.mapping m) =
      .mapping { m with entries := m.entries.map fun entry =>
        { entry with
          value := recipe.settle (address ++ [.key entry.key.text]) entry.value } } := by
  rw [descendBlock, descendEntries_eq_map]

theorem descendBlock_sequence (recipe : ChangeValue) (address : List Step) (q : Sequence Block) :
    recipe.descendBlock address (.sequence q) =
      .sequence { q with items := q.items.mapIdx fun index item =>
        { item with value :=
          recipe.descendBlock (address ++ [.item index q.items.length]) item.value } } := by
  rw [descendBlock, descendItems_eq_mapIdx]
  rfl

/-! ### Leaves

Nothing below a leaf can be selected, and what a recipe writes is a leaf. -/

/-- Whether the node is a scalar or an alias. -/
def isLeaf : Block → Bool
  | .scalar _ | .aliasNode _ => true
  | .mapping _ | .sequence _ => false

variable {recipe : ChangeValue} {address : List Step} {value : Block}

theorem descendBlock_leaf (h : isLeaf value = true) :
    recipe.descendBlock address value = value := by
  cases value with
  | scalar | aliasNode => rw [descendBlock]
  | mapping | sequence => simp [isLeaf] at h

theorem isLeaf_descendBlock (recipe : ChangeValue) (address : List Step) (value : Block) :
    isLeaf (recipe.descendBlock address value) = isLeaf value := by
  cases value <;> rw [descendBlock] <;> rfl

theorem isLeaf_of_isNew (h : recipe.isNew value = true) : isLeaf value = true := by
  cases value with
  | scalar => rfl
  | aliasNode | mapping | sequence => simp [isNew] at h

/-- A selected entry has the new value already, or gets it. -/
theorem settle_of_selected (h : recipe.path.selects address = true) (value : Block) :
    (isLeaf value = true ∧ recipe.settle address value = value) ∨
      recipe.settle address value = recipe.newValue value := by
  rw [settle, if_pos h]
  by_cases hnew : recipe.isNew value = true
  · rw [if_pos hnew]
    exact .inl ⟨isLeaf_of_isNew hnew, rfl⟩
  · rw [if_neg hnew]
    exact .inr rfl

theorem settle_of_not_selected (h : ¬ recipe.path.selects address = true) (value : Block) :
    recipe.settle address value = recipe.descendBlock address value := if_neg h

theorem isLeaf_settle (h : recipe.path.selects address = true) :
    isLeaf (recipe.settle address value) = true := by
  rcases settle_of_selected h value with ⟨hleaf, hsettle⟩ | hsettle
  · rwa [hsettle]
  · rw [hsettle]
    rfl

/-! ### What a selected entry depends on -/

/-- The lead of a new value does not depend on what is below the old one. -/
theorem newLead_descendBlock (recipe : ChangeValue) (address : List Step) (value : Block) :
    newLead (recipe.descendBlock address value) = newLead value := by
  cases value <;> rw [descendBlock] <;> rfl

theorem isNew_descendBlock (recipe other : ChangeValue) (address : List Step) (value : Block) :
    recipe.isNew (other.descendBlock address value) = recipe.isNew value := by
  cases value <;> rw [descendBlock] <;> rfl

/-- What becomes of a selected entry does not depend on what another recipe did below it. -/
theorem settle_descendBlock (recipe other : ChangeValue) {address : List Step}
    (h : recipe.path.selects address = true) (value : Block) :
    recipe.settle address (other.descendBlock address value) = recipe.settle address value := by
  rw [settle, settle, if_pos h, if_pos h, isNew_descendBlock]
  split
  next hnew => exact descendBlock_leaf (isLeaf_of_isNew hnew)
  next => rw [newValue, newValue, newLead_descendBlock]

/-! ## Lists of recipes -/

/-- What recipes, one after the other, make of the value of the entry at the address. -/
def settleAll (recipes : List ChangeValue) (address : List Step) (value : Block) : Block :=
  recipes.foldl (fun value recipe => recipe.settle address value) value

/-- The node at the address after recipes, one after the other. -/
def descendAll (recipes : List ChangeValue) (address : List Step) (block : Block) : Block :=
  recipes.foldl (fun block recipe => recipe.descendBlock address block) block

theorem descendAll_leaf (recipes : List ChangeValue) (h : isLeaf value = true) :
    descendAll recipes address value = value := by
  induction recipes with
  | nil => rfl
  | cons recipe recipes ih => rwa [descendAll, List.foldl_cons, descendBlock_leaf h]

theorem descendAll_mapping (recipes : List ChangeValue) (address : List Step)
    (m : Mapping Block) :
    descendAll recipes address (.mapping m) =
      .mapping { m with entries := m.entries.map fun entry =>
        { entry with
          value := settleAll recipes (address ++ [.key entry.key.text]) entry.value } } := by
  induction recipes generalizing m with
  | nil =>
      show Block.mapping m = .mapping { m with entries := m.entries.map fun entry => entry }
      rw [List.map_id']
  | cons recipe recipes ih =>
      rw [descendAll, List.foldl_cons, descendBlock_mapping]
      refine (ih _).trans ?_
      rw [List.map_map]
      rfl

theorem descendAll_sequence (recipes : List ChangeValue) (address : List Step)
    (q : Sequence Block) :
    descendAll recipes address (.sequence q) =
      .sequence { q with items := q.items.mapIdx fun index item =>
        { item with
          value := descendAll recipes (address ++ [.item index q.items.length]) item.value } } := by
  induction recipes generalizing q with
  | nil =>
      show Block.sequence q = .sequence { q with items := q.items.mapIdx fun _ item => item }
      have hsame : q.items.mapIdx (fun _ item => item) = q.items :=
        List.ext_getElem List.length_mapIdx (by simp)
      rw [hsame]
  | cons recipe recipes ih =>
      rw [descendAll, List.foldl_cons, descendBlock_sequence]
      refine (ih _).trans ?_
      rw [List.mapIdx_mapIdx, List.length_mapIdx]
      rfl

theorem settleAll_of_not_selected {recipes : List ChangeValue}
    (h : ∀ recipe ∈ recipes, recipe.path.selects address = false) (value : Block) :
    settleAll recipes address value = descendAll recipes address value := by
  induction recipes generalizing value with
  | nil => rfl
  | cons recipe recipes ih =>
      rw [List.forall_mem_cons] at h
      rw [settleAll, descendAll, List.foldl_cons, List.foldl_cons, settle, h.1]
      exact ih h.2 _

/-! ### Entries that some recipe selects -/

/-- A value as recipes write it. -/
def written (lead text : Text) : Block := .scalar { lead, text }

/-- The text that a written value ends up with. -/
def lastText (recipes : List ChangeValue) (address : List Step) (text : Text) : Text :=
  recipes.foldl (fun text recipe =>
    if recipe.path.selects address then recipe.options.value else text) text

theorem lastText_cons (recipe : ChangeValue) (recipes : List ChangeValue) (address : List Step)
    (text : Text) :
    lastText (recipe :: recipes) address text = lastText recipes address
      (if recipe.path.selects address then recipe.options.value else text) := rfl

theorem newLead_ne_nil (value : Block) : newLead value ≠ [] := by
  rcases newLead_cases value with ⟨-, hlead⟩ | ⟨hne, more, hlead, -⟩
  · simp [hlead]
  · simp [hlead, hne]

theorem settle_written {lead : Text} (hlead : lead ≠ []) (text : Text) :
    recipe.settle address (written lead text) =
      written lead (if recipe.path.selects address then recipe.options.value else text) := by
  by_cases hselects : recipe.path.selects address = true
  · rw [settle, if_pos hselects, if_pos hselects]
    by_cases htext : text = recipe.options.value
    · have hnew : recipe.isNew (written lead text) = true := by simp [isNew, written, htext]
      rw [if_pos hnew, htext]
    · have hnew : ¬ recipe.isNew (written lead text) = true := by simp [isNew, written, htext]
      have hkeeps : newLead (written lead text) = lead := by
        simp [newLead, written, Block.lead, hlead]
      rw [if_neg hnew, newValue, hkeeps, written]
  · rw [settle_of_not_selected hselects, if_neg hselects]
    exact descendBlock_leaf rfl

theorem settleAll_written (recipes : List ChangeValue) {lead : Text} (hlead : lead ≠ [])
    (text : Text) :
    settleAll recipes address (written lead text) =
      written lead (lastText recipes address text) := by
  induction recipes generalizing text with
  | nil => rfl
  | cons recipe recipes ih =>
      rw [settleAll, List.foldl_cons, settle_written hlead]
      exact ih _

/-- Once a recipe selects the entry, the text does not depend on what was written before. -/
theorem lastText_eq_of_selected {recipes : List ChangeValue}
    (h : ∃ recipe ∈ recipes, recipe.path.selects address = true) (text text' : Text) :
    lastText recipes address text = lastText recipes address text' := by
  induction recipes generalizing text text' with
  | nil => simp at h
  | cons recipe recipes ih =>
      rw [lastText_cons, lastText_cons]
      by_cases hselects : recipe.path.selects address = true
      · rw [if_pos hselects, if_pos hselects]
      · rw [if_neg hselects, if_neg hselects]
        exact ih (by simpa [hselects] using h) text text'

/-- Recipes of which one selects the entry leave its value, which is a leaf then, or write a new
one. -/
theorem settleAll_cases {recipes : List ChangeValue}
    (h : ∃ recipe ∈ recipes, recipe.path.selects address = true) (value : Block) :
    (isLeaf value = true ∧ settleAll recipes address value = value) ∨
      ∃ lead text, lead ≠ [] ∧
        settleAll recipes address value = written lead (lastText recipes address text) := by
  induction recipes generalizing value with
  | nil => simp at h
  | cons recipe recipes ih =>
      have hcons : settleAll (recipe :: recipes) address value =
          settleAll recipes address (recipe.settle address value) := rfl
      rw [hcons]
      by_cases hselects : recipe.path.selects address = true
      · rcases settle_of_selected hselects value with ⟨hleaf, hsettle⟩ | hsettle
        · rw [hsettle]
          by_cases hrest : ∃ recipe ∈ recipes, recipe.path.selects address = true
          · rcases ih hrest value with hkept | ⟨lead, text, hlead, hwritten⟩
            · exact .inl hkept
            · refine .inr ⟨lead, text, hlead, ?_⟩
              rw [hwritten, lastText_cons, lastText_eq_of_selected hrest]
          · have hnone : ∀ recipe ∈ recipes, recipe.path.selects address = false := by
              simpa using hrest
            rw [settleAll_of_not_selected hnone, descendAll_leaf recipes hleaf]
            exact .inl ⟨hleaf, rfl⟩
        · refine .inr ⟨newLead value, recipe.options.value, newLead_ne_nil value, ?_⟩
          rw [hsettle, lastText_cons, if_pos hselects]
          exact settleAll_written recipes (newLead_ne_nil value) recipe.options.value
      · have hrest : ∃ recipe ∈ recipes, recipe.path.selects address = true := by
          simpa [hselects] using h
        simp only [lastText_cons, if_neg hselects, settle_of_not_selected hselects]
        -- What the recipe did below the entry is of no account once another one selects it.
        rcases ih hrest (recipe.descendBlock address value) with ⟨hleaf, hkept⟩ | hwritten
        · rw [isLeaf_descendBlock] at hleaf
          rw [descendBlock_leaf hleaf] at hkept ⊢
          exact .inl ⟨hleaf, hkept⟩
        · exact .inr hwritten

theorem settleAll_settleAll_of_selected {recipes : List ChangeValue}
    (h : ∃ recipe ∈ recipes, recipe.path.selects address = true) (value : Block) :
    settleAll recipes address (settleAll recipes address value) =
      settleAll recipes address value := by
  rcases settleAll_cases h value with ⟨-, hkept⟩ | ⟨lead, text, hlead, hwritten⟩
  · rw [hkept, hkept]
  · rw [hwritten, settleAll_written recipes hlead, lastText_eq_of_selected h _ text]

/-! ### A second run -/

theorem descendAll_descendAll (recipes : List ChangeValue) (block : Block) (address : List Step) :
    descendAll recipes address (descendAll recipes address block) =
      descendAll recipes address block := by
  induction block using Block.induction generalizing address with
  | scalar s =>
      have hleaf : descendAll recipes address (.scalar s) = .scalar s :=
        descendAll_leaf recipes rfl
      rw [hleaf, hleaf]
  | aliasNode a =>
      have hleaf : descendAll recipes address (.aliasNode a) = .aliasNode a :=
        descendAll_leaf recipes rfl
      rw [hleaf, hleaf]
  | mapping m ih =>
      have hentry : ∀ entry ∈ m.entries, ∀ address,
          settleAll recipes address (settleAll recipes address entry.value) =
            settleAll recipes address entry.value := by
        intro entry hmem address
        by_cases h : ∃ recipe ∈ recipes, recipe.path.selects address = true
        · exact settleAll_settleAll_of_selected h entry.value
        · have hnone : ∀ recipe ∈ recipes, recipe.path.selects address = false := by
            simpa using h
          simp only [settleAll_of_not_selected hnone]
          exact ih entry hmem address
      simp only [descendAll_mapping, List.map_map]
      congr 2
      refine List.map_congr_left fun entry hmem => ?_
      simp only [Function.comp_apply, hentry entry hmem]
  | sequence q ih =>
      simp only [descendAll_sequence, List.mapIdx_mapIdx, List.length_mapIdx]
      congr 2
      refine List.mapIdx_eq_mapIdx_iff.2 fun index hindex => ?_
      simp only [Function.comp_apply, ih _ (List.getElem_mem hindex)]

end ChangeValue

theorem runAll_eq (recipes : List ChangeValue) (stream : Stream) :
    runAll recipes stream = { stream with documents := stream.documents.map fun document =>
      { document with root := ChangeValue.descendAll recipes [] document.root } } := by
  induction recipes generalizing stream with
  | nil =>
      show stream = { stream with documents := stream.documents.map fun document => document }
      rw [List.map_id']
  | cons recipe recipes ih =>
      rw [runAll, List.foldl_cons, ChangeValue.run_eq, ChangeValue.descend]
      refine (ih _).trans ?_
      rw [List.map_map]
      rfl

theorem runAll_runAll (recipes : List ChangeValue) (stream : Stream) :
    runAll recipes (runAll recipes stream) = runAll recipes stream := by
  simp only [runAll_eq, List.map_map]
  congr 1
  refine List.map_congr_left fun document _ => ?_
  simp only [Function.comp_apply, ChangeValue.descendAll_descendAll]

namespace ChangeValue

theorem isNew_frame (recipe : ChangeValue) (node : Block) :
    recipe.isNew node.frame = recipe.isNew node := by
  cases node <;> rfl

theorem isNew_newValue (recipe : ChangeValue) (value : Block) :
    recipe.isNew (recipe.newValue value) = true := by
  simp [isNew, newValue]

/-- A run leaves no selected entry with a value that differs. -/
theorem changes_run (recipe : ChangeValue) (stream : Stream) :
    recipe.changes (recipe.run stream) = false := by
  rw [changes_eq_false_iff]
  rintro numbers ⟨new, hnew, hdiffers⟩
  obtain ⟨old, hold, haddress, hshared, hreplaced, hrebuilt⟩ := exists_old hnew
  -- A value that differs now did so before, and was replaced then.
  have hnot : (numbers, .replaced) ∉ recipe.touches stream := by
    intro hmem
    rw [differs, hreplaced hmem, isNew_newValue] at hdiffers
    simp at hdiffers
  by_cases hmem : (numbers, .rebuilt) ∈ recipe.touches stream
  · have hbefore : recipe.differs old = true := by
      rw [differs, ← isNew_frame, hrebuilt hmem, isNew_frame] at hdiffers
      simpa only [differs, Site.isEntryValue, haddress] using hdiffers
    obtain ⟨-, deeper, houtermost, hprefix, hne⟩ := (mem_touches_iff _ _ _ _).mp hmem
    exact houtermost.2 numbers hprefix hne ⟨old, hold, hbefore⟩
  · have hshares : recipe.Shares stream numbers := by
      intro touch
      cases touch with
      | replaced => exact hnot
      | rebuilt => exact hmem
    have hnone := (shares_iff hnew).mp hshares numbers (List.prefix_refl numbers)
    exact hnone ⟨old, hold, hshared hshares ▸ hdiffers⟩

end ChangeValue

/-- Recipes that are run once more, one after the other, end with the same stream.  A single recipe
finds nothing to change in its own result, and says so. -/
theorem runAll_idempotent (recipes : List ChangeValue) (stream : Stream) :
    runAll recipes (runAll recipes stream) = runAll recipes stream ∧
      ∀ recipe : ChangeValue, recipe.changes (recipe.run stream) = false ∧
        recipe.run (recipe.run stream) = recipe.run stream := by
  refine ⟨runAll_runAll recipes stream, fun recipe => ?_⟩
  have hchanges := recipe.changes_run stream
  exact ⟨hchanges, ChangeValue.run_eq_self hchanges⟩

/-! ## Two recipes that change places -/

/-- Whether the position is that of a mapping entry. -/
def Cursor.isEntry : Cursor → Bool
  | .entry _ :: _ => true
  | _ => false

theorem visitEntries_eq_flatMap (cursor : Cursor) (entries : List (Entry Block)) :
    visitEntries cursor entries = entries.flatMap fun entry =>
      let position := .entry entry.key.text :: cursor
      position :: entry.value.visits position := by
  induction entries with
  | nil => rw [visitEntries]; rfl
  | cons entry entries ih => rw [visitEntries, ih, List.flatMap_cons]

theorem visitItems_eq_flatMap (cursor : Cursor) (length index : Nat) (items : List (Item Block)) :
    visitItems cursor length index items = (items.zipIdx index).flatMap fun (item, number) =>
      let position := .item number length :: cursor
      position :: item.value.visits position := by
  induction items generalizing index with
  | nil => rw [visitItems]; rfl
  | cons item items ih => rw [visitItems, ih, List.zipIdx_cons, List.flatMap_cons]

namespace ChangeValue

variable {first second : ChangeValue}

/-- The recipes give the position the same value if both select it. -/
def AgreeAt (first second : ChangeValue) (cursor : Cursor) : Prop :=
  cursor.isEntry = true → first.path.selects cursor.steps = true →
    second.path.selects cursor.steps = true → first.options.value = second.options.value

theorem settle_comm {address : List Step} {value : Block}
    (hagree : first.path.selects address = true → second.path.selects address = true →
      first.options.value = second.options.value)
    (hbelow : first.descendBlock address (second.descendBlock address value) =
      second.descendBlock address (first.descendBlock address value)) :
    first.settle address (second.settle address value) =
      second.settle address (first.settle address value) := by
  -- A recipe that selects the entry alone ends what the other one did, or might do, below it.
  have halone : ∀ {one other : ChangeValue}, one.path.selects address = true →
      ¬ other.path.selects address = true →
      one.settle address (other.settle address value) =
        other.settle address (one.settle address value) := by
    intro one other hone hother
    rw [settle_of_not_selected hother, settle_of_not_selected hother,
      settle_descendBlock one other hone, descendBlock_leaf (isLeaf_settle hone)]
  by_cases hfirst : first.path.selects address = true
  · by_cases hsecond : second.path.selects address = true
    · have hvalue := hagree hfirst hsecond
      have hsame : ∀ value, first.settle address value = second.settle address value := by
        intro value
        cases value <;> simp [settle, isNew, newValue, hfirst, hsecond, hvalue]
      rw [hsame, hsame]
    · exact halone hfirst hsecond
  · by_cases hsecond : second.path.selects address = true
    · exact (halone hsecond hfirst).symm
    · simpa only [settle_of_not_selected hfirst, settle_of_not_selected hsecond] using hbelow

theorem descendBlock_comm (block : Block) (cursor : Cursor)
    (h : ∀ position ∈ block.visits cursor, AgreeAt first second position) :
    first.descendBlock cursor.steps (second.descendBlock cursor.steps block) =
      second.descendBlock cursor.steps (first.descendBlock cursor.steps block) := by
  induction block using Block.induction generalizing cursor with
  | scalar s => simp only [descendBlock]
  | aliasNode a => simp only [descendBlock]
  | mapping m ih =>
      have hbelow : ∀ entry ∈ m.entries, ∀ position,
          position = .entry entry.key.text :: .mapping :: cursor ∨
            position ∈ entry.value.visits (.entry entry.key.text :: .mapping :: cursor) →
          AgreeAt first second position := by
        intro entry hentry position hposition
        apply h
        rw [Block.visits, visitEntries_eq_flatMap]
        refine List.mem_cons_of_mem _ (List.mem_flatMap.mpr ⟨entry, hentry, ?_⟩)
        exact List.mem_cons.mpr hposition
      simp only [descendBlock_mapping, List.map_map]
      congr 2
      refine List.map_congr_left fun entry hentry => ?_
      have hcomm := ih entry hentry (.entry entry.key.text :: .mapping :: cursor)
        fun position hposition => hbelow entry hentry position (.inr hposition)
      have hagree := hbelow entry hentry _ (.inl rfl) rfl
      simp only [Cursor.steps_entry, Cursor.steps_mapping] at hcomm hagree
      simp only [Function.comp_apply, settle_comm hagree hcomm]
  | sequence q ih =>
      have hbelow : ∀ index (hindex : index < q.items.length), ∀ position ∈
          (q.items[index]).value.visits (.item index q.items.length :: .sequence :: cursor),
          AgreeAt first second position := by
        intro index hindex position hposition
        apply h
        rw [Block.visits, visitItems_eq_flatMap]
        refine List.mem_cons_of_mem _ (List.mem_flatMap.mpr ⟨(q.items[index], index), ?_, ?_⟩)
        · exact List.mem_zipIdx_iff_getElem?.mpr (List.getElem?_eq_getElem hindex)
        · exact List.mem_cons_of_mem _ hposition
      simp only [descendBlock_sequence, List.mapIdx_mapIdx, List.length_mapIdx]
      congr 2
      refine List.mapIdx_eq_mapIdx_iff.2 fun index hindex => ?_
      have hcomm := ih _ (List.getElem_mem hindex)
        (.item index q.items.length :: .sequence :: cursor) (hbelow index hindex)
      simp only [Cursor.steps_item, Cursor.steps_sequence] at hcomm
      simp only [Function.comp_apply, hcomm]

end ChangeValue

/-- Two recipes may change places if no entry of the stream is selected by both, one of them
selecting an entry above that of the other as it may, or if their values are the same. -/
theorem runAll_swap {first second : ChangeValue} {stream : Stream}
    (h : (∀ cursor ∈ stream.visits, cursor.isEntry = true →
        ¬ (first.path.selects cursor.steps = true ∧ second.path.selects cursor.steps = true)) ∨
      first.options.value = second.options.value) :
    runAll [first, second] stream = runAll [second, first] stream := by
  have hagree : ∀ cursor ∈ stream.visits, ChangeValue.AgreeAt first second cursor := by
    intro cursor hcursor hentry hfirst hsecond
    rcases h with hdisjoint | hvalue
    · exact absurd ⟨hfirst, hsecond⟩ (hdisjoint cursor hcursor hentry)
    · exact hvalue
  rw [runAll_eq, runAll_eq]
  congr 1
  refine List.map_congr_left fun document hdocument => ?_
  have hcomm := ChangeValue.descendBlock_comm document.root [.document, .stream]
    fun position hposition => by
      refine hagree position (List.mem_cons_of_mem _ ?_)
      exact List.mem_flatMap.mpr ⟨document, hdocument, List.mem_cons_of_mem _ hposition⟩
  show { document with root := second.descendBlock [] (first.descendBlock [] document.root) } =
    { document with root := first.descendBlock [] (second.descendBlock [] document.root) }
  rw [Cursor.steps_root] at hcomm
  rw [hcomm]

/-- The stream `a:\n- b: 1\nb: 2\n`, in which an entry `b` lies below an entry `a`. -/
def nestedEntries : Stream :=
  let number (text : Text) (lead : Text) : Entry Block :=
    { lead, key := { lead := [], text := ['b'] }, beforeColon := [],
      value := .scalar { lead := [' '], text } }
  let first : Item Block :=
    { lead := [], dash := true, value := .mapping { lead := [' '], entries := [number ['1'] []] } }
  { documents := [{
      lead := [], explicit := false, ending := { lead := ['\n'] }
      root := .mapping { lead := [], entries := [
        { lead := [], key := { lead := [], text := ['a'] }, beforeColon := [],
          value := .sequence { lead := ['\n'], indentless := true, items := [first] } },
        number ['2'] ['\n']] } }] }

/-- One recipe selects an entry inside of the value that the other one replaces, and an entry beside
it. -/
theorem runAll_swap_nestedEntries :
    ∃ inner outer,
      ChangeValue.build ⟨"b".toList, "x".toList⟩ = .ok inner ∧
      ChangeValue.build ⟨"/a".toList, "y".toList⟩ = .ok outer ∧
      nestedEntries.print = "a:\n- b: 1\nb: 2\n".toList ∧
      runAll [inner, outer] nestedEntries = runAll [outer, inner] nestedEntries ∧
      (runAll [inner, outer] nestedEntries).print = "a:\n  y\nb: x\n".toList :=
  ⟨⟨⟨"b".toList, "x".toList⟩, ⟨false, [.child "b".toList]⟩⟩,
    ⟨⟨"/a".toList, "y".toList⟩, ⟨true, [.child "a".toList]⟩⟩,
    by decide +kernel, by decide +kernel, by decide +kernel,
    runAll_swap (.inl (by decide +kernel)), by decide +kernel⟩

end LosslessYaml
