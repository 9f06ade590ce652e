import LosslessYaml.Proofs.Recipe.TopDown
import Mathlib.Data.List.Forall2

/-!
# What a change of values shares with the tree before it

The result of a run has most of its nodes in common with the stream that the recipe was run on.
`Edit.touched` lists the others by the numbers that lead to them: nodes that were replaced, and
nodes that were rebuilt because something below them was replaced.  This file says which nodes these
are, from the tree and the path alone.

A value differs if it belongs to an entry that the path selects and is not the new value already.
The outermost differing values are replaced, the nodes above them are rebuilt, and every other node
of the result is shared.  `Edits.cases` says once what a recipe does to a single node; the rest is
induction on the numbers that lead from a node to one below it.

Main statement: `ChangeValue.sharesExactly`.
-/

namespace LosslessYaml

/-! ## Nodes by their numbers -/

/-- A node, with its address from the root of its document. -/
structure Site where
  address : List Step
  node : Block

namespace Site

/-- The values right below a node, in order. -/
def below (site : Site) : List Site :=
  match site.node with
  | .scalar _ => []
  | .aliasNode _ => []
  | .mapping m => m.entries.map fun entry => ⟨site.address ++ [.key entry.key.text], entry.value⟩
  | .sequence q => q.items.mapIdx fun index item =>
      ⟨site.address ++ [.item index q.items.length], item.value⟩

/-- The node that the numbers of entries and items lead to. -/
def find? (site : Site) : List Nat → Option Site
  | [] => some site
  | number :: numbers => site.below[number]?.bind fun next => next.find? numbers

/-- Whether the node is the value of a mapping entry. -/
def isEntryValue (site : Site) : Bool :=
  match site.address.getLast? with
  | some (.key _) => true
  | _ => false

/-- The node after an edit, at the same address. -/
def after (site : Site) (edit : Edit) : Site := ⟨site.address, edit.apply site.node⟩

theorem find?_append (site : Site) (first second : List Nat) :
    site.find? (first ++ second) = (site.find? first).bind fun next => next.find? second := by
  induction first generalizing site with
  | nil => rfl
  | cons number first ih =>
      simp only [List.cons_append, find?, Option.bind_assoc]
      congr 1
      funext next
      exact ih next

end Site

namespace Stream

/-- The roots of the documents. -/
def roots (stream : Stream) : List Site := stream.documents.map fun document => ⟨[], document.root⟩

/-- The node that the numbers lead to: the number of its document, and the numbers of the entries
and items from the root of the document on. -/
def find? (stream : Stream) : List Nat → Option Site
  | [] => none
  | number :: numbers => stream.roots[number]?.bind fun root => root.find? numbers

end Stream

/-- What a node holds itself: the node with nothing in place of the values right below it. -/
def Block.frame : Block → Block
  | .mapping m =>
    .mapping { m with entries := m.entries.map fun entry => { entry with value := .empty } }
  | .sequence q =>
    .sequence { q with items := q.items.map fun item => { item with value := .empty } }
  | leaf => leaf

/-- A document without its root. -/
def Document.frame (document : Document) : Document := { document with root := .empty }

/-! ## What an edit does, node by node -/

namespace Edit

/-- What an edit does to the node that the numbers lead to, if it does not keep it. -/
def fate? (edit : Edit) : List Nat → Option Touch
  | [] =>
    match edit with
    | .kept => none
    | .replaced _ => some .replaced
    | .rebuilt _ => some .rebuilt
  | number :: numbers =>
    match edit with
    | .rebuilt children => children[number]?.bind fun child => child.fate? numbers
    | _ => none

@[simp] theorem fate?_kept (numbers : List Nat) : fate? .kept numbers = none := by
  cases numbers <;> rfl

mutual

theorem mem_touched (place base : List Nat) (touch : Touch) :
    ∀ edit : Edit, (place, touch) ∈ edit.touched base ↔
      ∃ numbers, place = base ++ numbers ∧ edit.fate? numbers = some touch
  | .kept => by simp [touched]
  | .replaced block => by
    constructor
    · intro hmem
      simp only [touched, List.mem_singleton, Prod.mk.injEq] at hmem
      exact ⟨[], by simp [hmem.1], by simp [fate?, hmem.2]⟩
    · rintro ⟨numbers, rfl, hfate⟩
      cases numbers with
      | nil => simpa [touched, fate?] using hfate.symm
      | cons => simp [fate?] at hfate
  | .rebuilt children => by
    rw [touched, List.mem_cons, mem_touchedFrom place base touch 0 children]
    constructor
    · rintro (hmem | ⟨number, numbers, rfl, hfate⟩)
      · simp only [Prod.mk.injEq] at hmem
        exact ⟨[], by simp [hmem.1], by simp [fate?, hmem.2]⟩
      · exact ⟨number :: numbers, by simp, hfate⟩
    · rintro ⟨numbers, rfl, hfate⟩
      cases numbers with
      | nil => exact .inl (by simpa [fate?] using hfate.symm)
      | cons number numbers => exact .inr ⟨number, numbers, by simp, hfate⟩

theorem mem_touchedFrom (place base : List Nat) (touch : Touch) (index : Nat) :
    ∀ edits : List Edit, (place, touch) ∈ touchedFrom base index edits ↔
      ∃ number numbers, place = base ++ (index + number) :: numbers ∧
        (edits[number]?.bind fun edit => edit.fate? numbers) = some touch
  | [] => by simp [touchedFrom]
  | edit :: edits => by
    rw [touchedFrom, List.mem_append, mem_touched place _ touch edit,
      mem_touchedFrom place base touch (index + 1) edits]
    constructor
    · rintro (⟨numbers, rfl, hfate⟩ | ⟨number, numbers, rfl, hfate⟩)
      · exact ⟨0, numbers, by simp, hfate⟩
      · exact ⟨number + 1, numbers, by simp; omega, hfate⟩
    · rintro ⟨number, numbers, rfl, hfate⟩
      cases number with
      | zero => exact .inl ⟨numbers, by simp, hfate⟩
      | succ number => exact .inr ⟨number, numbers, by simp; omega, hfate⟩

end

/-- Below a collection, what happens is up to the edits of its values, whether it is rebuilt for
them or kept. -/
theorem fate?_ofChildren (children : List Edit) (number : Nat) (numbers : List Nat) :
    (ofChildren children).fate? (number :: numbers) =
      children[number]?.bind fun child => child.fate? numbers := by
  unfold ofChildren
  split
  next hkept =>
    cases hchild : children[number]? with
    | none => rfl
    | some child =>
        have hisKept := List.all_eq_true.mp hkept child (List.mem_of_getElem? hchild)
        rw [isKept_iff.mp hisKept]
        simp
  next => rfl

/-! ### Rebuilt nodes -/

theorem map_applyEntries {α : Type} (f : Entry Block → α)
    (hf : ∀ (entry : Entry Block) (value : Block), f { entry with value } = f entry)
    (children : List Edit) (entries : List (Entry Block)) :
    (applyEntries children entries).map f = entries.map f := by
  induction children generalizing entries with
  | nil => rw [applyEntries]; simp
  | cons edit children ih =>
      cases entries with
      | nil => rw [applyEntries]; simp
      | cons entry entries =>
          rw [applyEntries, List.map_cons, List.map_cons, ih]
          exact congrArg (· :: _) (hf entry _)

theorem map_applyItems {α : Type} (f : Item Block → α)
    (hf : ∀ (item : Item Block) (value : Block), f { item with value } = f item)
    (children : List Edit) (items : List (Item Block)) :
    (applyItems children items).map f = items.map f := by
  induction children generalizing items with
  | nil => rw [applyItems]; simp
  | cons edit children ih =>
      cases items with
      | nil => rw [applyItems]; simp
      | cons item items =>
          rw [applyItems, List.map_cons, List.map_cons, ih]
          exact congrArg (· :: _) (hf item _)

theorem length_applyItems (children : List Edit) (items : List (Item Block)) :
    (applyItems children items).length = items.length := by
  simpa using congrArg List.length (map_applyItems (fun _ => ()) (fun _ _ => rfl) children items)

theorem frame_apply_rebuilt (children : List Edit) (node : Block) :
    (apply (.rebuilt children) node).frame = node.frame := by
  cases node with
  | scalar | aliasNode => simp [apply]
  | mapping m =>
      rw [apply]
      simp only [Block.frame]
      rw [map_applyEntries _ (fun _ _ => rfl)]
  | sequence q =>
      rw [apply]
      simp only [Block.frame]
      rw [map_applyItems _ (fun _ _ => rfl)]

end Edit

namespace Site

private theorem map_applyEntries_after (address : List Step) (children : List Edit)
    (entries : List (Entry Block)) (hlength : entries.length = children.length) :
    (Edit.applyEntries children entries).map
        (fun entry => Site.mk (address ++ [.key entry.key.text]) entry.value) =
      List.zipWith after
        (entries.map fun entry => ⟨address ++ [.key entry.key.text], entry.value⟩) children := by
  induction children generalizing entries with
  | nil =>
      rw [List.eq_nil_of_length_eq_zero hlength, Edit.applyEntries]
      · rfl
      · simp
  | cons child children ih =>
      cases entries with
      | nil => simp at hlength
      | cons entry entries =>
          rw [Edit.applyEntries, List.map_cons, ih entries (by simpa using hlength)]
          rfl

private theorem mapIdx_applyItems_after (address : Nat → List Step) (children : List Edit)
    (items : List (Item Block)) (hlength : items.length = children.length) :
    (Edit.applyItems children items).mapIdx
        (fun index item => Site.mk (address index) item.value) =
      List.zipWith after (items.mapIdx fun index item => ⟨address index, item.value⟩)
        children := by
  induction children generalizing items address with
  | nil =>
      rw [List.eq_nil_of_length_eq_zero hlength, Edit.applyItems]
      · rfl
      · simp
  | cons child children ih =>
      cases items with
      | nil => simp at hlength
      | cons item items =>
          rw [Edit.applyItems, List.mapIdx_cons, List.mapIdx_cons, List.zipWith_cons_cons,
            ih (fun index => address (index + 1)) items (by simpa using hlength)]
          rfl

/-- The nodes below an edited collection are the edited nodes below it, at their old addresses. -/
theorem below_after_ofChildren {site : Site} {children : List Edit}
    (hlength : site.below.length = children.length) :
    (site.after (.ofChildren children)).below = List.zipWith after site.below children := by
  obtain ⟨address, node⟩ := site
  cases node with
  | scalar | aliasNode =>
      simp only [below, List.length_nil] at hlength
      rw [List.eq_nil_of_length_eq_zero hlength.symm]
      rfl
  | mapping m =>
      obtain ⟨lead, markers, anchor, layout, entries⟩ := m
      simp only [below, List.length_map] at hlength
      simp only [after, Edit.apply_ofChildren_mapping, below]
      exact map_applyEntries_after address children entries hlength
  | sequence q =>
      obtain ⟨lead, markers, anchor, layout, indentless, items⟩ := q
      simp only [below, List.length_mapIdx] at hlength
      simp only [after, Edit.apply_ofChildren_sequence, below, Edit.length_applyItems]
      exact mapIdx_applyItems_after (fun index => address ++ [.item index items.length])
        children items hlength

end Site

namespace ChangeValue

variable {recipe : ChangeValue}

/-! ## What a recipe does to a node -/

/-- Whether the node is the value of an entry that the path selects, and not the new value. -/
def differs (recipe : ChangeValue) (site : Site) : Bool :=
  site.isEntryValue && recipe.path.selects site.address && !recipe.isNew site.node

/-- The edit of a node by a recipe: that of the entry which owns the node, and else that of the
node itself.  Only the address of the cursor matters. -/
def Edits (recipe : ChangeValue) (site : Site) (edit : Edit) : Prop :=
  ∃ cursor : Cursor, cursor.steps = site.address ∧
    edit = if recipe.differs site then .replaced (recipe.newValue site.node)
      else recipe.visitor.editBlock cursor site.node

private theorem differs_entry (recipe : ChangeValue) (address : List Step) (key : Text)
    (value : Block) :
    recipe.differs ⟨address ++ [.key key], value⟩ =
      (recipe.path.selects (address ++ [.key key]) && !recipe.isNew value) := by
  simp [differs, Site.isEntryValue]

private theorem differs_item (recipe : ChangeValue) (address : List Step) (index length : Nat)
    (value : Block) : recipe.differs ⟨address ++ [.item index length], value⟩ = false := by
  simp [differs, Site.isEntryValue]

private theorem editEntries_edits (recipe : ChangeValue) (cursor : Cursor)
    (entries : List (Entry Block)) :
    List.Forall₂ recipe.Edits
      (entries.map fun entry => ⟨cursor.steps ++ [.key entry.key.text], entry.value⟩)
      (recipe.visitor.editEntries cursor entries) := by
  induction entries with
  | nil =>
      rw [Visitor.editEntries]
      exact .nil
  | cons entry entries ih =>
      obtain ⟨lead, markers, key, beforeColon, value, comma⟩ := entry
      have hdecided : recipe.visitor.value (.entry key.text :: cursor)
          ⟨lead, markers, key, beforeColon, value, comma⟩ =
          if recipe.differs ⟨cursor.steps ++ [.key key.text], value⟩ then
            some (recipe.newValue value) else none := by
        simp [visitor, differs_entry]
      rw [Visitor.editEntries, hdecided]
      refine .cons ⟨.entry key.text :: cursor, Cursor.steps_entry _ _, ?_⟩ ih
      dsimp only
      split <;> rfl

private theorem editItems_edits (recipe : ChangeValue) (cursor : Cursor) (length index : Nat)
    (items : List (Item Block)) :
    List.Forall₂ recipe.Edits
      (items.mapIdx fun offset item =>
        ⟨cursor.steps ++ [.item (offset + index) length], item.value⟩)
      (recipe.visitor.editItems cursor length index items) := by
  induction items generalizing index with
  | nil =>
      rw [Visitor.editItems]
      exact .nil
  | cons item items ih =>
      rw [Visitor.editItems, List.mapIdx_cons, Nat.zero_add]
      refine .cons ⟨.item index length :: cursor, Cursor.steps_item _ _ _, ?_⟩ ?_
      · rw [differs_item]
        rfl
      · simpa only [Nat.add_assoc, Nat.add_comm 1 index] using ih (index + 1)

/-- A recipe replaces a node that differs, and edits the values below any other. -/
theorem Edits.cases {site : Site} {edit : Edit} (h : recipe.Edits site edit) :
    (recipe.differs site = true ∧ edit = .replaced (recipe.newValue site.node)) ∨
    (recipe.differs site = false ∧
      ∃ children, edit = .ofChildren children ∧ List.Forall₂ recipe.Edits site.below children) := by
  obtain ⟨cursor, hsteps, rfl⟩ := h
  cases hdiffers : recipe.differs site with
  | true => exact .inl ⟨rfl, rfl⟩
  | false =>
      refine .inr ⟨rfl, ?_⟩
      obtain ⟨address, node⟩ := site
      subst hsteps
      cases node with
      | scalar s => exact ⟨[], by simp [Visitor.editBlock, visitor, Edit.ofChildren], .nil⟩
      | aliasNode a => exact ⟨[], by simp [Visitor.editBlock, visitor, Edit.ofChildren], .nil⟩
      | mapping m =>
          exact ⟨_, by rw [Visitor.editBlock]; rfl,
            editEntries_edits recipe (.mapping :: cursor) m.entries⟩
      | sequence q =>
          exact ⟨_, by rw [Visitor.editBlock]; rfl,
            editItems_edits recipe (.sequence :: cursor) q.items.length 0 q.items⟩

/-! ## Where something differs -/

/-- The numbers lead to a value that differs. -/
def DiffersAt (recipe : ChangeValue) (find? : List Nat → Option Site) (numbers : List Nat) : Prop :=
  ∃ site, find? numbers = some site ∧ recipe.differs site = true

/-- The numbers lead to a value that differs, and to none on the way. -/
def OutermostAt (recipe : ChangeValue) (find? : List Nat → Option Site)
    (numbers : List Nat) : Prop :=
  recipe.DiffersAt find? numbers ∧
    ∀ above, above <+: numbers → above ≠ numbers → ¬ recipe.DiffersAt find? above

/-- The numbers lead towards an outermost value that differs, and do not reach it. -/
def AboveOutermost (recipe : ChangeValue) (find? : List Nat → Option Site)
    (numbers : List Nat) : Prop :=
  ∃ deeper, recipe.OutermostAt find? deeper ∧ numbers <+: deeper ∧ numbers ≠ deeper

/-- What is due at the node that the numbers lead to. -/
def Due (recipe : ChangeValue) (find? : List Nat → Option Site) (numbers : List Nat) :
    Edit.Touch → Prop
  | .replaced => recipe.OutermostAt find? numbers
  | .rebuilt => recipe.AboveOutermost find? numbers

/-- On the way to a differing value there is an outermost one. -/
theorem DiffersAt.exists_outermost {find? : List Nat → Option Site} {numbers : List Nat}
    (h : recipe.DiffersAt find? numbers) :
    ∃ above, above <+: numbers ∧ recipe.OutermostAt find? above := by
  induction hlength : numbers.length using Nat.strongRecOn generalizing numbers with
  | ind length ih =>
      by_cases hfirst : ∀ above, above <+: numbers → above ≠ numbers →
          ¬ recipe.DiffersAt find? above
      · exact ⟨numbers, List.prefix_rfl, h, hfirst⟩
      · push Not at hfirst
        obtain ⟨above, hprefix, hne, habove⟩ := hfirst
        have hshorter : above.length < numbers.length := by
          refine Nat.lt_of_le_of_ne hprefix.length_le fun heq => hne ?_
          exact hprefix.eq_of_length heq
        obtain ⟨top, htop, houtermost⟩ := ih above.length (hlength ▸ hshorter) habove rfl
        exact ⟨top, htop.trans hprefix, houtermost⟩

theorem differsAt_nil {site : Site} :
    recipe.DiffersAt site.find? [] ↔ recipe.differs site = true := by
  simp [DiffersAt, Site.find?]

theorem outermostAt_nil {site : Site} :
    recipe.OutermostAt site.find? [] ↔ recipe.differs site = true := by
  rw [OutermostAt, differsAt_nil]
  refine and_iff_left fun above hprefix hne => ?_
  exact absurd (List.prefix_nil.mp hprefix) hne

/-- Below a differing value no other one is outermost. -/
theorem OutermostAt.eq_nil {site : Site} {numbers : List Nat}
    (h : recipe.OutermostAt site.find? numbers) (hdiffers : recipe.differs site = true) :
    numbers = [] := by
  by_contra hne
  exact h.2 [] List.nil_prefix (Ne.symm hne) (differsAt_nil.mpr hdiffers)

/-! ### One number further

The first number leads to one of some nodes: to the root of a document, or to a value right below a
collection.  What follows is the same for both. -/

section Descent

variable {find? : List Nat → Option Site} {roots : List Site}
  (hfind : ∀ number numbers, find? (number :: numbers) =
    roots[number]?.bind fun root => root.find? numbers)
include hfind

theorem differsAt_cons (number : Nat) (numbers : List Nat) :
    recipe.DiffersAt find? (number :: numbers) ↔
      ∃ root, roots[number]? = some root ∧ recipe.DiffersAt root.find? numbers := by
  simp only [DiffersAt, hfind, Option.bind_eq_some_iff]
  grind

variable (hnil : ¬ recipe.DiffersAt find? [])
include hnil

private theorem outermostAt_cons (number : Nat) (numbers : List Nat) :
    recipe.OutermostAt find? (number :: numbers) ↔
      ∃ root, roots[number]? = some root ∧ recipe.OutermostAt root.find? numbers := by
  constructor
  · rintro ⟨hdiffers, hfirst⟩
    obtain ⟨root, hroot, hbelow⟩ := (differsAt_cons hfind number numbers).mp hdiffers
    refine ⟨root, hroot, hbelow, fun above hprefix hne habove => ?_⟩
    refine hfirst (number :: above) (by simpa using hprefix) (by simpa using hne) ?_
    exact (differsAt_cons hfind number above).mpr ⟨root, hroot, habove⟩
  · rintro ⟨root, hroot, hdiffers, hfirst⟩
    refine ⟨(differsAt_cons hfind number numbers).mpr ⟨root, hroot, hdiffers⟩, ?_⟩
    intro above hprefix hne habove
    cases above with
    | nil => exact hnil habove
    | cons first above =>
        obtain ⟨rfl, hshorter⟩ := List.cons_prefix_cons.mp hprefix
        obtain ⟨other, hother, hbelow⟩ := (differsAt_cons hfind first above).mp habove
        obtain rfl : root = other := by simpa [hroot] using hother
        exact hfirst above hshorter (by simpa using hne) hbelow

private theorem due_cons (number : Nat) (numbers : List Nat) (touch : Edit.Touch) :
    recipe.Due find? (number :: numbers) touch ↔
      ∃ root, roots[number]? = some root ∧ recipe.Due root.find? numbers touch := by
  cases touch with
  | replaced => exact outermostAt_cons hfind hnil number numbers
  | rebuilt =>
      constructor
      · rintro ⟨deeper, hdeeper, hprefix, hne⟩
        obtain ⟨rest, rfl⟩ := hprefix
        obtain ⟨root, hroot, hbelow⟩ := (outermostAt_cons hfind hnil _ _).mp hdeeper
        exact ⟨root, hroot, _, hbelow, List.prefix_append _ _, by simpa using hne⟩
      · rintro ⟨root, hroot, deeper, hdeeper, hprefix, hne⟩
        exact ⟨number :: deeper, (outermostAt_cons hfind hnil _ _).mpr ⟨root, hroot, hdeeper⟩,
          by simpa using hprefix, by simpa using hne⟩

end Descent

/-! ## What becomes of each node -/

private theorem getElem?_of_forall₂ {α β : Type} {R : α → β → Prop} {xs : List α} {ys : List β}
    (h : List.Forall₂ R xs ys) (n : Nat) :
    (xs[n]? = none ∧ ys[n]? = none) ∨ ∃ x y, xs[n]? = some x ∧ ys[n]? = some y ∧ R x y := by
  induction h generalizing n with
  | nil => exact .inl ⟨rfl, rfl⟩
  | cons hxy _ ih =>
      cases n with
      | zero => exact .inr ⟨_, _, rfl, rfl, hxy⟩
      | succ n => exact ih n

/-- If the right thing happens at the numbers below every root, then so it does from the roots. -/
private theorem bind_fate?_iff {find? : List Nat → Option Site} {roots : List Site}
    {edits : List Edit}
    (hfind : ∀ number numbers, find? (number :: numbers) =
      roots[number]?.bind fun root => root.find? numbers)
    (hnil : ¬ recipe.DiffersAt find? []) (hedits : List.Forall₂ recipe.Edits roots edits)
    (touch : Edit.Touch) {numbers : List Nat}
    (hbelow : ∀ {site edit}, recipe.Edits site edit →
      (edit.fate? numbers = some touch ↔ recipe.Due site.find? numbers touch)) (number : Nat) :
    (edits[number]?.bind fun edit => edit.fate? numbers) = some touch ↔
      recipe.Due find? (number :: numbers) touch := by
  rw [due_cons hfind hnil]
  rcases getElem?_of_forall₂ hedits number with ⟨hroot, hedit⟩ | ⟨root, edit, hroot, hedit, h⟩
  · simp [hroot, hedit]
  · simp [hroot, hedit, hbelow h]

namespace Edits

variable {site : Site} {edit : Edit}

theorem replaced_iff (h : recipe.Edits site edit) (numbers : List Nat) :
    edit.fate? numbers = some .replaced ↔ recipe.OutermostAt site.find? numbers := by
  induction numbers generalizing site edit with
  | nil =>
      rw [outermostAt_nil]
      rcases h.cases with ⟨hdiffers, rfl⟩ | ⟨hdiffers, children, rfl, -⟩
      · simp [Edit.fate?, hdiffers]
      · unfold Edit.ofChildren
        split <;> simp [Edit.fate?, hdiffers]
  | cons number numbers ih =>
      rcases h.cases with ⟨hdiffers, rfl⟩ | ⟨hdiffers, children, rfl, hchildren⟩
      · refine iff_of_false (by simp [Edit.fate?]) fun houtermost => ?_
        simpa using houtermost.eq_nil hdiffers
      · rw [Edit.fate?_ofChildren]
        refine bind_fate?_iff (fun _ _ => rfl) ?_ hchildren .replaced ih number
        simp [differsAt_nil, hdiffers]

/-- An edit that changes anything replaces something. -/
private theorem exists_replaced {site : Site} {edit : Edit} (h : recipe.Edits site edit)
    (hedit : edit ≠ .kept) : ∃ numbers, edit.fate? numbers = some .replaced := by
  rcases h.cases with ⟨-, rfl⟩ | ⟨-, children, rfl, hchildren⟩
  · exact ⟨[], rfl⟩
  · have hsome : ∃ child ∈ children, child ≠ .kept := by
      by_contra hnone
      push Not at hnone
      refine hedit (if_pos (List.all_eq_true.mpr fun child hchild => ?_))
      exact Edit.isKept_iff.mpr (hnone child hchild)
    obtain ⟨child, hchild, hne⟩ := hsome
    obtain ⟨number, hnumber⟩ := List.mem_iff_getElem?.mp hchild
    rcases getElem?_of_forall₂ hchildren number with ⟨-, hnone⟩ | ⟨next, other, -, hother, hnext⟩
    · simp [hnumber] at hnone
    · obtain rfl : child = other := by simpa [hnumber] using hother
      have hsmaller : sizeOf child < sizeOf (Edit.ofChildren children) := by
        unfold Edit.ofChildren at hedit ⊢
        split at hedit
        next => exact absurd rfl hedit
        next hkept =>
          have := List.sizeOf_lt_of_mem hchild
          rw [if_neg hkept, Edit.rebuilt.sizeOf_spec]
          omega
      obtain ⟨numbers, hfate⟩ := exists_replaced hnext hne
      exact ⟨number :: numbers, by rw [Edit.fate?_ofChildren, hnumber]; exact hfate⟩
termination_by sizeOf edit

/-- A node is kept, with all that lies below it, exactly if nothing at it or below it differs. -/
theorem eq_kept_iff (h : recipe.Edits site edit) :
    edit = .kept ↔ ∀ numbers, ¬ recipe.DiffersAt site.find? numbers := by
  constructor
  · rintro rfl numbers hdiffers
    obtain ⟨above, -, houtermost⟩ := hdiffers.exists_outermost
    simpa using (h.replaced_iff above).mpr houtermost
  · intro hnone
    by_contra hedit
    obtain ⟨numbers, hfate⟩ := h.exists_replaced hedit
    exact hnone numbers ((h.replaced_iff numbers).mp hfate).1

theorem rebuilt_iff (h : recipe.Edits site edit) (numbers : List Nat) :
    edit.fate? numbers = some .rebuilt ↔ recipe.AboveOutermost site.find? numbers := by
  induction numbers generalizing site edit with
  | nil =>
      have hkept := h.eq_kept_iff
      rcases h.cases with ⟨hdiffers, rfl⟩ | ⟨hdiffers, children, rfl, -⟩
      · refine iff_of_false (by simp [Edit.fate?]) ?_
        rintro ⟨deeper, houtermost, -, hne⟩
        exact hne (houtermost.eq_nil hdiffers).symm
      · have hfate : (Edit.ofChildren children).fate? [] = some .rebuilt ↔
            Edit.ofChildren children ≠ .kept := by
          unfold Edit.ofChildren
          split <;> simp [Edit.fate?]
        rw [hfate, ne_eq, hkept]
        push Not
        constructor
        · rintro ⟨numbers, hnumbers⟩
          obtain ⟨deeper, -, houtermost⟩ := hnumbers.exists_outermost
          refine ⟨deeper, houtermost, List.nil_prefix, ?_⟩
          rintro rfl
          simp [outermostAt_nil, hdiffers] at houtermost
        · rintro ⟨deeper, houtermost, -⟩
          exact ⟨deeper, houtermost.1⟩
  | cons number numbers ih =>
      rcases h.cases with ⟨hdiffers, rfl⟩ | ⟨hdiffers, children, rfl, hchildren⟩
      · refine iff_of_false (by simp [Edit.fate?]) ?_
        rintro ⟨deeper, houtermost, hprefix, -⟩
        rw [houtermost.eq_nil hdiffers] at hprefix
        simp at hprefix
      · rw [Edit.fate?_ofChildren]
        refine bind_fate?_iff (fun _ _ => rfl) ?_ hchildren .rebuilt ih number
        simp [differsAt_nil, hdiffers]

theorem fate?_eq_some_iff (h : recipe.Edits site edit) (numbers : List Nat)
    (touch : Edit.Touch) :
    edit.fate? numbers = some touch ↔ recipe.Due site.find? numbers touch := by
  cases touch with
  | replaced => exact h.replaced_iff numbers
  | rebuilt => exact h.rebuilt_iff numbers

end Edits

/-! ## The nodes of the result -/

/-- What a node of the result has of the node that was there before. -/
structure Succeeds (recipe : ChangeValue) (fate : Option Edit.Touch) (old new : Site) : Prop where
  address : new.address = old.address
  kept : fate = none → new = old
  replaced : fate = some .replaced → new.node = recipe.newValue old.node
  rebuilt : fate = some .rebuilt → new.node.frame = old.node.frame

namespace Edits

variable {site new : Site} {edit : Edit} {numbers : List Nat}

/-- A node that an edit replaces or rebuilds is a node of the result. -/
theorem exists_of_fate? (h : recipe.Edits site edit) {touch : Edit.Touch}
    (hfate : edit.fate? numbers = some touch) :
    ∃ new, (site.after edit).find? numbers = some new := by
  induction numbers generalizing site edit with
  | nil => exact ⟨_, rfl⟩
  | cons number numbers ih =>
      rcases h.cases with ⟨-, rfl⟩ | ⟨-, children, rfl, hchildren⟩
      · simp [Edit.fate?] at hfate
      · rw [Edit.fate?_ofChildren] at hfate
        rcases getElem?_of_forall₂ hchildren number with
          ⟨-, hnone⟩ | ⟨next, child, hnext, hchild, h⟩
        · simp [hnone] at hfate
        · rw [hchild] at hfate
          obtain ⟨new, hnew⟩ := ih h hfate
          refine ⟨new, ?_⟩
          rw [Site.find?, Site.below_after_ofChildren hchildren.length_eq,
            List.getElem?_zipWith, hnext, hchild]
          exact hnew

/-- Every node of the result was there before. -/
theorem succeeds (h : recipe.Edits site edit)
    (hnew : (site.after edit).find? numbers = some new) :
    ∃ old, site.find? numbers = some old ∧ recipe.Succeeds (edit.fate? numbers) old new := by
  induction numbers generalizing site edit with
  | nil =>
      obtain rfl : site.after edit = new := by simpa [Site.find?] using hnew
      refine ⟨site, rfl, rfl, ?_, ?_, ?_⟩
      · intro hfate
        cases edit with
        | kept => simp [Site.after, Edit.apply]
        | replaced | rebuilt => simp [Edit.fate?] at hfate
      · intro hfate
        rcases h.cases with ⟨-, rfl⟩ | ⟨hdiffers, -⟩
        · simp [Site.after, Edit.apply]
        · simp [h.replaced_iff, outermostAt_nil, hdiffers] at hfate
      · intro hfate
        cases edit with
        | rebuilt children => exact Edit.frame_apply_rebuilt children site.node
        | kept | replaced => simp [Edit.fate?] at hfate
  | cons number numbers ih =>
      rcases h.cases with ⟨-, rfl⟩ | ⟨-, children, rfl, hchildren⟩
      · -- a new value is a scalar, so no number leads further
        simp [Site.find?, Site.after, Edit.apply, newValue, Site.below] at hnew
      · rw [Site.find?, Site.below_after_ofChildren hchildren.length_eq,
          List.getElem?_zipWith] at hnew
        rcases getElem?_of_forall₂ hchildren number with
          ⟨hnext, -⟩ | ⟨next, child, hnext, hchild, h⟩
        · simp [hnext] at hnew
        · rw [hnext, hchild] at hnew
          obtain ⟨old, hold, hsucceeds⟩ := ih h hnew
          refine ⟨old, by rw [Site.find?, hnext]; exact hold, ?_⟩
          rw [Edit.fate?_ofChildren, hchild]
          exact hsucceeds

/-- There is nothing below a replaced node. -/
private theorem outermost_is_leaf (h : recipe.Edits site edit) {number : Nat} {rest : List Nat}
    (houtermost : recipe.OutermostAt site.find? numbers) :
    (site.after edit).find? (numbers ++ number :: rest) = none := by
  rw [Site.find?_append]
  cases hmiddle : (site.after edit).find? numbers with
  | none => rfl
  | some middle =>
      obtain ⟨old, -, hsucceeds⟩ := h.succeeds hmiddle
      have hnode := hsucceeds.replaced ((h.replaced_iff numbers).mpr houtermost)
      simp [Site.find?, Site.below, hnode, newValue]

/-- A node of the result is kept exactly if nothing that differs owns it or lies below it. -/
theorem fate?_eq_none_iff (h : recipe.Edits site edit)
    (hnew : (site.after edit).find? numbers = some new) :
    edit.fate? numbers = none ↔
      ∀ deeper, numbers <+: deeper → ¬ recipe.DiffersAt site.find? deeper := by
  constructor
  · intro hkept deeper hprefix hdiffers
    obtain ⟨above, habove, houtermost⟩ := hdiffers.exists_outermost
    rcases List.prefix_or_prefix_of_prefix hprefix habove with hle | hle
    · by_cases heq : numbers = above
      · subst heq
        simp [(h.replaced_iff numbers).mpr houtermost] at hkept
      · simp [(h.rebuilt_iff numbers).mpr ⟨above, houtermost, hle, heq⟩] at hkept
    · -- a replaced node stands above this one, which would not be in the result
      obtain ⟨rest, rfl⟩ := hle
      cases rest with
      | nil => simp [(h.replaced_iff above).mpr houtermost] at hkept
      | cons number rest => simp [h.outermost_is_leaf houtermost] at hnew
  · intro hnone
    cases hfate : edit.fate? numbers with
    | none => rfl
    | some touch =>
        cases touch with
        | replaced =>
            exact absurd ((h.replaced_iff numbers).mp hfate).1 (hnone numbers List.prefix_rfl)
        | rebuilt =>
            obtain ⟨deeper, houtermost, hprefix, -⟩ := (h.rebuilt_iff numbers).mp hfate
            exact absurd houtermost.1 (hnone deeper hprefix)

end Edits

/-! ## Streams -/

variable {stream : Stream}

/-- The nodes that a run does not share with the stream that it is run on, and what happened to
each. -/
def touches (recipe : ChangeValue) (stream : Stream) : List (List Nat × Edit.Touch) :=
  Edit.touchedFrom [] 0 (recipe.edits stream)

/-- Whether the result of a run has the very node that the stream has. -/
def Shares (recipe : ChangeValue) (stream : Stream) (numbers : List Nat) : Prop :=
  ∀ touch, (numbers, touch) ∉ recipe.touches stream

theorem edits_roots (recipe : ChangeValue) (stream : Stream) :
    List.Forall₂ recipe.Edits stream.roots (recipe.edits stream) := by
  unfold Stream.roots edits Visitor.editStream
  rw [List.forall₂_map_left_iff, List.forall₂_map_right_iff, List.forall₂_same]
  exact fun document _ => ⟨[.document, .stream], rfl, rfl⟩

theorem roots_applyDocuments (edits : List Edit) (documents : List Document)
    (hlength : documents.length = edits.length) :
    (Stream.applyDocuments edits documents).map (fun document => Site.mk [] document.root) =
      List.zipWith Site.after (documents.map fun document => ⟨[], document.root⟩) edits := by
  induction edits generalizing documents with
  | nil =>
      rw [List.eq_nil_of_length_eq_zero hlength]
      rfl
  | cons edit edits ih =>
      cases documents with
      | nil => simp at hlength
      | cons document documents =>
          rw [Stream.applyDocuments, List.map_cons, ih documents (by simpa using hlength)]
          rfl

theorem roots_run (recipe : ChangeValue) (stream : Stream) :
    (recipe.run stream).roots = List.zipWith Site.after stream.roots (recipe.edits stream) := by
  refine roots_applyDocuments _ _ ?_
  simp [edits, Visitor.editStream]

theorem find?_run {number : Nat} {numbers : List Nat} {new : Site}
    (hnew : (recipe.run stream).find? (number :: numbers) = some new) :
    ∃ root edit, stream.roots[number]? = some root ∧
      (recipe.edits stream)[number]? = some edit ∧ recipe.Edits root edit ∧
      (root.after edit).find? numbers = some new := by
  rw [Stream.find?, roots_run, List.getElem?_zipWith] at hnew
  rcases getElem?_of_forall₂ (edits_roots recipe stream) number with
    ⟨hroot, -⟩ | ⟨root, edit, hroot, hedit, h⟩
  · simp [hroot] at hnew
  · exact ⟨root, edit, hroot, hedit, h, by simpa [hroot, hedit] using hnew⟩

theorem mem_touches_cons {number : Nat} {edit : Edit}
    (hedit : (recipe.edits stream)[number]? = some edit) (numbers : List Nat) (touch : Edit.Touch) :
    (number :: numbers, touch) ∈ recipe.touches stream ↔ edit.fate? numbers = some touch := by
  rw [touches, Edit.mem_touchedFrom]
  constructor
  · rintro ⟨first, rest, hcons, hfate⟩
    obtain ⟨rfl, rfl⟩ : number = first ∧ numbers = rest := by simpa using hcons
    simpa [hedit] using hfate
  · intro hfate
    exact ⟨number, numbers, by simp, by simpa [hedit] using hfate⟩

/-- Nodes are replaced and rebuilt exactly where that is due. -/
theorem mem_touches_iff (recipe : ChangeValue) (stream : Stream) (numbers : List Nat)
    (touch : Edit.Touch) :
    (numbers, touch) ∈ recipe.touches stream ↔
      numbers ≠ [] ∧ recipe.Due stream.find? numbers touch := by
  cases numbers with
  | nil => simp [touches, Edit.mem_touchedFrom]
  | cons number numbers =>
      have hnil : ¬ recipe.DiffersAt stream.find? [] := by simp [DiffersAt, Stream.find?]
      rw [← bind_fate?_iff (fun _ _ => rfl) hnil (edits_roots recipe stream) touch
        (fun h => h.fate?_eq_some_iff numbers touch) number, touches, Edit.mem_touchedFrom]
      simp

theorem shares_cons {number : Nat} {edit : Edit}
    (hedit : (recipe.edits stream)[number]? = some edit) (numbers : List Nat) :
    recipe.Shares stream (number :: numbers) ↔ edit.fate? numbers = none := by
  simp only [Shares, mem_touches_cons hedit]
  cases edit.fate? numbers <;> simp

theorem shares_iff {numbers : List Nat} {new : Site}
    (hnew : (recipe.run stream).find? numbers = some new) :
    recipe.Shares stream numbers ↔
      ∀ deeper, numbers <+: deeper → ¬ recipe.DiffersAt stream.find? deeper := by
  cases numbers with
  | nil => simp [Stream.find?] at hnew
  | cons number numbers =>
      obtain ⟨root, edit, hroot, hedit, h, hnew⟩ := find?_run hnew
      have hcons : ∀ numbers, recipe.DiffersAt stream.find? (number :: numbers) ↔
          recipe.DiffersAt root.find? numbers := by
        intro numbers
        rw [differsAt_cons (fun _ _ => rfl), hroot]
        simp
      rw [shares_cons hedit, h.fate?_eq_none_iff hnew]
      constructor
      · rintro hnone deeper ⟨rest, rfl⟩ hdiffers
        exact hnone _ (List.prefix_append _ _) ((hcons (numbers ++ rest)).mp hdiffers)
      · intro hnone deeper hprefix hdiffers
        exact hnone (number :: deeper) (by simpa using hprefix) ((hcons deeper).mpr hdiffers)

/-- Every node of the result was there before, and was kept, replaced or rebuilt. -/
theorem exists_old {numbers : List Nat} {new : Site}
    (hnew : (recipe.run stream).find? numbers = some new) :
    ∃ old, stream.find? numbers = some old ∧ new.address = old.address ∧
      (recipe.Shares stream numbers → new = old) ∧
      ((numbers, .replaced) ∈ recipe.touches stream → new.node = recipe.newValue old.node) ∧
      ((numbers, .rebuilt) ∈ recipe.touches stream → new.node.frame = old.node.frame) := by
  cases numbers with
  | nil => simp [Stream.find?] at hnew
  | cons number numbers =>
      obtain ⟨root, edit, hroot, hedit, h, hnew⟩ := find?_run hnew
      obtain ⟨old, hold, hsucceeds⟩ := h.succeeds hnew
      refine ⟨old, by rw [Stream.find?, hroot]; exact hold, hsucceeds.address, ?_, ?_, ?_⟩
      · exact fun hshares => hsucceeds.kept ((shares_cons hedit numbers).mp hshares)
      · exact fun hmem => hsucceeds.replaced ((mem_touches_cons hedit numbers _).mp hmem)
      · exact fun hmem => hsucceeds.rebuilt ((mem_touches_cons hedit numbers _).mp hmem)

theorem exists_new {numbers : List Nat} {touch : Edit.Touch}
    (hmem : (numbers, touch) ∈ recipe.touches stream) :
    ∃ new, (recipe.run stream).find? numbers = some new := by
  rw [touches, Edit.mem_touchedFrom] at hmem
  obtain ⟨number, numbers, rfl, hfate⟩ := hmem
  rcases getElem?_of_forall₂ (edits_roots recipe stream) number with
    ⟨-, hedit⟩ | ⟨root, edit, hroot, hedit, h⟩
  · simp [hedit] at hfate
  · rw [hedit] at hfate
    obtain ⟨new, hnew⟩ := h.exists_of_fate? hfate
    refine ⟨new, ?_⟩
    simpa [Stream.find?, roots_run, List.getElem?_zipWith, hroot, hedit] using hnew

theorem documents_run (recipe : ChangeValue) (stream : Stream) :
    (recipe.run stream).documents.map Document.frame = stream.documents.map Document.frame ∧
      (recipe.run stream).markers = stream.markers ∧
      (recipe.run stream).suffix = stream.suffix := by
  rw [run_eq]
  refine ⟨?_, rfl, rfl⟩
  simp only [descend, List.map_map]
  rfl

/-- A run changes nothing exactly if nothing differs. -/
theorem changes_eq_false_iff (recipe : ChangeValue) (stream : Stream) :
    recipe.changes stream = false ↔ ∀ numbers, ¬ recipe.DiffersAt stream.find? numbers := by
  have hkept : recipe.changes stream = false ↔
      ∀ (number : Nat) (edit : Edit), (recipe.edits stream)[number]? = some edit →
        edit = .kept := by
    simp only [changes, Edit.anyChange, List.any_eq_false, Bool.not_eq_true, Bool.not_eq_false',
      Edit.isKept_iff, List.mem_iff_getElem?]
    exact ⟨fun h number edit hedit => h edit ⟨number, hedit⟩,
      fun h edit ⟨number, hedit⟩ => h number edit hedit⟩
  rw [hkept]
  constructor
  · intro hall numbers hdiffers
    cases numbers with
    | nil => simp [DiffersAt, Stream.find?] at hdiffers
    | cons number numbers =>
        obtain ⟨root, hroot, hbelow⟩ := (differsAt_cons (fun _ _ => rfl) _ _).mp hdiffers
        rcases getElem?_of_forall₂ (edits_roots recipe stream) number with
          ⟨hnone, -⟩ | ⟨other, edit, hother, hedit, h⟩
        · simp [hroot] at hnone
        · obtain rfl : root = other := by simpa [hroot] using hother
          exact h.eq_kept_iff.mp (hall number edit hedit) numbers hbelow
  · intro hnone number edit hedit
    rcases getElem?_of_forall₂ (edits_roots recipe stream) number with
      ⟨-, hno⟩ | ⟨root, other, hroot, hother, h⟩
    · simp [hedit] at hno
    · obtain rfl : edit = other := by simpa [hedit] using hother
      refine h.eq_kept_iff.mpr fun numbers hdiffers => hnone (number :: numbers) ?_
      exact (differsAt_cons (fun _ _ => rfl) _ _).mpr ⟨root, hroot, hdiffers⟩

/-- A run that changes nothing gives the stream back. -/
theorem run_eq_self (h : recipe.changes stream = false) : recipe.run stream = stream := by
  have hkept : (recipe.edits stream).all Edit.isKept = true := by
    simpa [changes, Edit.anyChange] using h
  rw [run, Stream.apply, Stream.applyDocuments_kept hkept]

/-! ## Exact sharing -/

/-- What a run shares with the stream that it is run on, node by node. -/
structure SharesExactly (recipe : ChangeValue) (stream : Stream) : Prop where
  /-- A node of the result is that of the stream exactly if no entry with a differing value owns
  it or lies below it. -/
  shared : ∀ {numbers new}, (recipe.run stream).find? numbers = some new →
    (recipe.Shares stream numbers ↔
      ∀ deeper, numbers <+: deeper → ¬ recipe.DiffersAt stream.find? deeper)
  /-- The nodes with a new identity are the values of the outermost such entries. -/
  replaced : ∀ numbers, (numbers, .replaced) ∈ recipe.touches stream ↔
    recipe.OutermostAt stream.find? numbers
  /-- The nodes above these values are rebuilt, and no others. -/
  rebuilt : ∀ numbers, (numbers, .rebuilt) ∈ recipe.touches stream ↔
    numbers ≠ [] ∧ recipe.AboveOutermost stream.find? numbers
  /-- Every node of the result was there before, at the same address.  A shared one is the same, a
  replaced one has become the new value, and a rebuilt one holds all that it held itself. -/
  nodes : ∀ {numbers new}, (recipe.run stream).find? numbers = some new →
    ∃ old, stream.find? numbers = some old ∧ new.address = old.address ∧
      (recipe.Shares stream numbers → new = old) ∧
      ((numbers, .replaced) ∈ recipe.touches stream → new.node = recipe.newValue old.node) ∧
      ((numbers, .rebuilt) ∈ recipe.touches stream → new.node.frame = old.node.frame)
  /-- The nodes that are not shared are nodes of the result. -/
  present : ∀ {numbers touch}, (numbers, touch) ∈ recipe.touches stream →
    ∃ new, (recipe.run stream).find? numbers = some new
  /-- The documents and the stream hold what they held. -/
  documents : (recipe.run stream).documents.map Document.frame =
    stream.documents.map Document.frame ∧
    (recipe.run stream).markers = stream.markers ∧ (recipe.run stream).suffix = stream.suffix
  /-- The whole stream is shared exactly if no selected entry has a differing value. -/
  unchanged : recipe.changes stream = false ↔ ∀ numbers, ¬ recipe.DiffersAt stream.find? numbers
  /-- A stream that is shared as a whole is the same. -/
  whole : recipe.changes stream = false → recipe.run stream = stream

/-- A run replaces the outermost differing values, rebuilds the nodes above them, and shares every
other node of its result with the stream. -/
theorem sharesExactly (recipe : ChangeValue) (stream : Stream) : recipe.SharesExactly stream where
  shared := shares_iff
  replaced := by
    intro numbers
    rw [mem_touches_iff]
    refine and_iff_right_of_imp fun houtermost => ?_
    rintro rfl
    simp [Due, OutermostAt, DiffersAt, Stream.find?] at houtermost
  rebuilt := fun numbers => mem_touches_iff recipe stream numbers .rebuilt
  nodes := exists_old
  present := exists_new
  documents := documents_run recipe stream
  unchanged := changes_eq_false_iff recipe stream
  whole := run_eq_self

end ChangeValue

end LosslessYaml
