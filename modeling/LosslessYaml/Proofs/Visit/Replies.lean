import LosslessYaml.Proofs.Recipe.Sharing
import LosslessYaml.Visit.Leaves

/-!
# What new leaves make of a tree

A walk that asks for new leaves ends with a reply for each leaf: a new one, or none.  This file says
what becomes of the tree, from the replies alone.  `Follows` relates a node to its edit by the way
in which edits are put together, a leaf by its reply and a collection by the edits of its values.
All else is induction along that: which nodes are replaced, which are rebuilt above them, which are
kept, and what each node of the result has of the node that was there before.

Main statement: `Stream.rewritesLeaves`.
-/

namespace LosslessYaml

/-! ## Leaves -/

/-- Whether a node is a scalar or an alias. -/
def Block.isLeaf : Block → Bool
  | .scalar _ => true
  | .aliasNode _ => true
  | _ => false

/-- A scalar or an alias that a visitor is asked about: the numbers that lead to it, and the nodes
on the way. -/
structure Leaf where
  numbers : List Nat
  trail : Trail
  node : Block

theorem Site.below_of_isLeaf {site : Site} (h : site.node.isLeaf = true) : site.below = [] := by
  obtain ⟨address, node⟩ := site
  cases node with
  | scalar | aliasNode => rfl
  | mapping | sequence => cases h

theorem Site.find?_cons_of_isLeaf {site : Site} (h : site.node.isLeaf = true) (number : Nat)
    (numbers : List Nat) : site.find? (number :: numbers) = none := by
  rw [Site.find?, below_of_isLeaf h]
  rfl

namespace Edit

@[simp]
theorem ofReply_none : ofReply none = .kept := rfl

@[simp]
theorem ofReply_some (new : Block) : ofReply (some new) = .replaced new := rfl

theorem ofReply_map {α : Type} (reply : Option α) (node : α → Block) :
    ofReply (reply.map node) = (reply.map fun new => .replaced (node new)).getD .kept := by
  cases reply <;> rfl

theorem apply_ofReply (reply : Option Block) (node : Block) :
    (ofReply reply).apply node = reply.getD node := by
  cases reply <;> simp [apply]

theorem fate?_ofReply_nil (reply : Option Block) :
    (ofReply reply).fate? [] = if reply.isSome then some .replaced else none := by
  cases reply <;> rfl

theorem fate?_ofReply_cons (reply : Option Block) (number : Nat) (numbers : List Nat) :
    (ofReply reply).fate? (number :: numbers) = none := by
  cases reply <;> rfl

theorem fate?_ofChildren_nil (children : List Edit) (touch : Touch) :
    (ofChildren children).fate? [] = some touch ↔
      touch = .rebuilt ∧ ofChildren children ≠ .kept := by
  unfold ofChildren
  split
  · simp [fate?]
  · simp [fate?, eq_comm]

/-- A collection holds what it held itself. -/
theorem frame_apply_ofChildren (children : List Edit) (node : Block) :
    ((ofChildren children).apply node).frame = node.frame := by
  unfold ofChildren
  split
  · rw [apply]
  · exact frame_apply_rebuilt children node

end Edit

/-- A node that is not touched is what it was. -/
theorem Site.after_of_fate? {site : Site} {edit : Edit} (h : edit.fate? [] = none) :
    site.after edit = site := by
  cases edit with
  | kept => rw [Site.after, Edit.apply]
  | replaced | rebuilt => simp [Edit.fate?] at h

/-! ## Edits by replies -/

/-- The edit of a node is what the replies for the leaves at and below it make of it. -/
inductive Follows (leaves : List Leaf) (reply : List Nat → Option Block) :
    List Nat → Site → Edit → Prop where
  | leaf {numbers : List Nat} {site : Site} (trail : Trail) (hleaf : site.node.isLeaf = true)
      (hmem : ⟨numbers, trail, site.node⟩ ∈ leaves) (hsteps : trail.cursor.steps = site.address)
      (hreply : ∀ new ∈ reply numbers, new.isLeaf = true) :
      Follows leaves reply numbers site (.ofReply (reply numbers))
  | collection {numbers : List Nat} {site : Site} {children : List Edit}
      (hnode : site.node.isLeaf = false) (hlength : site.below.length = children.length)
      (hbelow : ∀ number next child, site.below[number]? = some next →
        children[number]? = some child → Follows leaves reply (numbers ++ [number]) next child) :
      Follows leaves reply numbers site (.ofChildren children)

/-- The edits are those of the nodes by the replies, the first node being the `index`-th below the
numbers. -/
structure FollowsFrom (leaves : List Leaf) (reply : List Nat → Option Block) (numbers : List Nat)
    (index : Nat) (sites : List Site) (edits : List Edit) : Prop where
  length : sites.length = edits.length
  each : ∀ offset next edit, sites[offset]? = some next → edits[offset]? = some edit →
    Follows leaves reply (numbers ++ [index + offset]) next edit

/-- The numbers lead to a leaf for which there is a new one. The base is what leads to the node that
the numbers start from. -/
def Answered (reply : List Nat → Option Block) (find? : List Nat → Option Site)
    (base numbers : List Nat) : Prop :=
  ∃ site, find? numbers = some site ∧ site.node.isLeaf = true ∧
    (reply (base ++ numbers)).isSome = true

/-- What a node of the result has of the node that was there before. -/
structure Turns (reply : Option Block) (old new : Site) : Prop where
  address : new.address = old.address
  leaf : old.node.isLeaf = true → new.node = reply.getD old.node
  frame : old.node.isLeaf = false → new.node.frame = old.node.frame

variable {leaves : List Leaf} {reply : List Nat → Option Block} {base : List Nat} {site : Site}
  {edit : Edit}

theorem FollowsFrom.nil {numbers : List Nat} {index : Nat} :
    FollowsFrom leaves reply numbers index [] [] := ⟨rfl, by simp⟩

theorem FollowsFrom.cons {numbers : List Nat} {index : Nat} {sites : List Site} {edits : List Edit}
    (hfirst : Follows leaves reply (numbers ++ [index]) site edit)
    (hmore : FollowsFrom leaves reply numbers (index + 1) sites edits) :
    FollowsFrom leaves reply numbers index (site :: sites) (edit :: edits) := by
  refine ⟨by simp [hmore.length], fun offset next child hnext hchild => ?_⟩
  cases offset with
  | zero =>
      obtain rfl := Option.some.inj hnext
      obtain rfl := Option.some.inj hchild
      exact hfirst
  | succ offset =>
      have h := hmore.each offset next child hnext hchild
      rwa [Nat.add_assoc, Nat.add_comm 1 offset] at h

theorem FollowsFrom.getElem? {numbers : List Nat} {sites : List Site} {edits : List Edit}
    (h : FollowsFrom leaves reply numbers 0 sites edits) (number : Nat) :
    (sites[number]? = none ∧ edits[number]? = none) ∨
      ∃ next child, sites[number]? = some next ∧ edits[number]? = some child ∧
        Follows leaves reply (numbers ++ [number]) next child := by
  cases hnext : sites[number]? with
  | none =>
      rw [List.getElem?_eq_none_iff, h.length] at hnext
      exact .inl ⟨rfl, List.getElem?_eq_none hnext⟩
  | some next =>
      obtain ⟨hlt, -⟩ := List.getElem?_eq_some_iff.mp hnext
      have hchild := List.getElem?_eq_getElem (h.length ▸ hlt)
      have hfollows := h.each number next _ hnext hchild
      rw [Nat.zero_add] at hfollows
      exact .inr ⟨next, _, rfl, hchild, hfollows⟩

theorem FollowsFrom.exists_edit {numbers : List Nat} {sites : List Site} {edits : List Edit}
    (h : FollowsFrom leaves reply numbers 0 sites edits) {number : Nat}
    (hsite : sites[number]? = some site) :
    ∃ edit, edits[number]? = some edit ∧ Follows leaves reply (numbers ++ [number]) site edit := by
  obtain ⟨hnone, -⟩ | ⟨other, edit, hother, hedit, hfollows⟩ := h.getElem? number
  · rw [hsite] at hnone
    cases hnone
  · obtain rfl : site = other := Option.some.inj (hsite.symm.trans hother)
    exact ⟨edit, hedit, hfollows⟩

theorem FollowsFrom.exists_site {numbers : List Nat} {sites : List Site} {edits : List Edit}
    (h : FollowsFrom leaves reply numbers 0 sites edits) {number : Nat}
    (hedit : edits[number]? = some edit) :
    ∃ site, sites[number]? = some site ∧ Follows leaves reply (numbers ++ [number]) site edit := by
  obtain ⟨-, hnone⟩ | ⟨site, other, hsite, hother, hfollows⟩ := h.getElem? number
  · rw [hedit] at hnone
    cases hnone
  · obtain rfl : edit = other := Option.some.inj (hedit.symm.trans hother)
    exact ⟨site, hsite, hfollows⟩

/-! ## Which nodes are touched -/

theorem answered_nil {find? : List Nat → Option Site} (hfind : find? [] = some site) :
    Answered reply find? base [] ↔ site.node.isLeaf = true ∧ (reply base).isSome = true := by
  simp [Answered, hfind]

theorem answered_cons {find? : List Nat → Option Site} {roots : List Site}
    (hfind : ∀ number numbers, find? (number :: numbers) =
      roots[number]?.bind fun root => root.find? numbers) (number : Nat) (numbers : List Nat) :
    Answered reply find? base (number :: numbers) ↔
      ∃ root, roots[number]? = some root ∧
        Answered reply root.find? (base ++ [number]) numbers := by
  simp only [Answered, hfind, Option.bind_eq_some_iff, List.append_assoc, List.singleton_append]
  grind

theorem Site.answered_cons (site : Site) (number : Nat) (numbers : List Nat) :
    Answered reply site.find? base (number :: numbers) ↔
      ∃ next, site.below[number]? = some next ∧
        Answered reply next.find? (base ++ [number]) numbers :=
  LosslessYaml.answered_cons (fun _ _ => rfl) number numbers

/-- What happens below some nodes is what happens below the node that the first number leads to. -/
theorem FollowsFrom.fate?_iff {sites : List Site} {edits : List Edit} {numbers : List Nat}
    {touch : Edit.Touch} {due : List Nat → Site → Prop}
    (h : FollowsFrom leaves reply base 0 sites edits)
    (hdue : ∀ {inner site edit}, Follows leaves reply inner site edit →
      (edit.fate? numbers = some touch ↔ due inner site)) (number : Nat) :
    (edits[number]?.bind fun edit => edit.fate? numbers) = some touch ↔
      ∃ site, sites[number]? = some site ∧ due (base ++ [number]) site := by
  obtain ⟨hnext, hchild⟩ | ⟨next, child, hnext, hchild, hfollows⟩ := h.getElem? number
  · simp [hnext, hchild]
  · simp [hnext, hchild, hdue hfollows]

namespace Follows

theorem children {children : List Edit} (hlength : site.below.length = children.length)
    (hbelow : ∀ number next child, site.below[number]? = some next →
      children[number]? = some child → Follows leaves reply (base ++ [number]) next child) :
    FollowsFrom leaves reply base 0 site.below children := by
  refine ⟨hlength, fun offset next child hnext hchild => ?_⟩
  rw [Nat.zero_add]
  exact hbelow offset next child hnext hchild

theorem of_children {children : List Edit} (hnode : site.node.isLeaf = false)
    (h : FollowsFrom leaves reply base 0 site.below children) :
    Follows leaves reply base site (.ofChildren children) := by
  refine .collection hnode h.length fun number next child hnext hchild => ?_
  have hfollows := h.each number next child hnext hchild
  rwa [Nat.zero_add] at hfollows

/-- The leaves for which there is a new one are replaced. -/
theorem replaced_iff (h : Follows leaves reply base site edit) (numbers : List Nat) :
    edit.fate? numbers = some .replaced ↔ Answered reply site.find? base numbers := by
  induction numbers generalizing base site edit with
  | nil =>
      rw [answered_nil rfl]
      cases h with
      | leaf trail hleaf => simp [Edit.fate?_ofReply_nil, hleaf, Option.isSome_iff_ne_none]
      | collection hnode => simp [Edit.fate?_ofChildren_nil, hnode]
  | cons number numbers ih =>
      rw [site.answered_cons]
      cases h with
      | leaf trail hleaf => simp [Edit.fate?_ofReply_cons, Site.below_of_isLeaf hleaf]
      | collection hnode hlength hbelow =>
          rw [Edit.fate?_ofChildren]
          exact (children hlength hbelow).fate?_iff ih number

/-- A node is kept, with all that lies below it, exactly if there is no new leaf at or below it. -/
theorem eq_kept_iff (h : Follows leaves reply base site edit) :
    edit = .kept ↔ ∀ numbers, ¬ Answered reply site.find? base numbers := by
  constructor
  · rintro rfl numbers hanswered
    simpa using (h.replaced_iff numbers).mpr hanswered
  · intro hnone
    induction h with
    | @leaf numbers site trail hleaf =>
        have hreply := hnone []
        rw [answered_nil rfl, hleaf, Option.isSome_iff_ne_none] at hreply
        rw [show reply numbers = none by simpa using hreply, Edit.ofReply_none]
    | @collection numbers site children hnode hlength hbelow ih =>
        refine if_pos (List.all_eq_true.mpr fun child hchild => ?_)
        obtain ⟨number, hnumber⟩ := List.mem_iff_getElem?.mp hchild
        rw [Edit.isKept_iff]
        obtain ⟨next, hnext, -⟩ := (Follows.children hlength hbelow).exists_site hnumber
        refine ih number next child hnext hnumber fun deeper hanswered => ?_
        exact hnone (number :: deeper)
          ((site.answered_cons number deeper).mpr ⟨next, hnext, hanswered⟩)

/-- The nodes above new leaves are rebuilt. -/
theorem rebuilt_iff (h : Follows leaves reply base site edit) (numbers : List Nat) :
    edit.fate? numbers = some .rebuilt ↔
      ∃ rest, rest ≠ [] ∧ Answered reply site.find? base (numbers ++ rest) := by
  induction numbers generalizing base site edit with
  | nil =>
      -- A collection is rebuilt if it is not kept, and it is no leaf, so the new leaf is below it.
      have hkept := h.eq_kept_iff
      cases h with
      | leaf trail hleaf =>
          refine iff_of_false (by simp [Edit.fate?_ofReply_nil]) ?_
          rintro ⟨rest, hrest, found, hfound, -⟩
          obtain ⟨number, rest, rfl⟩ := List.exists_cons_of_ne_nil hrest
          simp [Site.find?_cons_of_isLeaf hleaf] at hfound
      | collection hnode =>
          rw [Edit.fate?_ofChildren_nil, ne_eq, hkept]
          push Not
          constructor
          · rintro ⟨-, rest, hanswered⟩
            refine ⟨rest, ?_, hanswered⟩
            rintro rfl
            simp [answered_nil, Site.find?, hnode] at hanswered
          · rintro ⟨rest, -, hanswered⟩
            exact ⟨rfl, rest, hanswered⟩
  | cons number numbers ih =>
      cases h with
      | leaf trail hleaf =>
          refine iff_of_false (by simp [Edit.fate?_ofReply_cons]) ?_
          rintro ⟨rest, -, found, hfound, -⟩
          simp [Site.find?_cons_of_isLeaf hleaf] at hfound
      | collection hnode hlength hbelow =>
          rw [Edit.fate?_ofChildren, (children hlength hbelow).fate?_iff ih number]
          constructor
          · rintro ⟨next, hnext, rest, hrest, hanswered⟩
            exact ⟨rest, hrest, (site.answered_cons number _).mpr ⟨next, hnext, hanswered⟩⟩
          · rintro ⟨rest, hrest, hanswered⟩
            obtain ⟨next, hnext, hanswered⟩ := (site.answered_cons number _).mp hanswered
            exact ⟨next, hnext, rest, hrest, hanswered⟩

/-- The visitor is asked about every leaf, on its trail. -/
theorem mem_leaves (h : Follows leaves reply base site edit) {numbers : List Nat} {found : Site}
    (hfound : site.find? numbers = some found) (hleaf : found.node.isLeaf = true) :
    ∃ trail, ⟨base ++ numbers, trail, found.node⟩ ∈ leaves ∧
      trail.cursor.steps = found.address := by
  induction numbers generalizing base site edit with
  | nil =>
      obtain rfl := Option.some.inj hfound
      rw [List.append_nil]
      cases h with
      | leaf trail _ hmem hsteps => exact ⟨trail, hmem, hsteps⟩
      | collection hnode =>
          rw [hnode] at hleaf
          cases hleaf
  | cons number numbers ih =>
      cases h with
      | leaf trail hleaf =>
          rw [Site.find?_cons_of_isLeaf hleaf] at hfound
          cases hfound
      | collection hnode hlength hbelow =>
          obtain ⟨next, hnext, hfound⟩ := Option.bind_eq_some_iff.mp hfound
          obtain ⟨child, -, hfollows⟩ := (children hlength hbelow).exists_edit hnext
          have hasked := ih hfollows hfound
          rwa [List.append_assoc, List.singleton_append] at hasked

/-! ## What becomes of each node -/

/-- The nodes of the result are where the nodes were before. -/
theorem find?_after (h : Follows leaves reply base site edit) (numbers : List Nat) :
    (site.find? numbers = none ∧ (site.after edit).find? numbers = none) ∨
      ∃ old new, site.find? numbers = some old ∧ (site.after edit).find? numbers = some new ∧
        Turns (reply (base ++ numbers)) old new ∧ (edit.fate? numbers = none → new = old) := by
  induction numbers generalizing base site edit with
  | nil =>
      refine .inr ⟨site, site.after edit, rfl, rfl, ?_, Site.after_of_fate?⟩
      rw [List.append_nil]
      cases h with
      | leaf trail hleaf =>
          exact ⟨rfl, fun _ => Edit.apply_ofReply _ _, fun hnode => by simp [hleaf] at hnode⟩
      | collection hnode =>
          exact ⟨rfl, fun hleaf => by simp [hnode] at hleaf,
            fun _ => Edit.frame_apply_ofChildren _ _⟩
  | cons number numbers ih =>
      cases h with
      | leaf trail hleaf hmem hsteps hreply =>
          -- A leaf becomes a leaf: nothing new comes up below it.
          have hafter : (site.after (.ofReply (reply base))).node.isLeaf = true := by
            rw [Site.after, Edit.apply_ofReply]
            cases hnew : reply base with
            | none => exact hleaf
            | some new => exact hreply new hnew
          exact .inl ⟨Site.find?_cons_of_isLeaf hleaf _ _, Site.find?_cons_of_isLeaf hafter _ _⟩
      | collection hnode hlength hbelow =>
          rw [Site.find?, Site.find?, Site.below_after_ofChildren hlength, List.getElem?_zipWith,
            Edit.fate?_ofChildren]
          obtain ⟨hnext, hchild⟩ | ⟨next, child, hnext, hchild, hfollows⟩ :=
            (children hlength hbelow).getElem? number
          · exact .inl (by simp [hnext])
          · rw [hnext, hchild]
            have h := ih hfollows
            rwa [List.append_assoc, List.singleton_append] at h

end Follows

/-! ## Streams -/

namespace Stream

theorem roots_apply {stream : Stream} {edits : List Edit}
    (hlength : stream.roots.length = edits.length) :
    (stream.apply edits).roots = List.zipWith Site.after stream.roots edits :=
  ChangeValue.roots_applyDocuments edits stream.documents (by simpa [roots] using hlength)

theorem frame_applyDocuments (edits : List Edit) (documents : List Document) :
    (applyDocuments edits documents).map Document.frame = documents.map Document.frame := by
  induction edits generalizing documents with
  | nil => rfl
  | cons edit edits ih =>
      cases documents with
      | nil => rfl
      | cons document documents =>
          rw [applyDocuments, List.map_cons, List.map_cons, ih]
          rfl

/-- What new leaves make of a stream, node by node. -/
structure RewritesLeaves (stream : Stream) (reply : List Nat → Option Block)
    (edits : List Edit) : Prop where
  /-- The result has nodes where the stream has nodes, at the same addresses. A leaf has become its
  new one, if there is one, and any other node holds all that it held itself. -/
  nodes : ∀ numbers,
    (stream.find? numbers = none ∧ (stream.apply edits).find? numbers = none) ∨
      ∃ old new, stream.find? numbers = some old ∧
        (stream.apply edits).find? numbers = some new ∧ Turns (reply numbers) old new
  /-- The leaves for which there is a new one are replaced, and nothing else is. -/
  replaced : ∀ numbers, (numbers, .replaced) ∈ Edit.touchedFrom [] 0 edits ↔
    Answered reply stream.find? [] numbers
  /-- The nodes above these leaves are rebuilt, and no others. -/
  rebuilt : ∀ numbers, (numbers, .rebuilt) ∈ Edit.touchedFrom [] 0 edits ↔
    numbers ≠ [] ∧ ∃ rest, rest ≠ [] ∧ Answered reply stream.find? [] (numbers ++ rest)
  /-- A node is shared exactly if there is no new leaf at or below it. -/
  shared : ∀ numbers, numbers ≠ [] →
    ((∀ touch, (numbers, touch) ∉ Edit.touchedFrom [] 0 edits) ↔
      ∀ rest, ¬ Answered reply stream.find? [] (numbers ++ rest))
  /-- A shared node is the same, with all that lies below it. -/
  same : ∀ numbers, (∀ touch, (numbers, touch) ∉ Edit.touchedFrom [] 0 edits) →
    (stream.apply edits).find? numbers = stream.find? numbers
  /-- The documents and the stream hold what they held. -/
  documents : (stream.apply edits).documents.map Document.frame =
    stream.documents.map Document.frame ∧
    (stream.apply edits).markers = stream.markers ∧ (stream.apply edits).suffix = stream.suffix
  /-- The whole stream is shared exactly if there is no new leaf. -/
  unchanged : Edit.anyChange edits = false ↔
    ∀ numbers, ¬ Answered reply stream.find? [] numbers
  /-- A stream that is shared as a whole is the same. -/
  whole : Edit.anyChange edits = false → stream.apply edits = stream

variable {stream : Stream} {edits : List Edit}

theorem answered_cons (number : Nat) (numbers : List Nat) :
    Answered reply stream.find? [] (number :: numbers) ↔
      ∃ root, stream.roots[number]? = some root ∧ Answered reply root.find? [number] numbers :=
  LosslessYaml.answered_cons (fun _ _ => rfl) number numbers

theorem not_answered_nil : ¬ Answered reply stream.find? [] [] := by
  simp [Answered, find?]

theorem mem_touched_cons (number : Nat) (numbers : List Nat) (touch : Edit.Touch) :
    (number :: numbers, touch) ∈ Edit.touchedFrom [] 0 edits ↔
      (edits[number]?.bind fun edit => edit.fate? numbers) = some touch := by
  rw [Edit.mem_touchedFrom]
  constructor
  · rintro ⟨first, rest, hcons, hfate⟩
    obtain ⟨rfl, rfl⟩ : number = first ∧ numbers = rest := by simpa using hcons
    exact hfate
  · intro hfate
    exact ⟨number, numbers, by simp, hfate⟩

theorem not_mem_touched_nil (touch : Edit.Touch) : ([], touch) ∉ Edit.touchedFrom [] 0 edits := by
  simp [Edit.mem_touchedFrom]

section

variable (h : FollowsFrom leaves reply [] 0 stream.roots edits)
include h

theorem replaced_iff (numbers : List Nat) :
    (numbers, .replaced) ∈ Edit.touchedFrom [] 0 edits ↔
      Answered reply stream.find? [] numbers := by
  cases numbers with
  | nil => exact iff_of_false (not_mem_touched_nil _) not_answered_nil
  | cons number numbers =>
      rw [mem_touched_cons, answered_cons,
        h.fate?_iff (fun hfollows => hfollows.replaced_iff numbers) number]
      rfl

theorem rebuilt_iff (numbers : List Nat) :
    (numbers, .rebuilt) ∈ Edit.touchedFrom [] 0 edits ↔
      numbers ≠ [] ∧ ∃ rest, rest ≠ [] ∧ Answered reply stream.find? [] (numbers ++ rest) := by
  cases numbers with
  | nil => exact iff_of_false (not_mem_touched_nil _) fun hnot => hnot.1 rfl
  | cons number numbers =>
      rw [mem_touched_cons, h.fate?_iff (fun hfollows => hfollows.rebuilt_iff numbers) number,
        and_iff_right (List.cons_ne_nil _ _)]
      constructor
      · rintro ⟨root, hroot, rest, hrest, hanswered⟩
        exact ⟨rest, hrest, (answered_cons number _).mpr ⟨root, hroot, hanswered⟩⟩
      · rintro ⟨rest, hrest, hanswered⟩
        obtain ⟨root, hroot, hanswered⟩ := (answered_cons number _).mp hanswered
        exact ⟨root, hroot, rest, hrest, hanswered⟩

theorem shared_iff {numbers : List Nat} (hne : numbers ≠ []) :
    (∀ touch, (numbers, touch) ∉ Edit.touchedFrom [] 0 edits) ↔
      ∀ rest, ¬ Answered reply stream.find? [] (numbers ++ rest) := by
  constructor
  · intro huntouched rest hanswered
    by_cases hrest : rest = []
    · subst hrest
      rw [List.append_nil] at hanswered
      exact huntouched .replaced ((replaced_iff h numbers).mpr hanswered)
    · exact huntouched .rebuilt ((rebuilt_iff h numbers).mpr ⟨hne, rest, hrest, hanswered⟩)
  · intro hnone touch hmem
    cases touch with
    | replaced =>
        refine hnone [] ?_
        rw [List.append_nil]
        exact (replaced_iff h numbers).mp hmem
    | rebuilt =>
        obtain ⟨-, rest, -, hanswered⟩ := (rebuilt_iff h numbers).mp hmem
        exact hnone rest hanswered

theorem find?_apply (numbers : List Nat) :
    (stream.find? numbers = none ∧ (stream.apply edits).find? numbers = none) ∨
      ∃ old new, stream.find? numbers = some old ∧
        (stream.apply edits).find? numbers = some new ∧ Turns (reply numbers) old new ∧
        ((∀ touch, (numbers, touch) ∉ Edit.touchedFrom [] 0 edits) → new = old) := by
  cases numbers with
  | nil => exact .inl ⟨rfl, rfl⟩
  | cons number numbers =>
      rw [find?, find?, roots_apply h.length, List.getElem?_zipWith]
      simp only [mem_touched_cons]
      obtain ⟨hroot, hedit⟩ | ⟨root, edit, hroot, hedit, hfollows⟩ := h.getElem? number
      · exact .inl (by simp [hroot])
      · rw [hroot, hedit]
        obtain ⟨hold, hnew⟩ | ⟨old, new, hold, hnew, hturns, hkept⟩ := hfollows.find?_after numbers
        · exact .inl ⟨hold, hnew⟩
        · refine .inr ⟨old, new, hold, hnew, hturns, fun huntouched => hkept ?_⟩
          exact Option.eq_none_iff_forall_ne_some.mpr huntouched

theorem mem_leaves {numbers : List Nat} {site : Site} (hsite : stream.find? numbers = some site)
    (hleaf : site.node.isLeaf = true) :
    ∃ trail, ⟨numbers, trail, site.node⟩ ∈ leaves ∧ trail.cursor.steps = site.address := by
  cases numbers with
  | nil => cases hsite
  | cons number numbers =>
      obtain ⟨root, hroot, hfound⟩ := Option.bind_eq_some_iff.mp hsite
      obtain ⟨edit, -, hfollows⟩ := h.exists_edit hroot
      exact hfollows.mem_leaves hfound hleaf

theorem anyChange_eq_false_iff :
    Edit.anyChange edits = false ↔ ∀ numbers, ¬ Answered reply stream.find? [] numbers := by
  have hkept : Edit.anyChange edits = false ↔ ∀ edit ∈ edits, edit = .kept := by
    simp [Edit.anyChange, Edit.isKept_iff]
  rw [hkept]
  constructor
  · intro hall numbers hanswered
    cases numbers with
    | nil => exact not_answered_nil hanswered
    | cons number numbers =>
        obtain ⟨root, hroot, hbelow⟩ := (answered_cons number numbers).mp hanswered
        obtain ⟨edit, hedit, hfollows⟩ := h.exists_edit hroot
        exact hfollows.eq_kept_iff.mp (hall edit (List.mem_of_getElem? hedit)) numbers hbelow
  · intro hnone edit hmem
    obtain ⟨number, hedit⟩ := List.mem_iff_getElem?.mp hmem
    obtain ⟨root, hroot, hfollows⟩ := h.exists_site hedit
    refine hfollows.eq_kept_iff.mpr fun numbers hanswered => hnone (number :: numbers) ?_
    exact (answered_cons number numbers).mpr ⟨root, hroot, hanswered⟩

/-- New leaves stand where the old ones stood, the nodes above them are rebuilt, and every other
node is shared. -/
theorem rewritesLeaves : stream.RewritesLeaves reply edits where
  nodes numbers := by
    obtain hnone | ⟨old, new, hold, hnew, hturns, -⟩ := find?_apply h numbers
    · exact .inl hnone
    · exact .inr ⟨old, new, hold, hnew, hturns⟩
  replaced := replaced_iff h
  rebuilt := rebuilt_iff h
  shared _ := shared_iff h
  same numbers huntouched := by
    obtain ⟨hold, hnew⟩ | ⟨old, new, hold, hnew, -, hsame⟩ := find?_apply h numbers
    · rw [hold, hnew]
    · rw [hold, hnew, hsame huntouched]
  documents := ⟨frame_applyDocuments edits stream.documents, rfl, rfl⟩
  unchanged := anyChange_eq_false_iff h
  whole hunchanged := by
    have hkept : edits.all Edit.isKept = true := by simpa [Edit.anyChange] using hunchanged
    rw [Stream.apply, Stream.applyDocuments_kept hkept]

end

end Stream

end LosslessYaml
