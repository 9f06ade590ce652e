import LosslessYaml.Proofs.Recipe.TopDown
import LosslessYaml.Visit
import Mathlib.Data.List.Forall2

/-!
# Every node once, at its address

A visitor carries a cursor along, and pushes a frame for each node that it enters.  This file says
what the cursors and the order of the visits amount to, in terms of the tree alone.

The nodes of a tree have addresses: a number for each step from a node to one of its children.  In
the lexicographic order of addresses a node comes before the nodes below it, and what is below a
node comes before the next node beside it.  So a list of visits is a preorder traversal, with each
node once, if it is that of all addresses of nodes in increasing order.

## Strategy

* `Meets` says what a traversal returns and which visits it adds to the record.  It is closed under
  the operations that traversals are made of.
* `Lists` says that visits are those of a node and of the nodes below it, in order.
  `ListsFrom` says so of the children from some number on, which is what the loops of a traversal
  go through; `ListsFrom.cons` is their step.
* `Visit.StandsAt` says what a cursor tells about a node.  `Node.visit?` builds the cursor of an
  address, and `Visit.standsAt_of_visit?` goes down it.

Main statement: `Stream.visited_eq_preorder`.
-/

namespace LosslessYaml

/-! ## Nodes and their addresses -/

/-- The kinds of nodes. -/
inductive Kind where
  | stream
  | document
  | mapping
  | entry
  | sequence
  | item
  | scalar
  | aliasNode
deriving Repr, DecidableEq

/-- The kind of the node that a frame stands for. -/
def Frame.kind : Frame → Kind
  | .stream => .stream
  | .document => .document
  | .mapping => .mapping
  | .entry _ => .entry
  | .sequence => .sequence
  | .item .. => .item
  | .scalar => .scalar
  | .aliasNode => .aliasNode

namespace Node

/-- The kind of a node. -/
def kind : Node → Kind
  | .stream _ => .stream
  | .document _ => .document
  | .block (.scalar _) => .scalar
  | .block (.aliasNode _) => .aliasNode
  | .block (.mapping _) => .mapping
  | .block (.sequence _) => .sequence
  | .entry _ => .entry
  | .item _ => .item

/-- The nodes right below a node. The key of an entry is none of them. -/
def children : Node → List Node
  | .stream s => s.documents.map .document
  | .document d => [.block d.root]
  | .block (.scalar _) => []
  | .block (.aliasNode _) => []
  | .block (.mapping m) => m.entries.map .entry
  | .block (.sequence q) => q.items.map .item
  | .entry e => [.block e.value]
  | .item i => [.block i.value]

/-- The node at an address. -/
def find? (node : Node) : List Nat → Option Node
  | [] => some node
  | index :: address => node.children[index]?.bind fun child => child.find? address

/-- The node right above an address. -/
def parent? (node : Node) (address : List Nat) : Option Node :=
  if address = [] then none else node.find? address.dropLast

/-- The step into a node that is the `index`-th of `length` children. -/
def step? (index length : Nat) : Node → Option Step
  | .entry e => some (.key e.key.text)
  | .item _ => some (.item index length)
  | _ => none

/-- The steps on the way to an address. -/
def stepsTo (node : Node) : List Nat → List Step
  | [] => []
  | index :: address =>
    match node.children[index]? with
    | none => []
    | some child => (child.step? index node.children.length).toList ++ child.stepsTo address

/-- The frame of a node that is the `index`-th of `length` children. -/
def frame (index length : Nat) : Node → Frame
  | .stream _ => .stream
  | .document _ => .document
  | .block (.scalar _) => .scalar
  | .block (.aliasNode _) => .aliasNode
  | .block (.mapping _) => .mapping
  | .block (.sequence _) => .sequence
  | .entry e => .entry e.key.text
  | .item _ => .item index length

/-- The visit at an address, if the node itself is met with the cursor. -/
def visit? (node : Node) (cursor : Cursor) : List Nat → Option Visit
  | [] => some ⟨node, cursor⟩
  | index :: address => node.children[index]?.bind fun child =>
    child.visit? (child.frame index node.children.length :: cursor) address

theorem kind_frame (node : Node) (index length : Nat) :
    (node.frame index length).kind = node.kind := by
  cases node with
  | block block => cases block <;> rfl
  | _ => rfl

theorem step?_frame (node : Node) (index length : Nat) :
    (node.frame index length).step? = node.step? index length := by
  cases node with
  | block block => cases block <;> rfl
  | _ => rfl

/-- Only the children of a stream lie above the nodes of a document. -/
theorem isOuter_frame {node child : Node} (hchild : child ∈ node.children) (index length : Nat) :
    (node.kind = .stream ∧ child.kind = .document) ∨
      (child.frame index length).isOuter = false := by
  have hblock : ∀ block : Block, ((Node.block block).frame index length).isOuter = false := by
    intro block
    cases block <;> rfl
  cases node with
  | stream s =>
      obtain ⟨document, -, rfl⟩ := List.mem_map.mp hchild
      exact .inl ⟨rfl, rfl⟩
  | document d =>
      obtain rfl := List.mem_singleton.mp hchild
      exact .inr (hblock d.root)
  | block block =>
      cases block with
      | scalar s => exact absurd hchild List.not_mem_nil
      | aliasNode a => exact absurd hchild List.not_mem_nil
      | mapping m =>
          obtain ⟨entry, -, rfl⟩ := List.mem_map.mp hchild
          exact .inr rfl
      | sequence q =>
          obtain ⟨item, -, rfl⟩ := List.mem_map.mp hchild
          exact .inr rfl
  | entry e =>
      obtain rfl := List.mem_singleton.mp hchild
      exact .inr (hblock e.value)
  | item i =>
      obtain rfl := List.mem_singleton.mp hchild
      exact .inr (hblock i.value)

theorem kind_ne_stream {node child : Node} (hchild : child ∈ node.children) :
    child.kind ≠ .stream := by
  intro hkind
  rcases isOuter_frame hchild 0 0 with ⟨-, hdocument⟩ | houter
  · simp [hkind] at hdocument
  · rw [← kind_frame child 0 0] at hkind
    cases hframe : child.frame 0 0 <;> simp [hframe, Frame.kind, Frame.isOuter] at hkind houter

theorem visit?_cons {node child : Node} {index : Nat} (h : node.children[index]? = some child)
    (cursor : Cursor) (address : List Nat) :
    node.visit? cursor (index :: address) =
      child.visit? (child.frame index node.children.length :: cursor) address := by
  rw [visit?, h, Option.bind_some]

theorem find?_cons {node child : Node} {index : Nat} (h : node.children[index]? = some child)
    (address : List Nat) : node.find? (index :: address) = child.find? address := by
  rw [find?, h, Option.bind_some]

theorem stepsTo_cons {node child : Node} {index : Nat} (h : node.children[index]? = some child)
    (address : List Nat) : node.stepsTo (index :: address) =
      (child.step? index node.children.length).toList ++ child.stepsTo address := by
  rw [stepsTo, h]

end Node

/-! ## What a cursor tells -/

/-- A visit is that of the node at an address, and its cursor tells the kinds of the node and of the
node above it, how deep the node is, and the steps that lead to it. -/
structure Visit.StandsAt (top : Node) (address : List Nat) (visit : Visit) : Prop where
  node : top.find? address = some visit.node
  kind : visit.cursor.head?.map Frame.kind = some visit.node.kind
  parent : visit.cursor.tail.head?.map Frame.kind = (top.parent? address).map Node.kind
  depth : visit.cursor.depth = address.length + 1
  steps : visit.cursor.steps = top.stepsTo address

/-- Entering a node below a document adds its step, if it is one. -/
theorem Cursor.steps_cons {frame : Frame} (h : frame.isOuter = false) (cursor : Cursor) :
    Cursor.steps (frame :: cursor) = cursor.steps ++ frame.step?.toList := by
  rw [steps, steps, List.takeWhile_cons_of_pos (by simp [h])]
  cases hstep : frame.step? with
  | none => rw [List.filterMap_cons_none hstep, Option.toList_none, List.append_nil]
  | some step => rw [List.filterMap_cons_some hstep, List.reverse_cons, Option.toList_some]

/-- Entering a child adds its step, if it is one.  The steps start anew at a document, so there are
to be none above it. -/
theorem Cursor.steps_frame {node child : Node} (hchild : child ∈ node.children) {cursor : Cursor}
    (hsteps : node.kind = .stream → cursor.steps = []) (index length : Nat) :
    Cursor.steps (child.frame index length :: cursor) =
      cursor.steps ++ (child.step? index length).toList := by
  rcases Node.isOuter_frame hchild index length with ⟨hnode, hdocument⟩ | houter
  · cases child with
    | document d => rw [hsteps hnode]; rfl
    | block block => cases block <;> simp [Node.kind] at hdocument
    | _ => simp [Node.kind] at hdocument
  · rw [Cursor.steps_cons houter, Node.step?_frame]

namespace Visit

variable {node : Node} {cursor : Cursor} {address : List Nat} {visit : Visit}

/-- What the cursor of an address tells, given that the cursor of the node at the top tells the kind
of that node.  The induction goes down the address, so the frames above the top stay in view. -/
theorem cursor_of_visit? (h : node.visit? cursor address = some visit)
    (hkind : cursor.head?.map Frame.kind = some node.kind)
    (hsteps : node.kind = .stream → cursor.steps = []) :
    node.find? address = some visit.node ∧
      visit.cursor.head?.map Frame.kind = some visit.node.kind ∧
      (address ≠ [] →
        visit.cursor.tail.head?.map Frame.kind = (node.parent? address).map Node.kind) ∧
      visit.cursor.length = address.length + cursor.length ∧
      visit.cursor.steps = cursor.steps ++ node.stepsTo address := by
  induction address generalizing node cursor with
  | nil =>
      obtain rfl := Option.some.inj h
      exact ⟨rfl, hkind, fun hne => absurd rfl hne, by simp, by simp [Node.stepsTo]⟩
  | cons index address ih =>
      obtain ⟨child, hchild, hvisit⟩ := Option.bind_eq_some_iff.mp h
      have hmem := List.mem_of_getElem? hchild
      obtain ⟨hnode, hown, hparent, hlength, hpath⟩ := ih hvisit
        (by rw [List.head?_cons, Option.map_some, Node.kind_frame])
        (fun hstream => absurd hstream (Node.kind_ne_stream hmem))
      refine ⟨by rw [Node.find?_cons hchild, hnode], hown, fun _ => ?_, ?_, ?_⟩
      · cases address with
        | nil =>
            obtain rfl := Option.some.inj hvisit
            simpa [Node.parent?, Node.find?] using hkind
        | cons next address =>
            rw [hparent (List.cons_ne_nil _ _)]
            simp [Node.parent?, Node.find?_cons hchild]
      · rw [hlength, List.length_cons, List.length_cons]
        omega
      · rw [hpath, Cursor.steps_frame hmem hsteps, Node.stepsTo_cons hchild, List.append_assoc]

/-- The visit that is built for an address of a stream stands at that address. -/
theorem standsAt_of_visit? {stream : Stream}
    (h : (Node.stream stream).visit? [.stream] address = some visit) :
    StandsAt (.stream stream) address visit := by
  obtain ⟨hnode, hkind, hparent, hlength, hsteps⟩ := cursor_of_visit? h rfl fun _ => rfl
  refine ⟨hnode, hkind, ?_, hlength, hsteps⟩
  cases address with
  | nil =>
      obtain rfl := Option.some.inj h
      rfl
  | cons index address => exact hparent (List.cons_ne_nil _ _)

end Visit

/-! ## Lists of visits -/

/-- The visits are those of the node and of all nodes below it, in the order of their addresses. -/
def Lists (node : Node) (cursor : Cursor) (visits : List Visit) : Prop :=
  ∃ addresses : List (List Nat), addresses.Pairwise (· < ·) ∧
    (∀ address, address ∈ addresses ↔ (node.find? address).isSome = true) ∧
    addresses.map (node.visit? cursor) = visits.map some

/-- The visits are those of the children of the node from some number on, and of all nodes below
these. -/
def ListsFrom (node : Node) (cursor : Cursor) (index : Nat) (visits : List Visit) : Prop :=
  ∃ addresses : List (List Nat), addresses.Pairwise (· < ·) ∧
    (∀ address, address ∈ addresses ↔
      (∃ first rest, address = first :: rest ∧ index ≤ first) ∧
        (node.find? address).isSome = true) ∧
    addresses.map (node.visit? cursor) = visits.map some

/-- A node comes before the nodes below it. -/
theorem Lists.of_children {node : Node} {cursor : Cursor} {visits : List Visit}
    (h : ListsFrom node cursor 0 visits) : Lists node cursor (⟨node, cursor⟩ :: visits) := by
  obtain ⟨addresses, hsorted, hmem, hmap⟩ := h
  refine ⟨[] :: addresses, List.pairwise_cons.mpr ⟨fun address haddress => ?_, hsorted⟩, ?_, ?_⟩
  · obtain ⟨⟨first, rest, rfl, -⟩, -⟩ := (hmem address).mp haddress
    exact List.nil_lt_cons first rest
  · intro address
    cases address with
    | nil => simp [Node.find?]
    | cons first rest => simp [hmem]
  · rw [List.map_cons, hmap]
    rfl

theorem ListsFrom.nil {node : Node} {index : Nat} (h : node.children.drop index = [])
    (cursor : Cursor) : ListsFrom node cursor index [] := by
  refine ⟨[], .nil, fun address => ?_, rfl⟩
  refine iff_of_false List.not_mem_nil ?_
  rintro ⟨⟨first, rest, rfl, hindex⟩, hsome⟩
  have hend : node.children.length ≤ first := by
    have := List.drop_eq_nil_iff.mp h
    omega
  rw [Node.find?, List.getElem?_eq_none hend] at hsome
  simp at hsome

/-- A child and what is below it comes before the children after it. -/
theorem ListsFrom.cons {node child : Node} {children : List Node} {cursor : Cursor} {index : Nat}
    {visits more : List Visit} (hdrop : node.children.drop index = child :: children)
    (hchild : Lists child (child.frame index node.children.length :: cursor) visits)
    (hmore : ListsFrom node cursor (index + 1) more) :
    ListsFrom node cursor index (visits ++ more) := by
  obtain ⟨inner, hinnerSorted, hinner, hinnerMap⟩ := hchild
  obtain ⟨outer, houterSorted, houter, houterMap⟩ := hmore
  have hget : node.children[index]? = some child := by
    rw [← List.head?_drop, hdrop, List.head?_cons]
  refine ⟨inner.map (index :: ·) ++ outer, ?_, fun address => ?_, ?_⟩
  · refine List.pairwise_append.mpr ⟨?_, houterSorted, ?_⟩
    · exact hinnerSorted.map _ fun first second hlt => List.cons_lt_cons_self.mpr hlt
    · intro near hnear far hfar
      obtain ⟨rest, -, rfl⟩ := List.mem_map.mp hnear
      obtain ⟨⟨first, after, rfl, hlt⟩, -⟩ := (houter far).mp hfar
      exact List.cons_lt_cons_iff.mpr (.inl (by omega))
  · rw [List.mem_append, houter, List.mem_map]
    constructor
    · rintro (⟨rest, hrest, rfl⟩ | ⟨⟨first, rest, rfl, hlt⟩, hsome⟩)
      · rw [Node.find?_cons hget]
        exact ⟨⟨index, rest, rfl, Nat.le_refl index⟩, (hinner rest).mp hrest⟩
      · exact ⟨⟨first, rest, rfl, by omega⟩, hsome⟩
    · rintro ⟨⟨first, rest, rfl, hle⟩, hsome⟩
      rcases Nat.eq_or_lt_of_le hle with rfl | hlt
      · rw [Node.find?_cons hget] at hsome
        exact .inl ⟨rest, (hinner rest).mpr hsome, rfl⟩
      · exact .inr ⟨⟨first, rest, rfl, hlt⟩, hsome⟩
  · rw [List.map_append, List.map_map, List.map_append, houterMap, ← hinnerMap]
    congr 1
    refine List.map_congr_left fun rest _ => ?_
    exact Node.visit?_cons hget cursor rest

/-- A node with one child comes before what the child lists. -/
theorem Lists.of_child {node child : Node} {cursor : Cursor} {visits : List Visit}
    (hchildren : node.children = [child])
    (hchild : Lists child (child.frame 0 1 :: cursor) visits) :
    Lists node cursor (⟨node, cursor⟩ :: visits) := by
  have hlength : node.children.length = 1 := by rw [hchildren]; rfl
  have hfrom : ListsFrom node cursor 0 (visits ++ []) :=
    ListsFrom.cons (by rw [List.drop_zero, hchildren]) (by rwa [hlength])
      (ListsFrom.nil (by rw [hchildren]; rfl) cursor)
  rw [List.append_nil] at hfrom
  exact .of_children hfrom

/-! ## The record of a traversal -/

/-- The traversal returns the result, and meets the nodes of the visits, in order. -/
def Meets {α : Type} (walk : Recorded α) (result : α) (visits : List Visit) : Prop :=
  ∀ before, walk.run before = (result, before ++ visits)

namespace Meets

variable {α β : Type}

theorem record (node : Node) (cursor : Cursor) :
    Meets (Visit.record node cursor) () [⟨node, cursor⟩] := fun _ => rfl

theorem pure (result : α) : Meets (Pure.pure result) result [] := by
  intro before
  rw [List.append_nil]
  rfl

theorem bind {walk : Recorded α} {next : α → Recorded β} {result : α} {last : β}
    {visits more : List Visit} (hwalk : Meets walk result visits)
    (hnext : Meets (next result) last more) : Meets (walk >>= next) last (visits ++ more) := by
  intro before
  calc (walk >>= next).run before = (next (walk.run before).1).run (walk.run before).2 := rfl
    _ = (next result).run (before ++ visits) := by rw [hwalk before]
    _ = (last, before ++ (visits ++ more)) := by rw [hnext, List.append_assoc]

theorem thenPure {walk : Recorded α} {result : α} {visits : List Visit}
    (hwalk : Meets walk result visits) (f : α → β) :
    Meets (walk >>= fun value => Pure.pure (f value)) (f result) visits := by
  have h : Meets (walk >>= fun value => Pure.pure (f value)) (f result) (visits ++ []) :=
    hwalk.bind (pure (f result))
  rwa [List.append_nil] at h

end Meets

/-- The traversal gives the edit, and meets the node that the cursor leads to and all nodes below
it, at the positions that are given. -/
structure Surveys (walk : Recorded Edit) (edit : Edit) (node : Node) (cursor : Cursor)
    (positions : List Cursor) (visits : List Visit) : Prop where
  meets : Meets walk edit visits
  lists : Lists node cursor visits
  cursors : visits.map Visit.cursor = positions

/-- The traversal gives the edits, and meets the children of the node from some number on. -/
structure SurveysFrom (walk : Recorded (List Edit)) (edits : List Edit) (node : Node)
    (cursor : Cursor) (index : Nat) (positions : List Cursor) (visits : List Visit) : Prop where
  meets : Meets walk edits visits
  lists : ListsFrom node cursor index visits
  cursors : visits.map Visit.cursor = positions

namespace Visitor

mutual

theorem walkBlock_surveys (visitor : Visitor) (cursor : Cursor) : ∀ block : Block, ∃ visits,
    Surveys (visitor.walkBlock cursor block) (visitor.editBlock cursor block) (.block block)
      ((Node.block block).frame 0 1 :: cursor) (block.visits cursor) visits
  | .scalar s => by
      refine ⟨_, ?_, .of_children (.nil rfl _), rfl⟩
      rw [walkBlock]
      exact (Meets.record _ _).bind (.pure _)
  | .aliasNode a => by
      refine ⟨_, ?_, .of_children (.nil rfl _), rfl⟩
      rw [walkBlock]
      exact (Meets.record _ _).bind (.pure _)
  | .mapping ⟨lead, markers, anchor, layout, entries⟩ => by
      obtain ⟨visits, h⟩ := walkEntries_surveys visitor (.mapping :: cursor)
        (.block (.mapping ⟨lead, markers, anchor, layout, entries⟩)) entries 0 rfl
      refine ⟨_, ?_, .of_children h.lists, ?_⟩
      · rw [walkBlock, editBlock]
        exact (Meets.record _ _).bind (h.meets.thenPure Edit.ofChildren)
      · rw [Block.visits, List.map_cons, h.cursors]
        rfl
  | .sequence ⟨lead, markers, anchor, layout, indentless, items⟩ => by
      obtain ⟨visits, h⟩ := walkItems_surveys visitor (.sequence :: cursor)
        (.block (.sequence ⟨lead, markers, anchor, layout, indentless, items⟩)) items.length
        (List.length_map _) items 0 rfl
      refine ⟨_, ?_, .of_children h.lists, ?_⟩
      · rw [walkBlock, editBlock]
        exact (Meets.record _ _).bind (h.meets.thenPure Edit.ofChildren)
      · rw [Block.visits, List.map_cons, h.cursors]
        rfl

theorem walkEntries_surveys (visitor : Visitor) (cursor : Cursor) (node : Node) :
    ∀ (entries : List (Entry Block)) (index : Nat),
      node.children.drop index = entries.map .entry → ∃ visits,
        SurveysFrom (visitor.walkEntries cursor entries) (visitor.editEntries cursor entries) node
          cursor index (visitEntries cursor entries) visits
  | [], index, hdrop => by
      refine ⟨[], ?_, .nil hdrop cursor, rfl⟩
      rw [walkEntries, editEntries]
      exact .pure []
  | ⟨lead, markers, key, beforeColon, value, comma⟩ :: entries, index, hdrop => by
      obtain ⟨visits, h⟩ := walkBlock_surveys visitor (.entry key.text :: cursor) value
      obtain ⟨more, hmore⟩ := walkEntries_surveys visitor cursor node entries (index + 1)
        (by rw [← List.tail_drop, hdrop]; rfl)
      refine ⟨_, ?_, .cons hdrop (.of_child rfl h.lists) hmore.lists, ?_⟩
      · rw [walkEntries, editEntries]
        exact (Meets.record _ _).bind (h.meets.bind (hmore.meets.thenPure _))
      · rw [visitEntries, List.map_append, List.map_cons, h.cursors, hmore.cursors]
        rfl

theorem walkItems_surveys (visitor : Visitor) (cursor : Cursor) (node : Node) (length : Nat)
    (hlength : node.children.length = length) :
    ∀ (items : List (Item Block)) (index : Nat),
      node.children.drop index = items.map .item → ∃ visits,
        SurveysFrom (visitor.walkItems cursor length index items)
          (visitor.editItems cursor length index items) node cursor index
          (visitItems cursor length index items) visits
  | [], index, hdrop => by
      refine ⟨[], ?_, .nil hdrop cursor, rfl⟩
      rw [walkItems, editItems]
      exact .pure []
  | ⟨lead, markers, dash, value, comma⟩ :: items, index, hdrop => by
      obtain ⟨visits, h⟩ := walkBlock_surveys visitor (.item index length :: cursor) value
      obtain ⟨more, hmore⟩ := walkItems_surveys visitor cursor node length hlength items (index + 1)
        (by rw [← List.tail_drop, hdrop]; rfl)
      subst hlength
      refine ⟨_, ?_, .cons hdrop (.of_child rfl h.lists) hmore.lists, ?_⟩
      · rw [walkItems, editItems]
        exact (Meets.record _ _).bind (h.meets.bind (hmore.meets.thenPure _))
      · rw [visitItems, List.map_append, List.map_cons, h.cursors, hmore.cursors]
        rfl

end

/-- The documents of a stream are met one after the other, each before its root. -/
theorem walkDocuments_surveys (visitor : Visitor) (stream : Stream) :
    ∀ (documents : List Document) (index : Nat),
      (Node.stream stream).children.drop index = documents.map .document → ∃ visits,
        SurveysFrom (documents.mapM (visitor.walkDocument [.stream]))
          (documents.map fun document => visitor.editBlock [.document, .stream] document.root)
          (.stream stream) [.stream] index (documents.flatMap (Document.visits [.stream])) visits
  | [], index, hdrop => by
      refine ⟨[], ?_, .nil hdrop _, rfl⟩
      rw [List.mapM_nil]
      exact .pure []
  | document :: documents, index, hdrop => by
      obtain ⟨visits, h⟩ := visitor.walkBlock_surveys [.document, .stream] document.root
      obtain ⟨more, hmore⟩ := visitor.walkDocuments_surveys stream documents (index + 1)
        (by rw [← List.tail_drop, hdrop]; rfl)
      refine ⟨_, ?_, .cons hdrop (.of_child rfl h.lists) hmore.lists, ?_⟩
      · rw [List.mapM_cons]
        exact ((Meets.record _ _).bind h.meets).bind (hmore.meets.thenPure _)
      · rw [List.flatMap_cons, Document.visits, List.map_append, List.map_cons, h.cursors,
          hmore.cursors]
        rfl

theorem walkStream_surveys (visitor : Visitor) (stream : Stream) : ∃ visits,
    Meets (visitor.walkStream stream) (visitor.editStream stream) visits ∧
      Lists (.stream stream) [.stream] visits ∧ visits.map Visit.cursor = stream.visits := by
  obtain ⟨visits, h⟩ := visitor.walkDocuments_surveys stream stream.documents 0 rfl
  refine ⟨_, (Meets.record _ _).bind h.meets, .of_children h.lists, ?_⟩
  rw [List.singleton_append, List.map_cons, h.cursors]
  rfl

/-! ## A visitor that changes nothing -/

mutual

theorem editBlock_idle (cursor : Cursor) : ∀ block : Block, editBlock {} cursor block = .kept
  | .scalar _ => by rw [editBlock]; rfl
  | .aliasNode _ => by rw [editBlock]; rfl
  | .mapping ⟨_, _, _, _, entries⟩ => by
      rw [editBlock, Edit.ofChildren, if_pos (editEntries_idle _ entries)]
  | .sequence ⟨_, _, _, _, _, items⟩ => by
      rw [editBlock, Edit.ofChildren, if_pos (editItems_idle _ _ 0 items)]

theorem editEntries_idle (cursor : Cursor) : ∀ entries : List (Entry Block),
    (editEntries {} cursor entries).all Edit.isKept = true
  | [] => by rw [editEntries]; rfl
  | ⟨_, _, _, _, value, _⟩ :: entries => by
      rw [editEntries, List.all_cons, editEntries_idle cursor entries]
      simp [editBlock_idle _ value, Edit.isKept]

theorem editItems_idle (cursor : Cursor) (length : Nat) :
    ∀ (index : Nat) (items : List (Item Block)),
      (editItems {} cursor length index items).all Edit.isKept = true
  | _, [] => by rw [editItems]; rfl
  | index, ⟨_, _, _, value, _⟩ :: items => by
      rw [editItems, List.all_cons, editItems_idle cursor length (index + 1) items,
        editBlock_idle _ value]
      rfl

end

end Visitor

/-- A visitor that changes nothing meets every node of a stream once, before the nodes below it and
after those that stand before it, and never a key.  The cursor of each visit tells the place of the
node in the tree.  Every document is kept, so what comes back is the stream itself. -/
theorem Stream.visited_eq_preorder (stream : Stream) :
    (∃ addresses : List (List Nat), addresses.Pairwise (· < ·) ∧
      (∀ address,
        address ∈ addresses ↔ ((Node.stream stream).find? address).isSome = true) ∧
      List.Forall₂ (Visit.StandsAt (.stream stream)) addresses stream.visited.2) ∧
    stream.visited.2.map Visit.cursor = stream.visits ∧
    stream.visited.1 = stream.documents.map (fun _ => .kept) ∧
    stream.apply stream.visited.1 = stream := by
  obtain ⟨visits, hmeets, ⟨addresses, hsorted, hmem, hmap⟩, hcursors⟩ :=
    Visitor.walkStream_surveys {} stream
  have hvisited : stream.visited = (Visitor.editStream {} stream, visits) := hmeets []
  have hkept : Visitor.editStream {} stream = stream.documents.map fun _ => .kept := by
    rw [Visitor.editStream]
    exact List.map_congr_left fun document _ => Visitor.editBlock_idle _ document.root
  rw [hvisited]
  refine ⟨⟨addresses, hsorted, hmem, ?_⟩, hcursors, hkept, ?_⟩
  · have hvisits : List.Forall₂ (· = ·)
        (addresses.map ((Node.stream stream).visit? [.stream])) (visits.map some) := by
      rw [hmap]
      exact List.forall₂_refl _
    rw [List.forall₂_map_left_iff, List.forall₂_map_right_iff] at hvisits
    exact hvisits.imp fun address visit => Visit.standsAt_of_visit?
  · rw [hkept, Stream.apply, Stream.applyDocuments_kept (by simp [Edit.isKept])]

end LosslessYaml
