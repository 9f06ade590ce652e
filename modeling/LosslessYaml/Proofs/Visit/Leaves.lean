import LosslessYaml.Proofs.Visit.Replies

/-!
# Rewriting leaves

A visitor of leaves is asked about each scalar and each alias in value position, one after the
other, and what it answers makes the edit.  `Asks` says of a walk that it comes to the same state as
an interview about a list of leaves, and that its result follows from the answers; it is closed
under the ways in which the walk is put together.  No two leaves have the same numbers, so the
answers are a function of the numbers, and `Stream.rewritesLeaves` tells what they make of the
stream.

Main statement: `LeafVisitor.rewrites_exactly`.
-/

namespace LosslessYaml

/-! ## The leaves of a stream -/

mutual

/-- The leaves at and below a block that the numbers and the trail lead to. -/
def Block.leaves (numbers : List Nat) (trail : Trail) : Block → List Leaf
  | .scalar s => [⟨numbers, trail, .scalar s⟩]
  | .aliasNode a => [⟨numbers, trail, .aliasNode a⟩]
  | .mapping ⟨lead, markers, anchor, layout, entries⟩ =>
    let stop := ⟨.mapping, .block (.mapping ⟨lead, markers, anchor, layout, entries⟩)⟩
    leavesOfEntries numbers (stop :: trail) 0 entries
  | .sequence ⟨lead, markers, anchor, layout, indentless, items⟩ =>
    let stop :=
      ⟨.sequence, .block (.sequence ⟨lead, markers, anchor, layout, indentless, items⟩)⟩
    leavesOfItems numbers (stop :: trail) items.length 0 items

/-- The leaves of mapping entries, the first of them being the `index`-th. -/
def leavesOfEntries (numbers : List Nat) (trail : Trail) (index : Nat) :
    List (Entry Block) → List Leaf
  | [] => []
  | ⟨lead, markers, key, beforeColon, value, comma⟩ :: entries =>
    let stop := ⟨.entry key.text, .entry ⟨lead, markers, key, beforeColon, value, comma⟩⟩
    value.leaves (numbers ++ [index]) (stop :: trail) ++
      leavesOfEntries numbers trail (index + 1) entries

/-- The leaves of sequence items, the first of them being the `index`-th of `length`. -/
def leavesOfItems (numbers : List Nat) (trail : Trail) (length index : Nat) :
    List (Item Block) → List Leaf
  | [] => []
  | ⟨lead, markers, dash, value, comma⟩ :: items =>
    let stop := ⟨.item index length, .item ⟨lead, markers, dash, value, comma⟩⟩
    value.leaves (numbers ++ [index]) (stop :: trail) ++
      leavesOfItems numbers trail length (index + 1) items

end

/-- The leaves of documents, the first of them being the `index`-th. -/
def leavesOfDocuments (trail : Trail) (index : Nat) : List Document → List Leaf
  | [] => []
  | document :: documents =>
    document.root.leaves [index] (⟨.document, .document document⟩ :: trail) ++
      leavesOfDocuments trail (index + 1) documents

/-- The scalars and aliases in value position, in order. -/
def Stream.leaves (stream : Stream) : List Leaf :=
  leavesOfDocuments [⟨.stream, .stream stream⟩] 0 stream.documents

/-! ### No two leaves have the same numbers -/

/-- The leaves have different numbers, and lie at and below the numbers. -/
structure Spread (numbers : List Nat) (leaves : List Leaf) : Prop where
  nodup : (leaves.map Leaf.numbers).Nodup
  below : ∀ leaf ∈ leaves, numbers <+: leaf.numbers

/-- The leaves have different numbers, and lie below the numbers, from the `index`-th on. -/
structure SpreadFrom (numbers : List Nat) (index : Nat) (leaves : List Leaf) : Prop where
  nodup : (leaves.map Leaf.numbers).Nodup
  below : ∀ leaf ∈ leaves, ∃ number, index ≤ number ∧ numbers ++ [number] <+: leaf.numbers

theorem SpreadFrom.nil (numbers : List Nat) (index : Nat) : SpreadFrom numbers index [] :=
  ⟨by simp, by simp⟩

theorem SpreadFrom.append {numbers : List Nat} {index : Nat} {first more : List Leaf}
    (hfirst : Spread (numbers ++ [index]) first) (hmore : SpreadFrom numbers (index + 1) more) :
    SpreadFrom numbers index (first ++ more) := by
  refine ⟨?_, fun leaf hleaf => ?_⟩
  · rw [List.map_append, List.nodup_append]
    refine ⟨hfirst.nodup, hmore.nodup, ?_⟩
    -- the numbers of the two differ right after those that lead to the collection
    intro inner hinner outer houter heq
    obtain ⟨near, hnear, rfl⟩ := List.mem_map.mp hinner
    obtain ⟨far, hfar, rfl⟩ := List.mem_map.mp houter
    obtain ⟨number, hnumber, hprefix⟩ := hmore.below far hfar
    rw [← heq] at hprefix
    have hsame := List.prefix_of_prefix_length_le (hfirst.below near hnear) hprefix (by simp)
    have hindex : index = number := by
      simpa using List.prefix_append_right_inj numbers |>.mp hsame
    omega
  · obtain hleaf | hleaf := List.mem_append.mp hleaf
    · exact ⟨index, Nat.le_refl index, hfirst.below leaf hleaf⟩
    · obtain ⟨number, hnumber, hprefix⟩ := hmore.below leaf hleaf
      exact ⟨number, by omega, hprefix⟩

theorem SpreadFrom.spread {numbers : List Nat} {index : Nat} {leaves : List Leaf}
    (h : SpreadFrom numbers index leaves) : Spread numbers leaves := by
  refine ⟨h.nodup, fun leaf hleaf => ?_⟩
  obtain ⟨number, -, hprefix⟩ := h.below leaf hleaf
  exact (List.prefix_append _ _).trans hprefix

mutual

theorem Block.leaves_spread (numbers : List Nat) (trail : Trail) :
    ∀ block : Block, Spread numbers (block.leaves numbers trail)
  | .scalar s => by
      rw [Block.leaves]
      exact ⟨by simp, by simp⟩
  | .aliasNode a => by
      rw [Block.leaves]
      exact ⟨by simp, by simp⟩
  | .mapping ⟨_, _, _, _, entries⟩ => by
      rw [Block.leaves]
      exact (leavesOfEntries_spread numbers _ 0 entries).spread
  | .sequence ⟨_, _, _, _, _, items⟩ => by
      rw [Block.leaves]
      exact (leavesOfItems_spread numbers _ _ 0 items).spread

theorem leavesOfEntries_spread (numbers : List Nat) (trail : Trail) (index : Nat) :
    ∀ entries : List (Entry Block),
      SpreadFrom numbers index (leavesOfEntries numbers trail index entries)
  | [] => by
      rw [leavesOfEntries]
      exact .nil numbers index
  | ⟨_, _, _, _, value, _⟩ :: entries => by
      rw [leavesOfEntries]
      exact .append (value.leaves_spread _ _)
        (leavesOfEntries_spread numbers trail (index + 1) entries)

theorem leavesOfItems_spread (numbers : List Nat) (trail : Trail) (length index : Nat) :
    ∀ items : List (Item Block),
      SpreadFrom numbers index (leavesOfItems numbers trail length index items)
  | [] => by
      rw [leavesOfItems]
      exact .nil numbers index
  | ⟨_, _, _, value, _⟩ :: items => by
      rw [leavesOfItems]
      exact .append (value.leaves_spread _ _)
        (leavesOfItems_spread numbers trail length (index + 1) items)

end

theorem leavesOfDocuments_spread (trail : Trail) (index : Nat) (documents : List Document) :
    SpreadFrom [] index (leavesOfDocuments trail index documents) := by
  induction documents generalizing index with
  | nil => exact .nil [] index
  | cons document documents ih =>
      rw [leavesOfDocuments]
      exact .append (document.root.leaves_spread _ _) (ih (index + 1))

/-! ## Interviews -/

namespace LeafVisitor

variable {σ α β : Type}

/-- Asks about leaves, one after the other. -/
def interview (visitor : LeafVisitor σ) (leaves : List Leaf) :
    StateM σ (List (Leaf × Option Block)) :=
  leaves.mapM fun leaf => do return (leaf, ← visitor.ask leaf.trail leaf.node)

/-- The walk comes to the state that an interview about the leaves ends with, and its result follows
from the answers. -/
def Asks (visitor : LeafVisitor σ) (leaves : List Leaf) (walk : StateM σ α)
    (follows : List Leaf → (List Nat → Option Block) → α → Prop) : Prop :=
  ∀ start, ∃ log after result, (visitor.interview leaves).run start = (log, after) ∧
    walk.run start = (result, after) ∧
    ∀ all reply, leaves ⊆ all → (∀ answer ∈ log, reply answer.1.numbers = answer.2) →
      follows all reply result

variable {visitor : LeafVisitor σ}

/-- What a visitor answers is a leaf. -/
theorem isLeaf_of_ask {trail : Trail} {node : Block} {start : σ} {new : Block}
    (h : ((visitor.ask trail node).run start).1 = some new) : new.isLeaf = true := by
  cases node with
  | scalar s =>
      obtain ⟨_, -, rfl⟩ := Option.map_eq_some_iff.mp h
      rfl
  | aliasNode a =>
      obtain ⟨_, -, rfl⟩ := Option.map_eq_some_iff.mp h
      rfl
  | mapping | sequence => cases h

theorem run_thenPure (walk : StateM σ α) (f : α → β) (start : σ) :
    (walk >>= fun a => pure (f a)).run start = (f (walk.run start).1, (walk.run start).2) := rfl

theorem run_bind (walk : StateM σ α) (next : α → StateM σ β) (start : σ) :
    (walk >>= next).run start = (next (walk.run start).1).run (walk.run start).2 := rfl

theorem run_interview_cons (leaf : Leaf) (leaves : List Leaf) (start : σ) :
    (visitor.interview (leaf :: leaves)).run start =
      let asked := (visitor.ask leaf.trail leaf.node).run start
      let more := (visitor.interview leaves).run asked.2
      ((leaf, asked.1) :: more.1, more.2) := by
  rw [interview, List.mapM_cons]
  rfl

/-- One interview after another is an interview. -/
theorem run_interview_append (first second : List Leaf) (start : σ) :
    (visitor.interview (first ++ second)).run start =
      let asked := (visitor.interview first).run start
      let more := (visitor.interview second).run asked.2
      (asked.1 ++ more.1, more.2) := by
  induction first generalizing start with
  | nil => rfl
  | cons leaf first ih =>
      rw [List.cons_append, run_interview_cons, run_interview_cons]
      dsimp only
      rw [ih]
      rfl

theorem map_fst_interview (visitor : LeafVisitor σ) (leaves : List Leaf) (start : σ) :
    ((visitor.interview leaves).run start).1.map Prod.fst = leaves := by
  induction leaves generalizing start with
  | nil => rfl
  | cons leaf leaves ih =>
      rw [run_interview_cons]
      simp [ih]

namespace Asks

theorem nil {result : α} {follows : List Leaf → (List Nat → Option Block) → α → Prop}
    (h : ∀ all reply, follows all reply result) : Asks visitor [] (pure result) follows :=
  fun start => ⟨[], start, result, rfl, rfl, fun all reply _ _ => h all reply⟩

/-- A leaf gets the edit that the answer makes. -/
theorem leaf (visitor : LeafVisitor σ) {trail : Trail} (numbers : List Nat) {node : Block}
    (hleaf : node.isLeaf = true) :
    Asks visitor [⟨numbers, trail, node⟩] (do return Edit.ofReply (← visitor.ask trail node))
      fun all reply edit => Follows all reply numbers ⟨trail.cursor.steps, node⟩ edit := by
  intro start
  refine ⟨_, _, _, run_interview_cons _ [] start, run_thenPure _ _ start, ?_⟩
  intro all reply hall hlog
  have hreply : reply numbers = ((visitor.ask trail node).run start).1 :=
    hlog _ List.mem_cons_self
  rw [← hreply]
  refine .leaf trail hleaf (hall List.mem_cons_self) rfl fun new hnew => ?_
  rw [hreply] at hnew
  exact isLeaf_of_ask hnew

theorem thenPure {leaves : List Leaf} {walk : StateM σ α} (f : α → β)
    {follows : List Leaf → (List Nat → Option Block) → α → Prop}
    {follows' : List Leaf → (List Nat → Option Block) → β → Prop}
    (h : Asks visitor leaves walk follows)
    (hf : ∀ all reply a, follows all reply a → follows' all reply (f a)) :
    Asks visitor leaves (do return f (← walk)) follows' := by
  intro start
  obtain ⟨log, after, result, hinterview, hwalk, hfollows⟩ := h start
  refine ⟨log, after, f result, hinterview, by rw [run_thenPure, hwalk], ?_⟩
  exact fun all reply hall hlog => hf all reply result (hfollows all reply hall hlog)

/-- The walk over a list asks about the first element and then about the others. -/
theorem cons {first more : List Leaf} {walk : StateM σ α} {next : StateM σ (List α)}
    {followsFirst : List Leaf → (List Nat → Option Block) → α → Prop}
    {followsMore follows : List Leaf → (List Nat → Option Block) → List α → Prop}
    (hwalk : Asks visitor first walk followsFirst) (hnext : Asks visitor more next followsMore)
    (hcons : ∀ all reply a as, followsFirst all reply a → followsMore all reply as →
      follows all reply (a :: as)) :
    Asks visitor (first ++ more) (do
      let a ← walk
      return a :: (← next)) follows := by
  intro start
  obtain ⟨log, between, result, hinterview, hrun, hfollows⟩ := hwalk start
  obtain ⟨logMore, after, results, hinterviewMore, hrunMore, hfollowsMore⟩ := hnext between
  refine ⟨log ++ logMore, after, result :: results, ?_, ?_, fun all reply hall hlog => ?_⟩
  · rw [run_interview_append, hinterview]
    dsimp only
    rw [hinterviewMore]
  · rw [run_bind, hrun, run_thenPure, hrunMore]
  · obtain ⟨hfirst, hmore⟩ := List.append_subset.mp hall
    refine hcons all reply result results (hfollows all reply hfirst ?_)
      (hfollowsMore all reply hmore ?_)
    · exact fun answer hanswer => hlog answer (List.mem_append_left _ hanswer)
    · exact fun answer hanswer => hlog answer (List.mem_append_right _ hanswer)

end Asks

/-! ## The walk -/

mutual

theorem walkBlock_asks (visitor : LeafVisitor σ) (numbers : List Nat) (trail : Trail) :
    ∀ block : Block, Asks visitor (block.leaves numbers trail) (visitor.walkBlock trail block)
      fun all reply edit => Follows all reply numbers ⟨trail.cursor.steps, block⟩ edit
  | .scalar s => by
      rw [Block.leaves, walkBlock]
      exact .leaf visitor numbers rfl
  | .aliasNode a => by
      rw [Block.leaves, walkBlock]
      exact .leaf visitor numbers rfl
  | .mapping ⟨lead, markers, anchor, layout, entries⟩ => by
      rw [Block.leaves, walkBlock]
      exact (walkEntries_asks visitor numbers _ 0 entries).thenPure Edit.ofChildren
        fun all reply children hchildren => .of_children rfl hchildren
  | .sequence ⟨lead, markers, anchor, layout, indentless, items⟩ => by
      rw [Block.leaves, walkBlock]
      exact (walkItems_asks visitor numbers _ items.length 0 items).thenPure Edit.ofChildren
        fun all reply children hchildren => .of_children rfl hchildren

theorem walkEntries_asks (visitor : LeafVisitor σ) (numbers : List Nat) (trail : Trail)
    (index : Nat) :
    ∀ entries : List (Entry Block),
      Asks visitor (leavesOfEntries numbers trail index entries)
        (visitor.walkEntries trail entries)
        fun all reply edits => FollowsFrom all reply numbers index
          (entries.map fun entry => ⟨trail.cursor.steps ++ [.key entry.key.text], entry.value⟩)
          edits
  | [] => by
      rw [leavesOfEntries, walkEntries]
      exact .nil fun _ _ => .nil
  | ⟨lead, markers, key, beforeColon, value, comma⟩ :: entries => by
      rw [leavesOfEntries, walkEntries]
      refine (walkBlock_asks visitor (numbers ++ [index]) _ value).cons
        (walkEntries_asks visitor numbers trail (index + 1) entries) ?_
      intro all reply edit edits hfirst hmore
      refine .cons ?_ hmore
      simpa [Trail.cursor] using hfirst

theorem walkItems_asks (visitor : LeafVisitor σ) (numbers : List Nat) (trail : Trail)
    (length index : Nat) :
    ∀ items : List (Item Block),
      Asks visitor (leavesOfItems numbers trail length index items)
        (visitor.walkItems trail length index items)
        fun all reply edits => FollowsFrom all reply numbers index
          (items.mapIdx fun offset item =>
            ⟨trail.cursor.steps ++ [.item (offset + index) length], item.value⟩) edits
  | [] => by
      rw [leavesOfItems, walkItems]
      exact .nil fun _ _ => .nil
  | ⟨lead, markers, dash, value, comma⟩ :: items => by
      rw [leavesOfItems, walkItems]
      refine (walkBlock_asks visitor (numbers ++ [index]) _ value).cons
        (walkItems_asks visitor numbers trail length (index + 1) items) ?_
      intro all reply edit edits hfirst hmore
      rw [List.mapIdx_cons, Nat.zero_add]
      refine .cons ?_ ?_
      · simpa [Trail.cursor] using hfirst
      · simpa only [Nat.add_assoc, Nat.add_comm 1 index] using hmore

end

theorem walkDocuments_asks (visitor : LeafVisitor σ) (trail : Trail)
    (htrail : trail.cursor = [.stream]) (index : Nat) (documents : List Document) :
    Asks visitor (leavesOfDocuments trail index documents) (visitor.walkDocuments trail documents)
      fun all reply edits => FollowsFrom all reply [] index
        (documents.map fun document => ⟨[], document.root⟩) edits := by
  induction documents generalizing index with
  | nil => exact .nil fun _ _ => .nil
  | cons document documents ih =>
      rw [leavesOfDocuments, walkDocuments]
      refine (walkBlock_asks visitor [index] _ document.root).cons (ih (index + 1)) ?_
      intro all reply edit edits hfirst hmore
      refine .cons ?_ hmore
      have hcursor : Trail.cursor (⟨.document, .document document⟩ :: trail) =
          [.document, .stream] := congrArg (Frame.document :: ·) htrail
      rwa [hcursor, Cursor.steps_root] at hfirst

/-- Answers about leaves with different numbers are a function of the numbers. -/
theorem exists_reply (log : List (Leaf × Option Block))
    (h : (log.map fun answer => answer.1.numbers).Nodup) :
    ∃ reply : List Nat → Option Block, ∀ answer ∈ log, reply answer.1.numbers = answer.2 := by
  induction log with
  | nil => exact ⟨fun _ => none, by simp⟩
  | cons first log ih =>
      rw [List.map_cons, List.nodup_cons] at h
      obtain ⟨reply, hreply⟩ := ih h.2
      refine ⟨fun numbers => if numbers = first.1.numbers then first.2 else reply numbers, ?_⟩
      intro answer hanswer
      obtain rfl | hmem := List.mem_cons.mp hanswer
      · exact if_pos rfl
      · have hne : answer.1.numbers ≠ first.1.numbers := by
          intro heq
          exact h.1 (heq ▸ List.mem_map_of_mem hmem)
        exact (if_neg hne).trans (hreply answer hmem)

/-- The edits of a stream follow from answers that are a function of the numbers. -/
theorem exists_follows (visitor : LeafVisitor σ) (stream : Stream) (start : σ) :
    ∃ reply : List Nat → Option Block,
      (visitor.interview stream.leaves).run start =
        (stream.leaves.map fun leaf => (leaf, reply leaf.numbers),
          ((visitor.walkStream stream).run start).2) ∧
      FollowsFrom stream.leaves reply [] 0 stream.roots
        ((visitor.walkStream stream).run start).1 := by
  obtain ⟨log, after, edits, hinterview, hwalk, hfollows⟩ :=
    walkDocuments_asks visitor [⟨.stream, .stream stream⟩] rfl 0 stream.documents start
  rw [← Stream.leaves] at hinterview hfollows
  rw [walkStream, hwalk, hinterview]
  have hleaves : log.map Prod.fst = stream.leaves := by
    have hasked := map_fst_interview visitor stream.leaves start
    rwa [hinterview] at hasked
  -- The state may make the visitor answer differently about equal leaves, but no numbers are asked
  -- about twice.
  have hnodup : (log.map fun answer => answer.1.numbers).Nodup := by
    have hspread := (leavesOfDocuments_spread [⟨.stream, .stream stream⟩] 0 stream.documents).nodup
    rw [← Stream.leaves, ← hleaves, List.map_map] at hspread
    exact hspread
  obtain ⟨reply, hreply⟩ := exists_reply log hnodup
  refine ⟨reply, ?_, hfollows stream.leaves reply (List.Subset.refl _) hreply⟩
  have hlog : stream.leaves.map (fun leaf => (leaf, reply leaf.numbers)) = log.map id := by
    rw [← hleaves, List.map_map]
    exact List.map_congr_left fun answer hanswer => Prod.ext rfl (hreply answer hanswer)
  rw [hlog, List.map_id]

/-! ## Visitors that decide by the address -/

section

variable (scalar : Cursor → Scalar → Option Scalar) (aliasNode : Cursor → Alias → Option Alias)

mutual

theorem run_walkBlock_ofReplies (trail : Trail) : ∀ block : Block,
    ((ofReplies scalar aliasNode).walkBlock trail block).run () =
      (Visitor.editBlock { scalar, aliasNode } trail.cursor block, ())
  | .scalar s => by
      rw [walkBlock, Visitor.editBlock]
      exact congrArg (·, ()) (Edit.ofReply_map _ _)
  | .aliasNode a => by
      rw [walkBlock, Visitor.editBlock]
      exact congrArg (·, ()) (Edit.ofReply_map _ _)
  | .mapping ⟨lead, markers, anchor, layout, entries⟩ => by
      rw [walkBlock, Visitor.editBlock, run_thenPure, run_walkEntries_ofReplies]
      rfl
  | .sequence ⟨lead, markers, anchor, layout, indentless, items⟩ => by
      rw [walkBlock, Visitor.editBlock, run_thenPure, run_walkItems_ofReplies]
      rfl

theorem run_walkEntries_ofReplies (trail : Trail) : ∀ entries : List (Entry Block),
    ((ofReplies scalar aliasNode).walkEntries trail entries).run () =
      (Visitor.editEntries { scalar, aliasNode } trail.cursor entries, ())
  | [] => by
      rw [walkEntries, Visitor.editEntries]
      rfl
  | ⟨lead, markers, key, beforeColon, value, comma⟩ :: entries => by
      rw [walkEntries, Visitor.editEntries, run_bind, run_walkBlock_ofReplies, run_thenPure,
        run_walkEntries_ofReplies]
      rfl

theorem run_walkItems_ofReplies (trail : Trail) (length index : Nat) :
    ∀ items : List (Item Block),
      ((ofReplies scalar aliasNode).walkItems trail length index items).run () =
        (Visitor.editItems { scalar, aliasNode } trail.cursor length index items, ())
  | [] => by
      rw [walkItems, Visitor.editItems]
      rfl
  | ⟨lead, markers, dash, value, comma⟩ :: items => by
      rw [walkItems, Visitor.editItems, run_bind, run_walkBlock_ofReplies, run_thenPure,
        run_walkItems_ofReplies]
      rfl

end

theorem run_walkDocuments_ofReplies {trail : Trail} (htrail : trail.cursor = [.stream])
    (documents : List Document) :
    ((ofReplies scalar aliasNode).walkDocuments trail documents).run () =
      (documents.map fun document =>
        Visitor.editBlock { scalar, aliasNode } [.document, .stream] document.root, ()) := by
  induction documents with
  | nil => rfl
  | cons document documents ih =>
      rw [walkDocuments, run_bind, run_walkBlock_ofReplies, run_thenPure, ih, ← htrail]
      rfl

end

/-- A visitor of leaves is asked about each scalar and each alias in value position, in order, and
about nothing else.  Its answers alone make the result: the leaves are mapped by them, at their
places, and every other node keeps what it holds itself, its keys included.  A node is shared
exactly if there is no new leaf at or below it, and the nodes above new leaves are rebuilt and not
replaced.  A visitor that decides by the address and the leaf is one of these. -/
theorem rewrites_exactly (visitor : LeafVisitor σ) (stream : Stream) (start : σ) :
    (∃ reply : List Nat → Option Block,
      (visitor.interview stream.leaves).run start =
        (stream.leaves.map fun leaf => (leaf, reply leaf.numbers),
          ((visitor.walkStream stream).run start).2) ∧
      stream.RewritesLeaves reply ((visitor.walkStream stream).run start).1) ∧
    (∀ numbers site, stream.find? numbers = some site → site.node.isLeaf = true →
      ∃ trail, ⟨numbers, trail, site.node⟩ ∈ stream.leaves ∧
        trail.cursor.steps = site.address) ∧
    ∀ scalar aliasNode, Visitor.editStream { scalar, aliasNode } stream =
      (((ofReplies scalar aliasNode).walkStream stream).run ()).1 := by
  obtain ⟨reply, hinterview, hfollows⟩ := exists_follows visitor stream start
  refine ⟨⟨reply, hinterview, Stream.rewritesLeaves hfollows⟩,
    fun numbers site => Stream.mem_leaves hfollows, ?_⟩
  intro scalar aliasNode
  rw [walkStream, run_walkDocuments_ofReplies scalar aliasNode rfl]
  rfl

end LeafVisitor

end LosslessYaml
