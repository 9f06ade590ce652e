import LosslessYaml.Proofs.Reading.Dispatch
import LosslessYaml.Proofs.Reading.Rules

/-!
# A record of reading

What a source is read as does not show the way that the reader took.  This file puts a record beside
the result.  A `Traced` reading is a result with the events on the way to it, in the order in which
they happened, and the functions below take the steps of the reader one for one: where the reader
calls itself, they note from where to where, and where it moves on, they note the place.

The record adds nothing to the result.  That is proved here for every function, so that what later
files prove about recorded events holds of the reader itself, whether it succeeds or fails.

Main statement: `Stream.read_eq_traced`.
-/

namespace LosslessYaml

open Lookahead

/-- The loops of the reader, each over parts of one kind. -/
inductive Loop where
  | documents
  | blockEntries
  | blockItems
  | flowEntries
  | flowItems
deriving DecidableEq

/-- What happens while a source is read. -/
inductive Event where
  /-- The reader stands at a place. -/
  | stands (place : Reader)
  /-- A key of a block mapping is about to be read at a place. -/
  | key (place : Reader)
  /-- A node at a place is about to be read, as a part of the node or entry at another place. -/
  | nested (outer inner : Reader)
  /-- A loop goes on, from the place of one part to the place of the next. -/
  | again (loop : Loop) (earlier later : Reader)
  /-- A node in block context was read, from its first character on. -/
  | content (start after : Reader)
deriving DecidableEq

/-- Where the reader stands when the event happens. -/
def Event.place : Event → Reader
  | .stands place => place
  | .key place => place
  | .nested _ inner => inner
  | .again _ _ later => later
  | .content _ after => after

/-- A reading, with the events on the way to its result. -/
structure Traced (α : Type) where
  events : List Event
  result : Except Failure α

namespace Traced

variable {α β : Type}

/-! ## Putting records together -/

instance : Monad Traced where
  pure a := ⟨[], .ok a⟩
  bind x f :=
    match x.result with
    | .ok a => ⟨x.events ++ (f a).events, (f a).result⟩
    | .error failure => ⟨x.events, .error failure⟩

/-- A reading of which nothing is noted. -/
def silent (result : Except Failure α) : Traced α := ⟨[], result⟩

/-- The reading after an event. -/
def preceded (event : Event) (x : Traced α) : Traced α := ⟨event :: x.events, x.result⟩

/-- The reading, with an event after it if it succeeded. -/
def followed (event : α → Event) (x : Traced α) : Traced α where
  events := x.events ++ (x.result.toOption.map event).toList
  result := x.result

/-- A reading that moves on to the place after what it read. -/
def moving (place : α → Reader) (result : Except Failure α) : Traced α :=
  (silent result).followed fun a => .stands (place a)

theorem result_bind (x : Traced α) (f : α → Traced β) :
    (x >>= f).result = x.result >>= fun a => (f a).result := by
  obtain ⟨events, result⟩ := x
  cases result with
  | ok a => rfl
  | error failure => rfl

@[simp] theorem result_preceded (event : Event) (x : Traced α) :
    (preceded event x).result = x.result := rfl

@[simp] theorem result_followed (event : α → Event) (x : Traced α) :
    (followed event x).result = x.result := rfl

@[simp] theorem result_moving (place : α → Reader) (result : Except Failure α) :
    (moving place result).result = result := rfl

@[simp] theorem result_silent (result : Except Failure α) : (silent result).result = result := rfl

@[simp] theorem result_pure (a : α) : (pure a : Traced α).result = .ok a := rfl

/-! ## Nodes in flow context -/

mutual

/-- The record of `Reader.flowContent`. -/
def flowContent (fuel : Nat) (lead : Text) (r : Reader) : Traced (Block × Reader) :=
  match fuel with
  | 0 => silent (r.fail .tooDeep)
  | fuel + 1 =>
    preceded (.stands r) <|
    match flowOpening r.rest with
    | .ended => silent (r.fail .endInsideFlow)
    | .mapping => do
      let (entries, closing, after) ← flowEntries fuel r (r.skip 1)
      pure (.mapping { lead, layout := .flow closing, entries }, after)
    | .sequence => do
      let (items, closing, after) ← flowItems fuel r (r.skip 1)
      pure (.sequence { lead, layout := .flow closing, items }, after)
    | .quoted quote => do
      let (scalar, after) ← moving Prod.snd (r.quoted quote lead)
      pure (.scalar scalar, after)
    | .aliasNode => moving Prod.snd (.ok (r.aliasNode lead))
    | .tag => silent (r.fail .tag)
    | .anchor => do
      let (name, after) ← moving Prod.snd r.anchorName
      if atFlowEnd after.afterTrivia.rest then
        pure (.scalar { lead, anchor := some ⟨name, []⟩, text := [] }, after)
      else
        let node ← preceded (.nested r after.afterTrivia) (flowContent fuel [] after.afterTrivia)
        silent (r.attach lead ⟨name, after.trivia⟩ node)
    | .missing => moving Prod.snd (.ok (r.plain 0 lead))
    | .plain => moving Prod.snd (.ok (r.plain (plainFlowLength r.rest) lead))

/-- The record of `Reader.flowEntries`. -/
def flowEntries (fuel : Nat) (start r : Reader) : Traced (List (Entry Block) × Text × Reader) :=
  match fuel with
  | 0 => silent (r.fail .tooDeep)
  | fuel + 1 =>
    preceded (.stands r) <|
    if r.afterTrivia.rest.isEmpty then silent (start.fail .unclosedMapping)
    else if r.afterTrivia.rest.head? == some '\x7d' then
      moving (fun found => found.2.2) (.ok ([], r.trivia, r.afterTrivia.skip 1))
    else do
      let (key, afterKey) ← moving Prod.snd r.afterTrivia.flowKey
      let afterColon ← moving id afterKey.afterBlanks.flowColon
      let (value, afterValue) ← preceded (.nested start afterColon.afterTrivia)
        (flowContent fuel afterColon.trivia afterColon.afterTrivia)
      let (comma, next) ← moving Prod.snd (afterValue.separator '\x7d')
      let entry := { lead := r.trivia, key, beforeColon := afterKey.blanks, value, comma }
      let (entries, closing, after) ← preceded (.again .flowEntries r next)
        (flowEntries fuel start next)
      pure (entry :: entries, closing, after)

/-- The record of `Reader.flowItems`. -/
def flowItems (fuel : Nat) (start r : Reader) : Traced (List (Item Block) × Text × Reader) :=
  match fuel with
  | 0 => silent (r.fail .tooDeep)
  | fuel + 1 =>
    preceded (.stands r) <|
    if r.afterTrivia.rest.isEmpty then silent (start.fail .unclosedSequence)
    else if r.afterTrivia.rest.head? == some ']' then
      moving (fun found => found.2.2) (.ok ([], r.trivia, r.afterTrivia.skip 1))
    else do
      let (value, afterValue) ← preceded (.nested start r.afterTrivia)
        (flowContent fuel r.trivia r.afterTrivia)
      if afterValue.afterTrivia.rest.head? == some ':' then
        silent (afterValue.afterTrivia.fail .pairInSequence)
      else
        let (comma, next) ← moving Prod.snd (afterValue.separator ']')
        let (items, closing, after) ← preceded (.again .flowItems r next)
          (flowItems fuel start next)
        pure ({ lead := [], dash := false, value, comma } :: items, closing, after)

end

mutual

theorem flowContent_result (fuel : Nat) (lead : Text) (r : Reader) :
    (flowContent fuel lead r).result = r.flowContent fuel lead := by
  match fuel with
  | 0 => rfl
  | fuel + 1 =>
    rw [flowContent, Reader.flowContent_succ, result_preceded]
    cases flowOpening r.rest with
    | mapping =>
        simp only [result_bind, flowEntries_result fuel]
        rfl
    | sequence =>
        simp only [result_bind, flowItems_result fuel]
        rfl
    | quoted quote =>
        simp only [result_bind]
        rfl
    | anchor =>
        simp only [result_bind]
        refine bind_congr fun found => ?_
        split
        · rfl
        · simp only [result_bind, result_preceded, flowContent_result fuel]
          rfl
    | _ => rfl

theorem flowEntries_result (fuel : Nat) (start r : Reader) :
    (flowEntries fuel start r).result = Reader.flowEntries fuel start r := by
  match fuel with
  | 0 => rfl
  | fuel + 1 =>
    rw [flowEntries, Reader.flowEntries_succ, result_preceded]
    split
    · rfl
    split
    · rfl
    · simp only [result_bind, result_preceded, flowContent_result fuel, flowEntries_result fuel]
      rfl

theorem flowItems_result (fuel : Nat) (start r : Reader) :
    (flowItems fuel start r).result = Reader.flowItems fuel start r := by
  match fuel with
  | 0 => rfl
  | fuel + 1 =>
    rw [flowItems, Reader.flowItems_succ, result_preceded]
    split
    · rfl
    split
    · rfl
    · simp only [result_bind, result_preceded, flowContent_result fuel]
      refine bind_congr fun found => ?_
      split
      · rfl
      · simp only [result_bind, result_preceded, flowItems_result fuel]
        rfl

end

/-! ## Nodes in block context -/

mutual

/-- The record of `Reader.block`. -/
def block (fuel floor : Nat) (place : Place) (r : Reader) : Traced (Block × Reader) :=
  match fuel with
  | 0 => silent (r.fail .tooDeep)
  | fuel + 1 =>
    preceded (.stands r) <|
    if r.stops floor place then pure (.empty, r)
    else blockContent fuel floor place (!r.trivia.contains '\n') r.trivia r.afterTrivia

/-- The record of `Reader.blockContent`. -/
def blockContent (fuel floor : Nat) (place : Place) (sameLine : Bool) (lead : Text) (r : Reader) :
    Traced (Block × Reader) :=
  match fuel with
  | 0 => silent (r.fail .tooDeep)
  | fuel + 1 =>
    preceded (.stands r) <| followed (fun node => .content r node.2) <|
    match opening r.rest with
    | .anchor => anchored fuel floor place lead r
    | .aliasNode => moving Prod.snd (.ok (r.aliasNode lead))
    | .tag => silent (r.fail .tag)
    | .complexKey => silent (r.fail .complexKey)
    | .flow => flowContent fuel lead r
    | .literal => moving Prod.snd (.ok (r.literal .literal floor lead))
    | .folded => moving Prod.snd (.ok (r.literal .folded floor lead))
    | .quoted quote => do
      let (scalar, after) ← moving Prod.snd (r.quoted quote lead)
      pure (.scalar scalar, after)
    | .item =>
      if place == .mappingValue && sameLine then silent (r.fail .sequenceOnKeyLine)
      else do
        let indentless := place == .mappingValue && r.column + 1 == floor
        let (items, after) ← blockItems fuel [] r
        pure (.sequence { lead, indentless, items }, after)
    | .key =>
      if place == .mappingValue && sameLine then silent (r.fail .mappingOnKeyLine)
      else do
        let (entries, after) ← blockEntries fuel [] r
        pure (.mapping { lead, entries }, after)
    | .plain => moving Prod.snd (.ok (r.plain (plainBlockLength floor r.rest) lead))

/-- The record of `Reader.anchored`. -/
def anchored (fuel floor : Nat) (place : Place) (lead : Text) (r : Reader) :
    Traced (Block × Reader) :=
  match fuel with
  | 0 => silent (r.fail .tooDeep)
  | fuel + 1 => do
    let (name, after) ← moving Prod.snd r.anchorName
    if after.stops floor place ||
        (!after.trivia.contains '\n' && atFlowEnd after.afterTrivia.rest) then
      pure (.scalar { lead, anchor := some ⟨name, []⟩, text := [] }, after)
    else
      let node ← preceded (.nested r after.afterTrivia)
        (blockContent fuel floor place (!after.trivia.contains '\n') [] after.afterTrivia)
      silent (r.attach lead ⟨name, after.trivia⟩ node)

/-- The record of `Reader.blockEntries`. -/
def blockEntries (fuel : Nat) (lead : Text) (r : Reader) : Traced (List (Entry Block) × Reader) :=
  match fuel with
  | 0 => silent (r.fail .tooDeep)
  | fuel + 1 =>
    preceded (.key r) <| do
    let (key, afterKey) ← moving Prod.snd r.blockKey
    let colon := afterKey.afterBlanks
    if colon.rest.head? != some ':' then silent (colon.fail .missingColon)
    else
      let (value, after) ← preceded (.nested r (colon.skip 1))
        (block fuel (r.column + 1) .mappingValue (colon.skip 1))
      let entry := { lead, key, beforeColon := afterKey.blanks, value }
      if after.entryFollows r.column then
        let (entries, last) ← preceded (.again .blockEntries r after.afterTrivia)
          (blockEntries fuel after.trivia after.afterTrivia)
        pure (entry :: entries, last)
      else pure ([entry], after)

/-- The record of `Reader.blockItems`. -/
def blockItems (fuel : Nat) (lead : Text) (r : Reader) : Traced (List (Item Block) × Reader) :=
  match fuel with
  | 0 => silent (r.fail .tooDeep)
  | fuel + 1 => do
    let (value, after) ← preceded (.nested r (r.skip 1))
      (block fuel (r.column + 1) .sequenceItem (r.skip 1))
    let item := { lead, dash := true, value }
    if after.itemFollows r.column then
      let (items, last) ← preceded (.again .blockItems r after.afterTrivia)
        (blockItems fuel after.trivia after.afterTrivia)
      pure (item :: items, last)
    else pure ([item], after)

end

mutual

theorem block_result (fuel floor : Nat) (place : Place) (r : Reader) :
    (block fuel floor place r).result = r.block fuel floor place := by
  match fuel with
  | 0 => rfl
  | fuel + 1 =>
    rw [block, Reader.block, result_preceded]
    unfold Reader.stops
    split
    · rfl
    · exact blockContent_result fuel floor place _ _ _

theorem blockContent_result (fuel floor : Nat) (place : Place) (sameLine : Bool) (lead : Text)
    (r : Reader) : (blockContent fuel floor place sameLine lead r).result =
      r.blockContent fuel floor place sameLine lead := by
  match fuel with
  | 0 => rfl
  | fuel + 1 =>
    rw [blockContent, Reader.blockContent]
    simp only [result_preceded, result_followed]
    cases opening r.rest with
    | anchor => exact anchored_result fuel floor place lead r
    | flow => exact flowContent_result fuel lead r
    | quoted quote =>
        simp only [result_bind]
        rfl
    | item =>
        dsimp only
        split
        · rfl
        · simp only [result_bind, blockItems_result fuel]
          rfl
    | key =>
        dsimp only
        split
        · rfl
        · simp only [result_bind, blockEntries_result fuel]
          rfl
    | _ => rfl

theorem anchored_result (fuel floor : Nat) (place : Place) (lead : Text) (r : Reader) :
    (anchored fuel floor place lead r).result = r.anchored fuel floor place lead := by
  match fuel with
  | 0 => rfl
  | fuel + 1 =>
    rw [anchored, Reader.anchored]
    simp only [result_bind]
    refine bind_congr fun found => ?_
    unfold Reader.stops
    split
    · rfl
    · simp only [result_bind, result_preceded, blockContent_result fuel]
      rfl

theorem blockEntries_result (fuel : Nat) (lead : Text) (r : Reader) :
    (blockEntries fuel lead r).result = r.blockEntries fuel lead := by
  match fuel with
  | 0 => rfl
  | fuel + 1 =>
    rw [blockEntries, Reader.blockEntries]
    simp only [result_preceded, result_bind]
    refine bind_congr fun key => ?_
    split
    · rfl
    · simp only [result_bind, result_preceded, block_result fuel]
      refine bind_congr fun value => ?_
      unfold Reader.entryFollows
      split
      · simp only [result_bind, result_preceded, blockEntries_result fuel]
        rfl
      · rfl

theorem blockItems_result (fuel : Nat) (lead : Text) (r : Reader) :
    (blockItems fuel lead r).result = r.blockItems fuel lead := by
  match fuel with
  | 0 => rfl
  | fuel + 1 =>
    rw [blockItems, Reader.blockItems]
    simp only [result_bind, result_preceded, block_result fuel]
    refine bind_congr fun value => ?_
    unfold Reader.itemFollows
    split
    · simp only [result_bind, result_preceded, blockItems_result fuel]
      rfl
    · rfl

end

/-! ## Documents and streams -/

/-- The record of `Reader.document`. -/
def document (fuel : Nat) (lead : Text) (r : Reader) : Traced (Document × Reader) := do
  let (root, afterRoot) ← block fuel 0 .root r.afterDashes
  let (ending, after) ← moving Prod.snd afterRoot.ending
  pure ({ lead, explicit := r.startsDocument, root, ending }, after)

/-- The record of `Reader.moreDocuments`. -/
def moreDocuments (fuel : Nat) (r : Reader) : Traced (List Document × Text × Reader) :=
  match fuel with
  | 0 => silent (r.fail .tooDeep)
  | fuel + 1 =>
    preceded (.stands r) <|
    if r.afterPreamble.rest.isEmpty then
      moving (fun found => found.2.2) (.ok ([], r.preamble, r.afterPreamble))
    else do
      let (first, after) ← document fuel r.preamble r.afterPreamble
      let (documents, suffix, last) ← preceded (.again .documents r after)
        (moreDocuments fuel after)
      pure (first :: documents, suffix, last)

/-- The record of `Reader.stream`. -/
def stream (fuel : Nat) (mark : Text) (r : Reader) : Traced (Stream × Reader) :=
  preceded (.stands r) <|
  if r.afterPreamble.rest.isEmpty then
    moving Prod.snd
      (.ok ({ documents := [⟨mark ++ r.preamble, [], false, .empty, {}⟩] }, r.afterPreamble))
  else do
    let (first, after) ← document fuel (mark ++ r.preamble) r.afterPreamble
    let (documents, suffix, last) ← preceded (.again .documents r after)
      (moreDocuments fuel after)
    pure ({ documents := first :: documents, suffix }, last)

theorem document_result (fuel : Nat) (lead : Text) (r : Reader) :
    (document fuel lead r).result = r.document fuel lead := by
  rw [document, Reader.document]
  simp only [result_bind, block_result]
  rfl

theorem moreDocuments_result (fuel : Nat) (r : Reader) :
    (moreDocuments fuel r).result = r.moreDocuments fuel := by
  induction fuel generalizing r with
  | zero => rfl
  | succ fuel ih =>
      rw [moreDocuments, Reader.moreDocuments, result_preceded]
      split
      · rfl
      · simp only [result_bind, result_preceded, document_result, ih]
        rfl

/-- The record of a stream belongs to the reading of that stream. -/
theorem stream_result (fuel : Nat) (mark : Text) (r : Reader) :
    (stream fuel mark r).result = r.stream fuel mark := by
  rw [stream, Reader.stream, result_preceded]
  split
  · rfl
  · simp only [result_bind, result_preceded, document_result, moreDocuments_result]
    rfl

end Traced

/-- The record of reading a source. -/
def Stream.traced (source : Text) : Traced (Stream × Reader) :=
  Traced.stream (readingFuel (splitMark source).2) (splitMark source).1
    { rest := (splitMark source).2 }

/-- What the record of a source results in is what the source is read as. -/
theorem Stream.read_eq_traced (source : Text) :
    Stream.read source =
      ((Stream.traced source).result.map fun found => ⟨found.1, found.2.dropped⟩).mapError
        (Failure.locate (splitMark source).2) := by
  rw [Stream.traced, Traced.stream_result]
  simp only [Stream.read]
  cases Reader.stream _ _ _ with
  | ok found => rfl
  | error failure => rfl

end LosslessYaml
