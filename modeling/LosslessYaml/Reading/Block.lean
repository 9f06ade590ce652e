import LosslessYaml.Reading.Flow

/-!
# Block collections

Reading of nodes that nest by indentation. A node belongs to the entry or item before it when it
starts at column `floor` or later, which is one past the column of that entry or item. The
recursion is on a bound for the number of nested calls; `Reader.block` reports `tooDeep` when the
bound is used up.
-/

namespace LosslessYaml.Reader

open Lookahead

mutual

/-- Reads the node that follows, or an empty one, reading nothing, where what follows does not
belong to this place. -/
def block (fuel floor : Nat) (place : Place) (r : Reader) : Except Failure (Block × Reader) :=
  match fuel with
  | 0 => r.fail .tooDeep
  | fuel + 1 =>
    let next := r.afterTrivia
    let newLine := r.trivia.contains '\n'
    if next.rest.isEmpty || (newLine && !next.continues floor place) then .ok (.empty, r)
    else blockContent fuel floor place (!newLine) r.trivia next

/-- Reads the node that starts at this place. `sameLine` tells whether it starts on the line of the
key, dash or anchor before it. -/
def blockContent (fuel floor : Nat) (place : Place) (sameLine : Bool) (lead : Text) (r : Reader) :
    Except Failure (Block × Reader) :=
  match fuel with
  | 0 => r.fail .tooDeep
  | fuel + 1 =>
    let onKeyLine := place == .mappingValue && sameLine
    match opening r.rest with
    | .anchor => anchored fuel floor place lead r
    | .aliasNode => .ok (r.aliasNode lead)
    | .tag => r.fail .tag
    | .complexKey => r.fail .complexKey
    | .flow => r.flowContent fuel lead
    | .literal => .ok (r.literal .literal floor lead)
    | .folded => .ok (r.literal .folded floor lead)
    | .quoted quote => do
      let (scalar, after) ← r.quoted quote lead
      .ok (.scalar scalar, after)
    | .item =>
      if onKeyLine then r.fail .sequenceOnKeyLine
      else do
        let indentless := place == .mappingValue && r.column + 1 == floor
        let (items, after) ← blockItems fuel [] r
        .ok (.sequence { lead, indentless, items }, after)
    | .key =>
      if onKeyLine then r.fail .mappingOnKeyLine
      else do
        let (entries, after) ← blockEntries fuel [] r
        .ok (.mapping { lead, entries }, after)
    | .plain => .ok (r.plain (plainBlockLength floor r.rest) lead)

/-- Reads an anchor and the node it names. -/
def anchored (fuel floor : Nat) (place : Place) (lead : Text) (r : Reader) :
    Except Failure (Block × Reader) :=
  match fuel with
  | 0 => r.fail .tooDeep
  | fuel + 1 => do
    let (name, after) ← r.anchorName
    let next := after.afterTrivia
    let newLine := after.trivia.contains '\n'
    if next.rest.isEmpty || (newLine && !next.continues floor place) ||
        (!newLine && atFlowEnd next.rest) then
      .ok (.scalar { lead, anchor := some ⟨name, []⟩, text := [] }, after)
    else
      let node ← blockContent fuel floor place (!newLine) [] next
      attach lead ⟨name, after.trivia⟩ r node

/-- Reads the entries of a block mapping, whose keys stand at the column of this place. -/
def blockEntries (fuel : Nat) (lead : Text) (r : Reader) :
    Except Failure (List (Entry Block) × Reader) :=
  match fuel with
  | 0 => r.fail .tooDeep
  | fuel + 1 => do
    let (key, afterKey) ← r.blockKey
    let colon := afterKey.afterBlanks
    if colon.rest.head? != some ':' then colon.fail .missingColon
    else
      let (value, after) ← block fuel (r.column + 1) .mappingValue (colon.skip 1)
      let entry := { lead, key, beforeColon := afterKey.blanks, value }
      let next := after.afterTrivia
      if after.trivia.contains '\n' && next.column == r.column && !next.atDocumentMark &&
          atKey next.rest then
        let (entries, last) ← blockEntries fuel after.trivia next
        .ok (entry :: entries, last)
      else .ok ([entry], after)

/-- Reads the items of a block sequence, whose dashes stand at the column of this place. -/
def blockItems (fuel : Nat) (lead : Text) (r : Reader) :
    Except Failure (List (Item Block) × Reader) :=
  match fuel with
  | 0 => r.fail .tooDeep
  | fuel + 1 => do
    let (value, after) ← block fuel (r.column + 1) .sequenceItem (r.skip 1)
    let item := { lead, dash := true, value }
    let next := after.afterTrivia
    if after.trivia.contains '\n' && next.column == r.column && atDash next.rest then
      let (items, last) ← blockItems fuel after.trivia next
      .ok (item :: items, last)
    else .ok ([item], after)

end

end LosslessYaml.Reader
