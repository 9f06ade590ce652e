import LosslessYaml.Reading.Reader

/-!
# Flow collections

Reading of nodes between brackets, where line breaks and indentation do not count. The recursion
is on a bound for the number of nested calls; `Reader.flowContent` reports `tooDeep` when the
bound is used up.
-/

namespace LosslessYaml.Reader

open Lookahead

/-- Reads the comma after a flow entry and gives the trivia before it, or finds the closing
bracket and stays before it. -/
def separator (closing : Char) (r : Reader) : Except Failure (Option Text × Reader) :=
  match r.afterTrivia.rest with
  | c :: _ =>
    if c == ',' then .ok (some r.trivia, r.afterTrivia.skip 1)
    else if c == closing then .ok (none, r)
    else r.afterTrivia.fail (.missingSeparator closing)
  | [] => r.afterTrivia.fail (.missingSeparator closing)

/-- Reads the colon after a key of a flow mapping. -/
def flowColon (r : Reader) : Except Failure Reader :=
  match r.rest with
  | ':' :: _ => .ok (r.skip 1)
  | ',' :: _ => r.fail .keyWithoutValue
  | '\x7d' :: _ => r.fail .keyWithoutValue
  | _ => r.fail .missingFlowColon

mutual

/-- Reads the node that starts at this place, in flow context. -/
def flowContent (fuel : Nat) (lead : Text) (r : Reader) : Except Failure (Block × Reader) :=
  match fuel with
  | 0 => r.fail .tooDeep
  | fuel + 1 =>
    match r.rest with
    | [] => r.fail .endInsideFlow
    | '\x7b' :: _ => do
      let (entries, closing, after) ← flowEntries fuel r (r.skip 1)
      .ok (.mapping { lead, layout := .flow closing, entries }, after)
    | '[' :: _ => do
      let (items, closing, after) ← flowItems fuel r (r.skip 1)
      .ok (.sequence { lead, layout := .flow closing, items }, after)
    | '"' :: _ => do
      let (scalar, after) ← r.quoted '"' lead
      .ok (.scalar scalar, after)
    | '\'' :: _ => do
      let (scalar, after) ← r.quoted '\'' lead
      .ok (.scalar scalar, after)
    | '*' :: _ => .ok (r.aliasNode lead)
    | '!' :: _ => r.fail .tag
    | '&' :: _ => do
      let (name, after) ← r.anchorName
      if atFlowEnd after.afterTrivia.rest then
        .ok (.scalar { lead, anchor := some ⟨name, []⟩, text := [] }, after)
      else
        let node ← flowContent fuel [] after.afterTrivia
        attach lead ⟨name, after.trivia⟩ r node
    | ',' :: _ => .ok (r.plain 0 lead)
    | '\x7d' :: _ => .ok (r.plain 0 lead)
    | ']' :: _ => .ok (r.plain 0 lead)
    | text => .ok (r.plain (plainFlowLength text) lead)

/-- Reads the entries of a flow mapping that starts at `start`, the trivia before its closing
bracket, and the bracket. -/
def flowEntries (fuel : Nat) (start r : Reader) :
    Except Failure (List (Entry Block) × Text × Reader) :=
  match fuel with
  | 0 => r.fail .tooDeep
  | fuel + 1 =>
    match r.afterTrivia.rest with
    | [] => start.fail .unclosedMapping
    | '\x7d' :: _ => .ok ([], r.trivia, r.afterTrivia.skip 1)
    | _ => do
      let (key, afterKey) ← r.afterTrivia.flowKey
      let afterColon ← afterKey.afterBlanks.flowColon
      let (value, afterValue) ← flowContent fuel afterColon.trivia afterColon.afterTrivia
      let (comma, next) ← afterValue.separator '\x7d'
      let entry := { lead := r.trivia, key, beforeColon := afterKey.blanks, value, comma }
      let (entries, closing, after) ← flowEntries fuel start next
      .ok (entry :: entries, closing, after)

/-- Reads the items of a flow sequence that starts at `start`, the trivia before its closing
bracket, and the bracket. -/
def flowItems (fuel : Nat) (start r : Reader) :
    Except Failure (List (Item Block) × Text × Reader) :=
  match fuel with
  | 0 => r.fail .tooDeep
  | fuel + 1 =>
    match r.afterTrivia.rest with
    | [] => start.fail .unclosedSequence
    | ']' :: _ => .ok ([], r.trivia, r.afterTrivia.skip 1)
    | _ => do
      let (value, afterValue) ← flowContent fuel r.trivia r.afterTrivia
      if afterValue.afterTrivia.rest.head? == some ':' then
        afterValue.afterTrivia.fail .pairInSequence
      else
        let (comma, next) ← afterValue.separator ']'
        let (items, closing, after) ← flowItems fuel start next
        .ok ({ lead := [], dash := false, value, comma } :: items, closing, after)

end

end LosslessYaml.Reader
