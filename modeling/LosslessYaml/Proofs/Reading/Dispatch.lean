import LosslessYaml.Reading.Stream

/-!
# How the reader tells flow nodes apart

In block context the form of a node is found by `opening` before the node is read.  In flow context
the reader looks at the first character itself.  This file gives flow nodes the same treatment: a
form for each way to go on, and the equations of the reader by form.
-/

namespace LosslessYaml

/-- The forms of a node in flow context, told apart by its first character. -/
inductive Lookahead.FlowOpening where
  | ended
  | mapping
  | sequence
  | quoted (quote : Char)
  | aliasNode
  | tag
  | anchor
  | missing
  | plain
deriving DecidableEq

/-- The form of the node that starts here, in flow context. -/
def Lookahead.flowOpening : Text → FlowOpening
  | [] => .ended
  | c :: _ =>
    if c == '\x7b' then .mapping
    else if c == '[' then .sequence
    else if c == '"' || c == '\'' then .quoted c
    else if c == '*' then .aliasNode
    else if c == '!' then .tag
    else if c == '&' then .anchor
    else if c == ',' || c == '\x7d' || c == ']' then .missing
    else .plain

/-- What a text starts with when a flow node of the given form starts there. -/
def Lookahead.FlowOpening.Describes (text : Text) : FlowOpening → Prop
  | .ended => text = []
  | .mapping => ∃ tail, text = '\x7b' :: tail
  | .sequence => ∃ tail, text = '[' :: tail
  | .quoted quote => (quote = '"' ∨ quote = '\'') ∧ ∃ tail, text = quote :: tail
  | .aliasNode => ∃ tail, text = '*' :: tail
  | .tag => ∃ tail, text = '!' :: tail
  | .anchor => ∃ tail, text = '&' :: tail
  | .missing => ∃ c tail, text = c :: tail
  | .plain => ∃ c tail, text = c :: tail

theorem Lookahead.flowOpening_describes (text : Text) : (flowOpening text).Describes text := by
  cases text with
  | nil => rfl
  | cons c rest =>
      rw [flowOpening]
      split
      next h => exact ⟨rest, by rw [eq_of_beq h]⟩
      split
      next h => exact ⟨rest, by rw [eq_of_beq h]⟩
      split
      next h => exact ⟨by simpa using h, rest, rfl⟩
      split
      next h => exact ⟨rest, by rw [eq_of_beq h]⟩
      split
      next h => exact ⟨rest, by rw [eq_of_beq h]⟩
      split
      next h => exact ⟨rest, by rw [eq_of_beq h]⟩
      split
      next => exact ⟨c, rest, rfl⟩
      next => exact ⟨c, rest, rfl⟩

theorem Lookahead.describes_of_flowOpening {text : Text} {form : FlowOpening}
    (h : flowOpening text = form) : form.Describes text := h ▸ flowOpening_describes text

namespace Reader

open Lookahead

/-- A node in flow context is read by its form. -/
theorem flowContent_succ (fuel : Nat) (lead : Text) (r : Reader) :
    r.flowContent (fuel + 1) lead =
      match flowOpening r.rest with
      | .ended => r.fail .endInsideFlow
      | .mapping => do
        let (entries, closing, after) ← flowEntries fuel r (r.skip 1)
        .ok (.mapping { lead, layout := .flow closing, entries }, after)
      | .sequence => do
        let (items, closing, after) ← flowItems fuel r (r.skip 1)
        .ok (.sequence { lead, layout := .flow closing, items }, after)
      | .quoted quote => do
        let (scalar, after) ← r.quoted quote lead
        .ok (.scalar scalar, after)
      | .aliasNode => .ok (r.aliasNode lead)
      | .tag => r.fail .tag
      | .anchor => do
        let (name, after) ← r.anchorName
        if atFlowEnd after.afterTrivia.rest then
          .ok (.scalar { lead, anchor := some ⟨name, []⟩, text := [] }, after)
        else
          let node ← flowContent fuel [] after.afterTrivia
          attach lead ⟨name, after.trivia⟩ r node
      | .missing => .ok (r.plain 0 lead)
      | .plain => .ok (r.plain (plainFlowLength r.rest) lead) := by
  rw [flowContent]
  split
  case h_12 hnil hbrace hbracket hdouble hsingle hstar hbang hamp hcomma hcloseBrace hclose =>
    have hplain : flowOpening r.rest = .plain := by
      match hrest : r.rest with
      | [] => exact absurd hrest hnil
      | c :: tail =>
        have hne : ∀ d, (∀ tail, r.rest = d :: tail → False) → (c == d) = false := by
          intro d hd
          rw [beq_eq_false_iff_ne]
          intro hc
          exact hd tail (hc ▸ hrest)
        simp [flowOpening, hne _ hbrace, hne _ hbracket, hne _ hdouble, hne _ hsingle, hne _ hstar,
          hne _ hbang, hne _ hamp, hne _ hcomma, hne _ hcloseBrace, hne _ hclose]
    rw [hplain]
  all_goals
    next hopen =>
      rw [hopen]
      rfl

private theorem head?_beq_eq_false {c : Char} {text : Text}
    (h : ∀ tail, text = c :: tail → False) : (text.head? == some c) = false := by
  rw [beq_eq_false_iff_ne]
  intro hhead
  obtain ⟨tail, htext⟩ := List.head?_eq_some_iff.mp hhead
  exact h tail htext

theorem separator_eq (closing : Char) (r : Reader) :
    r.separator closing =
      if r.afterTrivia.rest.head? == some ',' then .ok (some r.trivia, r.afterTrivia.skip 1)
      else if r.afterTrivia.rest.head? == some closing then .ok (none, r)
      else r.afterTrivia.fail (.missingSeparator closing) := by
  rw [separator]
  cases r.afterTrivia.rest with
  | nil => rfl
  | cons c tail => rfl

theorem flowColon_eq (r : Reader) :
    r.flowColon =
      if r.rest.head? == some ':' then .ok (r.skip 1)
      else if r.rest.head? == some ',' || r.rest.head? == some '\x7d' then r.fail .keyWithoutValue
      else r.fail .missingFlowColon := by
  rw [flowColon]
  split
  next hrest => rw [if_pos (by rw [hrest]; rfl)]
  next hrest => rw [if_neg (by simp [hrest]), if_pos (by rw [hrest]; rfl)]
  next hrest => rw [if_neg (by simp [hrest]), if_pos (by rw [hrest]; rfl)]
  next hcolon hcomma hbrace =>
    rw [head?_beq_eq_false hcolon, head?_beq_eq_false hcomma, head?_beq_eq_false hbrace]
    rfl

/-- The entries of a flow mapping end at its bracket. -/
theorem flowEntries_succ (fuel : Nat) (start r : Reader) :
    flowEntries (fuel + 1) start r =
      if r.afterTrivia.rest.isEmpty then start.fail .unclosedMapping
      else if r.afterTrivia.rest.head? == some '\x7d' then
        .ok ([], r.trivia, r.afterTrivia.skip 1)
      else (do
        let (key, afterKey) ← r.afterTrivia.flowKey
        let afterColon ← afterKey.afterBlanks.flowColon
        let (value, afterValue) ← flowContent fuel afterColon.trivia afterColon.afterTrivia
        let (comma, next) ← afterValue.separator '\x7d'
        let entry := { lead := r.trivia, key, beforeColon := afterKey.blanks, value, comma }
        let (entries, closing, after) ← flowEntries fuel start next
        .ok (entry :: entries, closing, after)) := by
  rw [flowEntries]
  split
  next hend => rw [if_pos (by rw [hend]; rfl)]
  next hclose => rw [if_neg (by simp [hclose]), if_pos (by simp [hclose])]
  next hnil hbrace =>
    rw [if_neg (by simpa using hnil), head?_beq_eq_false hbrace]
    rfl

/-- The items of a flow sequence end at its bracket. -/
theorem flowItems_succ (fuel : Nat) (start r : Reader) :
    flowItems (fuel + 1) start r =
      if r.afterTrivia.rest.isEmpty then start.fail .unclosedSequence
      else if r.afterTrivia.rest.head? == some ']' then
        .ok ([], r.trivia, r.afterTrivia.skip 1)
      else (do
        let (value, afterValue) ← flowContent fuel r.trivia r.afterTrivia
        if afterValue.afterTrivia.rest.head? == some ':' then
          afterValue.afterTrivia.fail .pairInSequence
        else
          let (comma, next) ← afterValue.separator ']'
          let (items, closing, after) ← flowItems fuel start next
          .ok ({ lead := [], dash := false, value, comma } :: items, closing, after)) := by
  rw [flowItems]
  split
  next hend => rw [if_pos (by rw [hend]; rfl)]
  next hclose => rw [if_neg (by simp [hclose]), if_pos (by simp [hclose])]
  next hnil hbracket =>
    rw [if_neg (by simpa using hnil), head?_beq_eq_false hbracket]
    rfl

end Reader

end LosslessYaml
