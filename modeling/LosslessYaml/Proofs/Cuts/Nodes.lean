import LosslessYaml.Proofs.Cuts.Lines

/-!
# Nodes by positions

The reader of nodes with positions in place of readers.  Each function takes the same steps as the
function of `Reader` with its name, and where that one takes a text from the front of what remains,
this one cuts it out of the source.  At the place of a reader both give the same, so no cut fails on
the way and every error is the one that the reader gives.
-/

namespace LosslessYaml

open Text Lookahead

/-- What was read before a closing bracket, the trivia before the bracket, and the position after
it. -/
def closedAt {α : Type} (source : Text) (found : α × Text × Reader) : α × Text × Nat :=
  (found.1, positioned source found.2)

namespace ByteSource

open Reader

variable {source : Text}

/-! ## Between nodes -/

/-- Takes the trivia. -/
def trivia (s : ByteSource) (start : Nat) : Checked (Text × Nat) := do
  let stop ← s.triviaEnd start
  let text ← s.slice start stop
  return (text, stop)

/-- Gives the node that was read after an anchor its anchor and lead. -/
def attach (s : ByteSource) (lead : Text) (anchor : Anchor) (start : Nat) (node : Block × Nat) :
    Checked (Block × Nat) :=
  match node.1.withAnchor? lead anchor with
  | none => s.errorAt start .anchoredAlias
  | some anchored => .ok (anchored, node.2)

/-- Reads the comma after a flow entry, or finds the closing bracket. -/
def separator (s : ByteSource) (closing : Char) (start : Nat) : Checked (Option Text × Nat) := do
  let stop ← s.triviaEnd start
  if (s.view stop).head? == some ',' then do
    let text ← s.slice start stop
    return (some text, stop + 1)
  else if (s.view stop).head? == some closing then return (none, start)
  else s.errorAt stop (.missingSeparator closing)

/-- Reads the colon after a key of a flow mapping. -/
def flowColon (s : ByteSource) (position : Nat) : Checked Nat :=
  let first := (s.view position).head?
  if first == some ':' then .ok (position + 1)
  else if first == some ',' || first == some '\x7d' then s.errorAt position .keyWithoutValue
  else s.errorAt position .missingFlowColon

/-- Reads a plain scalar in flow context. -/
def flowPlain (s : ByteSource) (lead : Text) (start : Nat) : Checked (Block × Nat) := do
  let stop ← s.runEnd flowStop isTrailing start
  let text ← s.slice start stop
  return (.scalar { lead, text }, stop)

section

variable {r : Reader}

theorem trivia_position (h : Stands source r) :
    (ofText source).trivia (position source r) = .ok (r.trivia, position source r.afterTrivia) := by
  rw [trivia, triviaEnd_position h, ok_bind, slice_trivia h]
  rfl

theorem attach_position {lead : Text} {anchor : Anchor} (h : Stands source r)
    (node : Block × Reader) :
    (ofText source).attach lead anchor (position source r) (positioned source node) =
      located source (positioned source) (r.attach lead anchor node) := by
  obtain ⟨block, after⟩ := node
  rw [attach, Reader.attach]
  dsimp only [positioned]
  cases block.withAnchor? lead anchor with
  | none => exact errorAt_eq h _ _
  | some anchored => rfl

theorem separator_position {closing : Char} (hclosing : closing.toNat < 128) (h : Stands source r) :
    (ofText source).separator closing (position source r) =
      located source (positioned source) (r.separator closing) := by
  rw [separator, triviaEnd_position h, ok_bind, view_position h.afterTrivia,
    head?_octets (by decide), head?_octets hclosing, separator_eq]
  split
  next hcomma =>
    obtain ⟨tail, hrest⟩ := List.head?_eq_some_iff.mp (eq_of_beq hcomma)
    rw [slice_trivia h, ← position_skip_one h.afterTrivia hrest (by decide)]
    rfl
  next =>
    split
    · rfl
    · exact errorAt_eq h.afterTrivia _ _

theorem flowColon_position (h : Stands source r) :
    (ofText source).flowColon (position source r) =
      located source (position source) r.flowColon := by
  rw [flowColon, view_position h, head?_octets (by decide), head?_octets (by decide),
    head?_octets (by decide), flowColon_eq]
  split
  next hcolon =>
    obtain ⟨tail, hrest⟩ := List.head?_eq_some_iff.mp (eq_of_beq hcolon)
    rw [← position_skip_one h hrest (by decide)]
    rfl
  next =>
    split
    · exact errorAt_eq h _ _
    · exact errorAt_eq h _ _

theorem flowColon_stands {after : Reader} (h : Stands source r) (hcolon : r.flowColon = .ok after) :
    Stands source after := by
  obtain ⟨-, rfl⟩ := flowColon_eq_ok hcolon
  exact h.skip 1

theorem flowPlain_position {lead : Text} (h : Stands source r) :
    (ofText source).flowPlain lead (position source r) =
      located source (positioned source) (.ok (r.plain (plainFlowLength r.rest) lead)) := by
  rw [flowPlain, runEnd_position flowStop_narrow h, ok_bind, slice_position h]
  rfl

theorem flowKey_position (h : Stands source r) :
    (ofText source).keyWith (ofText source).bareFlowKey (position source r) =
      located source (positioned source) r.flowKey :=
  keyWith_position bareFlowKey_position h

theorem blockKey_position (h : Stands source r) :
    (ofText source).keyWith (ofText source).bareBlockKey (position source r) =
      located source (positioned source) r.blockKey :=
  keyWith_position bareBlockKey_position h

end

/-! ## Nodes in flow context -/

mutual

/-- Reads the node that starts at a position, in flow context. -/
def flowContent (s : ByteSource) (fuel : Nat) (lead : Text) (position : Nat) :
    Checked (Block × Nat) :=
  match fuel with
  | 0 => s.errorAt position .tooDeep
  | fuel + 1 =>
    match flowOpening (s.view position) with
    | .ended => s.errorAt position .endInsideFlow
    | .mapping => do
      let (entries, closing, after) ← flowEntries s fuel position (position + 1)
      return (.mapping { lead, layout := .flow closing, entries }, after)
    | .sequence => do
      let (items, closing, after) ← flowItems s fuel position (position + 1)
      return (.sequence { lead, layout := .flow closing, items }, after)
    | .quoted _ => do
      let (scalar, after) ← s.quoted lead position
      return (.scalar scalar, after)
    | .aliasNode => s.aliasNode lead position
    | .tag => s.errorAt position .tag
    | .anchor => do
      let (name, after) ← s.anchorName position
      let stop ← s.triviaEnd after
      if atFlowEnd (s.view stop) then
        return (.scalar { lead, anchor := some ⟨name, []⟩, text := [] }, after)
      else do
        let space ← s.slice after stop
        let node ← flowContent s fuel [] stop
        s.attach lead ⟨name, space⟩ position node
    | .missing => return (.scalar { lead, text := [] }, position)
    | .plain => s.flowPlain lead position

/-- Reads the entries of a flow mapping, the trivia before its closing bracket, and the bracket. -/
def flowEntries (s : ByteSource) (fuel start position : Nat) :
    Checked (List (Entry Block) × Text × Nat) :=
  match fuel with
  | 0 => s.errorAt position .tooDeep
  | fuel + 1 => do
    let stop ← s.triviaEnd position
    if (s.view stop).isEmpty then s.errorAt start .unclosedMapping
    else if (s.view stop).head? == some '\x7d' then do
      let closing ← s.slice position stop
      return ([], closing, stop + 1)
    else do
      let lead ← s.slice position stop
      let (key, afterKey) ← s.keyWith s.bareFlowKey stop
      let (beforeColon, colon) ← s.blanks afterKey
      let afterColon ← s.flowColon colon
      let (valueLead, valueStart) ← s.trivia afterColon
      let (value, afterValue) ← flowContent s fuel valueLead valueStart
      let (comma, next) ← s.separator '\x7d' afterValue
      let (entries, closing, after) ← flowEntries s fuel start next
      return ({ lead, key, beforeColon, value, comma } :: entries, closing, after)

/-- Reads the items of a flow sequence, the trivia before its closing bracket, and the bracket. -/
def flowItems (s : ByteSource) (fuel start position : Nat) :
    Checked (List (Item Block) × Text × Nat) :=
  match fuel with
  | 0 => s.errorAt position .tooDeep
  | fuel + 1 => do
    let stop ← s.triviaEnd position
    if (s.view stop).isEmpty then s.errorAt start .unclosedSequence
    else if (s.view stop).head? == some ']' then do
      let closing ← s.slice position stop
      return ([], closing, stop + 1)
    else do
      let (lead, valueStart) ← s.trivia position
      let (value, afterValue) ← flowContent s fuel lead valueStart
      let pair ← s.triviaEnd afterValue
      if (s.view pair).head? == some ':' then s.errorAt pair .pairInSequence
      else do
        let (comma, next) ← s.separator ']' afterValue
        let (items, closing, after) ← flowItems s fuel start next
        return ({ lead := [], dash := false, value, comma } :: items, closing, after)

end

mutual

theorem flowContent_position (fuel : Nat) {lead : Text} {r : Reader} (h : Stands source r) :
    (ofText source).flowContent fuel lead (position source r) =
      located source (positioned source) (r.flowContent fuel lead) := by
  match fuel with
  | 0 =>
    rw [flowContent, Reader.flowContent]
    exact errorAt_eq h _ _
  | fuel + 1 =>
    rw [flowContent, flowContent_succ, view_position h, flowOpening_octets]
    cases hopen : flowOpening r.rest with
    | ended => exact errorAt_eq h _ _
    | mapping =>
        obtain ⟨tail, hrest⟩ := describes_of_flowOpening hopen
        dsimp only
        rw [← position_skip_one h hrest (by decide), flowEntries_position fuel h (h.skip 1)]
        exact located_bind fun found _ => rfl
    | sequence =>
        obtain ⟨tail, hrest⟩ := describes_of_flowOpening hopen
        dsimp only
        rw [← position_skip_one h hrest (by decide), flowItems_position fuel h (h.skip 1)]
        exact located_bind fun found _ => rfl
    | quoted quote =>
        obtain ⟨hquote, tail, hrest⟩ := describes_of_flowOpening hopen
        dsimp only
        rw [quoted_position hquote h hrest]
        exact located_bind fun found _ => rfl
    | aliasNode =>
        obtain ⟨tail, hrest⟩ := describes_of_flowOpening hopen
        exact aliasNode_position h hrest
    | tag => exact errorAt_eq h _ _
    | anchor =>
        obtain ⟨tail, hrest⟩ := describes_of_flowOpening hopen
        dsimp only
        rw [anchorName_position h hrest]
        refine located_bind fun found hname => ?_
        obtain ⟨name, after⟩ := found
        have hafter := h.keeps (anchorName_keeps hrest hname)
        dsimp only [positioned]
        rw [triviaEnd_position hafter, ok_bind, view_position hafter.afterTrivia, atFlowEnd_octets,
          slice_trivia hafter, ok_bind, flowContent_position fuel hafter.afterTrivia]
        split
        · rfl
        · exact located_bind fun node _ => attach_position h node
    | missing =>
        dsimp only
        rw [Reader.plain, skip_zero]
        rfl
    | plain => exact flowPlain_position h

theorem flowEntries_position (fuel : Nat) {start r : Reader} (hstart : Stands source start)
    (h : Stands source r) :
    (ofText source).flowEntries fuel (position source start) (position source r) =
      located source (closedAt source) (Reader.flowEntries fuel start r) := by
  match fuel with
  | 0 =>
    rw [flowEntries, Reader.flowEntries]
    exact errorAt_eq h _ _
  | fuel + 1 =>
    rw [flowEntries, flowEntries_succ, triviaEnd_position h, ok_bind, view_position h.afterTrivia,
      isEmpty_octets, head?_octets (by decide), slice_trivia h]
    split
    next => exact errorAt_eq hstart _ _
    split
    next hclose =>
      obtain ⟨tail, hrest⟩ := List.head?_eq_some_iff.mp (eq_of_beq hclose)
      rw [ok_bind, ← position_skip_one h.afterTrivia hrest (by decide)]
      rfl
    next =>
      rw [ok_bind, flowKey_position h.afterTrivia]
      refine located_bind fun found hkey => ?_
      obtain ⟨key, afterKey⟩ := found
      have hafterKey := h.afterTrivia.keeps (flowKey_keeps hkey)
      dsimp only [positioned]
      rw [blanks_position hafterKey, ok_bind]
      dsimp only
      rw [flowColon_position hafterKey.afterBlanks]
      refine located_bind fun afterColon hcolon => ?_
      have hafterColon := flowColon_stands hafterKey.afterBlanks hcolon
      rw [trivia_position hafterColon, ok_bind]
      dsimp only
      rw [flowContent_position fuel hafterColon.afterTrivia]
      refine located_bind fun found hvalue => ?_
      obtain ⟨value, afterValue⟩ := found
      have hafterValue := hafterColon.afterTrivia.keeps (flowContent_rules fuel hvalue).keeps.2
      dsimp only [positioned]
      rw [separator_position (by decide) hafterValue]
      refine located_bind fun found hcomma => ?_
      obtain ⟨comma, next⟩ := found
      dsimp only [positioned]
      rw [flowEntries_position fuel hstart (hafterValue.keeps (separator_keeps hcomma))]
      exact located_bind fun found _ => rfl

theorem flowItems_position (fuel : Nat) {start r : Reader} (hstart : Stands source start)
    (h : Stands source r) :
    (ofText source).flowItems fuel (position source start) (position source r) =
      located source (closedAt source) (Reader.flowItems fuel start r) := by
  match fuel with
  | 0 =>
    rw [flowItems, Reader.flowItems]
    exact errorAt_eq h _ _
  | fuel + 1 =>
    rw [flowItems, flowItems_succ, triviaEnd_position h, ok_bind, view_position h.afterTrivia,
      isEmpty_octets, head?_octets (by decide), slice_trivia h]
    split
    next => exact errorAt_eq hstart _ _
    split
    next hclose =>
      obtain ⟨tail, hrest⟩ := List.head?_eq_some_iff.mp (eq_of_beq hclose)
      rw [ok_bind, ← position_skip_one h.afterTrivia hrest (by decide)]
      rfl
    next =>
      rw [trivia_position h, ok_bind]
      dsimp only
      rw [flowContent_position fuel h.afterTrivia]
      refine located_bind fun found hvalue => ?_
      obtain ⟨value, afterValue⟩ := found
      have hafterValue := h.afterTrivia.keeps (flowContent_rules fuel hvalue).keeps.2
      dsimp only [positioned]
      rw [triviaEnd_position hafterValue, ok_bind, view_position hafterValue.afterTrivia,
        head?_octets (by decide), separator_position (by decide) hafterValue]
      split
      next => exact errorAt_eq hafterValue.afterTrivia _ _
      next =>
        refine located_bind fun found hcomma => ?_
        obtain ⟨comma, next⟩ := found
        dsimp only [positioned]
        rw [flowItems_position fuel hstart (hafterValue.keeps (separator_keeps hcomma))]
        exact located_bind fun found _ => rfl

end

/-! ## Nodes in block context -/

/-- Whether nothing that belongs to the place follows. -/
def stops (s : ByteSource) (floor : Nat) (place : Place) (next : Peek) : Checked Bool :=
  if next.stop == s.length then .ok true
  else if next.newLine then do
    let more ← s.continues floor place next
    return !more
  else .ok false

/-- Whether another entry of the block mapping at the column follows. -/
def entryFollows (s : ByteSource) (column : Nat) (next : Peek) : Checked Bool :=
  if next.stop == s.length || !next.newLine || next.column != column then .ok false
  else do
    let mark ← s.atDocumentMark next.stop
    return !mark && atKey (s.view next.stop)

/-- Whether another item of the block sequence at the column follows. -/
def itemFollows (s : ByteSource) (column : Nat) (next : Peek) : Bool :=
  next.stop != s.length && next.newLine && next.column == column && atDash (s.view next.stop)

mutual

/-- Reads the node that follows, or an empty one, reading nothing. -/
def block (s : ByteSource) (fuel floor : Nat) (place : Place) (position : Nat) :
    Checked (Block × Nat) :=
  match fuel with
  | 0 => s.errorAt position .tooDeep
  | fuel + 1 => do
    let next ← s.peek position
    let stop ← s.stops floor place next
    if stop then return (.empty, position)
    else do
      let lead ← s.slice position next.stop
      blockContent s fuel floor place (!next.newLine) next.column lead next.stop

/-- Reads the node that starts at a position, in the given column of its line. -/
def blockContent (s : ByteSource) (fuel floor : Nat) (place : Place) (sameLine : Bool)
    (column : Nat) (lead : Text) (position : Nat) : Checked (Block × Nat) :=
  match fuel with
  | 0 => s.errorAt position .tooDeep
  | fuel + 1 =>
    match opening (s.view position) with
    | .anchor => anchored s fuel floor place lead position
    | .aliasNode => s.aliasNode lead position
    | .tag => s.errorAt position .tag
    | .complexKey => s.errorAt position .complexKey
    | .flow => s.flowContent fuel lead position
    | .literal => s.literal .literal floor lead position
    | .folded => s.literal .folded floor lead position
    | .quoted _ => do
      let (scalar, after) ← s.quoted lead position
      return (.scalar scalar, after)
    | .item =>
      if place == .mappingValue && sameLine then s.errorAt position .sequenceOnKeyLine
      else do
        let indentless := place == .mappingValue && column + 1 == floor
        let (items, after) ← blockItems s fuel column [] position
        return (.sequence { lead, indentless, items }, after)
    | .key =>
      if place == .mappingValue && sameLine then s.errorAt position .mappingOnKeyLine
      else do
        let (entries, after) ← blockEntries s fuel column [] position
        return (.mapping { lead, entries }, after)
    | .plain => s.plain floor lead position

/-- Reads an anchor and the node it names. -/
def anchored (s : ByteSource) (fuel floor : Nat) (place : Place) (lead : Text) (position : Nat) :
    Checked (Block × Nat) :=
  match fuel with
  | 0 => s.errorAt position .tooDeep
  | fuel + 1 => do
    let (name, after) ← s.anchorName position
    let next ← s.peek after
    let stop ← s.stops floor place next
    if stop || (!next.newLine && atFlowEnd (s.view next.stop)) then
      return (.scalar { lead, anchor := some ⟨name, []⟩, text := [] }, after)
    else do
      let space ← s.slice after next.stop
      let node ← blockContent s fuel floor place (!next.newLine) next.column [] next.stop
      s.attach lead ⟨name, space⟩ position node

/-- Reads the entries of a block mapping, whose keys stand at the column. -/
def blockEntries (s : ByteSource) (fuel column : Nat) (lead : Text) (position : Nat) :
    Checked (List (Entry Block) × Nat) :=
  match fuel with
  | 0 => s.errorAt position .tooDeep
  | fuel + 1 => do
    let (key, afterKey) ← s.keyWith s.bareBlockKey position
    let (beforeColon, colon) ← s.blanks afterKey
    if (s.view colon).head? != some ':' then s.errorAt colon .missingColon
    else do
      let (value, after) ← block s fuel (column + 1) .mappingValue (colon + 1)
      let next ← s.peek after
      let more ← s.entryFollows column next
      if more then do
        let space ← s.slice after next.stop
        let (entries, last) ← blockEntries s fuel column space next.stop
        return ({ lead, key, beforeColon, value } :: entries, last)
      else return ([{ lead, key, beforeColon, value }], after)

/-- Reads the items of a block sequence, whose dashes stand at the column. -/
def blockItems (s : ByteSource) (fuel column : Nat) (lead : Text) (position : Nat) :
    Checked (List (Item Block) × Nat) :=
  match fuel with
  | 0 => s.errorAt position .tooDeep
  | fuel + 1 => do
    let (value, after) ← block s fuel (column + 1) .sequenceItem (position + 1)
    let next ← s.peek after
    if s.itemFollows column next then do
      let space ← s.slice after next.stop
      let (items, last) ← blockItems s fuel column space next.stop
      return ({ lead, dash := true, value } :: items, last)
    else return ([{ lead, dash := true, value }], after)

end

section

variable {r : Reader}

theorem stops_position {floor : Nat} {place : Place} (h : Stands source r) :
    (ofText source).stops floor place (peeked source r) = .ok (r.stops floor place) := by
  rw [stops, continues_position h, ok_bind, peeked, Reader.stops]
  dsimp only
  rw [position_beq_length h.afterTrivia]
  cases r.afterTrivia.rest.isEmpty <;> cases r.trivia.contains '\n' <;> rfl

theorem entryFollows_position {column : Nat} (h : Stands source r) :
    (ofText source).entryFollows column (peeked source r) = .ok (r.entryFollows column) := by
  rw [entryFollows, peeked, atDocumentMark_position h.afterTrivia, ok_bind,
    view_position h.afterTrivia, atKey_octets, Reader.entryFollows, bne]
  dsimp only
  rw [position_beq_length h.afterTrivia]
  cases r.afterTrivia.rest with
  | nil =>
      -- no key starts at the end of the source
      rw [show atKey [] = false from rfl, Bool.and_false, Bool.and_false]
      exact ite_self _
  | cons c tail =>
      cases r.trivia.contains '\n' <;> cases r.afterTrivia.column == column <;>
        cases r.afterTrivia.atDocumentMark <;> rfl

theorem itemFollows_position {column : Nat} (h : Stands source r) :
    (ofText source).itemFollows column (peeked source r) = r.itemFollows column := by
  rw [itemFollows, peeked, view_position h.afterTrivia, atDash_octets, Reader.itemFollows, bne]
  dsimp only
  rw [position_beq_length h.afterTrivia]
  cases r.afterTrivia.rest with
  | nil => rw [show atDash [] = false from rfl, Bool.and_false, Bool.and_false]
  | cons c tail => rfl

end

mutual

theorem block_position (fuel : Nat) {floor : Nat} {place : Place} {r : Reader}
    (h : Stands source r) :
    (ofText source).block fuel floor place (position source r) =
      located source (positioned source) (r.block fuel floor place) := by
  match fuel with
  | 0 =>
    rw [block, Reader.block]
    exact errorAt_eq h _ _
  | fuel + 1 =>
    rw [block, Reader.block, peek_position h, ok_bind, stops_position h, ok_bind]
    unfold Reader.stops peeked
    dsimp only
    rw [slice_trivia h, ok_bind]
    split
    · rfl
    · exact blockContent_position fuel h.afterTrivia

theorem blockContent_position (fuel : Nat) {floor : Nat} {place : Place} {sameLine : Bool}
    {lead : Text} {r : Reader} (h : Stands source r) :
    (ofText source).blockContent fuel floor place sameLine r.column lead (position source r) =
      located source (positioned source) (r.blockContent fuel floor place sameLine lead) := by
  match fuel with
  | 0 =>
    rw [blockContent, Reader.blockContent]
    exact errorAt_eq h _ _
  | fuel + 1 =>
    rw [blockContent, Reader.blockContent, view_position h, opening_octets]
    dsimp only
    cases hopen : opening r.rest with
    | anchor =>
        obtain ⟨⟨tail, hrest⟩, -⟩ := describes_of_opening hopen
        exact anchored_position fuel h hrest
    | aliasNode =>
        obtain ⟨tail, hrest⟩ := describes_of_opening hopen
        exact aliasNode_position h hrest
    | tag => exact errorAt_eq h _ _
    | complexKey => exact errorAt_eq h _ _
    | flow => exact flowContent_position fuel h
    | literal =>
        obtain ⟨tail, hrest⟩ := describes_of_opening hopen
        exact literal_position h hrest (by decide)
    | folded =>
        obtain ⟨tail, hrest⟩ := describes_of_opening hopen
        exact literal_position h hrest (by decide)
    | quoted quote =>
        obtain ⟨hquote, ⟨tail, hrest⟩, -⟩ := describes_of_opening hopen
        dsimp only
        rw [quoted_position hquote h hrest]
        exact located_bind fun found _ => rfl
    | item =>
        dsimp only
        split
        · exact errorAt_eq h _ _
        · rw [blockItems_position fuel h (describes_of_opening hopen)]
          exact located_bind fun found _ => rfl
    | key =>
        dsimp only
        split
        · exact errorAt_eq h _ _
        · rw [blockEntries_position fuel h]
          exact located_bind fun found _ => rfl
    | plain => exact plain_position h

theorem anchored_position (fuel : Nat) {floor : Nat} {place : Place} {lead tail : Text}
    {r : Reader} (h : Stands source r) (hrest : r.rest = '&' :: tail) :
    (ofText source).anchored fuel floor place lead (position source r) =
      located source (positioned source) (r.anchored fuel floor place lead) := by
  match fuel with
  | 0 =>
    rw [anchored, Reader.anchored]
    exact errorAt_eq h _ _
  | fuel + 1 =>
    rw [anchored, Reader.anchored, anchorName_position h hrest]
    refine located_bind fun found hname => ?_
    obtain ⟨name, after⟩ := found
    have hafter := h.keeps (anchorName_keeps hrest hname)
    dsimp only [positioned]
    rw [peek_position hafter, ok_bind, stops_position hafter, ok_bind]
    unfold Reader.stops peeked
    dsimp only
    rw [view_position hafter.afterTrivia, atFlowEnd_octets, slice_trivia hafter, ok_bind,
      blockContent_position fuel hafter.afterTrivia]
    split
    · rfl
    · exact located_bind fun node _ => attach_position h node

theorem blockEntries_position (fuel : Nat) {lead : Text} {r : Reader} (h : Stands source r) :
    (ofText source).blockEntries fuel r.column lead (position source r) =
      located source (positioned source) (r.blockEntries fuel lead) := by
  match fuel with
  | 0 =>
    rw [blockEntries, Reader.blockEntries]
    exact errorAt_eq h _ _
  | fuel + 1 =>
    rw [blockEntries, Reader.blockEntries, blockKey_position h]
    refine located_bind fun found hkey => ?_
    obtain ⟨key, afterKey⟩ := found
    have hafterKey := h.keeps (blockKey_keeps hkey)
    dsimp only [positioned]
    rw [blanks_position hafterKey, ok_bind]
    dsimp only
    rw [view_position hafterKey.afterBlanks, bne, bne, head?_octets (by decide)]
    split
    next => exact errorAt_eq hafterKey.afterBlanks _ _
    next hcolon =>
      have hhead : afterKey.afterBlanks.rest.head? = some ':' := by simpa using hcolon
      obtain ⟨tail, hrest⟩ := List.head?_eq_some_iff.mp hhead
      have hvalueAt := hafterKey.afterBlanks.skip 1
      rw [← position_skip_one hafterKey.afterBlanks hrest (by decide), block_position fuel hvalueAt]
      refine located_bind fun found hvalue => ?_
      obtain ⟨value, after⟩ := found
      have hafter := hvalueAt.keeps (block_rules fuel hvalue).keeps
      dsimp only [positioned]
      rw [peek_position hafter, ok_bind, entryFollows_position hafter, ok_bind]
      unfold Reader.entryFollows peeked
      dsimp only
      split
      next hmore =>
        -- the column is passed on here, and the reader takes it from the next key: they are equal
        rw [Bool.and_eq_true, Bool.and_eq_true, Bool.and_eq_true, beq_iff_eq] at hmore
        rw [slice_trivia hafter, ok_bind, ← hmore.1.1.2,
          blockEntries_position fuel hafter.afterTrivia]
        exact located_bind fun found _ => rfl
      next => rfl

theorem blockItems_position (fuel : Nat) {lead : Text} {r : Reader} (h : Stands source r)
    (hdash : atDash r.rest = true) :
    (ofText source).blockItems fuel r.column lead (position source r) =
      located source (positioned source) (r.blockItems fuel lead) := by
  match fuel with
  | 0 =>
    rw [blockItems, Reader.blockItems]
    exact errorAt_eq h _ _
  | fuel + 1 =>
    obtain ⟨tail, hrest⟩ := eq_dash_of_atDash hdash
    rw [blockItems, Reader.blockItems, ← position_skip_one h hrest (by decide),
      block_position fuel (h.skip 1)]
    refine located_bind fun found hvalue => ?_
    obtain ⟨value, after⟩ := found
    have hafter := (h.skip 1).keeps (block_rules fuel hvalue).keeps
    dsimp only [positioned]
    rw [peek_position hafter, ok_bind, itemFollows_position hafter]
    unfold Reader.itemFollows peeked
    dsimp only
    split
    next hmore =>
      rw [Bool.and_eq_true, Bool.and_eq_true, beq_iff_eq] at hmore
      rw [slice_trivia hafter, ok_bind, ← hmore.1.2,
        blockItems_position fuel hafter.afterTrivia hmore.2]
      exact located_bind fun found _ => rfl
    next => rfl

end

end ByteSource

end LosslessYaml
