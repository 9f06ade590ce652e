import LosslessYaml.Proofs.Cuts.Trivia
import LosslessYaml.Proofs.Reading.Keys

/-!
# Names, scalars and keys by positions

The parts of a node that hold no other node, found in the bytes and then cut out of the source.  A
backslash takes the next byte with it, which may be the first of several that a character has, or
none at all: the cut is made at the closing quote, and that one is found all the same.
-/

namespace LosslessYaml

open Text Lookahead

/-- A result of reading, taken apart by `place`, with its failure located in the source. -/
def located {α β : Type} (source : Text) (place : α → β) : Except Failure α → Checked β
  | .ok a => .ok (place a)
  | .error failure => .error (.error (failure.locate (splitMark source).2))

/-- What was read, and the position after it. -/
def positioned {α : Type} (source : Text) (found : α × Reader) : α × Nat :=
  (found.1, found.2.position source)

namespace ByteSource

open Reader

section

variable {α β γ δ : Type} {source : Text} {r : Reader}

theorem errorAt_eq (h : Stands source r) (cause : Cause) (place : α → β) :
    (ofText source).errorAt (position source r) cause = located source place (r.fail cause) :=
  errorAt_position h cause

/-- Where the parts of two readings agree, the readings agree. -/
theorem located_bind {place : α → β} {place' : γ → δ} {x : Except Failure α}
    {f : α → Except Failure γ} {g : β → Checked δ}
    (h : ∀ a, x = .ok a → g (place a) = located source place' (f a)) :
    (located source place x >>= g) = located source place' (x >>= f) := by
  cases x with
  | error failure => rfl
  | ok a => exact h a rfl

end

variable {source : Text} {r : Reader}

/-! ## Names -/

/-- Reads `&name`. -/
def anchorName (s : ByteSource) (position : Nat) : Checked (Text × Nat) := do
  let start := position + 1
  let stop := start + nameLength (s.view start)
  if stop == start then s.errorAt position .namelessAnchor
  else do
    let name ← s.slice start stop
    return (name, stop)

/-- Reads `*name`. -/
def aliasNode (s : ByteSource) (lead : Text) (position : Nat) : Checked (Block × Nat) := do
  let start := position + 1
  let stop := start + nameLength (s.view start)
  let name ← s.slice start stop
  return (.aliasNode { lead, name }, stop)

theorem position_skip_beq (h : Stands source r) {n : Nat} (hn : n ≤ r.rest.length) :
    (position source (r.skip n) == position source r) = (n == 0) := by
  have hle := length_le_size (r.taken n)
  rw [taken, List.length_take, Nat.min_eq_left hn] at hle
  rw [position_skip h]
  cases n with
  | zero => simp [taken]
  | succ n =>
      rw [beq_eq_false_iff_ne.mpr (Nat.succ_ne_zero n), beq_eq_false_iff_ne, taken]
      omega

theorem nameEnd_position (h : Stands source r) :
    position source r + nameLength ((ofText source).view (position source r)) =
      position source (r.skip (nameLength r.rest)) := by
  rw [view_position h, nameLength_octets, position_skip h]
  rfl

theorem anchorName_position {tail : Text} (h : Stands source r) (hrest : r.rest = '&' :: tail) :
    (ofText source).anchorName (position source r) =
      located source (positioned source) r.anchorName := by
  have hbody := h.skip 1
  rw [anchorName, ← position_skip_one h hrest (by decide), nameEnd_position hbody,
    position_skip_beq hbody (nameLength_le _), slice_position hbody, Reader.anchorName]
  split
  · exact errorAt_eq h _ _
  · rfl

theorem aliasNode_position {lead tail : Text} (h : Stands source r) (hrest : r.rest = '*' :: tail) :
    (ofText source).aliasNode lead (position source r) =
      located source (positioned source) (.ok (r.aliasNode lead)) := by
  have hbody := h.skip 1
  rw [aliasNode, ← position_skip_one h hrest (by decide), nameEnd_position hbody,
    slice_position hbody]
  rfl

/-! ## Quoted scalars -/

/-- Reads a quoted scalar. -/
def quoted (s : ByteSource) (lead : Text) (position : Nat) : Checked (Scalar × Nat) :=
  match s.view position with
  | [] => .error (.index position)
  | quote :: _ =>
    let start := position + 1
    match quotedLength false quote (s.view start) with
    | none =>
      s.errorAt position (if quote == '"' then .unclosedDoubleQuote else .unclosedSingleQuote)
    | some n => do
      let style := if quote == '"' then .doubleQuoted else .singleQuoted
      let text ← s.slice start (start + n)
      return ({ lead, style, text }, start + n + 1)

theorem quoted_position {quote : Char} {lead tail : Text} (hquote : quote = '"' ∨ quote = '\'')
    (h : Stands source r) (hrest : r.rest = quote :: tail) :
    (ofText source).quoted lead (position source r) =
      located source (positioned source) (r.quoted quote lead) := by
  have hnarrow : quote.toNat < 128 := by rcases hquote with rfl | rfl <;> decide
  have hbody := h.skip 1
  rw [quoted, view_position h, hrest, octets_narrow hnarrow]
  dsimp only
  rw [← position_skip_one h hrest hnarrow, view_position hbody, quotedLength_octets hquote,
    Reader.quoted]
  dsimp only
  cases hlength : quotedLength false quote (r.skip 1).rest with
  | none => exact errorAt_eq h _ _
  | some n =>
      obtain ⟨last, hlast⟩ := drop_quotedLength hlength
      have hstop : position source (r.skip 1) + size ((r.skip 1).rest.take n) =
          position source ((r.skip 1).skip n) := (position_skip hbody n).symm
      have hafter : position source ((r.skip 1).skip n) + 1 =
          position source ((r.skip 1).skip (n + 1)) := by
        rw [← skip_skip, position_skip_one (hbody.skip n) hlast hnarrow]
      show (_ : Checked Text) >>= _ = _
      rw [hstop, slice_position hbody, ok_bind, hafter]
      rfl

/-! ## Plain scalars on one line -/

/-- The position after a run, without the loose characters at its end. -/
def runEnd (s : ByteSource) (stop : Char → Text → Bool) (loose : Char → Bool) (start : Nat) :
    Checked Nat := do
  let text ← s.slice start (start + span stop (s.view start))
  return start + size (text.rdropWhile loose)

theorem rdropWhile_take_span (stop : Char → Text → Bool) (loose : Char → Bool) (text : Text) :
    (text.take (span stop text)).rdropWhile loose = text.take (runLength stop loose text) := by
  have hprefix := List.rdropWhile_prefix loose (text.take (span stop text))
  rw [List.prefix_iff_eq_take, ← runLength_eq_span, List.take_take] at hprefix
  have hle : runLength stop loose text ≤ span stop text := by
    have hlength := (List.rdropWhile_prefix loose (text.take (span stop text))).length_le
    rw [← runLength_eq_span, List.length_take] at hlength
    exact Nat.le_trans hlength (Nat.min_le_left _ _)
  rwa [Nat.min_eq_left hle] at hprefix

theorem runEnd_position {stop : Char → Text → Bool} {loose : Char → Bool}
    (hstop : StopsNarrow stop) (h : Stands source r) :
    (ofText source).runEnd stop loose (position source r) =
      .ok (position source (r.skip (runLength stop loose r.rest))) := by
  have hspan : position source r + size (r.rest.take (span stop r.rest)) =
      position source (r.skip (span stop r.rest)) := (position_skip h _).symm
  rw [runEnd, view_position h, span_octets hstop, hspan, slice_position h, ok_bind, taken,
    rdropWhile_take_span, position_skip h]
  rfl

/-- Where a plain scalar ends on its line, in block context. -/
def lineStop (c : Char) (rest : Text) : Bool := c == '\n' || atComment c rest

/-- Where a plain scalar ends in flow context. -/
def flowStop (c : Char) (rest : Text) : Bool :=
  c == '\n' || isFlowIndicator c || (c == ':' && (atBreak rest || atFlowEnd rest)) ||
    atComment c rest

/-- Where a plain key ends in block context. -/
def keyStop (c : Char) (rest : Text) : Bool := c == '\n' || (c == ':' && atBreak rest)

theorem atComment_octets (c : Char) (rest : Text) :
    atComment c (octets rest) = atComment c rest := by
  rw [atComment, atComment, head?_octets (by decide)]

theorem lineStop_narrow : StopsNarrow lineStop where
  wide c rest h := by simp [lineStop, atComment, isBlank, h.beq]
  octets c rest := by rw [lineStop, lineStop, atComment_octets]

theorem flowStop_narrow : StopsNarrow flowStop where
  wide c rest h := by simp [flowStop, atComment, isBlank, isFlowIndicator, h.beq]
  octets c rest := by
    rw [flowStop, flowStop, atComment_octets, atBreak_octets, atFlowEnd_octets]

theorem keyStop_narrow : StopsNarrow keyStop where
  wide c rest h := by simp [keyStop, h.beq]
  octets c rest := by rw [keyStop, keyStop, atBreak_octets]

/-! ## Keys -/

/-- Takes spaces and tabs. -/
def blanks (s : ByteSource) (start : Nat) : Checked (Text × Nat) := do
  let stop := start + blankLength (s.view start)
  let text ← s.slice start stop
  return (text, stop)

/-- Reads the anchor of a key, if the key has one. -/
def keyAnchor (s : ByteSource) (position : Nat) : Checked (Option Anchor × Nat) :=
  if (s.view position).head? == some '&' then do
    let (name, after) ← s.anchorName position
    let (space, stop) ← s.blanks after
    return (some ⟨name, space⟩, stop)
  else return (none, position)

/-- Reads a plain key, which must not be empty. -/
def plainKey (s : ByteSource) (stop : Char → Text → Bool) (loose : Char → Bool) (start : Nat) :
    Checked (Scalar × Nat) := do
  let last ← s.runEnd stop loose start
  if last == start then s.errorAt start .emptyKey
  else do
    let text ← s.slice start last
    return ({ lead := [], text }, last)

/-- Reads a key of a block mapping, from after its anchor. -/
def bareBlockKey (s : ByteSource) (position : Nat) : Checked (Scalar × Nat) :=
  let first := (s.view position).head?
  if first == some '"' || first == some '\'' then s.quoted [] position
  else s.plainKey keyStop isBlank position

/-- Reads a key of a flow mapping, from after its anchor. -/
def bareFlowKey (s : ByteSource) (position : Nat) : Checked (Scalar × Nat) :=
  let first := (s.view position).head?
  if first == some '"' || first == some '\'' then s.quoted [] position
  else if first == some '[' || first == some '\x7b' then s.errorAt position .complexKey
  else s.plainKey flowStop isTrailing position

/-- Reads a key with its anchor. -/
def keyWith (s : ByteSource) (bare : Nat → Checked (Scalar × Nat)) (start : Nat) :
    Checked (Scalar × Nat) := do
  let (anchor, position) ← s.keyAnchor start
  let (key, after) ← bare position
  return ({ key with anchor }, after)

theorem blanks_position (h : Stands source r) :
    (ofText source).blanks (position source r) = .ok (r.blanks, position source r.afterBlanks) := by
  have hstop : position source r + blankLength (octets r.rest) = position source r.afterBlanks := by
    rw [blankLength, takeWhile_octets isBlank_wide, ← position_skip_takeWhile isBlank_wide h]
    rfl
  rw [blanks, view_position h, hstop, afterBlanks, slice_position h]
  rfl

theorem keyAnchor_position (h : Stands source r) :
    (ofText source).keyAnchor (position source r) =
      located source (positioned source) r.keyAnchor := by
  rw [keyAnchor, view_position h, head?_octets (by decide), Reader.keyAnchor]
  split
  next hamp =>
    obtain ⟨tail, hrest⟩ := List.head?_eq_some_iff.mp (eq_of_beq hamp)
    rw [anchorName_position h hrest]
    refine located_bind ?_
    rintro ⟨name, after⟩ hname
    have hafter := h.keeps (anchorName_keeps hrest hname)
    show ((ofText source).blanks (position source after) >>= _) = _
    rw [blanks_position hafter]
    rfl
  next => rfl

theorem plainKey_position {stop : Char → Text → Bool} {loose : Char → Bool}
    (hstop : StopsNarrow stop) (h : Stands source r) :
    (ofText source).plainKey stop loose (position source r) =
      located source (positioned source) (r.plainKey (runLength stop loose r.rest)) := by
  rw [plainKey, runEnd_position hstop h, ok_bind, position_skip_beq h (runLength_le _ _ _),
    slice_position h, Reader.plainKey]
  split
  · exact errorAt_eq h _ _
  · rfl

theorem exists_quote {text : Text}
    (h : (text.head? == some '"' || text.head? == some '\'') = true) :
    ∃ quote tail, (quote = '"' ∨ quote = '\'') ∧ text = quote :: tail := by
  rw [Bool.or_eq_true, beq_iff_eq, beq_iff_eq, List.head?_eq_some_iff, List.head?_eq_some_iff] at h
  obtain ⟨tail, htext⟩ | ⟨tail, htext⟩ := h
  · exact ⟨'"', tail, .inl rfl, htext⟩
  · exact ⟨'\'', tail, .inr rfl, htext⟩

theorem bareBlockKey_position (h : Stands source r) :
    (ofText source).bareBlockKey (position source r) =
      located source (positioned source) r.bareBlockKey := by
  rw [bareBlockKey, view_position h, head?_octets (by decide), head?_octets (by decide)]
  split
  next hfirst =>
    obtain ⟨quote, tail, hquote, hrest⟩ := exists_quote hfirst
    rw [quoted_position hquote h hrest, bareBlockKey_quoted hquote (by rw [hrest]; rfl)]
  next hfirst =>
    rw [Bool.or_eq_true, beq_iff_eq, beq_iff_eq, not_or] at hfirst
    rw [bareBlockKey_plain hfirst.1 hfirst.2]
    exact plainKey_position keyStop_narrow h

theorem bareFlowKey_position (h : Stands source r) :
    (ofText source).bareFlowKey (position source r) =
      located source (positioned source) r.bareFlowKey := by
  rw [bareFlowKey, view_position h, head?_octets (by decide), head?_octets (by decide),
    head?_octets (by decide), head?_octets (by decide)]
  split
  next hfirst =>
    obtain ⟨quote, tail, hquote, hrest⟩ := exists_quote hfirst
    rw [quoted_position hquote h hrest, bareFlowKey_quoted hquote (by rw [hrest]; rfl)]
  next hfirst =>
    rw [Bool.or_eq_true, beq_iff_eq, beq_iff_eq, not_or] at hfirst
    split
    next hopen =>
      rw [Bool.or_eq_true, beq_iff_eq, beq_iff_eq] at hopen
      have hfail : r.bareFlowKey = r.fail .complexKey :=
        hopen.elim (bareFlowKey_bracket (.inl rfl)) (bareFlowKey_bracket (.inr rfl))
      rw [hfail]
      exact errorAt_eq h _ _
    next hopen =>
      rw [Bool.or_eq_true, beq_iff_eq, beq_iff_eq, not_or] at hopen
      rw [bareFlowKey_plain hfirst.1 hfirst.2 hopen.1 hopen.2]
      exact plainKey_position flowStop_narrow h

/-- A key is read by positions if it is, from after its anchor. -/
theorem keyWith_position {bare : Nat → Checked (Scalar × Nat)}
    {bare' : Reader → Except Failure (Scalar × Reader)}
    (hbare : ∀ {r : Reader}, Stands source r →
      bare (position source r) = located source (positioned source) (bare' r))
    (h : Stands source r) :
    (ofText source).keyWith bare (position source r) =
      located source (positioned source) (Reader.keyWith bare' r) := by
  rw [keyWith, keyAnchor_position h, Reader.keyWith]
  refine located_bind ?_
  rintro ⟨anchor, after⟩ hanchor
  show (bare (position source after) >>= _) = _
  rw [hbare (h.keeps (keyAnchor_keeps hanchor))]
  exact located_bind fun key _ => rfl

end ByteSource

end LosslessYaml
