import LosslessYaml.Proofs.Reading.Lookahead
import LosslessYaml.Reading.Stream

/-!
# The rules of reading

The reader recurses on a bound for its nested calls.  What it accepts does not depend on that
bound, and this file says what it accepts without it: `FlowNode`, `BlockNode` and the relations
around them have one rule for each way in which a part of a tree can be read, and every successful
call of the reader is an instance of a rule.

Facts about all trees that can be read are then proved by induction on the rules.  The way back,
from the rules to the reader with its bound, is in `Proofs/Reading/Bound.lean`.
-/

namespace LosslessYaml

open Lookahead

/-- The characters that tell a node in flow context apart from a plain scalar, or end it before it
starts. -/
def Lookahead.isFlowMark (c : Char) : Bool :=
  Text.isFlowIndicator c || c == '"' || c == '\'' || c == '*' || c == '!' || c == '&'

namespace Reader

/-- Whether nothing that belongs to the place follows: the source ends, or goes on with a line that
is not nested here. -/
def stops (floor : Nat) (place : Place) (r : Reader) : Bool :=
  r.afterTrivia.rest.isEmpty || (r.trivia.contains '\n' && !r.afterTrivia.continues floor place)

/-- Whether another entry of the block mapping at the column follows. -/
def entryFollows (column : Nat) (r : Reader) : Bool :=
  r.trivia.contains '\n' && r.afterTrivia.column == column && !r.afterTrivia.atDocumentMark &&
    atKey r.afterTrivia.rest

/-- Whether another item of the block sequence at the column follows. -/
def itemFollows (column : Nat) (r : Reader) : Bool :=
  r.trivia.contains '\n' && r.afterTrivia.column == column && atDash r.afterTrivia.rest

/-- The reader after an anchor was attached to a node that may have carried another one. -/
def dropping (r : Reader) (anchor : Option Anchor) : Reader :=
  { r with dropped := r.dropped ++ anchor.toList }

/-! ## Flow context -/

mutual

/-- A node that starts at a place in flow context, and the place after it. -/
inductive FlowNode : Text → Reader → Block → Reader → Prop
  | mapping {lead closing tail : Text} {r after : Reader} {entries : List (Entry Block)}
      (hopen : r.rest = '\x7b' :: tail)
      (hentries : FlowEntries (r.skip 1) entries closing after) :
      FlowNode lead r (.mapping { lead, layout := .flow closing, entries }) after
  | sequence {lead closing tail : Text} {r after : Reader} {items : List (Item Block)}
      (hopen : r.rest = '[' :: tail)
      (hitems : FlowItems (r.skip 1) items closing after) :
      FlowNode lead r (.sequence { lead, layout := .flow closing, items }) after
  | quoted {lead tail : Text} {r after : Reader} {quote : Char} {scalar : Scalar}
      (hquote : quote = '"' ∨ quote = '\'') (hopen : r.rest = quote :: tail)
      (hscalar : r.quoted quote lead = .ok (scalar, after)) :
      FlowNode lead r (.scalar scalar) after
  | aliasNode {lead tail : Text} {r : Reader} (hopen : r.rest = '*' :: tail) :
      FlowNode lead r (r.aliasNode lead).1 (r.aliasNode lead).2
  | anchorAlone {lead tail name : Text} {r after : Reader} (hopen : r.rest = '&' :: tail)
      (hname : r.anchorName = .ok (name, after))
      (hend : atFlowEnd after.afterTrivia.rest = true) :
      FlowNode lead r (.scalar { lead, anchor := some ⟨name, []⟩, text := [] }) after
  | anchored {lead tail name : Text} {r after last : Reader} {block node : Block}
      (hopen : r.rest = '&' :: tail) (hname : r.anchorName = .ok (name, after))
      (hend : atFlowEnd after.afterTrivia.rest = false)
      (hnode : FlowNode [] after.afterTrivia block last)
      (hanchor : block.withAnchor? lead ⟨name, after.trivia⟩ = some node) :
      FlowNode lead r node (last.dropping block.anchor)
  | missing {lead : Text} {r : Reader} (hend : atFlowEnd r.rest = true) :
      FlowNode lead r (r.plain 0 lead).1 (r.plain 0 lead).2
  | plain {lead tail : Text} {r : Reader} {c : Char} (hopen : r.rest = c :: tail)
      (hmark : isFlowMark c = false) :
      FlowNode lead r (r.plain (plainFlowLength r.rest) lead).1
        (r.plain (plainFlowLength r.rest) lead).2

/-- The entries of a flow mapping from a place on, the trivia before its closing bracket, and the
place after the bracket. -/
inductive FlowEntries : Reader → List (Entry Block) → Text → Reader → Prop
  | close {r : Reader} {tail : Text} (hclose : r.afterTrivia.rest = '\x7d' :: tail) :
      FlowEntries r [] r.trivia (r.afterTrivia.skip 1)
  | entry {r afterKey afterValue next after : Reader} {c : Char} {tail colonTail closing : Text}
      {key : Scalar} {value : Block} {comma : Option Text} {entries : List (Entry Block)}
      (hopen : r.afterTrivia.rest = c :: tail) (hc : c ≠ '\x7d')
      (hkey : r.afterTrivia.flowKey = .ok (key, afterKey))
      (hcolon : afterKey.afterBlanks.rest = ':' :: colonTail)
      (hvalue : FlowNode (afterKey.afterBlanks.skip 1).trivia
        (afterKey.afterBlanks.skip 1).afterTrivia value afterValue)
      (hcomma : afterValue.separator '\x7d' = .ok (comma, next))
      (hentries : FlowEntries next entries closing after) :
      FlowEntries r ({ lead := r.trivia, key, beforeColon := afterKey.blanks, value, comma } ::
        entries) closing after

/-- The items of a flow sequence from a place on, the trivia before its closing bracket, and the
place after the bracket. -/
inductive FlowItems : Reader → List (Item Block) → Text → Reader → Prop
  | close {r : Reader} {tail : Text} (hclose : r.afterTrivia.rest = ']' :: tail) :
      FlowItems r [] r.trivia (r.afterTrivia.skip 1)
  | item {r afterValue next after : Reader} {c : Char} {tail closing : Text} {value : Block}
      {comma : Option Text} {items : List (Item Block)}
      (hopen : r.afterTrivia.rest = c :: tail) (hc : c ≠ ']')
      (hvalue : FlowNode r.trivia r.afterTrivia value afterValue)
      (hpair : afterValue.afterTrivia.rest.head? ≠ some ':')
      (hcomma : afterValue.separator ']' = .ok (comma, next))
      (hitems : FlowItems next items closing after) :
      FlowItems r ({ lead := [], dash := false, value, comma } :: items) closing after

end

/-! ## Block context -/

mutual

/-- The node that follows a place in block context, with its lead, and the place after it. -/
inductive BlockNode : Nat → Place → Reader → Block → Reader → Prop
  | missing {floor : Nat} {place : Place} {r : Reader} (hstop : r.stops floor place = true) :
      BlockNode floor place r .empty r
  | content {floor : Nat} {place : Place} {r after : Reader} {block : Block}
      (hstop : r.stops floor place = false)
      (hcontent : BlockContent floor place (!r.trivia.contains '\n') r.trivia r.afterTrivia block
        after) :
      BlockNode floor place r block after

/-- A node that starts at a place in block context, and the place after it. -/
inductive BlockContent : Nat → Place → Bool → Text → Reader → Block → Reader → Prop
  | anchorAlone {floor : Nat} {place : Place} {sameLine : Bool} {lead name : Text}
      {r after : Reader} (hopen : opening r.rest = .anchor)
      (hname : r.anchorName = .ok (name, after))
      (hend : (after.stops floor place ||
        (!after.trivia.contains '\n' && atFlowEnd after.afterTrivia.rest)) = true) :
      BlockContent floor place sameLine lead r
        (.scalar { lead, anchor := some ⟨name, []⟩, text := [] }) after
  | anchored {floor : Nat} {place : Place} {sameLine : Bool} {lead name : Text}
      {r after last : Reader} {block node : Block} (hopen : opening r.rest = .anchor)
      (hname : r.anchorName = .ok (name, after))
      (hend : (after.stops floor place ||
        (!after.trivia.contains '\n' && atFlowEnd after.afterTrivia.rest)) = false)
      (hcontent : BlockContent floor place (!after.trivia.contains '\n') [] after.afterTrivia block
        last)
      (hanchor : block.withAnchor? lead ⟨name, after.trivia⟩ = some node) :
      BlockContent floor place sameLine lead r node (last.dropping block.anchor)
  | aliasNode {floor : Nat} {place : Place} {sameLine : Bool} {lead : Text} {r : Reader}
      (hopen : opening r.rest = .aliasNode) :
      BlockContent floor place sameLine lead r (r.aliasNode lead).1 (r.aliasNode lead).2
  | flow {floor : Nat} {place : Place} {sameLine : Bool} {lead : Text} {r after : Reader}
      {block : Block} (hopen : opening r.rest = .flow) (hnode : FlowNode lead r block after) :
      BlockContent floor place sameLine lead r block after
  | literal {floor : Nat} {place : Place} {sameLine : Bool} {lead : Text} {r : Reader}
      (hopen : opening r.rest = .literal) :
      BlockContent floor place sameLine lead r (r.literal .literal floor lead).1
        (r.literal .literal floor lead).2
  | folded {floor : Nat} {place : Place} {sameLine : Bool} {lead : Text} {r : Reader}
      (hopen : opening r.rest = .folded) :
      BlockContent floor place sameLine lead r (r.literal .folded floor lead).1
        (r.literal .folded floor lead).2
  | quoted {floor : Nat} {place : Place} {sameLine : Bool} {lead : Text} {r after : Reader}
      {quote : Char} {scalar : Scalar} (hopen : opening r.rest = .quoted quote)
      (hscalar : r.quoted quote lead = .ok (scalar, after)) :
      BlockContent floor place sameLine lead r (.scalar scalar) after
  | sequence {floor : Nat} {place : Place} {sameLine : Bool} {lead : Text} {r after : Reader}
      {items : List (Item Block)} (hopen : opening r.rest = .item)
      (hline : (place == .mappingValue && sameLine) = false)
      (hitems : BlockItems [] r items after) :
      BlockContent floor place sameLine lead r
        (.sequence { lead, indentless := place == .mappingValue && r.column + 1 == floor, items })
        after
  | mapping {floor : Nat} {place : Place} {sameLine : Bool} {lead : Text} {r after : Reader}
      {entries : List (Entry Block)} (hopen : opening r.rest = .key)
      (hline : (place == .mappingValue && sameLine) = false)
      (hentries : BlockEntries [] r entries after) :
      BlockContent floor place sameLine lead r (.mapping { lead, entries }) after
  | plain {floor : Nat} {place : Place} {sameLine : Bool} {lead : Text} {r : Reader}
      (hopen : opening r.rest = .plain) :
      BlockContent floor place sameLine lead r (r.plain (plainBlockLength floor r.rest) lead).1
        (r.plain (plainBlockLength floor r.rest) lead).2

/-- The entries of a block mapping from the key at a place on, the first of them with its lead, and
the place after them. -/
inductive BlockEntries : Text → Reader → List (Entry Block) → Reader → Prop
  | last {lead colonTail : Text} {r afterKey after : Reader} {key : Scalar} {value : Block}
      (hstart : atKey r.rest = true) (hkey : r.blockKey = .ok (key, afterKey))
      (hcolon : afterKey.afterBlanks.rest = ':' :: colonTail)
      (hvalue : BlockNode (r.column + 1) .mappingValue (afterKey.afterBlanks.skip 1) value after)
      (hnext : after.entryFollows r.column = false) :
      BlockEntries lead r [{ lead, key, beforeColon := afterKey.blanks, value }] after
  | more {lead colonTail : Text} {r afterKey after last : Reader} {key : Scalar} {value : Block}
      {entries : List (Entry Block)}
      (hstart : atKey r.rest = true) (hkey : r.blockKey = .ok (key, afterKey))
      (hcolon : afterKey.afterBlanks.rest = ':' :: colonTail)
      (hvalue : BlockNode (r.column + 1) .mappingValue (afterKey.afterBlanks.skip 1) value after)
      (hnext : after.entryFollows r.column = true)
      (hentries : BlockEntries after.trivia after.afterTrivia entries last) :
      BlockEntries lead r ({ lead, key, beforeColon := afterKey.blanks, value } :: entries) last

/-- The items of a block sequence from the dash at a place on, the first of them with its lead, and
the place after them. -/
inductive BlockItems : Text → Reader → List (Item Block) → Reader → Prop
  | last {lead : Text} {r after : Reader} {value : Block} (hstart : atDash r.rest = true)
      (hvalue : BlockNode (r.column + 1) .sequenceItem (r.skip 1) value after)
      (hnext : after.itemFollows r.column = false) :
      BlockItems lead r [{ lead, dash := true, value }] after
  | more {lead : Text} {r after last : Reader} {value : Block} {items : List (Item Block)}
      (hstart : atDash r.rest = true)
      (hvalue : BlockNode (r.column + 1) .sequenceItem (r.skip 1) value after)
      (hnext : after.itemFollows r.column = true)
      (hitems : BlockItems after.trivia after.afterTrivia items last) :
      BlockItems lead r ({ lead, dash := true, value } :: items) last

end

/-! ## Streams -/

/-- Whether a document starts at this place by a mark of its own. -/
def startsDocument (r : Reader) : Bool := r.column == 0 && atDashes r.rest

/-- The place after the mark that a document may start with. -/
def afterDashes (r : Reader) : Reader := if r.startsDocument then r.skip 3 else r

/-- A document from after its preamble on, and the place after it. -/
inductive DocumentNode : Text → Reader → Document → Reader → Prop
  | intro {lead : Text} {r afterRoot after : Reader} {root : Block} {ending : Ending}
      (hroot : BlockNode 0 .root r.afterDashes root afterRoot)
      (hending : afterRoot.ending = .ok (ending, after)) :
      DocumentNode lead r { lead, explicit := r.startsDocument, root, ending } after

/-- The documents after the first, the trivia after the last of them, and the end of the source. -/
inductive MoreDocuments : Reader → List Document → Text → Reader → Prop
  | done {r : Reader} (hend : r.afterPreamble.rest = []) :
      MoreDocuments r [] r.preamble r.afterPreamble
  | document {r after last : Reader} {document : Document} {documents : List Document}
      {suffix : Text} (hmore : r.afterPreamble.rest ≠ [])
      (hdocument : DocumentNode r.preamble r.afterPreamble document after)
      (hdocuments : MoreDocuments after documents suffix last) :
      MoreDocuments r (document :: documents) suffix last

/-- A stream after the byte order mark, and the end of the source. -/
inductive StreamNode (mark : Text) : Reader → Stream → Reader → Prop
  | blank {r : Reader} (hend : r.afterPreamble.rest = []) :
      StreamNode mark r { documents := [⟨mark ++ r.preamble, [], false, .empty, {}⟩] }
        r.afterPreamble
  | documents {r after last : Reader} {first : Document} {documents : List Document}
      {suffix : Text} (hmore : r.afterPreamble.rest ≠ [])
      (hfirst : DocumentNode (mark ++ r.preamble) r.afterPreamble first after)
      (hdocuments : MoreDocuments after documents suffix last) :
      StreamNode mark r { documents := first :: documents, suffix } last

end Reader

/-! ## Every successful call follows the rules -/

namespace Reader

theorem bind_eq_ok {ε α β : Type} {x : Except ε α} {f : α → Except ε β} {b : β} :
    (x >>= f) = .ok b ↔ ∃ a, x = .ok a ∧ f a = .ok b := by
  cases x with
  | error e => simp [bind, Except.bind]
  | ok a => simp [bind, Except.bind]

theorem attach_eq_ok {lead : Text} {anchor : Anchor} {start last after : Reader}
    {block node : Block} (h : attach lead anchor start (block, last) = .ok (node, after)) :
    block.withAnchor? lead anchor = some node ∧ last.dropping block.anchor = after := by
  simp only [attach] at h
  split at h
  next => simp [fail] at h
  next anchored hsome =>
    simp only [Except.ok.injEq, Prod.mk.injEq] at h
    exact ⟨h.1 ▸ hsome, h.2⟩

theorem flowColon_eq_ok {r after : Reader} (h : r.flowColon = .ok after) :
    (∃ tail, r.rest = ':' :: tail) ∧ r.skip 1 = after := by
  unfold flowColon at h
  split at h
  next tail hrest =>
    simp only [Except.ok.injEq] at h
    exact ⟨⟨tail, hrest⟩, h⟩
  all_goals simp [fail] at h

/-- After a flow entry comes a comma, which is read, or the closing bracket, which is not. -/
theorem separator_eq_ok {closing : Char} {r next : Reader} {comma : Option Text}
    (h : r.separator closing = .ok (comma, next)) :
    (∃ tail, r.afterTrivia.rest = ',' :: tail ∧ comma = some r.trivia ∧
      next = r.afterTrivia.skip 1) ∨
    (∃ tail, r.afterTrivia.rest = closing :: tail ∧ comma = none ∧ next = r) := by
  unfold separator at h
  split at h
  next c tail hrest =>
    split at h
    next hc =>
      cases h
      exact .inl ⟨tail, by rw [hrest, eq_of_beq hc], rfl, rfl⟩
    next =>
      split at h
      next hc =>
        cases h
        exact .inr ⟨tail, by rw [hrest, eq_of_beq hc], rfl, rfl⟩
      next => simp [fail] at h
  next => simp [fail] at h

mutual

theorem flowContent_rules (fuel : Nat) {lead : Text} {r after : Reader} {block : Block}
    (h : flowContent fuel lead r = .ok (block, after)) : FlowNode lead r block after := by
  match fuel with
  | 0 => simp [flowContent, fail] at h
  | fuel + 1 =>
    unfold flowContent at h
    split at h
    next => simp [fail] at h
    next tail hopen =>
      obtain ⟨⟨entries, closing, last⟩, hentries, h⟩ := bind_eq_ok.mp h
      simp only [Except.ok.injEq, Prod.mk.injEq] at h
      obtain ⟨rfl, rfl⟩ := h
      exact .mapping hopen (flowEntries_rules fuel hentries)
    next tail hopen =>
      obtain ⟨⟨items, closing, last⟩, hitems, h⟩ := bind_eq_ok.mp h
      simp only [Except.ok.injEq, Prod.mk.injEq] at h
      obtain ⟨rfl, rfl⟩ := h
      exact .sequence hopen (flowItems_rules fuel hitems)
    next tail hopen =>
      obtain ⟨⟨scalar, last⟩, hscalar, h⟩ := bind_eq_ok.mp h
      simp only [Except.ok.injEq, Prod.mk.injEq] at h
      obtain ⟨rfl, rfl⟩ := h
      exact .quoted (.inl rfl) hopen hscalar
    next tail hopen =>
      obtain ⟨⟨scalar, last⟩, hscalar, h⟩ := bind_eq_ok.mp h
      simp only [Except.ok.injEq, Prod.mk.injEq] at h
      obtain ⟨rfl, rfl⟩ := h
      exact .quoted (.inr rfl) hopen hscalar
    next tail hopen =>
      cases h
      exact .aliasNode hopen
    next => simp [fail] at h
    next tail hopen =>
      obtain ⟨⟨name, afterName⟩, hname, h⟩ := bind_eq_ok.mp h
      dsimp only at h
      split at h
      next hend =>
        cases h
        exact .anchorAlone hopen hname hend
      next hend =>
        obtain ⟨⟨node, last⟩, hnode, h⟩ := bind_eq_ok.mp h
        obtain ⟨hanchor, rfl⟩ := attach_eq_ok h
        exact .anchored hopen hname (by simpa using hend) (flowContent_rules fuel hnode) hanchor
    next tail hopen =>
      cases h
      exact .missing (by rw [hopen]; rfl)
    next tail hopen =>
      cases h
      exact .missing (by rw [hopen]; rfl)
    next tail hopen =>
      cases h
      exact .missing (by rw [hopen]; rfl)
    next hnil hbrace hbracket hdouble hsingle hstar hbang hamp hcomma hcloseBrace hcloseBracket =>
      cases h
      match hrest : r.rest with
      | [] => exact absurd hrest hnil
      | c :: tail =>
        rw [← hrest]
        have hne : ∀ d, (∀ tail, r.rest = d :: tail → False) → (c == d) = false := by
          intro d hd
          rw [beq_eq_false_iff_ne]
          rintro rfl
          exact hd tail hrest
        refine .plain hrest ?_
        simp [isFlowMark, Text.isFlowIndicator, hne _ hbrace, hne _ hbracket, hne _ hdouble,
          hne _ hsingle, hne _ hstar, hne _ hbang, hne _ hamp, hne _ hcomma, hne _ hcloseBrace,
          hne _ hcloseBracket]

theorem flowEntries_rules (fuel : Nat) {start r after : Reader} {entries : List (Entry Block)}
    {closing : Text} (h : flowEntries fuel start r = .ok (entries, closing, after)) :
    FlowEntries r entries closing after := by
  match fuel with
  | 0 => simp [flowEntries, fail] at h
  | fuel + 1 =>
    unfold flowEntries at h
    split at h
    next => simp [fail] at h
    next tail hclose =>
      cases h
      exact .close hclose
    next hnil hbrace =>
      obtain ⟨⟨key, afterKey⟩, hkey, h⟩ := bind_eq_ok.mp h
      obtain ⟨afterColon, hcolon, h⟩ := bind_eq_ok.mp h
      obtain ⟨⟨colonTail, hcolonTail⟩, rfl⟩ := flowColon_eq_ok hcolon
      obtain ⟨⟨value, afterValue⟩, hvalue, h⟩ := bind_eq_ok.mp h
      obtain ⟨⟨comma, next⟩, hcomma, h⟩ := bind_eq_ok.mp h
      obtain ⟨⟨more, last, final⟩, hmore, h⟩ := bind_eq_ok.mp h
      cases h
      match hrest : r.afterTrivia.rest with
      | [] => exact absurd hrest hnil
      | c :: tail =>
        exact .entry hrest (fun hc => hbrace tail (hc ▸ hrest)) hkey hcolonTail
          (flowContent_rules fuel hvalue) hcomma (flowEntries_rules fuel hmore)

theorem flowItems_rules (fuel : Nat) {start r after : Reader} {items : List (Item Block)}
    {closing : Text} (h : flowItems fuel start r = .ok (items, closing, after)) :
    FlowItems r items closing after := by
  match fuel with
  | 0 => simp [flowItems, fail] at h
  | fuel + 1 =>
    unfold flowItems at h
    split at h
    next => simp [fail] at h
    next tail hclose =>
      cases h
      exact .close hclose
    next hnil hbracket =>
      obtain ⟨⟨value, afterValue⟩, hvalue, h⟩ := bind_eq_ok.mp h
      dsimp only at h
      split at h
      next => simp [fail] at h
      next hpair =>
        obtain ⟨⟨comma, next⟩, hcomma, h⟩ := bind_eq_ok.mp h
        obtain ⟨⟨more, last, final⟩, hmore, h⟩ := bind_eq_ok.mp h
        cases h
        match hrest : r.afterTrivia.rest with
        | [] => exact absurd hrest hnil
        | c :: tail =>
          exact .item hrest (fun hc => hbracket tail (hc ▸ hrest)) (flowContent_rules fuel hvalue)
            (by simpa using hpair) hcomma (flowItems_rules fuel hmore)

end

mutual

theorem block_rules (fuel : Nat) {floor : Nat} {place : Place} {r after : Reader} {node : Block}
    (h : block fuel floor place r = .ok (node, after)) : BlockNode floor place r node after := by
  match fuel with
  | 0 => simp [block, fail] at h
  | fuel + 1 =>
    unfold block at h
    dsimp only at h
    split at h
    next hstop =>
      cases h
      exact .missing hstop
    next hstop =>
      exact .content (by simpa [stops] using hstop) (blockContent_rules fuel h)

theorem blockContent_rules (fuel : Nat) {floor : Nat} {place : Place} {sameLine : Bool}
    {lead : Text} {r after : Reader} {node : Block}
    (h : blockContent fuel floor place sameLine lead r = .ok (node, after)) :
    BlockContent floor place sameLine lead r node after := by
  match fuel with
  | 0 => simp [blockContent, fail] at h
  | fuel + 1 =>
    unfold blockContent at h
    dsimp only at h
    split at h
    next hopen => exact anchored_rules fuel hopen h
    next hopen =>
      cases h
      exact .aliasNode hopen
    next => simp [fail] at h
    next => simp [fail] at h
    next hopen => exact .flow hopen (flowContent_rules fuel h)
    next hopen =>
      cases h
      exact .literal hopen
    next hopen =>
      cases h
      exact .folded hopen
    next quote hopen =>
      obtain ⟨⟨scalar, last⟩, hscalar, h⟩ := bind_eq_ok.mp h
      cases h
      exact .quoted hopen hscalar
    next hopen =>
      split at h
      next => simp [fail] at h
      next hline =>
        obtain ⟨⟨items, last⟩, hitems, h⟩ := bind_eq_ok.mp h
        cases h
        exact .sequence hopen (by simpa using hline)
          (blockItems_rules fuel (describes_of_opening hopen) hitems)
    next hopen =>
      split at h
      next => simp [fail] at h
      next hline =>
        obtain ⟨⟨entries, last⟩, hentries, h⟩ := bind_eq_ok.mp h
        cases h
        exact .mapping hopen (by simpa using hline)
          (blockEntries_rules fuel (describes_of_opening hopen) hentries)
    next hopen =>
      cases h
      exact .plain hopen

theorem anchored_rules (fuel : Nat) {floor : Nat} {place : Place} {sameLine : Bool} {lead : Text}
    {r after : Reader} {node : Block} (hopen : opening r.rest = .anchor)
    (h : anchored fuel floor place lead r = .ok (node, after)) :
    BlockContent floor place sameLine lead r node after := by
  match fuel with
  | 0 => simp [anchored, fail] at h
  | fuel + 1 =>
    unfold anchored at h
    obtain ⟨⟨name, afterName⟩, hname, h⟩ := bind_eq_ok.mp h
    dsimp only at h
    split at h
    next hend =>
      cases h
      exact .anchorAlone hopen hname hend
    next hend =>
      obtain ⟨⟨block, last⟩, hcontent, h⟩ := bind_eq_ok.mp h
      obtain ⟨hanchor, rfl⟩ := attach_eq_ok h
      exact .anchored hopen hname (Bool.eq_false_iff.mpr hend) (blockContent_rules fuel hcontent)
        hanchor

theorem blockEntries_rules (fuel : Nat) {lead : Text} {r after : Reader}
    {entries : List (Entry Block)} (hstart : atKey r.rest = true)
    (h : blockEntries fuel lead r = .ok (entries, after)) : BlockEntries lead r entries after := by
  match fuel with
  | 0 => simp [blockEntries, fail] at h
  | fuel + 1 =>
    unfold blockEntries at h
    obtain ⟨⟨key, afterKey⟩, hkey, h⟩ := bind_eq_ok.mp h
    dsimp only at h
    split at h
    next => simp [fail] at h
    next hcolon =>
      obtain ⟨⟨value, afterValue⟩, hvalue, h⟩ := bind_eq_ok.mp h
      obtain ⟨colonTail, hcolonTail⟩ : ∃ tail, afterKey.afterBlanks.rest = ':' :: tail :=
        List.head?_eq_some_iff.mp (by simpa using hcolon)
      dsimp only at h
      split at h
      next hnext =>
        obtain ⟨⟨more, last⟩, hmore, h⟩ := bind_eq_ok.mp h
        cases h
        have hatKey : atKey afterValue.afterTrivia.rest = true := by
          simp only [Bool.and_eq_true] at hnext
          exact hnext.2
        exact .more hstart hkey hcolonTail (block_rules fuel hvalue) hnext
          (blockEntries_rules fuel hatKey hmore)
      next hnext =>
        cases h
        exact .last hstart hkey hcolonTail (block_rules fuel hvalue) (Bool.eq_false_iff.mpr hnext)

theorem blockItems_rules (fuel : Nat) {lead : Text} {r after : Reader} {items : List (Item Block)}
    (hstart : atDash r.rest = true) (h : blockItems fuel lead r = .ok (items, after)) :
    BlockItems lead r items after := by
  match fuel with
  | 0 => simp [blockItems, fail] at h
  | fuel + 1 =>
    unfold blockItems at h
    obtain ⟨⟨value, afterValue⟩, hvalue, h⟩ := bind_eq_ok.mp h
    dsimp only at h
    split at h
    next hnext =>
      obtain ⟨⟨more, last⟩, hmore, h⟩ := bind_eq_ok.mp h
      cases h
      have hatDash : atDash afterValue.afterTrivia.rest = true := by
        simp only [Bool.and_eq_true] at hnext
        exact hnext.2
      exact .more hstart (block_rules fuel hvalue) hnext (blockItems_rules fuel hatDash hmore)
    next hnext =>
      cases h
      exact .last hstart (block_rules fuel hvalue) (Bool.eq_false_iff.mpr hnext)

end

/-- After the root of a document comes the end of the source, or a mark at the start of a line. -/
theorem ending_eq_ok {r after : Reader} {ending : Ending} (h : r.ending = .ok (ending, after)) :
    (r.afterTrivia.rest = [] ∧ ending = { lead := r.trivia } ∧ after = r.afterTrivia) ∨
    (r.afterTrivia.column = 0 ∧ atDots r.afterTrivia.rest = true ∧
      ending = { lead := r.trivia, explicit := true } ∧ after = r.afterTrivia.skip 3) ∨
    (r.afterTrivia.column = 0 ∧ atDashes r.afterTrivia.rest = true ∧
      ending = { lead := r.trivia } ∧ after = r.afterTrivia) := by
  unfold Reader.ending at h
  dsimp only at h
  split at h
  next hend =>
    cases h
    exact .inl ⟨by simpa using hend, rfl, rfl⟩
  split at h
  next hdots =>
    cases h
    simp only [Bool.and_eq_true, beq_iff_eq] at hdots
    exact .inr (.inl ⟨hdots.1, hdots.2, rfl, rfl⟩)
  split at h
  next hdashes =>
    cases h
    simp only [Bool.and_eq_true, beq_iff_eq] at hdashes
    exact .inr (.inr ⟨hdashes.1, hdashes.2, rfl, rfl⟩)
  next => simp [fail] at h

theorem document_rules {fuel : Nat} {lead : Text} {r after : Reader} {node : Document}
    (h : document fuel lead r = .ok (node, after)) : DocumentNode lead r node after := by
  unfold document at h
  obtain ⟨⟨root, afterRoot⟩, hroot, h⟩ := bind_eq_ok.mp h
  obtain ⟨⟨ending, last⟩, hending, h⟩ := bind_eq_ok.mp h
  cases h
  exact .intro (block_rules fuel hroot) hending

private theorem moreDocuments_rules (fuel : Nat) {r last : Reader} {documents : List Document}
    {suffix : Text} (h : moreDocuments fuel r = .ok (documents, suffix, last)) :
    MoreDocuments r documents suffix last := by
  induction fuel generalizing r documents with
  | zero => simp [moreDocuments, fail] at h
  | succ fuel ih =>
      unfold moreDocuments at h
      split at h
      next hend =>
        cases h
        exact .done (by simpa using hend)
      next hmore =>
        obtain ⟨⟨first, after⟩, hfirst, h⟩ := bind_eq_ok.mp h
        obtain ⟨⟨others, text, final⟩, hothers, h⟩ := bind_eq_ok.mp h
        cases h
        exact .document (by simpa using hmore) (document_rules hfirst) (ih hothers)

theorem stream_rules {fuel : Nat} {mark : Text} {r last : Reader} {node : Stream}
    (h : stream fuel mark r = .ok (node, last)) : StreamNode mark r node last := by
  unfold stream at h
  dsimp only at h
  split at h
  next hend =>
    cases h
    exact .blank (by simpa using hend)
  next hmore =>
    obtain ⟨⟨first, after⟩, hfirst, h⟩ := bind_eq_ok.mp h
    obtain ⟨⟨others, text, final⟩, hothers, h⟩ := bind_eq_ok.mp h
    cases h
    exact .documents (by simpa using hmore) (document_rules hfirst)
      (moreDocuments_rules fuel hothers)

end Reader

/-- A source that can be read follows the rules, and the dropped anchors are those that its end
knows of. -/
theorem Stream.read_rules {source : Text} {parsed : Parsed}
    (h : Stream.read source = .ok parsed) :
    ∃ last, Reader.StreamNode (splitMark source).1 { rest := (splitMark source).2 } parsed.stream
      last ∧ last.dropped = parsed.dropped := by
  simp only [Stream.read] at h
  split at h
  next stream last hstream =>
    cases h
    exact ⟨last, Reader.stream_rules hstream, rfl⟩
  next => simp at h

end LosslessYaml
