import LosslessYaml.Proofs.Reading.Again

/-!
# Which rule a text is read by

The rules of reading exclude each other: the first characters of a text decide by which of them a
node is read.  This file turns that around, from the start of the text to the shape of the node.
-/

namespace LosslessYaml.Reader

open Text Lookahead

/-! ## Flow context -/

theorem FlowNode.brace_inv {lead tail : Text} {r after : Reader} {node : Block}
    (hopen : r.rest = '\x7b' :: tail) (h : FlowNode lead r node after) :
    ∃ entries closing, node = .mapping { lead, layout := .flow closing, entries } ∧
      FlowEntries (r.skip 1) entries closing after := by
  cases h with
  | mapping _ hentries => exact ⟨_, _, rfl, hentries⟩
  | missing hend => simp [hopen, atFlowEnd] at hend
  | quoted hquote hopen' => rcases hquote with rfl | rfl <;> simp [hopen] at hopen'
  | plain hopen' hmark =>
      rw [hopen] at hopen'
      cases hopen'
      simp [isFlowMark, isFlowIndicator] at hmark
  | sequence hopen' | aliasNode hopen' | anchorAlone hopen' | anchored hopen' =>
      simp [hopen] at hopen'

theorem FlowNode.bracket_inv {lead tail : Text} {r after : Reader} {node : Block}
    (hopen : r.rest = '[' :: tail) (h : FlowNode lead r node after) :
    ∃ items closing, node = .sequence { lead, layout := .flow closing, items } ∧
      FlowItems (r.skip 1) items closing after := by
  cases h with
  | sequence _ hitems => exact ⟨_, _, rfl, hitems⟩
  | missing hend => simp [hopen, atFlowEnd] at hend
  | quoted hquote hopen' => rcases hquote with rfl | rfl <;> simp [hopen] at hopen'
  | plain hopen' hmark =>
      rw [hopen] at hopen'
      cases hopen'
      simp [isFlowMark, isFlowIndicator] at hmark
  | mapping hopen' | aliasNode hopen' | anchorAlone hopen' | anchored hopen' =>
      simp [hopen] at hopen'

theorem FlowNode.anchor_inv {lead tail name : Text} {r middle after : Reader} {node : Block}
    (hopen : r.rest = '&' :: tail) (hname : r.anchorName = .ok (name, middle))
    (hend : atFlowEnd middle.afterTrivia.rest = false) (h : FlowNode lead r node after) :
    ∃ block last, FlowNode [] middle.afterTrivia block last ∧
      block.withAnchor? lead ⟨name, middle.trivia⟩ = some node ∧
      after = last.dropping block.anchor := by
  cases h with
  | anchored _ hname' _ hnode hanchor =>
      cases hname.symm.trans hname'
      exact ⟨_, _, hnode, hanchor, rfl⟩
  | anchorAlone _ hname' hend' =>
      cases hname.symm.trans hname'
      simp [hend] at hend'
  | missing hend => simp [hopen, atFlowEnd] at hend
  | quoted hquote hopen' => rcases hquote with rfl | rfl <;> simp [hopen] at hopen'
  | plain hopen' hmark =>
      rw [hopen] at hopen'
      cases hopen'
      simp [isFlowMark] at hmark
  | mapping hopen' | sequence hopen' | aliasNode hopen' => simp [hopen] at hopen'

/-- A node has an anchor if it starts with one. -/
theorem FlowNode.anchor_eq_none_iff {lead : Text} {r after : Reader} {node : Block}
    (h : FlowNode lead r node after) : node.anchor = none ↔ r.rest.head? ≠ some '&' := by
  cases h with
  | mapping hopen | sequence hopen | aliasNode hopen =>
      simp [hopen, Block.anchor, Reader.aliasNode]
  | anchorAlone hopen => simp [hopen, Block.anchor]
  | anchored hopen _ _ _ hanchor =>
      simp [hopen, (Block.withAnchor?_eq_some hanchor).2.1]
  | quoted hquote hopen hscalar =>
      obtain ⟨text, rfl, -, -⟩ := quoted_eq_ok hscalar
      rcases hquote with rfl | rfl <;> simp [hopen, Block.anchor]
  | missing hend =>
      cases hrest : r.rest with
      | nil => simp [Reader.plain, Block.anchor]
      | cons c tail =>
          simp only [hrest, atFlowEnd, Bool.or_eq_true, beq_iff_eq] at hend
          rcases hend with (rfl | rfl) | rfl <;> simp [Reader.plain, Block.anchor]
  | plain hopen hmark =>
      simp only [hopen, Reader.plain, Block.anchor, List.head?_cons, true_iff, ne_eq,
        Option.some.injEq]
      rintro rfl
      simp [isFlowMark] at hmark

theorem FlowNode.rest_ne_nil {lead : Text} {r after : Reader} {node : Block}
    (h : FlowNode lead r node after) : r.rest ≠ [] := by
  cases h with
  | missing hend =>
      intro hnil
      simp [hnil, atFlowEnd] at hend
  | mapping hopen | sequence hopen | quoted _ hopen | aliasNode hopen | anchorAlone hopen
  | anchored hopen | plain hopen => simp [hopen]

theorem FlowEntries.close_inv {r after : Reader} {entries : List (Entry Block)}
    {closing tail : Text} (hclose : r.afterTrivia.rest = '\x7d' :: tail)
    (h : FlowEntries r entries closing after) :
    entries = [] ∧ closing = r.trivia ∧ after = r.afterTrivia.skip 1 := by
  cases h with
  | close => exact ⟨rfl, rfl, rfl⟩
  | entry hopen hc =>
      rw [hclose] at hopen
      cases hopen
      exact absurd rfl hc

theorem FlowItems.close_inv {r after : Reader} {items : List (Item Block)} {closing tail : Text}
    (hclose : r.afterTrivia.rest = ']' :: tail) (h : FlowItems r items closing after) :
    items = [] ∧ closing = r.trivia ∧ after = r.afterTrivia.skip 1 := by
  cases h with
  | close => exact ⟨rfl, rfl, rfl⟩
  | item hopen hc =>
      rw [hclose] at hopen
      cases hopen
      exact absurd rfl hc

mutual

/-- Entries are read up to a closing brace. -/
theorem FlowEntries.end_inv {r after : Reader} {entries : List (Entry Block)} {closing : Text}
    (h : FlowEntries r entries closing after) :
    ∃ (last : Reader) (tail : Text), last.rest = '\x7d' :: tail ∧ after = last.skip 1 := by
  match h with
  | .close hclose => exact ⟨_, _, hclose, rfl⟩
  | .entry _ _ _ _ _ _ hentries => exact hentries.end_inv

/-- Items are read up to a closing bracket. -/
theorem FlowItems.end_inv {r after : Reader} {items : List (Item Block)} {closing : Text}
    (h : FlowItems r items closing after) :
    ∃ (last : Reader) (tail : Text), last.rest = ']' :: tail ∧ after = last.skip 1 := by
  match h with
  | .close hclose => exact ⟨_, _, hclose, rfl⟩
  | .item _ _ _ _ _ hitems => exact hitems.end_inv

end

/-! ## Block context -/

section Block

variable {floor : Nat} {place : Place} {sameLine : Bool}

theorem rest_ne_nil_of_stops {r : Reader} (hstop : r.stops floor place = false) :
    r.afterTrivia.rest ≠ [] := by
  intro hnil
  simp [stops, hnil] at hstop

theorem BlockNode.missing_inv {r after : Reader} {node : Block}
    (hstop : r.stops floor place = true) (h : BlockNode floor place r node after) :
    node = .empty ∧ after = r := by
  cases h with
  | missing => exact ⟨rfl, rfl⟩
  | content hstop' => simp [hstop] at hstop'

theorem BlockNode.content_inv {r after : Reader} {node : Block}
    (hstop : r.stops floor place = false) (h : BlockNode floor place r node after) :
    BlockContent floor place (!r.trivia.contains '\n') r.trivia r.afterTrivia node after := by
  cases h with
  | missing hstop' => simp [hstop] at hstop'
  | content _ hcontent => exact hcontent

theorem BlockContent.anchor_inv {lead name : Text} {r middle after : Reader} {node : Block}
    (hopen : opening r.rest = .anchor) (hname : r.anchorName = .ok (name, middle))
    (hend : (middle.stops floor place ||
      (!middle.trivia.contains '\n' && atFlowEnd middle.afterTrivia.rest)) = false)
    (h : BlockContent floor place sameLine lead r node after) :
    ∃ block last, BlockContent floor place (!middle.trivia.contains '\n') [] middle.afterTrivia
        block last ∧
      block.withAnchor? lead ⟨name, middle.trivia⟩ = some node ∧
      after = last.dropping block.anchor := by
  cases h with
  | anchored _ hname' _ hcontent hanchor =>
      cases hname.symm.trans hname'
      exact ⟨_, _, hcontent, hanchor, rfl⟩
  | anchorAlone _ hname' hend' =>
      cases hname.symm.trans hname'
      rw [hend] at hend'
      cases hend'
  | aliasNode hopen' | flow hopen' | literal hopen' | folded hopen' | quoted hopen'
  | sequence hopen' | mapping hopen' | plain hopen' => simp [hopen] at hopen'

/-- A node has an anchor only if it starts with one. -/
theorem BlockContent.anchor_eq_none {lead : Text} {r after : Reader} {node : Block}
    (hopen : opening r.rest ≠ .anchor) (h : BlockContent floor place sameLine lead r node after) :
    node.anchor = none := by
  cases h with
  | anchorAlone hopen' | anchored hopen' => exact absurd hopen' hopen
  | flow hopen' hnode =>
      rcases describes_of_opening hopen' with ⟨tail, hopen' | hopen'⟩ <;>
        exact hnode.anchor_eq_none_iff.mpr (by simp [hopen'])
  | quoted _ hscalar =>
      obtain ⟨text, rfl, -, -⟩ := quoted_eq_ok hscalar
      rfl
  | aliasNode | literal | folded | sequence | mapping | plain => rfl

end Block

/-! ## Anchors -/

/-- A name stays on its line. -/
theorem newline_notMem_anchorName {r after : Reader} {name : Text}
    (h : r.anchorName = .ok (name, after)) : '\n' ∉ name := by
  simp only [anchorName] at h
  split at h
  next => simp [fail] at h
  next =>
    cases h
    exact notMem_run _ (by simp) _

/-- No anchor was dropped where the node had none before. -/
theorem dropping_inv {r last : Reader} {text : Text} {anchor : Option Anchor}
    (hkeeps : Keeps r text last) (hdropped : (last.dropping anchor).dropped = r.dropped) :
    anchor = none ∧ last.dropped = r.dropped := by
  have hle := hkeeps.dropped_prefix.length_le
  have hlength := congrArg List.length hdropped
  simp only [dropping, List.length_append] at hlength hdropped
  cases anchor with
  | none => exact ⟨rfl, by simpa using hdropped⟩
  | some anchor =>
      simp only [Option.toList_some, List.length_singleton] at hlength
      omega

/-- The text and the places of an entry, where no anchor was dropped. -/
theorem entry_rest {r afterKey middle : Reader} {key value tail : Text}
    (hkey : Keeps r key afterKey) (hcolon : afterKey.afterBlanks.rest = ':' :: tail)
    (hvalue : Keeps (afterKey.afterBlanks.skip 1) value middle)
    (hdropped : middle.dropped = r.dropped) :
    afterKey.dropped = r.dropped ∧ middle.dropped = (afterKey.afterBlanks.skip 1).dropped ∧
      tail = value ++ middle.rest ∧
      (afterKey.afterBlanks.skip 1).column =
        columnAfter r.column (key ++ afterKey.blanks ++ [':']) := by
  have hcolonKeeps := (Keeps.blanks afterKey).trans (.head hcolon)
  obtain ⟨hfirst, hrest⟩ := hkey.dropped_split (hcolonKeeps.trans hvalue) hdropped
  have hlast := (hcolonKeeps.dropped_split hvalue hrest).2
  refine ⟨hfirst, hlast, ?_, ?_⟩
  · rw [← (hvalue.rest_eq hlast).1]
    simp [skip, hcolon]
  · have hread := (hkey.trans hcolonKeeps).rest_eq (hlast.symm.trans hdropped)
    rw [hread.2, List.append_assoc]

/-! ## What follows a value -/

theorem entryFollows_inv {column : Nat} {r : Reader} (h : r.entryFollows column = true) :
    r.trivia.contains '\n' = true ∧ r.afterTrivia.column = column ∧ r.afterTrivia.rest ≠ [] ∧
      atKey r.afterTrivia.rest = true := by
  simp only [entryFollows, Bool.and_eq_true, beq_iff_eq] at h
  obtain ⟨⟨⟨hline, hcolumn⟩, -⟩, hkey⟩ := h
  refine ⟨hline, hcolumn, fun hnil => ?_, hkey⟩
  simp [hnil, atKey, atBareKey] at hkey

theorem itemFollows_inv {column : Nat} {r : Reader} (h : r.itemFollows column = true) :
    r.trivia.contains '\n' = true ∧ r.afterTrivia.column = column ∧ r.afterTrivia.rest ≠ [] ∧
      atDash r.afterTrivia.rest = true := by
  simp only [itemFollows, Bool.and_eq_true, beq_iff_eq] at h
  obtain ⟨⟨hline, hcolumn⟩, hdash⟩ := h
  refine ⟨hline, hcolumn, fun hnil => ?_, hdash⟩
  simp [hnil, atDash] at hdash

/-- Where no anchor was dropped in entries, none was in the first one or in the others. -/
theorem moreEntries_dropped {floor : Nat} {place : Place} {r afterKey middle last : Reader}
    {key : Scalar} {value : Block} {entries : List (Entry Block)} {tail : Text}
    (hkey : r.blockKey = .ok (key, afterKey)) (hcolon : afterKey.afterBlanks.rest = ':' :: tail)
    (hvalue : BlockNode floor place (afterKey.afterBlanks.skip 1) value middle)
    (hentries : BlockEntries middle.trivia middle.afterTrivia entries last)
    (hdropped : last.dropped = r.dropped) :
    middle.dropped = r.dropped ∧ last.dropped = middle.dropped := by
  obtain ⟨text, -, hkeeps⟩ := hentries.keeps
  exact ((blockEntry_keeps hkey hcolon).trans hvalue.keeps).dropped_split
    ((Keeps.trivia _).trans hkeeps) hdropped

/-- Where no anchor was dropped in items, none was in the first one or in the others. -/
theorem moreItems_dropped {floor : Nat} {place : Place} {r middle last : Reader} {value : Block}
    {items : List (Item Block)} (hvalue : BlockNode floor place (r.skip 1) value middle)
    (hitems : BlockItems middle.trivia middle.afterTrivia items last)
    (hdropped : last.dropped = r.dropped) :
    middle.dropped = r.dropped ∧ last.dropped = middle.dropped := by
  obtain ⟨text, -, hkeeps⟩ := hitems.keeps
  exact hvalue.keeps.dropped_split ((Keeps.trivia _).trans hkeeps) hdropped

/-! ## Streams -/

/-- A stream with content is read as its documents, the first of them after the byte order mark. -/
theorem streamNode_iff {mark : Text} {r last : Reader} {stream : Stream}
    (hmore : r.afterPreamble.rest ≠ []) :
    StreamNode mark r stream last ↔
      ∃ first documents suffix, stream =
          { documents := { first with lead := mark ++ first.lead } :: documents, suffix } ∧
        MoreDocuments r (first :: documents) suffix last := by
  constructor
  · intro h
    cases h with
    | blank hend => exact absurd hend hmore
    | documents _ hfirst hdocuments =>
        obtain ⟨hroot, hending⟩ := hfirst
        exact ⟨_, _, _, rfl, .document hmore (.intro hroot hending) hdocuments⟩
  · rintro ⟨first, documents, suffix, rfl, h⟩
    cases h with
    | document _ hfirst hdocuments =>
        obtain ⟨hroot, hending⟩ := hfirst
        exact .documents hmore (.intro hroot hending) hdocuments

end LosslessYaml.Reader
