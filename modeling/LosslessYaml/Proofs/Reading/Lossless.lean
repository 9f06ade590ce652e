import LosslessYaml.Bytes
import LosslessYaml.Proofs.Reading.Rules
import LosslessYaml.Tree.Print

/-!
# Reading loses nothing but stacked anchors

A tree that was read prints as its source, unless an anchor stood before a node that carried one
already.  Then the inner anchor is dropped, and exactly its text is missing.

The invariant is `Reader.Keeps`: between two places of a source, a text was read that holds the
printed text in order, and what it is longer by are the anchors dropped on the way.  Each rule of
reading adds one text to one slot of the tree, so the invariant is composed along the rules.

Main statement: `Stream.print_eq_source_iff`.
-/

namespace LosslessYaml

open Lookahead

/-! ## The parts of a printed node -/

/-- The text of a node without its lead and its anchor. -/
def Block.body : Block → Text
  | .scalar s => s.printBody
  | .aliasNode a => '*' :: a.name
  | .mapping m => m.layout.printOpening '\x7b' ++ printEntries m.entries ++
      m.layout.printClosing '\x7d'
  | .sequence q => q.layout.printOpening '[' ++ printItems q.items ++ q.layout.printClosing ']'

/-- A node prints as its lead, its anchor and its body. -/
theorem Block.print_eq_append (block : Block) :
    block.print = block.lead ++ (Anchor.printOption block.anchor ++ block.body) := by
  cases block with
  | scalar s => simp [Block.print, Scalar.print, Block.lead, Block.anchor, Block.body]
  | aliasNode a =>
      simp [Block.print, Alias.print, Block.lead, Block.anchor, Block.body, Anchor.printOption]
  | mapping m => simp [Block.print, Block.lead, Block.anchor, Block.body]
  | sequence q => simp [Block.print, Block.lead, Block.anchor, Block.body]

theorem printDocuments_cons_append (document : Document) (documents : List Document) (x : Text) :
    (document :: documents).flatMap Document.print ++ x =
      document.lead ++ (printDashes document.explicit ++ (document.root.print ++
        (document.ending.lead ++ (printDots document.ending.explicit ++
          (documents.flatMap Document.print ++ x))))) := by
  simp [Document.print]

/-- An anchor changes the lead and the anchor of a node, and nothing else. -/
theorem Block.withAnchor?_eq_some {lead : Text} {anchor : Anchor} {block node : Block}
    (h : block.withAnchor? lead anchor = some node) :
    node.lead = lead ∧ node.anchor = some anchor ∧ node.body = block.body := by
  cases block with
  | aliasNode a => simp [Block.withAnchor?] at h
  | _ =>
      simp only [Block.withAnchor?, Option.some.injEq] at h
      subst h
      exact ⟨rfl, rfl, rfl⟩

theorem Anchor.print_ne_nil (anchor : Anchor) : anchor.print ≠ [] := by
  simp [Anchor.print]

theorem Text.columnAfter_append (column : Nat) (first second : Text) :
    columnAfter column (first ++ second) = columnAfter (columnAfter column first) second := by
  induction first generalizing column with
  | nil => rfl
  | cons c first ih => exact ih _

namespace Reader

/-! ## The invariant -/

/-- Between the two places a text was read that holds `text` in order, and that is longer than it
by the anchors dropped on the way. -/
def Keeps (r : Reader) (text : Text) (after : Reader) : Prop :=
  ∃ read lost, r.rest = read ++ after.rest ∧ after.column = Text.columnAfter r.column read ∧
    after.dropped = r.dropped ++ lost ∧ text.Sublist read ∧
    read.length = text.length + (lost.flatMap Anchor.print).length

namespace Keeps

theorem refl (r : Reader) : Keeps r [] r := ⟨[], [], by simp [Text.columnAfter]⟩

theorem trans {r middle after : Reader} {first second : Text} (hfirst : Keeps r first middle)
    (hsecond : Keeps middle second after) : Keeps r (first ++ second) after := by
  obtain ⟨read, lost, hrest, hcolumn, hdropped, hsub, hlength⟩ := hfirst
  obtain ⟨read', lost', hrest', hcolumn', hdropped', hsub', hlength'⟩ := hsecond
  refine ⟨read ++ read', lost ++ lost', ?_, ?_, ?_, hsub.append hsub', ?_⟩
  · rw [hrest, hrest', List.append_assoc]
  · rw [hcolumn', hcolumn, Text.columnAfter_append]
  · rw [hdropped', hdropped, List.append_assoc]
  · simp only [List.length_append, List.flatMap_append]
    omega

theorem skip (r : Reader) (n : Nat) : Keeps r (r.taken n) (r.skip n) :=
  ⟨r.taken n, [], by simp [Reader.taken, Reader.skip]⟩

theorem trivia (r : Reader) : Keeps r r.trivia r.afterTrivia := skip r _

theorem blanks (r : Reader) : Keeps r r.blanks r.afterBlanks := skip r _

/-- The next character is read by skipping one. -/
theorem head {r : Reader} {c : Char} {tail : Text} (h : r.rest = c :: tail) :
    Keeps r [c] (r.skip 1) := by
  simpa [Reader.taken, h] using skip r 1

/-- Where an anchor is dropped, its text goes missing. -/
theorem dropping {r after : Reader} {anchor : Option Anchor} {text : Text}
    (h : Keeps r (Anchor.printOption anchor ++ text) after) :
    Keeps r text (after.dropping anchor) := by
  obtain ⟨read, lost, hrest, hcolumn, hdropped, hsub, hlength⟩ := h
  refine ⟨read, lost ++ anchor.toList, hrest, hcolumn, ?_, ?_, ?_⟩
  · simp [Reader.dropping, hdropped]
  · exact (List.sublist_append_right _ _).trans hsub
  · have hprint : (anchor.toList.flatMap Anchor.print).length =
        (Anchor.printOption anchor).length := by
      cases anchor <;> simp [Anchor.printOption]
    simp only [List.length_append, List.flatMap_append] at hlength ⊢
    omega

/-- No place is behind an earlier one. -/
theorem length_le {r after : Reader} {text : Text} (h : Keeps r text after) :
    text.length + after.rest.length ≤ r.rest.length := by
  obtain ⟨read, lost, hrest, -, -, hsub, -⟩ := h
  have := hsub.length_le
  simp only [hrest, List.length_append]
  omega

/-- Dropped anchors stay dropped. -/
theorem dropped_prefix {r after : Reader} {text : Text} (h : Keeps r text after) :
    r.dropped <+: after.dropped := by
  obtain ⟨_, lost, -, -, hdropped, -⟩ := h
  exact ⟨lost, hdropped.symm⟩

/-- Where no anchor was dropped on the whole way, none was on either part of it. -/
theorem dropped_split {r middle after : Reader} {first second : Text}
    (hfirst : Keeps r first middle) (hsecond : Keeps middle second after)
    (hdropped : after.dropped = r.dropped) :
    middle.dropped = r.dropped ∧ after.dropped = middle.dropped := by
  have hmiddle : r.dropped = middle.dropped := by
    refine hfirst.dropped_prefix.eq_of_length_le ?_
    rw [← hdropped]
    exact hsecond.dropped_prefix.length_le
  exact ⟨hmiddle.symm, hdropped.trans hmiddle⟩

/-- Where no anchor was dropped, the text that was read is the printed text. -/
theorem rest_eq {r after : Reader} {text : Text} (h : Keeps r text after)
    (hdropped : after.dropped = r.dropped) :
    r.rest = text ++ after.rest ∧ after.column = Text.columnAfter r.column text := by
  obtain ⟨read, lost, hrest, hcolumn, hlost, hsub, hlength⟩ := h
  have hnil : lost = [] := by simpa [hdropped] using hlost
  subst hnil
  rw [hsub.eq_of_length (by simpa using hlength.symm)]
  exact ⟨hrest, hcolumn⟩

end Keeps

/-! ## Anchors, scalars and keys -/

theorem anchorName_keeps {r after : Reader} {name tail : Text}
    (hopen : r.rest = '&' :: tail) (h : r.anchorName = .ok (name, after)) :
    Keeps r ('&' :: name) after := by
  simp only [anchorName] at h
  split at h
  next => simp [fail] at h
  next =>
    cases h
    exact (Keeps.head hopen).trans (.skip _ _)

theorem quoted_keeps {quote : Char} {lead tail : Text} {r after : Reader}
    {scalar : Scalar} (hquote : quote = '"' ∨ quote = '\'') (hopen : r.rest = quote :: tail)
    (h : r.quoted quote lead = .ok (scalar, after)) :
    scalar.lead = lead ∧ scalar.anchor = none ∧ Keeps r scalar.printBody after := by
  simp only [quoted] at h
  split at h
  next => simp [fail] at h
  next n hlength =>
    cases h
    refine ⟨rfl, rfl, ?_⟩
    obtain ⟨rest, hrest⟩ := drop_quotedLength hlength
    have htaken : (r.skip 1).taken (n + 1) = (r.skip 1).taken n ++ [quote] := by
      rw [taken, taken, List.take_add, hrest]
      rfl
    have hkeeps := (Keeps.head hopen).trans (.skip (r.skip 1) (n + 1))
    rw [htaken] at hkeeps
    rcases hquote with rfl | rfl
    · exact hkeeps
    · exact hkeeps

private theorem aliasNode_keeps {lead tail : Text} {r : Reader} (hopen : r.rest = '*' :: tail) :
    (r.aliasNode lead).1.lead = lead ∧
      Keeps r (Anchor.printOption (r.aliasNode lead).1.anchor ++ (r.aliasNode lead).1.body)
        (r.aliasNode lead).2 :=
  ⟨rfl, (Keeps.head hopen).trans (.skip _ _)⟩

private theorem plain_keeps (n : Nat) (lead : Text) (r : Reader) :
    (r.plain n lead).1.lead = lead ∧
      Keeps r (Anchor.printOption (r.plain n lead).1.anchor ++ (r.plain n lead).1.body)
        (r.plain n lead).2 :=
  ⟨rfl, .skip r n⟩

theorem keyAnchor_keeps {r after : Reader} {anchor : Option Anchor}
    (h : r.keyAnchor = .ok (anchor, after)) : Keeps r (Anchor.printOption anchor) after := by
  unfold keyAnchor at h
  split at h
  next hamp =>
    obtain ⟨⟨name, afterName⟩, hname, h⟩ := bind_eq_ok.mp h
    cases h
    obtain ⟨tail, hrest⟩ := List.head?_eq_some_iff.mp (eq_of_beq hamp)
    exact (anchorName_keeps hrest hname).trans (.blanks afterName)
  next =>
    cases h
    exact .refl r

private theorem plainKey_keeps {n : Nat} {r after : Reader} {key : Scalar}
    (h : r.plainKey n = .ok (key, after)) :
    key.lead = [] ∧ Keeps r key.printBody after := by
  unfold plainKey at h
  split at h
  next => simp [fail] at h
  next =>
    cases h
    exact ⟨rfl, .skip r n⟩

theorem bareBlockKey_keeps {r after : Reader} {key : Scalar}
    (h : r.bareBlockKey = .ok (key, after)) : key.lead = [] ∧ Keeps r key.printBody after := by
  unfold bareBlockKey at h
  split at h
  next tail hopen =>
    obtain ⟨hlead, -, hkeeps⟩ := quoted_keeps (.inl rfl) hopen h
    exact ⟨hlead, hkeeps⟩
  next tail hopen =>
    obtain ⟨hlead, -, hkeeps⟩ := quoted_keeps (.inr rfl) hopen h
    exact ⟨hlead, hkeeps⟩
  next => exact plainKey_keeps h

theorem bareFlowKey_keeps {r after : Reader} {key : Scalar}
    (h : r.bareFlowKey = .ok (key, after)) : key.lead = [] ∧ Keeps r key.printBody after := by
  unfold bareFlowKey at h
  split at h
  next tail hopen =>
    obtain ⟨hlead, -, hkeeps⟩ := quoted_keeps (.inl rfl) hopen h
    exact ⟨hlead, hkeeps⟩
  next tail hopen =>
    obtain ⟨hlead, -, hkeeps⟩ := quoted_keeps (.inr rfl) hopen h
    exact ⟨hlead, hkeeps⟩
  next => simp [fail] at h
  next => simp [fail] at h
  next => exact plainKey_keeps h

/-- A key is read whole when it is read whole from after its anchor. -/
private theorem keyWith_keeps {bare : Reader → Except Failure (Scalar × Reader)}
    (hbare : ∀ {r after : Reader} {key : Scalar}, bare r = .ok (key, after) →
      key.lead = [] ∧ Keeps r key.printBody after)
    {r after : Reader} {key : Scalar} (h : keyWith bare r = .ok (key, after)) :
    Keeps r key.print after := by
  unfold keyWith at h
  obtain ⟨⟨anchor, middle⟩, hanchor, h⟩ := bind_eq_ok.mp h
  obtain ⟨⟨plain, last⟩, hplain, h⟩ := bind_eq_ok.mp h
  cases h
  obtain ⟨hlead, hkeeps⟩ := hbare hplain
  have hprint : { plain with anchor }.print = Anchor.printOption anchor ++ plain.printBody := by
    simp [Scalar.print, Scalar.printBody, hlead]
  rw [hprint]
  exact (keyAnchor_keeps hanchor).trans hkeeps

theorem blockKey_keeps {r after : Reader} {key : Scalar} (h : r.blockKey = .ok (key, after)) :
    Keeps r key.print after := keyWith_keeps bareBlockKey_keeps h

theorem flowKey_keeps {r after : Reader} {key : Scalar} (h : r.flowKey = .ok (key, after)) :
    Keeps r key.print after := keyWith_keeps bareFlowKey_keeps h

/-- A block entry up to its value. -/
theorem blockEntry_keeps {r afterKey : Reader} {key : Scalar} {tail : Text}
    (hkey : r.blockKey = .ok (key, afterKey)) (hcolon : afterKey.afterBlanks.rest = ':' :: tail) :
    Keeps r (key.print ++ afterKey.blanks ++ [':']) (afterKey.afterBlanks.skip 1) :=
  ((blockKey_keeps hkey).trans (.blanks _)).trans (.head hcolon)

theorem separator_keeps {closing : Char} {r after : Reader} {comma : Option Text}
    (h : r.separator closing = .ok (comma, after)) : Keeps r (printComma comma) after := by
  rcases separator_eq_ok h with ⟨tail, hrest, rfl, rfl⟩ | ⟨tail, -, rfl, rfl⟩
  · exact (Keeps.trivia r).trans (.head hrest)
  · exact .refl _

/-! ## Nodes in flow context -/

/-- The node that an anchor was attached to is kept; the anchor that it had before is not. -/
private theorem attached_keeps {r after last : Reader} {lead name : Text} {block node : Block}
    (hname : Keeps r ('&' :: name) after)
    (hnode : Keeps after.afterTrivia (Anchor.printOption block.anchor ++ block.body) last)
    (hanchor : block.withAnchor? lead ⟨name, after.trivia⟩ = some node) :
    node.lead = lead ∧
      Keeps r (Anchor.printOption node.anchor ++ node.body) (last.dropping block.anchor) := by
  obtain ⟨hlead, hsome, hbody⟩ := Block.withAnchor?_eq_some hanchor
  refine ⟨hlead, ?_⟩
  rw [hsome, hbody]
  exact (hname.trans (.trivia after)).trans hnode.dropping

mutual

theorem FlowNode.keeps {lead : Text} {r after : Reader} {block : Block}
    (h : FlowNode lead r block after) :
    block.lead = lead ∧ Keeps r (Anchor.printOption block.anchor ++ block.body) after := by
  match h with
  | .mapping hopen hentries => exact ⟨rfl, by
      simpa [Anchor.printOption, Block.anchor, Block.body, Layout.printOpening,
        Layout.printClosing] using (Keeps.head hopen).trans hentries.keeps⟩
  | .sequence hopen hitems => exact ⟨rfl, by
      simpa [Anchor.printOption, Block.anchor, Block.body, Layout.printOpening,
        Layout.printClosing] using (Keeps.head hopen).trans hitems.keeps⟩
  | .quoted hquote hopen hscalar =>
    obtain ⟨hlead, hnone, hkeeps⟩ := quoted_keeps hquote hopen hscalar
    refine ⟨hlead, ?_⟩
    rw [Block.anchor, hnone]
    exact hkeeps
  | .aliasNode hopen => exact aliasNode_keeps hopen
  | .anchorAlone hopen hname hend => exact ⟨rfl, by
      simpa [Anchor.printOption, Block.anchor, Block.body, Anchor.print, Scalar.printBody] using
        anchorName_keeps hopen hname⟩
  | .anchored hopen hname hend hnode hanchor =>
    exact attached_keeps (anchorName_keeps hopen hname) hnode.keeps.2 hanchor
  | .missing hend => exact plain_keeps 0 lead r
  | .plain hopen hmark => exact plain_keeps _ lead r

theorem FlowEntries.keeps {r after : Reader} {entries : List (Entry Block)} {closing : Text}
    (h : FlowEntries r entries closing after) :
    Keeps r (printEntries entries ++ (closing ++ ['\x7d'])) after := by
  match h with
  | .close hclose => exact (Keeps.trivia r).trans (.head hclose)
  | .entry hopen hc hkey hcolon hvalue hcomma hentries =>
    have hlead := (Keeps.trivia r).trans (flowKey_keeps hkey)
    have hbefore := (hlead.trans (.blanks _)).trans (.head hcolon)
    have hnode := (Keeps.trivia _).trans hvalue.keeps.2
    rw [← hvalue.keeps.1, ← Block.print_eq_append] at hnode
    have hentry := (hbefore.trans hnode).trans (separator_keeps hcomma)
    simpa [printEntries] using hentry.trans hentries.keeps

theorem FlowItems.keeps {r after : Reader} {items : List (Item Block)} {closing : Text}
    (h : FlowItems r items closing after) :
    Keeps r (printItems items ++ (closing ++ [']'])) after := by
  match h with
  | .close hclose => exact (Keeps.trivia r).trans (.head hclose)
  | .item hopen hc hvalue hpair hcomma hitems =>
    have hnode := (Keeps.trivia r).trans hvalue.keeps.2
    rw [← hvalue.keeps.1, ← Block.print_eq_append] at hnode
    have hitem := hnode.trans (separator_keeps hcomma)
    simpa [printItems, printDash] using hitem.trans hitems.keeps

end

/-! ## Nodes in block context -/

mutual

theorem BlockNode.keeps {floor : Nat} {place : Place} {r after : Reader} {block : Block}
    (h : BlockNode floor place r block after) : Keeps r block.print after := by
  match h with
  | .missing hstop => exact .refl r
  | .content hstop hcontent =>
    have hnode := (Keeps.trivia r).trans hcontent.keeps.2
    rwa [← hcontent.keeps.1, ← Block.print_eq_append] at hnode

theorem BlockContent.keeps {floor : Nat} {place : Place} {sameLine : Bool} {lead : Text}
    {r after : Reader} {block : Block}
    (h : BlockContent floor place sameLine lead r block after) :
    block.lead = lead ∧ Keeps r (Anchor.printOption block.anchor ++ block.body) after := by
  match h with
  | .anchorAlone hopen hname hend =>
    obtain ⟨⟨tail, hrest⟩, -⟩ := describes_of_opening hopen
    exact ⟨rfl, by
      simpa [Anchor.printOption, Block.anchor, Block.body, Anchor.print, Scalar.printBody] using
        anchorName_keeps hrest hname⟩
  | .anchored hopen hname hend hcontent hanchor =>
    obtain ⟨⟨tail, hrest⟩, -⟩ := describes_of_opening hopen
    exact attached_keeps (anchorName_keeps hrest hname) hcontent.keeps.2 hanchor
  | .aliasNode hopen =>
    obtain ⟨tail, hrest⟩ := describes_of_opening hopen
    exact aliasNode_keeps hrest
  | .flow hopen hnode => exact hnode.keeps
  | .literal hopen =>
    obtain ⟨tail, hrest⟩ := describes_of_opening hopen
    exact ⟨rfl, (Keeps.head hrest).trans (.skip _ _)⟩
  | .folded hopen =>
    obtain ⟨tail, hrest⟩ := describes_of_opening hopen
    exact ⟨rfl, (Keeps.head hrest).trans (.skip _ _)⟩
  | .quoted hopen hscalar =>
    obtain ⟨hquote, ⟨tail, hrest⟩, -⟩ := describes_of_opening hopen
    obtain ⟨hlead, hnone, hkeeps⟩ := quoted_keeps hquote hrest hscalar
    refine ⟨hlead, ?_⟩
    rw [Block.anchor, hnone]
    exact hkeeps
  | .sequence hopen hline hitems =>
    obtain ⟨text, hprint, hkeeps⟩ := hitems.keeps
    exact ⟨rfl, by
      simpa [Anchor.printOption, Block.anchor, Block.body, Layout.printOpening,
        Layout.printClosing, hprint] using hkeeps⟩
  | .mapping hopen hline hentries =>
    obtain ⟨text, hprint, hkeeps⟩ := hentries.keeps
    exact ⟨rfl, by
      simpa [Anchor.printOption, Block.anchor, Block.body, Layout.printOpening,
        Layout.printClosing, hprint] using hkeeps⟩
  | .plain hopen => exact plain_keeps _ lead r

theorem BlockEntries.keeps {lead : Text} {r after : Reader} {entries : List (Entry Block)}
    (h : BlockEntries lead r entries after) :
    ∃ text, printEntries entries = lead ++ text ∧ Keeps r text after := by
  match h with
  | .last hstart hkey hcolon hvalue hnext =>
    exact ⟨_, by simp [printEntries, printComma],
      (blockEntry_keeps hkey hcolon).trans hvalue.keeps⟩
  | .more hstart hkey hcolon hvalue hnext hentries =>
    obtain ⟨text, hprint, hkeeps⟩ := hentries.keeps
    have hentry := (blockEntry_keeps hkey hcolon).trans hvalue.keeps
    have hmore := (Keeps.trivia _).trans hkeeps
    exact ⟨_, by simp [printEntries, printComma, hprint], hentry.trans hmore⟩

theorem BlockItems.keeps {lead : Text} {r after : Reader} {items : List (Item Block)}
    (h : BlockItems lead r items after) :
    ∃ text, printItems items = lead ++ text ∧ Keeps r text after := by
  match h with
  | .last hstart hvalue hnext =>
    obtain ⟨tail, hrest⟩ := eq_dash_of_atDash hstart
    exact ⟨_, by simp [printItems, printComma, printDash],
      (Keeps.head hrest).trans hvalue.keeps⟩
  | .more hstart hvalue hnext hitems =>
    obtain ⟨tail, hrest⟩ := eq_dash_of_atDash hstart
    obtain ⟨text, hprint, hkeeps⟩ := hitems.keeps
    have hmore := (Keeps.trivia _).trans hkeeps
    exact ⟨_, by simp [printItems, printComma, printDash, hprint],
      ((Keeps.head hrest).trans hvalue.keeps).trans hmore⟩

end

/-! ## Documents and streams -/

theorem afterDashes_keeps (r : Reader) :
    Keeps r (printDashes r.startsDocument) r.afterDashes := by
  unfold afterDashes
  cases hstart : r.startsDocument with
  | false => exact .refl r
  | true =>
      simp only [startsDocument, Bool.and_eq_true] at hstart
      obtain ⟨tail, hrest⟩ := eq_dashes_of_atDashes hstart.2
      simpa [taken, hrest, printDashes] using Keeps.skip r 3

theorem ending_keeps {r after : Reader} {ending : Ending} (h : r.ending = .ok (ending, after)) :
    Keeps r (ending.lead ++ printDots ending.explicit) after := by
  rcases ending_eq_ok h with ⟨-, rfl, rfl⟩ | ⟨-, hdots, rfl, rfl⟩ | ⟨-, -, rfl, rfl⟩
  · simpa [printDots] using Keeps.trivia r
  · obtain ⟨tail, hrest⟩ := eq_dots_of_atDots hdots
    refine (Keeps.trivia r).trans ?_
    simpa [taken, hrest, printDots] using Keeps.skip r.afterTrivia 3
  · simpa [printDots] using Keeps.trivia r

theorem DocumentNode.keeps {lead : Text} {r after : Reader} {document : Document}
    (h : DocumentNode lead r document after) :
    ∃ text, document.print = lead ++ text ∧ Keeps r text after := by
  cases h with
  | intro hroot hending =>
      refine ⟨_, ?_, ((afterDashes_keeps r).trans hroot.keeps).trans (ending_keeps hending)⟩
      simp [Document.print]

theorem preamble_keeps (r : Reader) : Keeps r r.preamble r.afterPreamble := .skip r _

theorem MoreDocuments.keeps {r last : Reader} {documents : List Document} {suffix : Text}
    (h : MoreDocuments r documents suffix last) :
    last.rest = [] ∧ Keeps r (documents.flatMap Document.print ++ suffix) last := by
  induction h with
  | done hend => exact ⟨hend, by simpa using preamble_keeps _⟩
  | document hmore hdocument hdocuments ih =>
      obtain ⟨text, hprint, hkeeps⟩ := hdocument.keeps
      refine ⟨ih.1, ?_⟩
      simpa [hprint] using ((preamble_keeps _).trans hkeeps).trans ih.2

theorem StreamNode.keeps {mark : Text} {r last : Reader} {stream : Stream}
    (h : StreamNode mark r stream last) :
    last.rest = [] ∧ ∃ text, stream.print = mark ++ text ∧ Keeps r text last := by
  cases h with
  | blank hend =>
      refine ⟨hend, _, ?_, preamble_keeps r⟩
      simp [Stream.print, Document.print, Block.empty, Block.print, Scalar.print,
        Scalar.printBody, Anchor.printOption, printDashes, printDots]
  | documents hmore hfirst hdocuments =>
      obtain ⟨text, hprint, hkeeps⟩ := hfirst.keeps
      obtain ⟨hend, hothers⟩ := hdocuments.keeps
      refine ⟨hend, _, ?_, ((preamble_keeps r).trans hkeeps).trans hothers⟩
      simp [Stream.print, hprint]

end Reader

/-! ## Byte order marks -/

theorem splitMark_append (source : Text) :
    (splitMark source).1 ++ (splitMark source).2 = source := by
  unfold splitMark
  split <;> rfl

theorem splitMark_cases (source : Text) :
    (splitMark source).1 = ['\ufeff'] ∨
      (splitMark source).1 = [] ∧ (splitMark source).2.head? ≠ some '\ufeff' := by
  unfold splitMark
  split
  next => exact .inl rfl
  next hno =>
    refine .inr ⟨rfl, fun hhead => ?_⟩
    obtain ⟨tail, rfl⟩ := List.head?_eq_some_iff.mp hhead
    exact hno tail rfl

/-- A text that starts as the source did after its mark has the same mark. -/
theorem splitMark_append_of_head {source x : Text}
    (hhead : x = [] ∨ x.head? = (splitMark source).2.head?) :
    splitMark ((splitMark source).1 ++ x) = ((splitMark source).1, x) := by
  rcases splitMark_cases source with hmark | ⟨hmark, hne⟩
  · rw [hmark]
    rfl
  · have hx : x.head? ≠ some '\ufeff' := by
      rcases hhead with rfl | hhead
      · simp
      · rwa [hhead]
    rw [hmark, List.nil_append]
    unfold splitMark
    split
    next => simp at hx
    next => rfl

/-- A start of what follows the mark has no mark of its own. -/
theorem splitMark_lead {source lead rest : Text} (hbody : (splitMark source).2 = lead ++ rest) :
    (splitMark ((splitMark source).1 ++ lead)).2 = lead := by
  rw [splitMark_append_of_head]
  cases lead with
  | nil => exact .inl rfl
  | cons c lead => exact .inr (by rw [hbody]; rfl)

/-! ## The round trip -/

namespace Stream

/-- The source holds the printed text in order, and is longer by the dropped anchors. -/
theorem print_sublist_source {source : Text} {parsed : Parsed}
    (h : Stream.read source = .ok parsed) :
    parsed.stream.print.Sublist source ∧
      source.length = parsed.stream.print.length +
        (parsed.dropped.flatMap Anchor.print).length := by
  obtain ⟨last, hstream, hdropped⟩ := Stream.read_rules h
  obtain ⟨hend, text, hprint, read, lost, hrest, -, hlost, hsub, hlength⟩ := hstream.keeps
  have hbody : (splitMark source).2 = read := by simpa [hend] using hrest
  have hlost' : lost = parsed.dropped := by simpa [hdropped] using hlost.symm
  subst hlost'
  have hsource : source = (splitMark source).1 ++ read := by
    rw [← hbody, splitMark_append]
  constructor
  · rw [hprint]
    conv => rhs; rw [hsource]
    exact (List.Sublist.refl _).append hsub
  · have := congrArg List.length hsource
    have := congrArg List.length hprint
    simp only [List.length_append] at *
    omega

/-- A source of which no anchor was dropped is printed back. -/
theorem print_eq_source {source : Text} {parsed : Parsed} (h : Stream.read source = .ok parsed)
    (hnil : parsed.dropped = []) : parsed.stream.print = source := by
  obtain ⟨hsub, hlength⟩ := print_sublist_source h
  rw [hnil] at hlength
  exact hsub.eq_of_length (by simpa using hlength.symm)

/-- A text that lacks characters of another one also lacks bytes of it. -/
private theorem toBytes_length_lt {text source : Text} (hsub : text.Sublist source)
    (hlength : text.length < source.length) :
    text.toBytes.length < source.toBytes.length := by
  have hle : source.length + text.toBytes.length ≤ text.length + source.toBytes.length := by
    clear hlength
    induction hsub with
    | slnil => simp
    | cons c _ ih =>
        have := c.utf8Size_pos
        simp only [Text.toBytes, List.flatMap_cons, List.length_append, List.length_cons,
          String.length_utf8EncodeChar] at ih ⊢
        omega
    | cons_cons c _ ih =>
        simp only [Text.toBytes, List.flatMap_cons, List.length_append, List.length_cons] at ih ⊢
        omega
  omega

/-- A source that was read prints back exactly when no anchor was dropped.  Otherwise the printed
text is the source with characters left out, and shorter in characters and in bytes. -/
theorem print_eq_source_iff {source : Text} {parsed : Parsed}
    (h : Stream.read source = .ok parsed) :
    (parsed.stream.print = source ↔ parsed.dropped = []) ∧
      (parsed.dropped ≠ [] → parsed.stream.print.Sublist source ∧
        parsed.stream.print.length < source.length ∧
        parsed.stream.print.toBytes.length < source.toBytes.length) := by
  obtain ⟨hsub, hlength⟩ := print_sublist_source h
  have hdropped : parsed.dropped ≠ [] → 0 < (parsed.dropped.flatMap Anchor.print).length := by
    intro hne
    obtain ⟨anchor, others, hcons⟩ := List.exists_cons_of_ne_nil hne
    have := List.length_pos_iff.mpr anchor.print_ne_nil
    rw [hcons, List.flatMap_cons, List.length_append]
    omega
  refine ⟨⟨?_, print_eq_source h⟩, ?_⟩
  · intro hprint
    refine Classical.byContradiction fun hne => ?_
    have := hdropped hne
    rw [hprint] at hlength
    omega
  · intro hne
    have hshorter : parsed.stream.print.length < source.length := by
      have := hdropped hne
      omega
    exact ⟨hsub, hshorter, toBytes_length_lt hsub hshorter⟩

/-- Of two stacked anchors the outer one is kept. -/
theorem print_stacked_anchors :
    ∃ parsed, Stream.read "k: &x &y 1\n".toList = .ok parsed ∧
      parsed.dropped = [⟨['y'], [' ']⟩] ∧ parsed.stream.print = "k: &x 1\n".toList ∧
      parsed.stream.print.length < "k: &x &y 1\n".toList.length := by
  refine ⟨_, rfl, rfl, rfl, ?_⟩
  exact ((@print_eq_source_iff "k: &x &y 1\n".toList _ rfl).2 (by decide)).2.1

end Stream

end LosslessYaml
