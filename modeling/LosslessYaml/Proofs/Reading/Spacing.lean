import LosslessYaml.Proofs.Reading.Ends

/-!
# White space around the nodes of a block

Trees that were read hold their white space at certain places.  A node starts with a visible
character after its lead.  The first part of a block collection starts where the collection does,
every other one after a line break, and a value is set off from its colon or dash.  A document that
is not the last one ends with a line break.

These facts need no source to be stated: they are about the leads in the tree, and about the printed
text of values.  They hold whether or not anchors were dropped.

Main statement: `Stream.spaced_of_parse`.
-/

namespace LosslessYaml

open Text Lookahead

/-! ## Spaced trees -/

/-- The text of a node from after its lead. -/
def Block.content (block : Block) : Text := Anchor.printOption block.anchor ++ block.body

/-- A node prints as its lead and its content. -/
theorem Block.print_eq_content (block : Block) : block.print = block.lead ++ block.content :=
  block.print_eq_append

/-- The parts of a block collection, given the lead and the value of each.  The first one has the
lead, every other one stands on a line of its own, and the values are set off. -/
structure OnLines (lead : Text) (leads : List Text) (values : List Block) : Prop where
  first : leads.head? = some lead
  others : ∀ other ∈ leads.tail, '\n' ∈ other
  values : ∀ value ∈ values, atBreak value.print = true

theorem OnLines.single {value : Block} (lead : Text) (hvalue : atBreak value.print = true) :
    OnLines lead [lead] [value] := ⟨rfl, by simp, by simpa using hvalue⟩

theorem OnLines.cons {value : Block} {lead : Text} {leads : List Text} {values : List Block}
    (h : OnLines lead leads values) (hlead : '\n' ∈ lead) (hvalue : atBreak value.print = true)
    (before : Text) : OnLines before (before :: leads) (value :: values) := by
  obtain ⟨others, rfl⟩ := List.head?_eq_some_iff.mp h.first
  refine ⟨rfl, ?_, List.forall_mem_cons.mpr ⟨hvalue, h.values⟩⟩
  exact List.forall_mem_cons.mpr ⟨hlead, h.others⟩

/-- White space in and below a node stands where reading puts it: no node starts with a space after
its lead, and the parts of a block collection are on lines of their own. -/
inductive Block.Spaced : Block → Prop
  | scalar {s : Scalar} (hstart : (Block.scalar s).content.head? ≠ some ' ') : Spaced (.scalar s)
  | aliasNode (a : Alias) : Spaced (.aliasNode a)
  | mapping {m : Mapping Block} (hstart : (Block.mapping m).content.head? ≠ some ' ')
      (hlines : m.layout = .block →
        OnLines [] (m.entries.map Entry.lead) (m.entries.map Entry.value))
      (hvalues : ∀ entry ∈ m.entries, Spaced entry.value) : Spaced (.mapping m)
  | sequence {q : Sequence Block} (hstart : (Block.sequence q).content.head? ≠ some ' ')
      (hlines : q.layout = .block →
        OnLines [] (q.items.map Item.lead) (q.items.map Item.value))
      (hvalues : ∀ item ∈ q.items, Spaced item.value) : Spaced (.sequence q)

namespace Block.Spaced

theorem start {block : Block} (h : block.Spaced) : block.content.head? ≠ some ' ' := by
  cases h with
  | scalar hstart | mapping hstart | sequence hstart => exact hstart
  | aliasNode a => simp [content, anchor, body, Anchor.printOption]

theorem empty : Block.empty.Spaced :=
  .scalar (by simp [content, anchor, body, Anchor.printOption, Scalar.printBody])

/-- An anchor is visible. -/
theorem withAnchor {lead : Text} {anchor : Anchor} {block node : Block} (h : block.Spaced)
    (hanchor : block.withAnchor? lead anchor = some node) : node.Spaced := by
  have hstart : node.content.head? ≠ some ' ' := by
    rw [content, (Block.withAnchor?_eq_some hanchor).2.1]
    simp [Anchor.printOption, Anchor.print]
  cases h with
  | aliasNode a => simp [withAnchor?] at hanchor
  | scalar =>
      cases hanchor
      exact .scalar hstart
  | mapping _ hlines hvalues =>
      cases hanchor
      exact .mapping hstart hlines hvalues
  | sequence _ hlines hvalues =>
      cases hanchor
      exact .sequence hstart hlines hvalues

end Block.Spaced

/-- White space in documents stands where reading puts it: a document that another one follows ends
with a line break. -/
structure DocumentsSpaced (documents : List Document) : Prop where
  roots : ∀ document ∈ documents, document.root.Spaced
  endings : ∀ document ∈ documents.dropLast, '\n' ∈ document.ending.lead

/-! ## Nodes in flow context -/

namespace Reader

private theorem head?_ne_space {r : Reader} (hstart : triviaLength r.rest = 0) :
    r.rest.head? ≠ some ' ' := by
  intro hspace
  obtain ⟨tail, hrest⟩ := List.head?_eq_some_iff.mp hspace
  simp [hrest, triviaLength, triviaFrom, isTrailing] at hstart

private theorem plain_spaced {r : Reader} (hstart : triviaLength r.rest = 0) (n : Nat)
    (lead : Text) : (r.plain n lead).1.Spaced := by
  refine .scalar ?_
  show (r.rest.take n).head? ≠ some ' '
  rw [List.head?_take]
  split
  · simp
  · exact head?_ne_space hstart

private theorem quoted_spaced {quote : Char} {lead : Text} {r after : Reader} {scalar : Scalar}
    (hquote : quote = '"' ∨ quote = '\'') (h : r.quoted quote lead = .ok (scalar, after)) :
    (Block.scalar scalar).Spaced := by
  obtain ⟨text, rfl, -, -⟩ := quoted_eq_ok h
  refine .scalar ?_
  rw [Block.content, Block.anchor, Block.body, Anchor.printOption, printBody_quoted hquote]
  rcases hquote with rfl | rfl <;> simp

private theorem anchorAlone_spaced (lead name : Text) :
    (Block.scalar { lead, anchor := some ⟨name, []⟩, text := [] }).Spaced :=
  .scalar (by simp [Block.content, Block.anchor, Anchor.printOption, Anchor.print])

mutual

theorem FlowNode.spaced {lead : Text} {r after : Reader} {block : Block}
    (h : FlowNode lead r block after) (hstart : triviaLength r.rest = 0) : block.Spaced := by
  match h with
  | .mapping hopen hentries =>
    refine .mapping ?_ nofun hentries.spaced
    simp [Block.content, Block.anchor, Block.body, Anchor.printOption, Layout.printOpening]
  | .sequence hopen hitems =>
    refine .sequence ?_ nofun hitems.spaced
    simp [Block.content, Block.anchor, Block.body, Anchor.printOption, Layout.printOpening]
  | .quoted hquote hopen hscalar => exact quoted_spaced hquote hscalar
  | .aliasNode hopen => exact .aliasNode _
  | .anchorAlone hopen hname hend => exact anchorAlone_spaced _ _
  | .anchored hopen hname hend hnode hanchor =>
    exact (hnode.spaced (triviaLength_afterTrivia _)).withAnchor hanchor
  | .missing hend => exact plain_spaced hstart _ _
  | .plain hopen hmark => exact plain_spaced hstart _ _

theorem FlowEntries.spaced {r after : Reader} {entries : List (Entry Block)} {closing : Text}
    (h : FlowEntries r entries closing after) : ∀ entry ∈ entries, entry.value.Spaced := by
  match h with
  | .close hclose => simp
  | .entry hopen hc hkey hcolon hvalue hcomma hentries =>
    exact List.forall_mem_cons.mpr
      ⟨hvalue.spaced (triviaLength_afterTrivia _), hentries.spaced⟩

theorem FlowItems.spaced {r after : Reader} {items : List (Item Block)} {closing : Text}
    (h : FlowItems r items closing after) : ∀ item ∈ items, item.value.Spaced := by
  match h with
  | .close hclose => simp
  | .item hopen hc hvalue hpair hcomma hitems =>
    exact List.forall_mem_cons.mpr ⟨hvalue.spaced (triviaLength_afterTrivia _), hitems.spaced⟩

end

/-! ## Nodes in block context -/

/-- The colon of an entry is followed by a break. -/
private theorem atBreak_colon {r afterKey : Reader} {key : Scalar} {tail : Text}
    (hstart : atKey r.rest = true) (hkey : r.blockKey = .ok (key, afterKey))
    (hcolon : afterKey.afterBlanks.rest = ':' :: tail) :
    r.rest = key.print ++ (afterKey.blanks ++ ':' :: tail) ∧ atBreak tail = true := by
  have hrest : r.rest = key.print ++ (afterKey.blanks ++ ':' :: tail) := by
    rw [(blockKey_reads hkey).rest, (Reads.blanks afterKey).rest, hcolon]
  exact ⟨hrest, (blockKey_again hstart hkey (blockKey_dropped hkey) hcolon (.inl rfl) hrest).1⟩

/-- A value that is set off prints with a break at its start. -/
private theorem BlockNode.atBreak_print {floor : Nat} {place : Place} {r after : Reader}
    {node : Block} (h : BlockNode floor place r node after) (hbreak : atBreak r.rest = true) :
    atBreak node.print = true := by
  cases h with
  | missing => rfl
  | content hstop hcontent =>
      rw [Block.print_eq_append, hcontent.keeps.1]
      have hrest := trivia_append r
      cases htrivia : r.trivia with
      | cons c trivia =>
          rw [htrivia] at hrest
          rwa [← hrest] at hbreak
      | nil =>
          -- without trivia the node would start with the break
          rw [htrivia, List.nil_append] at hrest
          have hzero := triviaLength_afterTrivia r
          have hne := rest_ne_nil_of_stops hstop
          obtain ⟨c, tail, hc⟩ := List.exists_cons_of_ne_nil hne
          rw [← hrest, hc] at hbreak
          rw [hc] at hzero
          simp only [atBreak, triviaLength, triviaFrom, isTrailing] at hbreak hzero
          grind

/-- The first key of a mapping is where its text starts. -/
private theorem BlockEntries.head?_eq {r after : Reader} {entries : List (Entry Block)}
    (h : BlockEntries [] r entries after) : (printEntries entries).head? = r.rest.head? := by
  cases h with
  | last hstart hkey hcolon | more hstart hkey hcolon =>
      rw [(atBreak_colon hstart hkey hcolon).1]
      simp [printEntries, List.head?_append]

private theorem BlockItems.head?_eq {r after : Reader} {items : List (Item Block)}
    (h : BlockItems [] r items after) : (printItems items).head? = some '-' := by
  cases h with
  | last | more => simp [printItems, printDash]

mutual

theorem BlockNode.spaced {floor : Nat} {place : Place} {r after : Reader} {node : Block}
    (h : BlockNode floor place r node after) : node.Spaced := by
  match h with
  | .missing hstop => exact .empty
  | .content hstop hcontent => exact hcontent.spaced (triviaLength_afterTrivia r)

theorem BlockContent.spaced {floor : Nat} {place : Place} {sameLine : Bool} {lead : Text}
    {r after : Reader} {node : Block} (h : BlockContent floor place sameLine lead r node after)
    (hstart : triviaLength r.rest = 0) : node.Spaced := by
  match h with
  | .anchorAlone hopen hname hend => exact anchorAlone_spaced _ _
  | .anchored hopen hname hend hcontent hanchor =>
    exact (hcontent.spaced (triviaLength_afterTrivia _)).withAnchor hanchor
  | .aliasNode hopen => exact .aliasNode _
  | .flow hopen hnode => exact hnode.spaced hstart
  | .literal hopen | .folded hopen =>
    exact .scalar (by simp [Block.content, Block.anchor, Block.body, Anchor.printOption,
      Scalar.printBody])
  | .quoted hopen hscalar => exact quoted_spaced (describes_of_opening hopen).1 hscalar
  | .sequence hopen hline hitems =>
    obtain ⟨hlines, hvalues⟩ := hitems.spaced
    refine .sequence ?_ (fun _ => hlines) hvalues
    simp [Block.content, Block.anchor, Block.body, Anchor.printOption, Layout.printOpening,
      Layout.printClosing, hitems.head?_eq]
  | .mapping hopen hline hentries =>
    obtain ⟨hlines, hvalues⟩ := hentries.spaced
    refine .mapping ?_ (fun _ => hlines) hvalues
    simpa [Block.content, Block.anchor, Block.body, Anchor.printOption, Layout.printOpening,
      Layout.printClosing, hentries.head?_eq] using head?_ne_space hstart
  | .plain hopen => exact plain_spaced hstart _ _

theorem BlockEntries.spaced {lead : Text} {r after : Reader} {entries : List (Entry Block)}
    (h : BlockEntries lead r entries after) :
    OnLines lead (entries.map Entry.lead) (entries.map Entry.value) ∧
      ∀ entry ∈ entries, entry.value.Spaced := by
  match h with
  | .last hstart hkey hcolon hvalue hnext =>
    have hbreak := hvalue.atBreak_print (by
      simpa [skip, hcolon] using (atBreak_colon hstart hkey hcolon).2)
    exact ⟨.single lead hbreak, by simpa using hvalue.spaced⟩
  | .more hstart hkey hcolon hvalue hnext hentries =>
    have hbreak := hvalue.atBreak_print (by
      simpa [skip, hcolon] using (atBreak_colon hstart hkey hcolon).2)
    obtain ⟨hlines, hvalues⟩ := hentries.spaced
    have hline := List.contains_iff_mem.mp (entryFollows_inv hnext).1
    exact ⟨hlines.cons hline hbreak lead, List.forall_mem_cons.mpr ⟨hvalue.spaced, hvalues⟩⟩

theorem BlockItems.spaced {lead : Text} {r after : Reader} {items : List (Item Block)}
    (h : BlockItems lead r items after) :
    OnLines lead (items.map Item.lead) (items.map Item.value) ∧
      ∀ item ∈ items, item.value.Spaced := by
  match h with
  | .last hstart hvalue hnext =>
    obtain ⟨tail, hrest, hbreak⟩ := atDash_iff.mp hstart
    have hset := hvalue.atBreak_print (by simpa [skip, hrest] using hbreak)
    exact ⟨.single lead hset, by simpa using hvalue.spaced⟩
  | .more hstart hvalue hnext hitems =>
    obtain ⟨tail, hrest, hbreak⟩ := atDash_iff.mp hstart
    have hset := hvalue.atBreak_print (by simpa [skip, hrest] using hbreak)
    obtain ⟨hlines, hvalues⟩ := hitems.spaced
    have hline := List.contains_iff_mem.mp (itemFollows_inv hnext).1
    exact ⟨hlines.cons hline hset lead, List.forall_mem_cons.mpr ⟨hvalue.spaced, hvalues⟩⟩

end

/-! ## Documents -/

/-- A document ends with a line break where another one follows. -/
private theorem DocumentNode.newline_mem_ending {lead : Text} {r after : Reader}
    {document : Document} (h : DocumentNode lead r document after)
    (hmore : after.afterPreamble.rest ≠ []) : '\n' ∈ document.ending.lead := by
  obtain ⟨hroot, hending⟩ := h
  rcases ending_eq_ok hending with
    ⟨hend, rfl, rfl⟩ | ⟨hzero, hmark, rfl, rfl⟩ | ⟨hzero, hmark, rfl, rfl⟩
  · exact absurd (by simp [afterPreamble, skip, hend]) hmore
  · refine hroot.newline_mem_trivia ?_ (by simp [atDocumentMark, hzero, hmark])
    rintro hnil
    simp [hnil, atDots] at hmark
  · refine hroot.newline_mem_trivia ?_ (by simp [atDocumentMark, hzero, hmark])
    rintro hnil
    simp [hnil, atDashes] at hmark

private theorem DocumentNode.spaced_cons {lead suffix : Text} {r after last : Reader}
    {document : Document} {documents : List Document} (h : DocumentNode lead r document after)
    (hmore : MoreDocuments after documents suffix last) (hdocuments : DocumentsSpaced documents) :
    DocumentsSpaced (document :: documents) := by
  have hroot : document.root.Spaced := by
    obtain ⟨hroot, -⟩ := h
    exact hroot.spaced
  refine ⟨List.forall_mem_cons.mpr ⟨hroot, hdocuments.roots⟩, ?_⟩
  cases hmore with
  | done => simp
  | document hnext _ _ =>
      rw [List.dropLast_cons_of_ne_nil (by simp)]
      exact List.forall_mem_cons.mpr ⟨h.newline_mem_ending hnext, hdocuments.endings⟩

private theorem MoreDocuments.spaced {r last : Reader} {documents : List Document} {suffix : Text}
    (h : MoreDocuments r documents suffix last) : DocumentsSpaced documents := by
  induction h with
  | done => exact ⟨by simp, by simp⟩
  | document _ hdocument hdocuments ih => exact hdocument.spaced_cons hdocuments ih

end Reader

/-- White space in the documents of a stream that was read stands where reading puts it. -/
theorem Stream.spaced_of_parse {source : Text} {stream : Stream}
    (h : Stream.parse source = .ok stream) : DocumentsSpaced stream.documents := by
  obtain ⟨last, hrules⟩ := Stream.parse_eq_ok_iff.mp h
  cases hrules with
  | blank => exact ⟨by simpa using .empty, by simp⟩
  | documents _ hfirst hdocuments => exact hfirst.spaced_cons hdocuments hdocuments.spaced

end LosslessYaml
