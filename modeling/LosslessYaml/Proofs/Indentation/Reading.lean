import LosslessYaml.Proofs.Indentation.Spots

/-!
# The tree whose text is the source

Every part of a tree that was read comes with the places before and after it.  From the rules of
reading a second tree is built along these places.  It prints as the source, stacked anchors
included, and taking those away gives the tree that was read.  So its nodes stand in its text where
they were read in the source, and what the reader knew at these places holds of its spots.

Main statement: `Stream.exists_asRead_of_parse`.
-/

namespace LosslessYaml

open Text Lookahead

namespace Reader

/-! ## Trees for parts of a source -/

/-- A tree for the text between two places, from after the lead of its node on.  It is the node that
was read there once its anchors are unstacked. -/
structure Restores (nesting : Nesting) (r : Reader) (full node : Block) (after : Reader) :
    Prop where
  unstacked : full.unstacked = node
  reads : Reads r full.content after
  spots : ∀ spot ∈ full.spots nesting r.column after.rest, spot.AsRead

/-- Entries for the text between two places. -/
structure RestoresEntries (nesting : Nesting) (r : Reader) (fulls entries : List (Entry Block))
    (after : Reader) : Prop where
  unstacked : unstackedEntries fulls = entries
  reads : Reads r (printEntries fulls) after
  spots : ∀ spot ∈ entriesSpots nesting r.column after.rest fulls, spot.AsRead

/-- Items for the text between two places. -/
structure RestoresItems (nesting : Nesting) (r : Reader) (fulls items : List (Item Block))
    (after : Reader) : Prop where
  unstacked : unstackedItems fulls = items
  reads : Reads r (printItems fulls) after
  spots : ∀ spot ∈ itemsSpots nesting r.column after.rest fulls, spot.AsRead

variable {nesting : Nesting}

namespace Restores

theorem lead_reads {r after : Reader} {full node : Block}
    (h : Restores nesting r.afterTrivia full node after) (hlead : node.lead = r.trivia) :
    Reads r full.lead r.afterTrivia := by
  rw [← Block.lead_unstacked, h.unstacked, hlead]
  exact .trivia r

theorem aliasNode {r after : Reader} {a : Alias} (hreads : Reads r ('*' :: a.name) after) :
    Restores nesting r (.aliasNode a) (.aliasNode a) after := by
  refine ⟨by simp [Block.unstacked], hreads, ?_⟩
  intro spot hspot
  rw [Block.spots, List.mem_singleton] at hspot
  rw [hspot]
  trivial

theorem scalar {r after : Reader} {s : Scalar}
    (hanchor : s.anchor.map Anchor.unstacked = s.anchor)
    (hreads : Reads r (Anchor.printOption s.anchor ++ s.printBody) after)
    (hmeasured : s.Measured nesting.context after.rest) :
    Restores nesting r (.scalar s) (.scalar s) after := by
  refine ⟨by simp [Block.unstacked, hanchor], hreads, ?_⟩
  intro spot hspot
  rw [Block.spots, List.mem_singleton] at hspot
  rw [hspot]
  exact hmeasured

theorem mapping {r start middle after : Reader} {lead : Text} {layout : Layout}
    {fulls entries : List (Entry Block)}
    (hopen : Reads r (layout.printOpening '\x7b') start)
    (hentries : RestoresEntries (layout.nesting (.value r.column)) start fulls entries middle)
    (hclose : Reads middle (layout.printClosing '\x7d') after)
    (hindented : Mapping.Indented nesting r.column { lead, layout, entries := fulls }) :
    Restores nesting r (.mapping { lead, layout, entries := fulls })
      (.mapping { lead, layout, entries }) after := by
  refine ⟨by simp [Block.unstacked, hentries.unstacked], (hopen.trans hentries.reads).trans hclose,
    ?_⟩
  rw [Block.spots]
  refine List.forall_mem_cons.mpr ⟨hindented, ?_⟩
  have hspots := hentries.spots
  rw [hopen.column, hclose.rest] at hspots
  exact hspots

theorem sequence {r start middle after : Reader} {lead : Text} {layout : Layout}
    {indentless : Bool} {fulls items : List (Item Block)}
    (hopen : Reads r (layout.printOpening '[') start)
    (hitems : RestoresItems (layout.nesting (.item r.column)) start fulls items middle)
    (hclose : Reads middle (layout.printClosing ']') after)
    (hindented : Sequence.Indented nesting r.column { lead, layout, indentless, items := fulls }) :
    Restores nesting r (.sequence { lead, layout, indentless, items := fulls })
      (.sequence { lead, layout, indentless, items }) after := by
  refine ⟨by simp [Block.unstacked, hitems.unstacked], (hopen.trans hitems.reads).trans hclose, ?_⟩
  rw [Block.spots]
  refine List.forall_mem_cons.mpr ⟨hindented, ?_⟩
  have hspots := hitems.spots
  rw [hopen.column, hclose.rest] at hspots
  exact hspots

/-- An anchor keeps the one behind it in its trail. -/
theorem anchored {r after last : Reader} {lead name tail : Text} {full block node : Block}
    (hopen : r.rest = '&' :: tail) (hname : r.anchorName = .ok (name, after))
    (hne : after.afterTrivia.rest ≠ []) (h : Restores nesting after.afterTrivia full block last)
    (hanchor : block.withAnchor? lead ⟨name, after.trivia⟩ = some node) :
    ∃ outer, Restores nesting r outer node (last.dropping block.anchor) := by
  rw [← h.unstacked] at hanchor
  obtain ⟨outer, houter, hnode⟩ := Block.exists_stacked (isTrivia_trivia hne) hanchor
  obtain ⟨-, hsome, hbody⟩ := Block.withAnchor?_eq_some houter
  have hstart := (anchorName_reads hopen hname).trans (.trivia after)
  refine ⟨outer, hnode, ?_, ?_⟩
  · rw [Block.content, hsome, hbody]
    simpa [Anchor.printOption, Anchor.print, Block.content] using (hstart.trans h.reads).dropping _
  · refine Block.asRead_withAnchor houter ?_ h.spots
    rw [hstart.column, ← columnAfter_append]
    simp [Anchor.print]

end Restores

theorem RestoresEntries.nil (r : Reader) : RestoresEntries nesting r [] [] r :=
  ⟨by simp [unstackedEntries], .refl r, by simp [entriesSpots]⟩

theorem RestoresItems.nil (r : Reader) : RestoresItems nesting r [] [] r :=
  ⟨by simp [unstackedItems], .refl r, by simp [itemsSpots]⟩

/-- Nothing stands between a part of a block collection and the next one's lead. -/
theorem Reads.noComma (r : Reader) : Reads r (printComma none) r := .refl r

section Parts

variable {before r start afterValue next after : Reader} {lead : Text} {comma : Option Text}
  {full value : Block}

theorem entry_reads {key : Scalar} {beforeColon : Text}
    (hkey : Reads before (lead ++ key.print ++ beforeColon ++ [':']) r)
    (hlead : Reads r full.lead start) (hvalue : Restores nesting start full value afterValue)
    (hcomma : Reads afterValue (printComma comma) next) :
    Reads before (printEntries [{ lead, key, beforeColon, value := full, comma }]) next := by
  simpa [printEntries, Block.print_eq_content] using
    ((hkey.trans hlead).trans hvalue.reads).trans hcomma

theorem RestoresEntries.cons {key : Scalar} {beforeColon : Text}
    {fulls entries : List (Entry Block)}
    (hkey : Reads before (lead ++ key.print ++ beforeColon ++ [':']) r)
    (hlead : Reads r full.lead start) (hvalue : Restores nesting start full value afterValue)
    (hcomma : Reads afterValue (printComma comma) next)
    (hentries : RestoresEntries nesting next fulls entries after) :
    RestoresEntries nesting before ({ lead, key, beforeColon, value := full, comma } :: fulls)
      ({ lead, key, beforeColon, value, comma } :: entries) after := by
  have hentry := entry_reads hkey hlead hvalue hcomma
  refine ⟨by simp [unstackedEntries, hvalue.unstacked, hentries.unstacked], ?_, ?_⟩
  · simpa [printEntries] using hentry.trans hentries.reads
  · rw [entriesSpots]
    refine List.forall_mem_append.mpr ⟨?_, ?_⟩
    · have hspots := hvalue.spots
      rw [(hkey.trans hlead).column, (hcomma.trans hentries.reads).rest] at hspots
      exact hspots
    · have hspots := hentries.spots
      rw [hentry.column] at hspots
      exact hspots

theorem item_reads {dash : Bool} (hdash : Reads before (lead ++ printDash dash) r)
    (hlead : Reads r full.lead start) (hvalue : Restores nesting start full value afterValue)
    (hcomma : Reads afterValue (printComma comma) next) :
    Reads before (printItems [{ lead, dash, value := full, comma }]) next := by
  simpa [printItems, Block.print_eq_content] using
    ((hdash.trans hlead).trans hvalue.reads).trans hcomma

theorem RestoresItems.cons {dash : Bool} {fulls items : List (Item Block)}
    (hdash : Reads before (lead ++ printDash dash) r) (hlead : Reads r full.lead start)
    (hvalue : Restores nesting start full value afterValue)
    (hcomma : Reads afterValue (printComma comma) next)
    (hitems : RestoresItems nesting next fulls items after) :
    RestoresItems nesting before ({ lead, dash, value := full, comma } :: fulls)
      ({ lead, dash, value, comma } :: items) after := by
  have hitem := item_reads hdash hlead hvalue hcomma
  refine ⟨by simp [unstackedItems, hvalue.unstacked, hitems.unstacked], ?_, ?_⟩
  · simpa [printItems] using hitem.trans hitems.reads
  · rw [itemsSpots]
    refine List.forall_mem_append.mpr ⟨?_, ?_⟩
    · have hspots := hvalue.spots
      rw [(hdash.trans hlead).column, (hcomma.trans hitems.reads).rest] at hspots
      exact hspots
    · have hspots := hitems.spots
      rw [hitem.column] at hspots
      exact hspots

end Parts

/-! ## Scalars -/

theorem anchorAlone_restores {r after : Reader} {lead name tail : Text}
    (hopen : r.rest = '&' :: tail) (hname : r.anchorName = .ok (name, after)) :
    Restores nesting r (.scalar { lead, anchor := some ⟨name, []⟩, text := [] })
      (.scalar { lead, anchor := some ⟨name, []⟩, text := [] }) after := by
  refine .scalar rfl ?_ ⟨rfl, fun _ => rfl, by simp⟩
  simpa [Anchor.printOption, Anchor.print, Scalar.printBody] using anchorName_reads hopen hname

theorem aliasNode_restores {r : Reader} {tail : Text} (hopen : r.rest = '*' :: tail)
    (lead : Text) :
    Restores nesting r (r.aliasNode lead).1 (r.aliasNode lead).1 (r.aliasNode lead).2 :=
  .aliasNode ((Reads.head hopen).trans (.skip _ _))

theorem quoted_restores {quote : Char} {lead tail : Text} {r after : Reader} {scalar : Scalar}
    (hquote : quote = '"' ∨ quote = '\'') (hopen : r.rest = quote :: tail)
    (h : r.quoted quote lead = .ok (scalar, after)) :
    Restores nesting r (.scalar scalar) (.scalar scalar) after := by
  have hreads := quoted_reads hquote hopen h
  obtain ⟨text, rfl, -, -⟩ := quoted_eq_ok h
  refine .scalar rfl hreads ?_
  rcases hquote with rfl | rfl
  · exact ⟨rfl, nofun, nofun⟩
  · exact ⟨rfl, nofun, nofun⟩

/-- A plain scalar starts with a visible character, and its length is the one found. -/
theorem plain_restores {r : Reader} {n : Nat} {lead : Text} (hstart : triviaLength r.rest = 0)
    (hlegible : Scalar.legible nesting.context (r.skip n).rest { lead, text := r.taken n } = true) :
    Restores nesting r (r.plain n lead).1 (r.plain n lead).1 (r.plain n lead).2 := by
  refine .scalar rfl (.skip r n) ⟨hlegible, fun _ => ?_, by simp⟩
  show triviaLength (r.rest.take n) = 0
  cases n with
  | zero => rfl
  | succ n => exact triviaLength_eq_zero_congr (by rw [List.head?_take, if_neg (by simp)]) hstart

theorem literal_restores {r : Reader} {style : Style} {floor : Nat} {tail : Text} {mark : Char}
    (hopen : r.rest = mark :: tail) (hcontext : nesting.context = some floor)
    (hstyle : style = .literal ∧ mark = '|' ∨ style = .folded ∧ mark = '>') (lead : Text) :
    Restores nesting r (r.literal style floor lead).1 (r.literal style floor lead).1
      (r.literal style floor lead).2 := by
  have hreads := (Reads.head hopen).trans (.skip _ (literalLength floor (r.skip 1).rest))
  have hlength : ∀ found ∈ nesting.context,
      literalLength found ((r.skip 1).taken (literalLength floor (r.skip 1).rest) ++
        ((r.skip 1).skip (literalLength floor (r.skip 1).rest)).rest) =
        ((r.skip 1).taken (literalLength floor (r.skip 1).rest)).length := by
    intro found hfound
    obtain rfl : floor = found := by simpa [hcontext] using hfound
    rw [← (Reads.skip (r.skip 1) _).rest, taken, List.length_take,
      Nat.min_eq_left (literalLength_le floor _)]
  rcases hstyle with ⟨rfl, rfl⟩ | ⟨rfl, rfl⟩
  · exact .scalar rfl hreads ⟨rfl, nofun, fun _ => hlength⟩
  · exact .scalar rfl hreads ⟨rfl, nofun, fun _ => hlength⟩

/-! ## Nodes in flow context -/

mutual

/-- A node in flow context, or a flow collection in any context. -/
theorem FlowNode.restores {lead : Text} {r after : Reader} {node : Block}
    (h : FlowNode lead r node after) (nesting : Nesting) (hstart : triviaLength r.rest = 0)
    (hnesting : nesting.context = none ∨ opening r.rest = .flow) :
    ∃ full, Restores nesting r full node after := by
  match h with
  | .mapping hopen hentries =>
    obtain ⟨fulls, middle, hfulls, hclose⟩ := hentries.restores
    exact ⟨_, .mapping (.head hopen) hfulls hclose nofun⟩
  | .sequence hopen hitems =>
    obtain ⟨fulls, middle, hfulls, hclose⟩ := hitems.restores
    exact ⟨_, .sequence (.head hopen) hfulls hclose ⟨nofun, nofun, by simp⟩⟩
  | .quoted hquote hopen hscalar => exact ⟨_, quoted_restores hquote hopen hscalar⟩
  | .aliasNode hopen => exact ⟨_, aliasNode_restores hopen _⟩
  | .anchorAlone hopen hname hend => exact ⟨_, anchorAlone_restores hopen hname⟩
  | .anchored hopen hname hend hnode hanchor =>
    have hflow : nesting.context = none := by
      refine hnesting.resolve_right fun hform => ?_
      rcases describes_of_opening hform with ⟨tail, hrest | hrest⟩
      · simp [hrest] at hopen
      · simp [hrest] at hopen
    obtain ⟨full, hfull⟩ := hnode.restores nesting (triviaLength_afterTrivia _) (.inl hflow)
    exact hfull.anchored hopen hname hnode.rest_ne_nil hanchor
  | .missing hend => exact ⟨_, plain_restores hstart rfl⟩
  | .plain hopen hmark =>
    have hflow : nesting.context = none := by
      refine hnesting.resolve_right fun hform => ?_
      rcases describes_of_opening hform with ⟨tail, hrest | hrest⟩
      · rw [hopen] at hrest
        cases hrest
        exact absurd hmark (by decide)
      · rw [hopen] at hrest
        cases hrest
        exact absurd hmark (by decide)
    refine ⟨_, plain_restores hstart ?_⟩
    have hle : plainFlowLength r.rest ≤ r.rest.length := runLength_le _ _ _
    simp [Scalar.legible, hflow, taken, skip, Nat.min_eq_left hle]

theorem FlowEntries.restores {r after : Reader} {entries : List (Entry Block)} {closing : Text}
    (h : FlowEntries r entries closing after) :
    ∃ fulls middle, RestoresEntries .inFlow r fulls entries middle ∧
      Reads middle (closing ++ ['\x7d']) after := by
  match h with
  | .close hclose => exact ⟨[], r, .nil r, (Reads.trivia r).trans (.head hclose)⟩
  | .entry hopen hc hkey hcolon hvalue hcomma hentries =>
    have hbefore := (((Reads.trivia r).trans (flowKey_reads hkey)).trans (.blanks _)).trans
      (.head hcolon)
    obtain ⟨full, hfull⟩ := hvalue.restores .inFlow (triviaLength_afterTrivia _) (.inl rfl)
    obtain ⟨fulls, middle, hfulls, hclose⟩ := hentries.restores
    have hlead := hfull.lead_reads hvalue.keeps.1
    exact ⟨_, middle, .cons hbefore hlead hfull (separator_reads hcomma) hfulls, hclose⟩

theorem FlowItems.restores {r after : Reader} {items : List (Item Block)} {closing : Text}
    (h : FlowItems r items closing after) :
    ∃ fulls middle, RestoresItems .inFlow r fulls items middle ∧
      Reads middle (closing ++ [']']) after := by
  match h with
  | .close hclose => exact ⟨[], r, .nil r, (Reads.trivia r).trans (.head hclose)⟩
  | .item hopen hc hvalue hpair hcomma hitems =>
    obtain ⟨full, hfull⟩ := hvalue.restores .inFlow (triviaLength_afterTrivia _) (.inl rfl)
    obtain ⟨fulls, middle, hfulls, hclose⟩ := hitems.restores
    have hlead := hfull.lead_reads hvalue.keeps.1
    exact ⟨_, middle, .cons (.refl r) hlead hfull (separator_reads hcomma) hfulls, hclose⟩

end

/-! ## Nodes in block context -/

/-- How the reader knows what a node is nested in: by the column at which nested lines start, and by
the place of the node. -/
inductive Nests : Nesting → Nat → Place → Prop
  | root : Nests .root 0 .root
  | value (column : Nat) : Nests (.value column) (column + 1) .mappingValue
  | item (column : Nat) : Nests (.item column) (column + 1) .sequenceItem

namespace Nests

variable {floor column : Nat} {place : Place}

theorem context (h : Nests nesting floor place) : nesting.context = some floor := by
  cases h <;> rfl

/-- A nested node is to the right of the collection around it. -/
theorem lt_of_le (h : Nests nesting floor place) (hle : floor ≤ column) :
    ∀ outer ∈ nesting.column?, outer < column := by
  intro outer houter
  have hcontext := h.context
  rw [Nesting.context_of_column? houter] at hcontext
  cases hcontext
  omega

/-- The flag is set exactly for a value at the column of its key. -/
theorem indentless_iff (h : Nests nesting floor place) :
    (place == .mappingValue && column + 1 == floor) = true ↔ nesting = .value column := by
  cases h with
  | root => simp
  | item => simp
  | value key =>
      simp only [beq_self_eq_true, Bool.true_and, beq_iff_eq, Nesting.value.injEq]
      omega

end Nests

/-- What the reader knows about the column of a node that may be a block collection. -/
def Nested (floor : Nat) (place : Place) (sameLine : Bool) (r : Reader) : Prop :=
  (place == .mappingValue && sameLine) = false →
    floor ≤ r.column ∨ place = .mappingValue ∧ r.column + 1 = floor ∧ atDash r.rest = true

/-- A node behind an anchor is at a column that is known as well. -/
theorem Nested.anchored {floor : Nat} {place : Place} {sameLine : Bool} {r after : Reader}
    {name tail : Text} (h : Nested floor place sameLine r) (hopen : r.rest = '&' :: tail)
    (hname : r.anchorName = .ok (name, after)) (hstop : after.stops floor place = false) :
    Nested floor place (!after.trivia.contains '\n') after.afterTrivia := by
  refine nested_of_stops hstop fun hplace => ?_
  have hcolumn := anchorName_column hopen hname
  rcases h (by simp [hplace]) with hle | ⟨hvalue, -⟩
  · omega
  · exact absurd hvalue hplace

mutual

theorem BlockNode.restores {floor : Nat} {place : Place} {r after : Reader} {node : Block}
    (h : BlockNode floor place r node after) (nesting : Nesting)
    (hnests : Nests nesting floor place) (hplace : place ≠ .mappingValue → floor ≤ r.column) :
    ∃ full start, Reads r full.lead start ∧ Restores nesting start full node after := by
  match h with
  | .missing hstop => exact ⟨.empty, r, .refl r, .scalar rfl (.refl r) ⟨rfl, fun _ => rfl, nofun⟩⟩
  | .content hstop hcontent =>
    obtain ⟨full, hfull⟩ := hcontent.restores nesting hnests (triviaLength_afterTrivia r)
      (nested_of_stops hstop hplace)
    exact ⟨full, r.afterTrivia, hfull.lead_reads hcontent.keeps.1, hfull⟩

theorem BlockContent.restores {floor : Nat} {place : Place} {sameLine : Bool} {lead : Text}
    {r after : Reader} {node : Block} (h : BlockContent floor place sameLine lead r node after)
    (nesting : Nesting) (hnests : Nests nesting floor place) (hstart : triviaLength r.rest = 0)
    (hnested : Nested floor place sameLine r) : ∃ full, Restores nesting r full node after := by
  match h with
  | .anchorAlone hopen hname hend =>
    obtain ⟨⟨tail, hrest⟩, -⟩ := describes_of_opening hopen
    exact ⟨_, anchorAlone_restores hrest hname⟩
  | .anchored hopen hname hend hcontent hanchor =>
    obtain ⟨⟨tail, hrest⟩, -⟩ := describes_of_opening hopen
    have hstop := (Bool.or_eq_false_iff.mp hend).1
    obtain ⟨full, hfull⟩ := hcontent.restores nesting hnests (triviaLength_afterTrivia _)
      (hnested.anchored hrest hname hstop)
    exact hfull.anchored hrest hname (rest_ne_nil_of_stops hstop) hanchor
  | .aliasNode hopen =>
    obtain ⟨tail, hrest⟩ := describes_of_opening hopen
    exact ⟨_, aliasNode_restores hrest _⟩
  | .flow hopen hnode => exact hnode.restores nesting hstart (.inr hopen)
  | .literal hopen =>
    obtain ⟨tail, hrest⟩ := describes_of_opening hopen
    exact ⟨_, literal_restores hrest hnests.context (.inl ⟨rfl, rfl⟩) _⟩
  | .folded hopen =>
    obtain ⟨tail, hrest⟩ := describes_of_opening hopen
    exact ⟨_, literal_restores hrest hnests.context (.inr ⟨rfl, rfl⟩) _⟩
  | .quoted hopen hscalar =>
    obtain ⟨hquote, ⟨tail, hrest⟩, -⟩ := describes_of_opening hopen
    exact ⟨_, quoted_restores hquote hrest hscalar⟩
  | .sequence hopen hline hitems =>
    obtain ⟨fulls, hfulls, hdashes⟩ := hitems.restores (.refl r) rfl
    refine ⟨_, .sequence (.refl r) hfulls (.refl after) ⟨fun _ => hdashes, fun _ => ?_, ?_⟩⟩
    · intro outer houter
      rcases hnested hline with hle | ⟨hvalue, hcolumn, -⟩
      · exact .inl (hnests.lt_of_le hle outer houter)
      · exact .inr (hnests.indentless_iff.mp (by simp [hvalue, hcolumn]))
    · simp [hnests.indentless_iff]
  | .mapping hopen hline hentries =>
    obtain ⟨fulls, hfulls, hkeys⟩ := hentries.restores (.refl r) rfl
    have hle : floor ≤ r.column := by
      -- at the column of the key there could only be a dash
      refine (hnested hline).resolve_right fun ⟨_, _, hdash⟩ => ?_
      rw [opening_item hdash] at hopen
      cases hopen
    exact ⟨_, .mapping (.refl r) hfulls (.refl after) fun _ => ⟨hkeys, hnests.lt_of_le hle⟩⟩
  | .plain hopen =>
    refine ⟨_, plain_restores hstart ?_⟩
    have hle := plainBlockLength_le floor r.rest
    simp [Scalar.legible, hnests.context, taken, skip, Nat.min_eq_left hle]

theorem BlockEntries.restores {lead : Text} {before r after : Reader}
    {entries : List (Entry Block)} {column : Nat} (h : BlockEntries lead r entries after)
    (hlead : Reads before lead r) (hcolumn : r.column = column) :
    ∃ fulls, RestoresEntries (.value column) before fulls entries after ∧
      ∀ key ∈ keyColumns before.column fulls, key = column := by
  subst hcolumn
  match h with
  | .last hstart hkey hcolon hvalue hnext =>
    have hbefore := ((hlead.trans (blockKey_reads hkey)).trans (.blanks _)).trans (.head hcolon)
    obtain ⟨full, start, hspace, hfull⟩ := hvalue.restores _ (.value _) (absurd rfl)
    refine ⟨_, .cons hbefore hspace hfull (.noComma after) (.nil after), ?_⟩
    simp [keyColumns, hlead.column]
  | .more hstart hkey hcolon hvalue hnext hentries =>
    have hbefore := ((hlead.trans (blockKey_reads hkey)).trans (.blanks _)).trans (.head hcolon)
    obtain ⟨full, start, hspace, hfull⟩ := hvalue.restores _ (.value _) (absurd rfl)
    obtain ⟨fulls, hfulls, hkeys⟩ := hentries.restores (.trivia _) (entryFollows_inv hnext).2.1
    refine ⟨_, .cons hbefore hspace hfull (.noComma _) hfulls, ?_⟩
    rw [(entry_reads hbefore hspace hfull (.noComma _)).column] at hkeys
    exact List.forall_mem_cons.mpr ⟨hlead.column.symm, hkeys⟩

theorem BlockItems.restores {lead : Text} {before r after : Reader} {items : List (Item Block)}
    {column : Nat} (h : BlockItems lead r items after) (hlead : Reads before lead r)
    (hcolumn : r.column = column) :
    ∃ fulls, RestoresItems (.item column) before fulls items after ∧
      ∀ dash ∈ dashColumns before.column fulls, dash = column := by
  subst hcolumn
  match h with
  | .last hstart hvalue hnext =>
    obtain ⟨tail, hrest⟩ := eq_dash_of_atDash hstart
    have hbefore : Reads before (lead ++ printDash true) (r.skip 1) := hlead.trans (.head hrest)
    obtain ⟨full, start, hspace, hfull⟩ :=
      hvalue.restores _ (.item _) fun _ => Nat.le_of_eq (dash_column hstart).symm
    refine ⟨_, .cons hbefore hspace hfull (.noComma after) (.nil after), ?_⟩
    simp [dashColumns, hlead.column]
  | .more hstart hvalue hnext hitems =>
    obtain ⟨tail, hrest⟩ := eq_dash_of_atDash hstart
    have hbefore : Reads before (lead ++ printDash true) (r.skip 1) := hlead.trans (.head hrest)
    obtain ⟨full, start, hspace, hfull⟩ :=
      hvalue.restores _ (.item _) fun _ => Nat.le_of_eq (dash_column hstart).symm
    obtain ⟨fulls, hfulls, hdashes⟩ := hitems.restores (.trivia _) (itemFollows_inv hnext).2.1
    refine ⟨_, .cons hbefore hspace hfull (.noComma _) hfulls, ?_⟩
    rw [(item_reads hbefore hspace hfull (.noComma _)).column] at hdashes
    exact List.forall_mem_cons.mpr ⟨hlead.column.symm, hdashes⟩

end

/-! ## Documents -/

theorem Reads.preamble (r : Reader) : Reads r r.preamble r.afterPreamble := .skip r _

theorem afterDashes_reads (r : Reader) : Reads r (printDashes r.startsDocument) r.afterDashes := by
  refine .of_keeps (afterDashes_keeps r) ?_
  unfold afterDashes
  split <;> rfl

theorem ending_reads {r after : Reader} {ending : Ending} (h : r.ending = .ok (ending, after)) :
    Reads r (ending.lead ++ printDots ending.explicit) after := by
  refine .of_keeps (ending_keeps h) ?_
  rcases ending_eq_ok h with ⟨-, -, rfl⟩ | ⟨-, -, -, rfl⟩ | ⟨-, -, -, rfl⟩ <;> rfl

/-- Documents for the text from a place to the end of the source. -/
structure RestoresDocuments (r : Reader) (fulls documents : List Document) (suffix : Text) :
    Prop where
  unstacked : fulls.map Document.unstacked = documents
  rest : r.rest = fulls.flatMap Document.print ++ suffix
  spots : ∀ spot ∈ documentsSpots r.column suffix fulls, spot.AsRead

theorem DocumentNode.restores_cons {lead suffix : Text} {before r after : Reader}
    {document : Document} {fulls documents : List Document}
    (h : DocumentNode lead r document after) (hlead : Reads before lead r)
    (hmore : RestoresDocuments after fulls documents suffix) :
    ∃ full, RestoresDocuments before (full :: fulls) (document :: documents) suffix := by
  cases h with
  | @intro afterRoot _ node ending hroot hending =>
      obtain ⟨root, start, hspace, hrestores⟩ := hroot.restores _ .root fun _ => Nat.zero_le _
      have hstart := (hlead.trans (afterDashes_reads r)).trans hspace
      have hend := ending_reads hending
      have hdocument := (hstart.trans hrestores.reads).trans hend
      refine ⟨{ lead, explicit := r.startsDocument, root, ending }, ?_, ?_, ?_⟩
      · simp [Document.unstacked, hrestores.unstacked, hmore.unstacked]
      · rw [hdocument.rest, hmore.rest]
        simp [Document.print, Block.print_eq_content]
      · rw [documentsSpots]
        refine List.forall_mem_append.mpr ⟨?_, ?_⟩
        · have hspots := hrestores.spots
          rw [hstart.column, hend.rest, hmore.rest, ← List.append_assoc] at hspots
          exact hspots
        · have hspots := hmore.spots
          rw [hdocument.column] at hspots
          simpa [Document.print, Block.print_eq_content] using hspots

theorem MoreDocuments.restores {r last : Reader} {documents : List Document} {suffix : Text}
    (h : MoreDocuments r documents suffix last) :
    ∃ fulls, RestoresDocuments r fulls documents suffix := by
  induction h with
  | @done r hend =>
      have hrest := (Reads.preamble r).rest
      rw [hend, List.append_nil] at hrest
      exact ⟨[], rfl, hrest, by simp [documentsSpots]⟩
  | document _ hdocument _ ih =>
      obtain ⟨fulls, hfulls⟩ := ih
      obtain ⟨full, hfull⟩ := hdocument.restores_cons (.preamble _) hfulls
      exact ⟨_, hfull⟩

end Reader

/-! ## Streams -/

/-- A stream without content. -/
private def blank (lead : Text) : Stream := { documents := [⟨lead, [], false, .empty, {}⟩] }

private theorem print_blank (lead : Text) : (blank lead).print = lead := by
  simp [blank, Stream.print, Document.print, Block.empty, Block.print, Scalar.print,
    Scalar.printBody, Anchor.printOption, printDashes, printDots]

private theorem unstacked_blank (lead : Text) : (blank lead).unstacked = blank lead := by
  simp [blank, Stream.unstacked, Document.unstacked, Block.empty, Block.unstacked]

private theorem asRead_blank (lead : Text) : ∀ spot ∈ (blank lead).spots, spot.AsRead := by
  simp only [blank, Stream.spots, documentsSpots, Block.empty, Block.spots, List.append_nil,
    List.forall_mem_singleton]
  exact ⟨rfl, fun _ => rfl, by simp⟩

/-- The byte order mark goes to the lead of the first document, and takes no column there. -/
private theorem Stream.exists_restored {source : Text} {stream : Stream}
    (h : Stream.parse source = .ok stream) :
    ∃ full : Stream, full.print = source ∧ full.unstacked = stream ∧
      ∀ spot ∈ full.spots, spot.AsRead := by
  obtain ⟨last, hrules⟩ := Stream.parse_eq_ok_iff.mp h
  by_cases hmore : (Reader.afterPreamble { rest := (splitMark source).2 }).rest = []
  · cases hrules with
    | documents hcontent => exact absurd hmore hcontent
    | blank =>
        have hbody := (Reader.Reads.preamble { rest := (splitMark source).2 }).rest
        rw [hmore, List.append_nil] at hbody
        refine ⟨_, ?_, unstacked_blank _, asRead_blank _⟩
        rw [print_blank, ← hbody, splitMark_append]
  · obtain ⟨first, documents, suffix, rfl, hdocuments⟩ := (Reader.streamNode_iff hmore).mp hrules
    obtain ⟨fulls, hfulls⟩ := hdocuments.restores
    obtain ⟨full, others, rfl, rfl, rfl⟩ := List.map_eq_cons_iff.mp hfulls.unstacked
    have hbody : (splitMark source).2 = (full :: others).flatMap Document.print ++ suffix :=
      hfulls.rest
    have hlead := splitMark_lead (hbody.trans (printDocuments_cons_append full others suffix))
    refine ⟨{ documents := { full with lead := (splitMark source).1 ++ full.lead } :: others,
              suffix }, ?_, rfl, ?_⟩
    · calc
        _ = (splitMark source).1 ++ ((full :: others).flatMap Document.print ++ suffix) := by
          simp [Stream.print, Document.print]
        _ = source := by rw [← hbody, splitMark_append]
    · have hspots := hfulls.spots
      simp only [Stream.spots, hlead]
      exact hspots

/-- Every source that is read is the text of a tree that is the stream once its anchors are
unstacked, and what the reader knew at each node holds of it there.  If the stream prints as the
source, it is that tree. -/
theorem Stream.exists_asRead_of_parse {source : Text} {stream : Stream}
    (h : Stream.parse source = .ok stream) :
    ∃ full : Stream, full.print = source ∧ full.unstacked = stream ∧
      (stream.print = source → full = stream) ∧ ∀ spot ∈ full.spots, spot.AsRead := by
  obtain ⟨full, hprint, rfl, hspots⟩ := Stream.exists_restored h
  refine ⟨full, hprint, rfl, fun hsame => ?_, hspots⟩
  exact (Stream.unstacked_eq_self (hsame.trans hprint.symm)).symm

end LosslessYaml
