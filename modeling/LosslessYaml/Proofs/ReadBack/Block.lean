import LosslessYaml.Proofs.ReadBack.Scalar

/-!
# Reading a changed tree again, in block context

Two readers go along, one in the source and one in the changed text.  At the start of each node they
are at the same column, before texts that start alike, and so they take the same rule; after the
node they are before the same text, or the second one is before trivia that an empty value left
behind.

The mutual theorems at the end say that a changed node, changed entries and changed items in block
context are read back exactly if they are legible.  The lemmas before them are the steps, one for
each rule that reads other nodes.
-/

namespace LosslessYaml

open Text Lookahead ChangeValue

namespace Reader

variable {recipe : ChangeValue} {floor : Nat} {place : Place} {sameLine : Bool}

/-! ## Two readers before the same trivia -/

/-- Two readers at one column that have the same trivia before texts that start alike. -/
private theorem afterTrivia_again {r r' : Reader} {z : Text} (hrest : r'.rest = r.trivia ++ z)
    (hcolumn : r'.column = r.column) (hne : r.afterTrivia.rest ≠ [])
    (halike : Alike r.afterTrivia.rest z) :
    r'.trivia = r.trivia ∧ r'.afterTrivia.rest = z ∧
      r'.afterTrivia.column = r.afterTrivia.column ∧
      r'.stops floor place = r.stops floor place := by
  obtain ⟨htrivia, hafter⟩ := trivia_eq hrest (isTrivia_trivia hne)
    (triviaLength_eq_zero_congr halike.head (triviaLength_afterTrivia r))
  have hrest' : r'.afterTrivia.rest = z := by rw [hafter, rest_skip hrest]
  have hcolumn' : r'.afterTrivia.column = r.afterTrivia.column := by
    rw [hafter, column_skip hrest, hcolumn]
    rfl
  have hne' : z ≠ [] := by
    rintro rfl
    exact hne (by simpa using halike.head)
  refine ⟨htrivia, hrest', hcolumn', ?_⟩
  have hcontinues := Ahead.continues_eq hcolumn' (hrest' ▸ halike) floor place
  simp only [stops, htrivia, hrest', hcontinues, List.isEmpty_eq_false_iff.mpr hne,
    List.isEmpty_eq_false_iff.mpr hne']

/-! ## Anchors -/

/-- The changed text of a node without an anchor does not start with one either. -/
private theorem BlockContent.opening_ne_anchor {lead : Text} {r after : Reader}
    {block block' : Block} {y : Text} (h : BlockContent floor place sameLine lead r block after)
    (hdropped : after.dropped = r.dropped) (hnone : block.anchor = none)
    (hpatch : PatchedBlock recipe block block') (hahead : Ahead floor after.rest y) :
    opening (block'.body ++ y) ≠ .anchor := by
  intro hopen
  obtain ⟨⟨tail, htail⟩, hkey⟩ := describes_of_opening hopen
  have halike := h.alike hdropped hpatch hahead
  rw [hpatch.anchor_eq, hnone] at halike
  have hhead := halike.head
  rw [show Anchor.printOption none ++ (block'.body ++ y) = block'.body ++ y from rfl, htail]
    at hhead
  obtain ⟨tail', hrest⟩ := List.head?_eq_some_iff.mp hhead
  -- the node starts with the anchor of a key
  have hform := opening_anchor tail'
  rw [← hrest] at hform
  cases h with
  | mapping hopen' hline hentries =>
      cases hpatch with
      | mapping hpatch =>
          have hstart := hentries.start hdropped hpatch hahead.head (List.nil_append _).symm
          simp [Block.body, Layout.printOpening, Layout.printClosing, hstart.2.2] at hkey
  | anchorAlone => simp [Block.anchor] at hnone
  | anchored _ _ _ _ hanchor => simp [(Block.withAnchor?_eq_some hanchor).2.1] at hnone
  | aliasNode hopen' | flow hopen' | literal hopen' | folded hopen' | quoted hopen'
  | sequence hopen' | plain hopen' =>
      rw [hopen'] at hform
      split at hform <;> simp at hform

/-- A node after an anchor is reread if the node without the anchor is, and the anchor is not taken
for one of a key. -/
private theorem anchored_rereads {lead lead' name trail tail y : Text} {r' middle : Reader}
    {block node : Block} {column : Nat} (hopen : r'.rest = '&' :: tail)
    (htext : r'.rest = Anchor.print ⟨name, trail⟩ ++ (block.body ++ y))
    (hname : r'.anchorName = .ok (name, middle))
    (hend : (middle.stops floor place ||
      (!middle.trivia.contains '\n' && atFlowEnd middle.afterTrivia.rest)) = false)
    (hinner : opening middle.afterTrivia.rest ≠ .anchor) (hnone : block.anchor = none)
    (hanchor : block.withAnchor? lead ⟨name, trail⟩ = some node)
    (h : Rereads (BlockContent floor place (!middle.trivia.contains '\n') [] middle.afterTrivia)
      (fun again => again.data = block.data) (Before y)
      (block.legible (some floor) (columnAfter column (Anchor.print ⟨name, trail⟩)) y)) :
    Rereads (BlockContent floor place sameLine lead' r') (fun again => again.data = node.data)
      (Before y) (node.legible (some floor) column y) := by
  have hlegible : anchorLegible (some floor) (some ⟨name, trail⟩) (block.body ++ y) =
      !atKey r'.rest := by
    simp [anchorLegible, Anchor.printOption, htext]
  rw [Block.legible_withAnchor hanchor hnone, hlegible]
  cases hkey : atKey r'.rest with
  | true =>
      have hname' : node.data.anchor = some name := by
        rw [Block.data_anchor, (Block.withAnchor?_eq_some hanchor).2.1]
        rfl
      refine ⟨by simp, fun hagain hdata => ?_⟩
      exact absurd hdata (anchor_of_atKey hopen hkey hname' hagain)
  | false =>
      have hform : opening r'.rest = .anchor := by
        rw [hopen] at hkey ⊢
        simp [opening_anchor, hkey]
      rw [Bool.not_false, Bool.true_and]
      refine h.transfer ?_ ?_
      · intro again last hagain hdata _
        obtain ⟨node', hnode'⟩ := Block.exists_withAnchor hdata hanchor lead' ⟨name, middle.trivia⟩
        refine ⟨node', _, .anchored hform hname hend hagain hnode', ?_⟩
        rw [Block.data_withAnchor hnode', Block.data_withAnchor hanchor, hdata]
      · intro node' last' hnode' hdata
        obtain ⟨again, last, hagain, hwith, rfl⟩ := hnode'.anchor_inv hform hname hend
        have hnone' := hagain.anchor_eq_none hinner
        exact ⟨again, last, hagain, Block.data_of_withAnchor hanchor hwith hnone hnone' hdata, id⟩

/-! ## Entries and items -/

/-- The last entry of a block mapping. -/
private theorem lastEntry_rereads {r' afterKey : Reader} {lead' colonTail y : Text} {key : Scalar}
    {data : Data} {legible : Bool} {column : Nat} (hcolumn : r'.column = column)
    (hstart : atKey r'.rest = true) (hkey : r'.blockKey = .ok (key, afterKey))
    (hcolon : afterKey.afterBlanks.rest = ':' :: colonTail)
    (hvalue : Rereads (BlockNode (column + 1) .mappingValue (afterKey.afterBlanks.skip 1))
      (fun again => again.data = data) (Before y) legible)
    (hnext : ∀ {middle : Reader}, Before y middle → middle.entryFollows column = false) :
    Rereads (BlockEntries lead' r') (fun again => entriesData again = [(key.keyData, data)])
      (Before y) legible := by
  subst hcolumn
  refine hvalue.transfer ?_ ?_
  · intro value last hvalue hdata hlast
    exact ⟨_, last, .last hstart hkey hcolon hvalue (hnext hlast), by simp [entriesData, hdata]⟩
  · intro again last hagain hdata
    cases hagain with
    | last _ hkey' _ hvalue' =>
        cases hkey.symm.trans hkey'
        simp only [entriesData, List.cons.injEq, Prod.mk.injEq, true_and, and_true] at hdata
        exact ⟨_, _, hvalue', hdata, id⟩
    | more _ hkey' _ hvalue' hnext' =>
        cases hkey.symm.trans hkey'
        simp only [entriesData, List.cons.injEq, Prod.mk.injEq, true_and] at hdata
        exact ⟨_, _, hvalue', hdata.1, fun hlast => by simp [hnext hlast] at hnext'⟩

/-- An entry of a block mapping that others follow. -/
private theorem moreEntries_rereads {r' afterKey : Reader} {lead' colonTail rest y : Text}
    {key : Scalar} {data : Data} {entries : List (Entry Block)} {legible legibleRest : Bool}
    {column : Nat} (hcolumn : r'.column = column) (hstart : atKey r'.rest = true)
    (hkey : r'.blockKey = .ok (key, afterKey))
    (hcolon : afterKey.afterBlanks.rest = ':' :: colonTail)
    (hvalue : Rereads (BlockNode (column + 1) .mappingValue (afterKey.afterBlanks.skip 1))
      (fun again => again.data = data) (Before rest) legible)
    (hnext : ∀ {middle : Reader}, Before rest middle → middle.entryFollows column = true)
    (hentries : ∀ {middle : Reader}, Before rest middle →
      Rereads (BlockEntries middle.trivia middle.afterTrivia)
        (fun again => entriesData again = entriesData entries) (Before y) legibleRest) :
    Rereads (BlockEntries lead' r')
      (fun again => entriesData again = (key.keyData, data) :: entriesData entries)
      (Before y) (legible && legibleRest) := by
  subst hcolumn
  refine hvalue.andThen hentries ?_ ?_
  · intro value middle others last hvalue hdata hmiddle hothers hsame
    refine ⟨_, .more hstart hkey hcolon hvalue (hnext hmiddle) hothers, ?_⟩
    simp [entriesData, hdata, hsame]
  · intro again last hagain hdata
    cases hagain with
    | last _ hkey' _ hvalue' hnext' =>
        cases hkey.symm.trans hkey'
        simp only [entriesData, List.cons.injEq, Prod.mk.injEq, true_and] at hdata
        exact ⟨_, _, hvalue', hdata.1, fun hmiddle => by simp [hnext hmiddle] at hnext'⟩
    | more _ hkey' _ hvalue' _ hothers =>
        cases hkey.symm.trans hkey'
        simp only [entriesData, List.cons.injEq, Prod.mk.injEq, true_and] at hdata
        exact ⟨_, _, hvalue', hdata.1, fun _ => ⟨_, hothers, hdata.2⟩⟩

/-- The last item of a block sequence. -/
private theorem lastItem_rereads {r' : Reader} {lead' y : Text} {data : Data} {legible : Bool}
    {column : Nat} (hcolumn : r'.column = column) (hstart : atDash r'.rest = true)
    (hvalue : Rereads (BlockNode (column + 1) .sequenceItem (r'.skip 1))
      (fun again => again.data = data) (Before y) legible)
    (hnext : ∀ {middle : Reader}, Before y middle → middle.itemFollows column = false) :
    Rereads (BlockItems lead' r') (fun again => itemsData again = [data]) (Before y) legible := by
  subst hcolumn
  refine hvalue.transfer ?_ ?_
  · intro value last hvalue hdata hlast
    exact ⟨_, last, .last hstart hvalue (hnext hlast), by simp [itemsData, hdata]⟩
  · intro again last hagain hdata
    cases hagain with
    | last _ hvalue' =>
        simp only [itemsData, List.cons.injEq, and_true] at hdata
        exact ⟨_, _, hvalue', hdata, id⟩
    | more _ hvalue' hnext' =>
        simp only [itemsData, List.cons.injEq] at hdata
        exact ⟨_, _, hvalue', hdata.1, fun hlast => by simp [hnext hlast] at hnext'⟩

/-- An item of a block sequence that others follow. -/
private theorem moreItems_rereads {r' : Reader} {lead' rest y : Text} {data : Data}
    {items : List (Item Block)} {legible legibleRest : Bool} {column : Nat}
    (hcolumn : r'.column = column) (hstart : atDash r'.rest = true)
    (hvalue : Rereads (BlockNode (column + 1) .sequenceItem (r'.skip 1))
      (fun again => again.data = data) (Before rest) legible)
    (hnext : ∀ {middle : Reader}, Before rest middle → middle.itemFollows column = true)
    (hitems : ∀ {middle : Reader}, Before rest middle →
      Rereads (BlockItems middle.trivia middle.afterTrivia)
        (fun again => itemsData again = itemsData items) (Before y) legibleRest) :
    Rereads (BlockItems lead' r') (fun again => itemsData again = data :: itemsData items)
      (Before y) (legible && legibleRest) := by
  subst hcolumn
  refine hvalue.andThen hitems ?_ ?_
  · intro value middle others last hvalue hdata hmiddle hothers hsame
    refine ⟨_, .more hstart hvalue (hnext hmiddle) hothers, ?_⟩
    simp [itemsData, hdata, hsame]
  · intro again last hagain hdata
    cases hagain with
    | last _ hvalue' hnext' =>
        simp only [itemsData, List.cons.injEq] at hdata
        exact ⟨_, _, hvalue', hdata.1, fun hmiddle => by simp [hnext hmiddle] at hnext'⟩
    | more _ hvalue' _ hothers =>
        simp only [itemsData, List.cons.injEq] at hdata
        exact ⟨_, _, hvalue', hdata.1, fun _ => ⟨_, hothers, hdata.2⟩⟩

/-! ## Collections -/

/-- A block mapping is reread if its entries are. -/
private theorem mapping_rereads {lead lead' y : Text} {markers : List Marker}
    {entries : List (Entry Block)} {r' : Reader} (hopen : opening r'.rest = .key)
    (hline : (place == .mappingValue && sameLine) = false)
    (h : Rereads (BlockEntries [] r') (fun again => entriesData again = entriesData entries)
      (Before y) (entriesLegible (some (r'.column + 1)) r'.column y entries)) :
    Rereads (BlockContent floor place sameLine lead' r')
      (fun again => again.data = (Block.mapping ⟨lead, markers, none, .block, entries⟩).data)
      (Before y)
      ((Block.mapping ⟨lead, markers, none, .block, entries⟩).legible (some floor)
        r'.column y) := by
  have hlegible : (Block.mapping ⟨lead, markers, none, .block, entries⟩).legible (some floor)
      r'.column y = entriesLegible (some (r'.column + 1)) r'.column y entries := by
    simp [Block.legible, anchorLegible_none, Layout.context, Layout.printClosing,
      Anchor.printOption, columnAfter]
  rw [hlegible]
  refine h.transfer ?_ ?_
  · intro again last hagain hdata _
    exact ⟨_, last, .mapping hopen hline hagain, by simp [Block.data, hdata]⟩
  · intro node last hnode hdata
    cases hnode with
    | mapping _ _ hagain =>
        simp only [Block.data, Option.map_none, Data.mapping.injEq, true_and] at hdata
        exact ⟨_, last, hagain, hdata, id⟩
    | anchorAlone hopen' | anchored hopen' | aliasNode hopen' | flow hopen' | literal hopen'
    | folded hopen' | quoted hopen' | sequence hopen' | plain hopen' => simp [hopen] at hopen'

/-- A block sequence is reread if its items are. -/
private theorem sequence_rereads {lead lead' y : Text} {markers : List Marker} {indentless : Bool}
    {items : List (Item Block)} {r' : Reader} (hopen : opening r'.rest = .item)
    (hline : (place == .mappingValue && sameLine) = false)
    (h : Rereads (BlockItems [] r') (fun again => itemsData again = itemsData items)
      (Before y) (itemsLegible (some (r'.column + 1)) r'.column y items)) :
    Rereads (BlockContent floor place sameLine lead' r')
      (fun again => again.data =
        (Block.sequence ⟨lead, markers, none, .block, indentless, items⟩).data)
      (Before y)
      ((Block.sequence ⟨lead, markers, none, .block, indentless, items⟩).legible (some floor)
        r'.column y) := by
  have hlegible : (Block.sequence ⟨lead, markers, none, .block, indentless, items⟩).legible
      (some floor) r'.column y = itemsLegible (some (r'.column + 1)) r'.column y items := by
    simp [Block.legible, anchorLegible_none, Layout.context, Layout.printClosing,
      Anchor.printOption, columnAfter]
  rw [hlegible]
  refine h.transfer ?_ ?_
  · intro again last hagain hdata _
    exact ⟨_, last, .sequence hopen hline hagain, by simp [Block.data, hdata]⟩
  · intro node last hnode hdata
    cases hnode with
    | sequence _ _ hagain =>
        simp only [Block.data, Option.map_none, Data.sequence.injEq, true_and] at hdata
        exact ⟨_, last, hagain, hdata, id⟩
    | anchorAlone hopen' | anchored hopen' | aliasNode hopen' | flow hopen' | literal hopen'
    | folded hopen' | quoted hopen' | mapping hopen' | plain hopen' => simp [hopen] at hopen'

/-- A flow collection in block context is read as in flow context: what follows it does not
matter. -/
private theorem flow_rereads (hsound : ValueProblem.Sound recipe.options.value) {lead : Text}
    {r after r' : Reader} {block block' : Block} {y : Text} (hopen : opening r.rest = .flow)
    (h : FlowNode lead r block after) (hdropped : after.dropped = r.dropped)
    (hpatch : PatchedBlock recipe block block') (hhead : after.rest.head? = y.head?)
    (hrest : r'.rest = Anchor.printOption block'.anchor ++ (block'.body ++ y)) (lead' : Text)
    (column : Nat) :
    Rereads (BlockContent floor place sameLine lead' r') (fun again => again.data = block'.data)
      (Before y) (block'.legible (some floor) column y) := by
  obtain ⟨c, tail, hrestHead, hc⟩ : ∃ c tail, r.rest = c :: tail ∧ (c = '[' ∨ c = '\x7b') := by
    rcases describes_of_opening hopen with ⟨tail, htail | htail⟩
    · exact ⟨_, tail, htail, .inl rfl⟩
    · exact ⟨_, tail, htail, .inr rfl⟩
  have hhead' : r.rest.head? = r'.rest.head? := by
    rw [hrest, (h.keeps.2.rest_eq hdropped).1, List.append_assoc]
    exact hpatch.head_eq hhead
  have hopen' : opening r'.rest = .flow := by
    rw [hrestHead] at hhead'
    obtain ⟨tail', htail'⟩ := List.head?_eq_some_iff.mp hhead'.symm
    rw [htail']
    rcases hc with rfl | rfl <;> rfl
  have hlegible : block'.legible (some floor) column y = block'.legible none column y := by
    rcases hc with rfl | rfl
    · obtain ⟨items, closing, rfl, -⟩ := h.bracket_inv hrestHead
      cases hpatch
      simp [Block.legible, anchorLegible_none, Layout.context]
    · obtain ⟨entries, closing, rfl, -⟩ := h.brace_inv hrestHead
      cases hpatch
      simp [Block.legible, anchorLegible_none, Layout.context]
  have hstart : triviaLength r.rest = 0 := by
    rw [hrestHead]
    rcases hc with rfl | rfl <;> rfl
  have hflow := h.rereads hsound hdropped hstart hpatch
    (fun hbracket hbrace => by rcases hc with rfl | rfl <;> simp_all) hrest lead' column
  rw [hlegible]
  refine hflow.transfer ?_ ?_
  · intro again last hagain hdata _
    exact ⟨again, last, .flow hopen' hagain, hdata⟩
  · intro again last hagain hdata
    cases hagain with
    | flow _ hnode => exact ⟨again, last, hnode, hdata, .of_rest_eq⟩
    | anchorAlone hopen | anchored hopen | aliasNode hopen | mapping hopen | literal hopen
    | folded hopen | quoted hopen | sequence hopen | plain hopen => simp [hopen'] at hopen

/-! ## What follows an entry -/

/-- Nothing that belongs to a value follows it where the mapping goes on. -/
private theorem stops_of_entryFollows {column : Nat} {r : Reader}
    (h : r.entryFollows column = true) : r.stops (column + 1) .mappingValue = true := by
  obtain ⟨hline, hcolumn, -, hkey⟩ := entryFollows_inv h
  have hdash : atDash r.afterTrivia.rest = false := by
    refine Bool.eq_false_iff.mpr fun hdash => ?_
    rw [atKey_of_atDash hdash] at hkey
    cases hkey
  simp [stops, List.contains_iff_mem.mp hline, continues, hcolumn, hdash]

/-- Nothing that belongs to a value follows it where the mapping ends. -/
private theorem stops_of_ahead {column : Nat} {r : Reader} {y : Text}
    (h : Ahead column r.rest y) : r.stops (column + 1) .mappingValue = true := by
  rcases @Ahead.places column r { rest := y } [] y h .nil rfl with
    ⟨hnil, -⟩ | ⟨hline, -, -, -, -, -, hleft⟩
  · simp [stops, hnil]
  · have hcontinues : r.afterTrivia.continues (column + 1) .mappingValue = false := by
      rcases hleft with ⟨hcolumn, -⟩ | hmark
      · have hle : ¬column + 1 ≤ r.afterTrivia.column := by omega
        have hne : r.afterTrivia.column ≠ column := by omega
        simp [continues, hle, hne]
      · simp [continues, hmark]
    simp only [stops, hline, hcontinues, Bool.not_false, Bool.and_true, Bool.or_true]

/-- A changed entry of a block mapping starts with the same key and colon, and its value starts at
the same column. -/
private theorem entry_again {r afterKey after r' : Reader} {key : Scalar} {value value' : Block}
    {y : Text} (hstart : atKey r.rest = true) (hkey : r.blockKey = .ok (key, afterKey))
    (hdropped : afterKey.dropped = r.dropped)
    (hcolon : afterKey.afterBlanks.rest = ':' :: (value.print ++ after.rest))
    (hchange : PatchedBlock recipe value value' ∨ value' = recipe.newValue value)
    (hhead : after.rest.head? = y.head?)
    (hrest : r'.rest = key.print ++ (afterKey.blanks ++ ':' :: (value'.print ++ y))) :
    ∃ afterKey', atKey r'.rest = true ∧ r'.blockKey = .ok (key, afterKey') ∧
      afterKey'.afterBlanks.rest = ':' :: (value'.print ++ y) ∧
      (afterKey'.afterBlanks.skip 1).rest = value'.print ++ y ∧
      (afterKey'.afterBlanks.skip 1).column =
        columnAfter r'.column (key.print ++ afterKey.blanks ++ [':']) := by
  obtain ⟨-, hstart', hkey'⟩ :=
    blockKey_again hstart hkey hdropped hcolon (colon_next hchange hhead) hrest
  obtain ⟨-, hcolon', hskip⟩ := afterColon_again hcolon hrest
  refine ⟨_, hstart', hkey', hcolon', @rest_skip _ [':'] _ hcolon', ?_⟩
  rw [hskip]
  exact @column_skip r' _ (value'.print ++ y) (by simp [hrest])

/-- The value of an item starts after the dash. -/
private theorem item_column {r : Reader} (h : atDash r.rest = true) (lead : Text) :
    columnAfter (r.skip 1).column lead = columnAfter r.column (printDash true ++ lead) := by
  rw [dash_column h, columnAfter_append]
  rfl

/-! ## Nodes -/

mutual

/-- A changed node in block context is read back exactly if it is legible. -/
theorem BlockNode.rereads (hsound : ValueProblem.Sound recipe.options.value) {floor : Nat}
    {place : Place} {r after : Reader} {block block' : Block}
    (h : BlockNode floor place r block after) (hdropped : after.dropped = r.dropped)
    (hplace : place ≠ .mappingValue → floor ≤ r.column)
    (hpatch : PatchedBlock recipe block block') {y : Text} (hahead : Ahead floor after.rest y)
    {r' : Reader} (hrest : r'.rest = block'.print ++ y) (hcolumn : r'.column = r.column) :
    Rereads (BlockNode floor place r') (fun again => again.data = block'.data) (Before y)
      (block'.legible (some floor) (columnAfter r.column block'.lead) y) := by
  match h with
  | .missing hstop =>
    cases hpatch
    replace hrest : r'.rest = y := hrest
    have hstop' : r'.stops floor place = true := by
      rw [hahead.stops_eq .nil hrest, hstop]
    refine .of_unique (.missing hstop') (BlockNode.missing_inv hstop') ?_
      fun _ => .of_rest_eq hrest
    simp [Block.empty, Block.legible, anchorLegible_none, Scalar.legible]
  | .content hstop hcontent =>
    have hlead : block'.lead = r.trivia := hpatch.lead_eq.trans hcontent.keeps.1
    rw [Block.print_eq_append, hlead, List.append_assoc, List.append_assoc] at hrest
    have hne := rest_ne_nil_of_stops hstop
    have halike := hcontent.alike hdropped hpatch hahead
    obtain ⟨htrivia, hrest', hcolumn', hstop'⟩ :=
      @afterTrivia_again floor place _ _ _ hrest hcolumn hne halike
    refine BlockNode.rereads_of_content (hstop'.trans hstop) ?_
    rw [htrivia, hlead]
    exact hcontent.rereads hsound hdropped hne (triviaLength_afterTrivia r)
      (fun hline => (nested_of_stops hstop hplace hline).imp_right And.right) hpatch hahead hrest'
      hcolumn' r.trivia

/-- A changed node that starts at a place in block context is read back exactly if it is legible. -/
theorem BlockContent.rereads (hsound : ValueProblem.Sound recipe.options.value) {floor : Nat}
    {place : Place} {sameLine : Bool} {lead : Text} {r after : Reader} {block block' : Block}
    (h : BlockContent floor place sameLine lead r block after)
    (hdropped : after.dropped = r.dropped) (hne : r.rest ≠ []) (hstart : triviaLength r.rest = 0)
    (hnested : (place == .mappingValue && sameLine) = false →
      floor ≤ r.column ∨ r.column + 1 = floor ∧ atDash r.rest = true)
    (hpatch : PatchedBlock recipe block block') {y : Text} (hahead : Ahead floor after.rest y)
    {r' : Reader} (hrest : r'.rest = Anchor.printOption block'.anchor ++ (block'.body ++ y))
    (hcolumn : r'.column = r.column) (lead' : Text) :
    Rereads (BlockContent floor place sameLine lead' r') (fun again => again.data = block'.data)
      (Before y) (block'.legible (some floor) r.column y) := by
  match h with
  | .anchorAlone hopen hname hend =>
    cases hpatch
    exact (anchorAlone_rereads lead' _ hname hend hahead
      (by simpa [Block.anchor, Anchor.printOption, Anchor.print, Block.body, Scalar.printBody]
        using hrest)).weaken .of_rest_eq
  | @BlockContent.anchored _ _ _ _ name _ middle last inner _ hopen hname hend hcontent hanchor =>
    replace hahead : Ahead floor last.rest y := hahead
    obtain ⟨⟨tail, htail⟩, -⟩ := describes_of_opening hopen
    obtain ⟨inner', hpatch', hanchor'⟩ := hpatch.withAnchor_inv hanchor
    have hname₀ := anchorName_keeps htail hname
    have hbefore := hname₀.trans (Keeps.trivia middle)
    obtain ⟨hnone, hlast⟩ := dropping_inv (hbefore.trans hcontent.keeps.2) hdropped
    obtain ⟨hmiddle, hinner⟩ := hbefore.dropped_split hcontent.keeps.2 hlast
    have hnone' : inner'.anchor = none := hpatch'.anchor_eq.trans hnone
    -- the node after the anchor starts as it did, at the same column
    have halike : Alike middle.afterTrivia.rest (inner'.body ++ y) := by
      have hfull := hcontent.alike hinner hpatch' hahead
      rwa [hnone'] at hfull
    obtain ⟨hstop, -⟩ := Bool.or_eq_false_iff.mp hend
    have hne' := rest_ne_nil_of_stops hstop
    replace hrest : r'.rest = ('&' :: name) ++ (middle.trivia ++ (inner'.body ++ y)) := by
      obtain ⟨-, hsome, hbody⟩ := Block.withAnchor?_eq_some hanchor'
      rw [hrest, hsome, hbody]
      simp [Anchor.printOption, Anchor.print]
    have hname' := anchorName_again hname hrest (by
      rw [← trivia_append middle]
      exact head?_append_congr halike.head _)
    have hcolumnName : (r'.skip ('&' :: name).length).column = middle.column := by
      rw [column_skip hrest, hcolumn, (hname₀.rest_eq hmiddle).2]
    obtain ⟨htrivia, hrest', hcolumn', hstop'⟩ :=
      @afterTrivia_again floor place _ _ _ (rest_skip hrest) hcolumnName hne' halike
    have hplace : place ≠ .mappingValue → floor ≤ middle.column := by
      intro hmapping
      have hle := anchorName_column htail hname
      rcases hnested (by simp [hmapping]) with hcolumn | ⟨-, hdash⟩
      · omega
      · simp [htail, atDash] at hdash
    refine anchored_rereads hrest (by simpa [Anchor.print] using hrest) hname' ?_ ?_ hnone' hanchor'
      ?_
    · rw [hstop', htrivia, hrest', ← atFlowEnd_congr halike.head, hend]
    · rw [hrest']
      exact hcontent.opening_ne_anchor hinner hnone hpatch' hahead
    · have hcolumnInner : middle.afterTrivia.column =
          columnAfter r.column (Anchor.print ⟨name, middle.trivia⟩) :=
        (hbefore.rest_eq hmiddle).2
      rw [htrivia, ← hcolumnInner]
      exact hcontent.rereads hsound hinner hne' (triviaLength_afterTrivia middle)
        (fun hline => (nested_of_stops hstop hplace hline).imp_right And.right) hpatch' hahead
        (by rw [hrest', hnone']; rfl) hcolumn' []
  | .aliasNode hopen =>
    cases hpatch
    exact (aliasNode_rereads lead' _ hahead hrest).weaken .of_rest_eq
  | .flow hopen hnode =>
    exact flow_rereads hsound hopen hnode hdropped hpatch hahead.head hrest lead' _
  | .literal hopen =>
    cases hpatch
    obtain ⟨tail, htail⟩ := describes_of_opening hopen
    exact (literal_rereads lead' _ (.inl ⟨rfl, rfl⟩) htail hahead hrest).weaken .of_rest_eq
  | .folded hopen =>
    cases hpatch
    obtain ⟨tail, htail⟩ := describes_of_opening hopen
    exact (literal_rereads lead' _ (.inr ⟨rfl, rfl⟩) htail hahead hrest).weaken .of_rest_eq
  | .quoted hopen hscalar =>
    cases hpatch
    have hquote := (describes_of_opening hopen).1
    obtain ⟨text, rfl, -, -⟩ := quoted_eq_ok hscalar
    exact (quoted_rereads lead' _ hquote hscalar hahead hrest).weaken .of_rest_eq
  | .sequence hopen hline hitems =>
    cases hpatch with
    | @sequence _ _ _ _ _ _ items' hpatch =>
        replace hrest : printItems items' ++ y = [] ++ r'.rest := by
          simpa [Block.anchor, Anchor.printOption, Block.body, Layout.printOpening,
            Layout.printClosing] using hrest.symm
        have hopen' := opening_item (hitems.start hdropped hpatch hahead.head hrest).2
        have hle : floor ≤ r.column + 1 := by
          rcases hnested hline with hcolumn | hcolumn <;> omega
        rw [← hcolumn]
        refine sequence_rereads hopen' hline ?_
        rw [hcolumn]
        exact hitems.rereads hsound hdropped hpatch (hahead.mono hle) hrest hcolumn []
  | .mapping hopen hline hentries =>
    cases hpatch with
    | @mapping _ _ _ _ _ entries' hpatch =>
        replace hrest : printEntries entries' ++ y = [] ++ r'.rest := by
          simpa [Block.anchor, Anchor.printOption, Block.body, Layout.printOpening,
            Layout.printClosing] using hrest.symm
        have hopen' := opening_key (hentries.start hdropped hpatch hahead.head hrest).2.2
        have hle : floor ≤ r.column := by
          rcases hnested hline with hcolumn | ⟨-, hdash⟩
          · exact hcolumn
          · simp [opening_item hdash] at hopen
        rw [← hcolumn]
        refine mapping_rereads hopen' hline ?_
        rw [hcolumn]
        exact hentries.rereads hsound hdropped hpatch (hahead.mono hle) hrest hcolumn []
  | .plain hopen =>
    cases hpatch
    exact (keptPlain_rereads lead' _ hopen hne hstart hahead hrest).weaken .of_rest_eq

/-- Changed entries of a block mapping are read back exactly if their values are legible. -/
theorem BlockEntries.rereads (hsound : ValueProblem.Sound recipe.options.value) {lead : Text}
    {r after : Reader} {entries entries' : List (Entry Block)}
    (h : BlockEntries lead r entries after) (hdropped : after.dropped = r.dropped)
    (hpatch : PatchedEntries recipe entries entries') {y : Text}
    (hahead : Ahead r.column after.rest y) {r' : Reader}
    (hrest : printEntries entries' ++ y = lead ++ r'.rest) (hcolumn : r'.column = r.column)
    (lead' : Text) :
    Rereads (BlockEntries lead' r') (fun again => entriesData again = entriesData entries')
      (Before y) (entriesLegible (some (r.column + 1)) r.column y entries') := by
  match h with
  | @BlockEntries.last _ colonTail _ afterKey _ key value hstart hkey hcolon hvalue hnext =>
    obtain ⟨value', entries', rfl, hchange, hnil⟩ := hpatch.cons_inv
    cases hnil
    rw [printEntries_cons_append] at hrest
    replace hrest := (List.append_cancel_left hrest).symm
    obtain ⟨hkeyDropped, hvalueDropped, rfl, hvalueColumn⟩ :=
      entry_rest (blockKey_keeps hkey) hcolon hvalue.keeps hdropped
    obtain ⟨afterKey', hstart', hkey', hcolon', hrest', hcolumn'⟩ :=
      entry_again hstart hkey hkeyDropped hcolon hchange hahead.head hrest
    rw [hcolumn, ← hvalueColumn] at hcolumn'
    have hvalueAhead : Ahead (r.column + 1) after.rest y := hahead.mono (Nat.le_succ _)
    have hreread : Rereads (BlockNode (r.column + 1) .mappingValue (afterKey'.afterBlanks.skip 1))
        (fun again => again.data = value'.data) (Before y)
        (value'.legible (some (r.column + 1))
          (columnAfter (afterKey.afterBlanks.skip 1).column value'.lead) y) := by
      rcases hchange with hvaluePatch | rfl
      · exact hvalue.rereads hsound hvalueDropped (absurd rfl) hvaluePatch hvalueAhead hrest'
          hcolumn'
      · exact newValue_rereads hsound hvalue hvalueAhead (stops_of_ahead hahead) hrest' hcolumn'
    rw [hvalueColumn, ← columnAfter_append] at hreread
    rw [entriesLegible, entriesLegible, Bool.and_true]
    refine lastEntry_rereads hcolumn hstart' hkey' hcolon' hreread ?_
    rintro last ⟨trivia, htrivia, hlast⟩
    rw [hahead.entryFollows_eq htrivia hlast, hnext]
  | @BlockEntries.more _ colonTail _ afterKey middle _ key value entries hstart hkey hcolon hvalue
      hnext hentries =>
    obtain ⟨value', entries', rfl, hchange, hmore⟩ := hpatch.cons_inv
    rw [printEntries_cons_append] at hrest
    replace hrest := (List.append_cancel_left hrest).symm
    obtain ⟨hmiddle, hafter⟩ := moreEntries_dropped hkey hcolon hvalue hentries hdropped
    obtain ⟨hkeyDropped, hvalueDropped, rfl, hvalueColumn⟩ :=
      entry_rest (blockKey_keeps hkey) hcolon hvalue.keeps hmiddle
    have hvalueAhead := ahead_of_more hnext hentries hafter hmore hahead.head
    obtain ⟨afterKey', hstart', hkey', hcolon', hrest', hcolumn'⟩ :=
      entry_again hstart hkey hkeyDropped hcolon hchange hvalueAhead.head hrest
    rw [hcolumn, ← hvalueColumn] at hcolumn'
    have hreread : Rereads (BlockNode (r.column + 1) .mappingValue (afterKey'.afterBlanks.skip 1))
        (fun again => again.data = value'.data) (Before (printEntries entries' ++ y))
        (value'.legible (some (r.column + 1))
          (columnAfter (afterKey.afterBlanks.skip 1).column value'.lead)
          (printEntries entries' ++ y)) := by
      rcases hchange with hvaluePatch | rfl
      · exact hvalue.rereads hsound hvalueDropped (absurd rfl) hvaluePatch hvalueAhead hrest'
          hcolumn'
      · exact newValue_rereads hsound hvalue hvalueAhead (stops_of_entryFollows hnext) hrest'
          hcolumn'
    rw [hvalueColumn, ← columnAfter_append] at hreread
    rw [entriesLegible]
    refine moreEntries_rereads hcolumn hstart' hkey' hcolon' hreread ?_ ?_
    · rintro last ⟨trivia, htrivia, hlast⟩
      rw [hvalueAhead.entryFollows_eq htrivia hlast, hnext]
    · rintro last ⟨trivia, htrivia, hlast⟩
      obtain ⟨-, hnextColumn, hne, -⟩ := entryFollows_inv hnext
      obtain ⟨hlastColumn, hlastRest⟩ := hvalueAhead.next hne htrivia hlast
      rw [← hnextColumn]
      exact hentries.rereads hsound hafter hmore (hnextColumn ▸ hahead) hlastRest hlastColumn _

/-- Changed items of a block sequence are read back exactly if their values are legible. -/
theorem BlockItems.rereads (hsound : ValueProblem.Sound recipe.options.value) {lead : Text}
    {r after : Reader} {items items' : List (Item Block)} (h : BlockItems lead r items after)
    (hdropped : after.dropped = r.dropped) (hpatch : PatchedItems recipe items items') {y : Text}
    (hahead : Ahead (r.column + 1) after.rest y) {r' : Reader}
    (hrest : printItems items' ++ y = lead ++ r'.rest) (hcolumn : r'.column = r.column)
    (lead' : Text) :
    Rereads (BlockItems lead' r') (fun again => itemsData again = itemsData items')
      (Before y) (itemsLegible (some (r.column + 1)) r.column y items') := by
  have hstart' := (h.start hdropped hpatch hahead.head hrest).2
  match h with
  | @BlockItems.last _ _ _ value hstart hvalue hnext =>
    obtain ⟨value', items', rfl, hvaluePatch, hnil⟩ := hpatch.cons_inv
    cases hnil
    rw [printItems_cons_append] at hrest
    replace hrest := (List.append_cancel_left hrest).symm
    have hcolumn' : (r'.skip 1).column = (r.skip 1).column := by
      rw [dash_column hstart, dash_column hstart', hcolumn]
    have hreread := hvalue.rereads hsound hdropped (fun _ => Nat.le_of_eq (dash_column hstart).symm)
      hvaluePatch hahead (@rest_skip r' ['-'] _ hrest) hcolumn'
    rw [item_column hstart] at hreread
    rw [itemsLegible, itemsLegible, Bool.and_true]
    refine lastItem_rereads hcolumn hstart' hreread ?_
    rintro last ⟨trivia, htrivia, hlast⟩
    rw [hahead.itemFollows_eq htrivia hlast, hnext]
  | @BlockItems.more _ _ middle _ value items hstart hvalue hnext hitems =>
    obtain ⟨value', items', rfl, hvaluePatch, hmore⟩ := hpatch.cons_inv
    rw [printItems_cons_append] at hrest
    replace hrest := (List.append_cancel_left hrest).symm
    obtain ⟨hmiddle, hafter⟩ := moreItems_dropped hvalue hitems hdropped
    have hvalueAhead := ahead_of_moreItems hnext hitems hafter hmore hahead.head
    have hcolumn' : (r'.skip 1).column = (r.skip 1).column := by
      rw [dash_column hstart, dash_column hstart', hcolumn]
    have hreread := hvalue.rereads hsound hmiddle (fun _ => Nat.le_of_eq (dash_column hstart).symm)
      hvaluePatch hvalueAhead (@rest_skip r' ['-'] _ hrest) hcolumn'
    rw [item_column hstart] at hreread
    rw [itemsLegible]
    refine moreItems_rereads hcolumn hstart' hreread ?_ ?_
    · rintro last ⟨trivia, htrivia, hlast⟩
      rw [hvalueAhead.itemFollows_eq htrivia hlast, hnext]
    · rintro last ⟨trivia, htrivia, hlast⟩
      obtain ⟨-, hnextColumn, hne, -⟩ := itemFollows_inv hnext
      obtain ⟨hlastColumn, hlastRest⟩ := hvalueAhead.next hne htrivia hlast
      rw [← hnextColumn]
      exact hitems.rereads hsound hafter hmore (hnextColumn ▸ hahead) hlastRest hlastColumn _

end

end Reader

end LosslessYaml
