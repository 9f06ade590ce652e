import LosslessYaml.Proofs.ReadBack.Flow
import LosslessYaml.Proofs.Reading.Columns

/-!
# Reading a changed tree again: scalars in block context

Scalars with marks of their own are read as before, whatever follows them.  A plain scalar is read
back exactly if it is as long as it is found to be, and so is a new value, once it is known that the
reader takes what follows the colon for a value of the entry at all.
-/

namespace LosslessYaml

open Text Lookahead ChangeValue

/-! ## Openings -/

namespace Lookahead

/-- A quoted scalar does not become a key where no colon follows it. -/
theorem opening_quoted {quote : Char} (hquote : quote = '"' ∨ quote = '\'') {text y : Text}
    (hlength : quotedLength false quote (text ++ quote :: y) = some text.length)
    (hcolon : atColon (y.dropWhile isBlank) = false) :
    opening (quote :: (text ++ quote :: y)) = .quoted quote := by
  have hkey : atKey (quote :: (text ++ quote :: y)) = false := by
    rw [atKey_cons (by rcases hquote with rfl | rfl <;> decide)]
    have hmark : (quote == '"' || quote == '\'') = true := by
      rcases hquote with rfl | rfl <;> rfl
    simp only [atBareKey, hmark, if_true]
    split
    next => rfl
    next n hn =>
      cases hlength.symm.trans (quotedLength_of_oneLine hn)
      have hdrop : (text ++ quote :: y).drop (text.length + 1) = y := by simp
      rw [hdrop, hcolon]
  unfold opening
  simp only [hkey]
  rcases hquote with rfl | rfl <;> rfl

/-- An anchor stands before a key or before a node. -/
theorem opening_anchor (tail : Text) :
    opening ('&' :: tail) = if atKey ('&' :: tail) then .key else .anchor := by
  cases h : atKey ('&' :: tail) with
  | true => simp [opening, atDash, h]
  | false => simp [opening, h]

theorem opening_key {text : Text} (h : atKey text = true) : opening text = .key := by
  cases text with
  | nil => simp [atKey, atBareKey] at h
  | cons c rest =>
      by_cases hc : c = '&'
      · subst hc
        rw [opening_anchor, if_pos h]
      · have hbare := h
        rw [atKey_cons hc] at hbare
        have hdash : atDash (c :: rest) = true → c = '-' := by
          intro hdash
          obtain ⟨tail, htail⟩ := eq_dash_of_atDash hdash
          exact (List.cons.inj htail).1
        unfold opening
        simp only [h]
        simp only [atBareKey] at hbare
        grind

end Lookahead

namespace Reader

variable {recipe : ChangeValue} {floor : Nat} {place : Place} {sameLine : Bool}

/-! ## Which rule a text is read by -/

/-- A plain scalar is read by its length only. -/
theorem BlockContent.plain_inv {lead text : Text} {r after : Reader} {node : Block}
    (h : BlockContent floor place sameLine lead r node after)
    (hdata : node.data = .scalar none .plain text) :
    opening r.rest = .plain ∧ r.taken (plainBlockLength floor r.rest) = text ∧
      after = r.skip (plainBlockLength floor r.rest) := by
  cases h with
  | anchorAlone | aliasNode | literal | folded | sequence | mapping =>
      simp [Block.data, Reader.aliasNode, Reader.literal] at hdata
  | anchored _ _ _ _ hanchor =>
      have hsome := congrArg Data.anchor hdata
      rw [Block.data_anchor, (Block.withAnchor?_eq_some hanchor).2.1] at hsome
      simp [Data.anchor] at hsome
  | flow hopen hnode =>
      rcases describes_of_opening hopen with ⟨tail, hopen | hopen⟩
      · obtain ⟨items, closing, rfl, -⟩ := hnode.bracket_inv hopen
        simp [Block.data] at hdata
      · obtain ⟨entries, closing, rfl, -⟩ := hnode.brace_inv hopen
        simp [Block.data] at hdata
  | quoted hopen hscalar =>
      obtain ⟨text, rfl, -, -⟩ := quoted_eq_ok hscalar
      simp only [Block.data, Data.scalar.injEq] at hdata
      split at hdata <;> simp at hdata
  | plain hopen =>
      simp only [Reader.plain, Block.data, Data.scalar.injEq, true_and] at hdata
      exact ⟨hopen, hdata.2, rfl⟩

/-! ## Kept scalars -/

/-- A plain scalar in block context is read back if it is as long as it is found to be. -/
theorem plain_rereads {text y : Text} {r' : Reader} (lead lead' : Text) (column : Nat)
    (hne : text ≠ []) (hrest : r'.rest = text ++ y)
    (hopen : plainBlockLength floor (text ++ y) = text.length → opening (text ++ y) = .plain) :
    Rereads (BlockContent floor place sameLine lead' r')
      (fun again => again.data = (Block.scalar { lead, text }).data)
      (fun last => last.rest = y)
      ((Block.scalar { lead, text }).legible (some floor) column y) := by
  have hle := plainBlockLength_le floor (text ++ y)
  have hlegible : (Block.scalar { lead, text }).legible (some floor) column y = true ↔
      plainBlockLength floor (text ++ y) = text.length := by
    simp [Block.legible, anchorLegible_none, Scalar.legible, hne]
  constructor
  · intro hmeasured
    have hlength := hlegible.mp hmeasured
    have hnode := @BlockContent.plain floor place sameLine lead' r' (by rw [hrest, hopen hlength])
    refine ⟨_, _, hnode, ?_⟩
    simp only [Reader.plain, Block.data, hrest, hlength, taken_eq hrest]
  · intro again last hagain hdata
    obtain ⟨-, htaken, rfl⟩ := hagain.plain_inv hdata
    simp only [taken, hrest, take_append_eq_iff hle] at htaken
    refine ⟨hlegible.mpr htaken, ?_⟩
    rw [hrest, htaken, rest_skip hrest]

/-- A plain scalar that was read is plain before the other text, too. -/
theorem keptPlain_rereads {lead y : Text} {r r' : Reader} (lead' : Text) (column : Nat)
    (hopen : opening r.rest = .plain) (hne : r.rest ≠ []) (hstart : triviaLength r.rest = 0)
    (hahead : Ahead floor (r.plain (plainBlockLength floor r.rest) lead).2.rest y)
    (hrest : r'.rest = (r.plain (plainBlockLength floor r.rest) lead).1.body ++ y) :
    Rereads (BlockContent floor place sameLine lead' r')
      (fun again => again.data = (r.plain (plainBlockLength floor r.rest) lead).1.data)
      (fun last => last.rest = y)
      ((r.plain (plainBlockLength floor r.rest) lead).1.legible (some floor) column y) := by
  have hpos := plainBlockLength_pos floor hne hstart
  have htext : r.taken (plainBlockLength floor r.rest) ≠ [] := by
    simp only [taken, ne_eq, List.take_eq_nil_iff, not_or]
    exact ⟨by omega, hne⟩
  refine plain_rereads lead lead' column htext hrest fun _ => ?_
  refine hahead.opening_plain htext ?_
  show opening (r.rest.take _ ++ r.rest.drop _) = .plain
  rw [List.take_append_drop, hopen]

/-- Literal and folded scalars end before the other text, too. -/
theorem literal_rereads {style : Style} {c : Char} {lead tail y : Text} {r r' : Reader}
    (lead' : Text) (column : Nat)
    (hstyle : c = '|' ∧ style = .literal ∨ c = '>' ∧ style = .folded) (hopen : r.rest = c :: tail)
    (hahead : Ahead floor (r.literal style floor lead).2.rest y)
    (hrest : r'.rest = (r.literal style floor lead).1.body ++ y) :
    Rereads (BlockContent floor place sameLine lead' r')
      (fun again => again.data = (r.literal style floor lead).1.data)
      (fun last => last.rest = y)
      ((r.literal style floor lead).1.legible (some floor) column y) := by
  generalize htext : (r.skip 1).taken (literalLength floor (r.skip 1).rest) = text
  have hlength : literalLength floor (text ++ (r.literal style floor lead).2.rest) =
      text.length := by
    have hle := literalLength_le floor (r.skip 1).rest
    have hsource : text ++ (r.literal style floor lead).2.rest = (r.skip 1).rest := by
      rw [← htext]
      exact List.take_append_drop _ _
    rw [hsource, ← htext, taken, List.length_take, Nat.min_eq_left hle]
  have hrest' : r'.rest = c :: (text ++ y) := by
    rw [hrest]
    rcases hstyle with ⟨rfl, rfl⟩ | ⟨rfl, rfl⟩ <;>
      simp [Reader.literal, htext, Block.body, Scalar.printBody]
  have hagain := @literal_again style floor _ _ _ r' lead' hrest' (hahead.literalLength_eq hlength)
  have hnode : BlockContent floor place sameLine lead' r'
      (.scalar { lead := lead', style, text }) (r'.skip (c :: text).length) := by
    rcases hstyle with ⟨rfl, rfl⟩ | ⟨rfl, rfl⟩
    · have hnode := @BlockContent.literal floor place sameLine lead' r' (by rw [hrest']; rfl)
      rwa [hagain] at hnode
    · have hnode := @BlockContent.folded floor place sameLine lead' r' (by rw [hrest']; rfl)
      rwa [hagain] at hnode
  refine .of_unique hnode hnode.unique ?_ fun _ => @rest_skip r' (c :: text) y hrest'
  simp only [Reader.literal, htext, Block.data, Block.legible, anchorLegible_none, Scalar.legible]
  rcases hstyle with ⟨-, rfl⟩ | ⟨-, rfl⟩ <;> simp

/-- A quoted scalar is read up to its closing quote. -/
theorem quoted_rereads {quote : Char} {lead y : Text} {r after r' : Reader} {scalar : Scalar}
    (lead' : Text) (column : Nat) (hquote : quote = '"' ∨ quote = '\'')
    (hscalar : r.quoted quote lead = .ok (scalar, after)) (hahead : Ahead floor after.rest y)
    (hrest : r'.rest = scalar.printBody ++ y) :
    Rereads (BlockContent floor place sameLine lead' r')
      (fun again => again.data = (Block.scalar scalar).data) (fun last => last.rest = y)
      ((Block.scalar scalar).legible (some floor) column y) := by
  have hagain := quoted_again hquote hscalar lead' hrest hahead.head
  obtain ⟨text, rfl, -, hlength⟩ := quoted_eq_ok hscalar
  rw [quotedLength_append hquote hahead.head false text hlength] at hlength
  have hopen : opening r'.rest = .quoted quote := by
    rw [hrest, printBody_quoted hquote]
    simpa using opening_quoted hquote hlength hahead.atColon_eq_false
  have hnode := @BlockContent.quoted floor place sameLine lead' r' _ quote _ hopen hagain
  refine .of_unique hnode hnode.unique ?_ fun _ => rest_skip hrest
  rcases hquote with rfl | rfl <;>
    simp [Block.data, Block.legible, anchorLegible_none, Scalar.legible]

/-- An alias ends with its name. -/
theorem aliasNode_rereads {lead y : Text} {r r' : Reader} (lead' : Text) (column : Nat)
    (hahead : Ahead floor (r.aliasNode lead).2.rest y)
    (hrest : r'.rest = (r.aliasNode lead).1.body ++ y) :
    Rereads (BlockContent floor place sameLine lead' r')
      (fun again => again.data = (r.aliasNode lead).1.data) (fun last => last.rest = y)
      ((r.aliasNode lead).1.legible (some floor) column y) := by
  have hagain := @aliasNode_again _ lead' y _ r' _ rfl hrest hahead.head
  have hnode := @BlockContent.aliasNode floor place sameLine lead' r' (by rw [hrest]; rfl)
  rw [hagain] at hnode
  refine .of_unique hnode hnode.unique ?_ fun _ => rest_skip hrest
  simp [Reader.aliasNode, Block.data, Block.legible]

/-! ## Anchors -/

/-- An anchor before a key belongs to the key. -/
theorem anchor_of_atKey {lead name tail : Text} {r after : Reader} {node : Block} {data : Data}
    (hopen : r.rest = '&' :: tail) (hkey : atKey r.rest = true) (hanchor : data.anchor = some name)
    (h : BlockContent floor place sameLine lead r node after) : node.data ≠ data := by
  rintro rfl
  rw [Block.data_anchor] at hanchor
  have hform : opening r.rest = .key := by
    rw [hopen] at hkey ⊢
    rw [opening_anchor, if_pos hkey]
  cases h with
  | mapping => simp [Block.anchor] at hanchor
  | anchorAlone hopen | anchored hopen | aliasNode hopen | flow hopen | literal hopen
  | folded hopen | quoted hopen | sequence hopen | plain hopen => simp [hform] at hopen

/-- Where the other text follows an anchor that stands alone, nothing that belongs to the place
follows either. -/
private theorem stops_of_end {r : Reader} {y : Text} (h : Ahead floor r.rest y)
    (hend : (r.stops floor place ||
      (!r.trivia.contains '\n' && atFlowEnd r.afterTrivia.rest)) = true) :
    r.stops floor place = true := by
  rcases @Ahead.places floor r { rest := y } [] y h .nil rfl with ⟨hnil, -⟩ | ⟨hline, -⟩
  · simp [stops, hnil]
  · simpa only [hline, Bool.not_true, Bool.false_and, Bool.or_false] using hend

/-- An anchor that stands alone. -/
theorem anchorAlone_rereads {lead name y : Text} {r after r' : Reader} (lead' : Text)
    (column : Nat) (hname : r.anchorName = .ok (name, after))
    (hend : (after.stops floor place ||
      (!after.trivia.contains '\n' && atFlowEnd after.afterTrivia.rest)) = true)
    (hahead : Ahead floor after.rest y) (hrest : r'.rest = '&' :: (name ++ y)) :
    Rereads (BlockContent floor place sameLine lead' r')
      (fun again => again.data =
        (Block.scalar { lead, anchor := some ⟨name, []⟩, text := [] }).data)
      (fun last => last.rest = y)
      ((Block.scalar { lead, anchor := some ⟨name, []⟩, text := [] }).legible (some floor) column
        y) := by
  have hlegible : (Block.scalar { lead, anchor := some ⟨name, []⟩, text := [] }).legible
      (some floor) column y = !atKey r'.rest := by
    simp [Block.legible, anchorLegible, Scalar.legible, Scalar.printBody, Anchor.printOption,
      Anchor.print, hrest]
  rw [hlegible]
  cases hkey : atKey r'.rest with
  | true =>
      refine ⟨by simp, fun hagain hdata => ?_⟩
      exact absurd hdata (anchor_of_atKey hrest hkey rfl hagain)
  | false =>
      have hopen : opening r'.rest = .anchor := by
        rw [hrest] at hkey ⊢
        simp [opening_anchor, hkey]
      have hmiddle : (r'.skip ('&' :: name).length).rest = y := rest_skip hrest
      have hstop : (r'.skip ('&' :: name).length).stops floor place = true := by
        rw [hahead.stops_eq .nil hmiddle]
        exact stops_of_end hahead hend
      have hnode := @BlockContent.anchorAlone floor place sameLine lead' _ r' _ hopen
        (anchorName_again hname hrest hahead.head) (by rw [hstop, Bool.true_or])
      exact .of_unique hnode hnode.unique (by simp [Block.data]) fun _ => hmiddle

/-! ## New values -/

/-- The reader is before the text, with nothing but trivia in between. -/
def Before (text : Text) (r : Reader) : Prop := ∃ trivia, IsTrivia trivia ∧ r.rest = trivia ++ text

theorem Before.of_rest_eq {text : Text} {r : Reader} (h : r.rest = text) : Before text r :=
  ⟨[], .nil, h⟩

/-- A node that is read by what starts after the trivia. -/
theorem BlockNode.rereads_of_content {r' : Reader} {same : Block → Prop} {synced : Reader → Prop}
    {legible : Bool} (hstop : r'.stops floor place = false)
    (h : Rereads (BlockContent floor place (!r'.trivia.contains '\n') r'.trivia r'.afterTrivia) same
      synced legible) : Rereads (BlockNode floor place r') same synced legible :=
  h.transfer (fun hagain hsame _ => ⟨_, _, .content hstop hagain, hsame⟩)
    fun hagain hsame => ⟨_, _, hagain.content_inv hstop, hsame, id⟩

/-- A sequence whose dashes stand at the column of the key is indentless. -/
private theorem BlockContent.indentless_of_atDash {lead : Text} {r after : Reader} {node : Block}
    (hdash : atDash r.rest = true) (hcolumn : r.column + 1 = floor)
    (h : BlockContent floor .mappingValue sameLine lead r node after) :
    ∃ items, node = .sequence { lead, indentless := true, items } := by
  have hform := opening_item hdash
  cases h with
  | sequence => exact ⟨_, by simp [hcolumn]; rfl⟩
  | anchorAlone hopen | anchored hopen | aliasNode hopen | flow hopen | literal hopen
  | folded hopen | quoted hopen | mapping hopen | plain hopen => simp [hform] at hopen

/-- A new value that starts a line is nested below the key. -/
private theorem newLead_column {column : Nat} {r after : Reader} {value : Block}
    (h : BlockNode (column + 1) .mappingValue r value after) (hline : '\n' ∈ newLead value) :
    column + 1 ≤ columnAfter r.column (newLead value) := by
  rcases newLead_cases value with ⟨-, hlead⟩ | ⟨hne, more, hlead, hmore⟩
  · simp [hlead] at hline
  · have hspaces : '\n' ∉ more := fun hmem => absurd (hmore _ hmem) (by decide)
    cases h with
    | missing => simp [Block.empty, Block.lead] at hne
    | content hstop hcontent =>
        have htrivia := hcontent.keeps.1
        rw [hlead, List.mem_append, or_iff_left hspaces, htrivia] at hline
        have hcontinues := continues_of_stops hstop (List.contains_iff_mem.mpr hline)
        simp only [continues, Bool.and_eq_true, Bool.or_eq_true, decide_eq_true_eq, beq_iff_eq]
          at hcontinues
        have hle := le_columnAfter hspaces r.afterTrivia.column
        rcases hcontinues with ⟨-, hcolumn | ⟨⟨-, hcolumn⟩, hdash⟩⟩
        · rw [hlead, htrivia, columnAfter_append]
          exact Nat.le_trans hcolumn (Nat.le_trans (Nat.le_add_right _ _) hle)
        · -- an indentless sequence gives way to a value that is indented by two more spaces
          obtain ⟨items, rfl⟩ := hcontent.indentless_of_atDash hdash hcolumn
          have hnew : newLead (.sequence { lead := r.trivia, indentless := true, items }) =
              r.trivia ++ [' ', ' '] := by
            simp [newLead, hline]
          have hmore := @le_columnAfter [' ', ' '] (by decide) r.afterTrivia.column
          rw [hnew, columnAfter_append]
          show column + 1 ≤ columnAfter r.afterTrivia.column [' ', ' ']
          simp only [List.length_cons, List.length_nil] at hmore
          omega

theorem BlockNode.lead_isTrivia {r after : Reader} {node : Block}
    (h : BlockNode floor place r node after) : IsTrivia node.lead := by
  cases h with
  | missing => exact .nil
  | content hstop hcontent =>
      rw [hcontent.keeps.1]
      refine isTrivia_trivia fun hnil => ?_
      simp [stops, hnil] at hstop

/-- A new value is read back if it is as long as it is found to be.  One without text is missing,
which it was before if nothing nested follows. -/
theorem newValue_rereads {column : Nat} {r after r' : Reader} {value : Block} {y : Text}
    (hsound : ValueProblem.Sound recipe.options.value)
    (h : BlockNode (column + 1) .mappingValue r value after)
    (hahead : Ahead (column + 1) after.rest y)
    (hstop : after.stops (column + 1) .mappingValue = true)
    (hrest : r'.rest = (recipe.newValue value).print ++ y) (hcolumn : r'.column = r.column) :
    Rereads (BlockNode (column + 1) .mappingValue r')
      (fun again => again.data = (recipe.newValue value).data)
      (Before y)
      ((recipe.newValue value).legible (some (column + 1))
        (columnAfter r.column (recipe.newValue value).lead) y) := by
  have hlead := newLead_isTrivia h.lead_isTrivia
  rw [print_newValue, List.append_assoc] at hrest
  by_cases hvalue : recipe.options.value = []
  · rw [hvalue, List.nil_append] at hrest
    have hstop' : r'.stops (column + 1) .mappingValue = true := by
      rw [hahead.stops_eq hlead hrest, hstop]
    refine .of_unique (.missing hstop') (BlockNode.missing_inv hstop') ?_
      fun _ => ⟨newLead value, hlead, hrest⟩
    simp [newValue, hvalue, Block.empty, Block.data, Block.legible, anchorLegible_none,
      Scalar.legible]
  · obtain ⟨htrivia, hafter⟩ := trivia_eq hrest hlead (hsound.triviaLength_eq_zero hvalue y)
    have hrest' := rest_skip hrest
    have hcolumn' := column_skip hrest
    rw [← hafter] at hrest' hcolumn'
    have hstop' : r'.stops (column + 1) .mappingValue = false := by
      have hcontinues : '\n' ∈ r'.trivia →
          r'.afterTrivia.continues (column + 1) .mappingValue = true := by
        intro hline
        have hnested := newLead_column h (htrivia ▸ hline)
        rw [← hcolumn, ← hcolumn'] at hnested
        have hzero : r'.afterTrivia.column ≠ 0 := by omega
        simp [continues, atDocumentMark, hzero, hnested]
      simpa [stops, hrest', hvalue] using hcontinues
    refine BlockNode.rereads_of_content hstop' ?_
    exact (plain_rereads (newLead value) r'.trivia _ hvalue hrest'
      (hsound.opening_plain hvalue)).weaken .of_rest_eq

end Reader

end LosslessYaml
