import LosslessYaml.Proofs.Reading.Columns

/-!
# Where a node ends

A node in block context ends within a line, or before a line that is no mark of a document.  So the
mark that ends a document stands on a line of its own, and a line break comes before it.

Main statement: `Reader.BlockNode.newline_mem_trivia`.
-/

namespace LosslessYaml

open Text Lookahead

theorem Text.columnAfter_concat_ne_zero {c : Char} (hc : c ≠ '\n') (column : Nat) (text : Text) :
    columnAfter column (text ++ [c]) ≠ 0 := by
  have hsize := c.utf8Size_pos
  have hbreak : (c == '\n') = false := by simpa using hc
  rw [columnAfter_append]
  simp only [columnAfter, hbreak, Bool.false_eq_true, if_false]
  omega

namespace Reader

theorem atDocumentMark_of_column {r : Reader} (h : r.column ≠ 0) : r.atDocumentMark = false := by
  simp [atDocumentMark, h]

/-- A scalar over several lines does not end before a mark. -/
private theorem atDocumentMark_extendLines {next : Text → Option (Nat × Bool)} {reached : Nat}
    {r : Reader}
    (hnext : ∀ {line n goesOn}, next line = some (n, goesOn) →
      n ≤ line.length ∧ '\n' ∉ line.take n ∧ (atDashes line || atDots line) = false)
    (hfirst : (r.skip reached).column ≠ 0) :
    (r.skip (extendLines next reached 0 r.rest)).atDocumentMark = false := by
  rcases extendLines_cases next reached 0 r.rest with
    hsame | ⟨start, line, n, goesOn, hrest, -, hline, hend⟩
  · rw [hsame]
    exact atDocumentMark_of_column hfirst
  · obtain ⟨hle, hbreak, hmark⟩ := hnext hline
    have hsplit : r.rest = (start ++ '\n' :: line.take n) ++ line.drop n := by
      simp [hrest]
    have hlength : extendLines next reached 0 r.rest = (start ++ '\n' :: line.take n).length := by
      rw [hend, List.length_append, List.length_cons, List.length_take, Nat.min_eq_left hle]
      omega
    have hcolumn : (r.skip (extendLines next reached 0 r.rest)).column =
        columnAfter 0 (line.take n) := by
      rw [hlength, column_skip hsplit, columnAfter_append]
      rfl
    cases n with
    | zero =>
        -- nothing of the line was read, but it was looked at
        have hrest' := rest_skip hsplit
        rw [← hlength, List.drop_zero] at hrest'
        rw [atDocumentMark, hrest', hmark, Bool.and_false]
    | succ n =>
        refine atDocumentMark_of_column ?_
        have hlong := le_columnAfter hbreak 0
        rw [List.length_take, Nat.min_eq_left hle] at hlong
        omega

private theorem column_skip_one {r : Reader} {c : Char} {tail : Text} (hopen : r.rest = c :: tail)
    (hc : c ≠ '\n') : (r.skip 1).column ≠ 0 := by
  rw [show (r.skip 1).column = columnAfter r.column [c] from @column_skip r [c] tail hopen]
  exact columnAfter_concat_ne_zero hc r.column []

private theorem le_column_skip {r : Reader} {n : Nat} (hline : '\n' ∉ r.taken n) :
    r.column + (r.taken n).length ≤ (r.skip n).column := le_columnAfter hline r.column

private theorem literal_end {style : Style} {floor : Nat} {lead tail : Text} {c : Char} {r : Reader}
    (hopen : r.rest = c :: tail) (hc : c ≠ '\n') :
    (r.literal style floor lead).2.atDocumentMark = false := by
  refine atDocumentMark_extendLines literalLine_eq_some ?_
  have hindicator := column_skip_one hopen hc
  have hline := @le_column_skip (r.skip 1) (lineLength (r.skip 1).rest)
    (newline_notMem_takeWhile rfl _)
  omega

private theorem plain_end {floor : Nat} {lead : Text} {r : Reader} (hne : r.rest ≠ [])
    (hstart : triviaLength r.rest = 0) :
    (r.plain (plainBlockLength floor r.rest) lead).2.atDocumentMark = false := by
  have hfirst : (r.skip (plainLineLength r.rest)).column ≠ 0 := by
    have hline : '\n' ∉ r.taken (plainLineLength r.rest) := notMem_run _ (by simp) _
    have hle : plainLineLength r.rest ≤ r.rest.length := runLength_le _ _ _
    have hpos := plainLineLength_pos hne hstart
    have hcolumn := le_column_skip hline
    rw [taken, List.length_take, Nat.min_eq_left hle] at hcolumn
    omega
  show (r.skip (plainBlockLength floor r.rest)).atDocumentMark = false
  unfold plainBlockLength
  dsimp only
  split
  · exact atDocumentMark_extendLines plainLine_eq_some hfirst
  · exact atDocumentMark_of_column hfirst

/-- A node whose text ends with a character that is no line break ends within a line. -/
private theorem end_of_concat {r after : Reader} {text : Text} {c : Char} (hc : c ≠ '\n')
    (h : Reads r (text ++ [c]) after) : after.atDocumentMark = false := by
  refine atDocumentMark_of_column ?_
  rw [h.column]
  exact columnAfter_concat_ne_zero hc r.column text

/-- A name ends within a line. -/
private theorem end_of_name {r after : Reader} {c : Char} {name : Text} (hc : c ≠ '\n')
    (hname : '\n' ∉ name) (h : Reads r (c :: name) after) : after.atDocumentMark = false := by
  refine atDocumentMark_of_column ?_
  have hline : '\n' ∉ c :: name := by
    simp only [List.mem_cons, not_or]
    exact ⟨hc.symm, hname⟩
  have hle := le_columnAfter hline r.column
  rw [h.column]
  simp only [List.length_cons] at hle
  omega

/-- A flow collection ends with its bracket. -/
private theorem flow_end {lead : Text} {r after : Reader} {node : Block}
    (hopen : opening r.rest = .flow) (h : FlowNode lead r node after) :
    after.atDocumentMark = false := by
  apply atDocumentMark_of_column
  rcases describes_of_opening hopen with ⟨tail, htail | htail⟩
  · obtain ⟨items, closing, rfl, hitems⟩ := h.bracket_inv htail
    obtain ⟨last, tail, hclose, rfl⟩ := hitems.end_inv
    exact column_skip_one hclose (by decide)
  · obtain ⟨entries, closing, rfl, hentries⟩ := h.brace_inv htail
    obtain ⟨last, tail, hclose, rfl⟩ := hentries.end_inv
    exact column_skip_one hclose (by decide)

mutual

/-- After a node that does not start a line no mark stands directly. -/
theorem BlockNode.atDocumentMark_eq_false {floor : Nat} {place : Place} {r after : Reader}
    {node : Block} (h : BlockNode floor place r node after) (hcolumn : r.column ≠ 0) :
    after.atDocumentMark = false := by
  match h with
  | .missing _ => exact atDocumentMark_of_column hcolumn
  | .content hstop hcontent =>
    exact hcontent.atDocumentMark_eq_false (rest_ne_nil_of_stops hstop) (triviaLength_afterTrivia r)

/-- After a node that starts with a visible character no mark stands directly. -/
theorem BlockContent.atDocumentMark_eq_false {floor : Nat} {place : Place} {sameLine : Bool}
    {lead : Text} {r after : Reader} {node : Block}
    (h : BlockContent floor place sameLine lead r node after) (hne : r.rest ≠ [])
    (hstart : triviaLength r.rest = 0) : after.atDocumentMark = false := by
  match h with
  | .anchorAlone hopen hname hend =>
    obtain ⟨⟨tail, htail⟩, -⟩ := describes_of_opening hopen
    exact end_of_name (by decide) (newline_notMem_anchorName hname) (anchorName_reads htail hname)
  | .anchored hopen hname hend hcontent hanchor =>
    exact hcontent.atDocumentMark_eq_false
      (rest_ne_nil_of_stops (Bool.or_eq_false_iff.mp hend).1) (triviaLength_afterTrivia _)
  | .aliasNode hopen =>
    obtain ⟨tail, htail⟩ := describes_of_opening hopen
    have hname : '\n' ∉ (r.skip 1).taken (nameLength (r.skip 1).rest) :=
      notMem_run _ (by simp) _
    exact end_of_name (by decide) hname ((Reads.head htail).trans (.skip _ _))
  | .flow hopen hnode => exact flow_end hopen hnode
  | .literal hopen | .folded hopen =>
    obtain ⟨tail, htail⟩ := describes_of_opening hopen
    exact literal_end htail (by decide)
  | @BlockContent.quoted _ _ _ _ _ _ quote _ hopen hscalar =>
    obtain ⟨hquote, ⟨tail, htail⟩, -⟩ := describes_of_opening hopen
    have hreads := quoted_reads hquote htail hscalar
    obtain ⟨text, rfl, -, -⟩ := quoted_eq_ok hscalar
    rw [printBody_quoted hquote] at hreads
    exact @end_of_concat _ _ (quote :: text) quote (by rcases hquote with rfl | rfl <;> decide)
      hreads
  | .sequence hopen hline hitems => exact hitems.atDocumentMark_eq_false
  | .mapping hopen hline hentries => exact hentries.atDocumentMark_eq_false
  | .plain hopen => exact plain_end hne hstart

theorem BlockEntries.atDocumentMark_eq_false {lead : Text} {r after : Reader}
    {entries : List (Entry Block)} (h : BlockEntries lead r entries after) :
    after.atDocumentMark = false := by
  match h with
  | .last hstart hkey hcolon hvalue hnext =>
    exact hvalue.atDocumentMark_eq_false (column_skip_one hcolon (by decide))
  | .more hstart hkey hcolon hvalue hnext hentries => exact hentries.atDocumentMark_eq_false

theorem BlockItems.atDocumentMark_eq_false {lead : Text} {r after : Reader}
    {items : List (Item Block)} (h : BlockItems lead r items after) :
    after.atDocumentMark = false := by
  match h with
  | .last hstart hvalue hnext =>
    obtain ⟨tail, htail⟩ := eq_dash_of_atDash hstart
    exact hvalue.atDocumentMark_eq_false (column_skip_one htail (by decide))
  | .more hstart hvalue hnext hitems => exact hitems.atDocumentMark_eq_false

end

/-- A mark after the root of a document stands after a line break. -/
theorem BlockNode.newline_mem_trivia {r after : Reader} {node : Block}
    (h : BlockNode 0 .root r node after) (hne : after.afterTrivia.rest ≠ [])
    (hmark : after.afterTrivia.atDocumentMark = true) : '\n' ∈ after.trivia := by
  cases h with
  | missing hstop =>
      simp only [stops, List.isEmpty_eq_false_iff.mpr hne, Bool.false_or, Bool.and_eq_true,
        List.contains_iff_mem] at hstop
      exact hstop.1
  | content hstop hcontent =>
      refine Classical.byContradiction fun hline => ?_
      -- without a line break the mark would stand directly after the node
      have hzero : after.afterTrivia.column = 0 := by
        simp only [atDocumentMark, Bool.and_eq_true, beq_iff_eq] at hmark
        exact hmark.1
      have hle : after.column + after.trivia.length ≤ after.afterTrivia.column :=
        le_column_skip hline
      have hnil : after.trivia = [] := List.length_eq_zero_iff.mp (by omega)
      have hrest : after.rest = after.afterTrivia.rest := by
        rw [← trivia_append after, hnil]
        rfl
      have hdirect := hcontent.atDocumentMark_eq_false (rest_ne_nil_of_stops hstop)
        (triviaLength_afterTrivia r)
      have hcolumn : after.column = after.afterTrivia.column := by omega
      rw [atDocumentMark, hrest, hcolumn] at hdirect
      rw [atDocumentMark, hdirect] at hmark
      cases hmark

end Reader

end LosslessYaml
