import LosslessYaml.Proofs.ReadBack.Block
import LosslessYaml.Proofs.Reading.Ends

/-!
# Reading changed documents again

The root of a document is a node that nothing nests, so that the only lines that may follow it are
marks.  A changed document is read back exactly if its root is, and the readers of the source and of
the changed text are then before the same documents.
-/

namespace LosslessYaml

open Text Lookahead ChangeValue

/-! ## First characters -/

theorem ChangeValue.PatchedDocuments.head_eq {recipe : ChangeValue}
    {documents documents' : List Document} (h : PatchedDocuments recipe documents documents')
    (x : Text) :
    (documents.flatMap Document.print ++ x).head? =
      (documents'.flatMap Document.print ++ x).head? := by
  induction h with
  | nil => rfl
  | inside hroot hdocuments ih =>
      simp only [printDocuments_cons_append]
      refine head?_append_congr (head?_append_congr (hroot.print_head_eq ?_) _) _
      exact head?_append_congr (head?_append_congr ih _) _

namespace Reader

variable {recipe : ChangeValue}

/-! ## What follows a root -/

theorem MoreDocuments.rest_eq {r last : Reader} {documents : List Document} {suffix : Text}
    (h : MoreDocuments r documents suffix last) (hdropped : last.dropped = r.dropped) :
    r.rest = documents.flatMap Document.print ++ suffix := by
  rw [(h.keeps.2.rest_eq hdropped).1, h.keeps.1, List.append_nil]

/-- The mark of a document's start is the first thing in the document. -/
private theorem MoreDocuments.exists_explicit {r last : Reader} {documents : List Document}
    {suffix : Text} (h : MoreDocuments r documents suffix last) (hcolumn : r.column = 0)
    (hmark : atDashes r.rest = true) :
    ∃ first others, documents = first :: others ∧ first.lead = [] ∧ first.explicit = true := by
  obtain ⟨tail, htail⟩ := eq_dashes_of_atDashes hmark
  have hlength : preambleLength (r.column == 0) false r.rest = 0 := by
    simp [htail, preambleLength, isTrailing]
  have hafter : r.afterPreamble = r := by rw [afterPreamble, hlength, skip_zero]
  cases h with
  | done hend => simp [hafter, htail] at hend
  | document _ hdocument =>
      cases hdocument with
      | intro =>
          refine ⟨_, _, rfl, by simp [preamble, hlength, taken], ?_⟩
          simp [startsDocument, hafter, hcolumn, hmark]

/-- A mark after a root stands to the left of everything. -/
private theorem ahead_of_mark {r : Reader} {z : Text} (hline : '\n' ∈ r.trivia)
    (hmark : r.afterTrivia.atDocumentMark = true) (halike : Alike r.afterTrivia.rest z) :
    Ahead 0 (r.trivia ++ r.afterTrivia.rest) (r.trivia ++ z) := by
  simp only [atDocumentMark, Bool.and_eq_true, beq_iff_eq] at hmark
  obtain ⟨c, hc, hhead⟩ : ∃ c, isWhitespace c = false ∧ r.afterTrivia.rest.head? = some c := by
    rcases Bool.or_eq_true_iff.mp hmark.2 with hdashes | hdots
    · obtain ⟨tail, htail⟩ := eq_dashes_of_atDashes hdashes
      exact ⟨'-', by decide, by rw [htail]; rfl⟩
    · obtain ⟨tail, htail⟩ := eq_dots_of_atDots hdots
      exact ⟨'.', by decide, by rw [htail]; rfl⟩
  have hvisible : ∀ {text : Text}, text.head? = some c → isBlankLine text = false := by
    intro text htext
    obtain ⟨tail, rfl⟩ := List.head?_eq_some_iff.mp htext
    exact isBlankLine_cons hc tail
  have hne : r.afterTrivia.rest ≠ [] := by
    intro hnil
    simp [hnil] at hhead
  refine .line (isTrivia_trivia hne) hline hne (triviaLength_afterTrivia r) halike
    ⟨hvisible hhead, hvisible (halike.head ▸ hhead)⟩ (.inr ⟨?_, hmark.2⟩)
  rw [← column_afterTrivia (List.contains_iff_mem.mpr hline), hmark.1]

/-- Only marks follow a root, and they are the same in the changed text. -/
private theorem ahead_of_ending {start afterRoot after last : Reader} {root : Block}
    {ending : Ending} {documents documents' : List Document} {suffix : Text}
    (hroot : BlockNode 0 .root start root afterRoot)
    (hending : afterRoot.ending = .ok (ending, after))
    (hmore : MoreDocuments after documents suffix last) (hlast : last.dropped = after.dropped)
    (hpatch : PatchedDocuments recipe documents documents') :
    Ahead 0 afterRoot.rest (ending.lead ++ (printDots ending.explicit ++
      (documents'.flatMap Document.print ++ suffix))) := by
  have hrest := hmore.rest_eq hlast
  have hhead := hpatch.head_eq suffix
  have hbreak : afterRoot.afterTrivia.rest ≠ [] → afterRoot.afterTrivia.atDocumentMark = true →
      '\n' ∈ afterRoot.trivia := hroot.newline_mem_trivia
  rw [← hrest] at hhead
  rw [← trivia_append afterRoot]
  rcases ending_eq_ok hending with
    ⟨hend, rfl, rfl⟩ | ⟨hzero, hmark, rfl, rfl⟩ | ⟨hzero, hmark, rfl, rfl⟩
  · -- the source ends with the document
    have hnil : documents'.flatMap Document.print ++ suffix = [] := by
      rw [hend] at hhead
      exact List.head?_eq_none_iff.mp hhead.symm
    have hall : afterRoot.trivia = afterRoot.rest := by
      rw [← trivia_append afterRoot, hend, List.append_nil]
    simp only [hnil, hend, printDots, List.append_nil]
    refine .ends ?_
    rw [hall]
    exact Nat.le_antisymm (triviaLength_le _) (List.drop_eq_nil_iff.mp hend)
  · obtain ⟨tail, htail⟩ := eq_dots_of_atDots hmark
    have hmark' : afterRoot.afterTrivia.atDocumentMark = true := by
      simp [atDocumentMark, hzero, hmark]
    refine ahead_of_mark (hbreak (by simp [htail]) hmark') hmark' ?_
    have hskip : (afterRoot.afterTrivia.skip 3).rest = tail := by simp [skip, htail]
    rw [htail] at hmark ⊢
    refine .of_atDots hmark ?_
    show atBreak (documents'.flatMap Document.print ++ suffix) = true
    rw [← atBreak_congr hhead, hskip]
    exact hmark
  · have hmark' : afterRoot.afterTrivia.atDocumentMark = true := by
      simp [atDocumentMark, hzero, hmark]
    refine ahead_of_mark (hbreak ?_ hmark') hmark' ?_
    · rintro hnil
      simp [hnil, atDashes] at hmark
    · -- the next document starts with this mark
      obtain ⟨first, others, rfl, hlead, hexplicit⟩ := hmore.exists_explicit hzero hmark
      cases hpatch with
      | @inside lead markers explicit next next' ending others others' hnext hothers =>
          replace hlead : lead = [] := hlead
          replace hexplicit : explicit = true := hexplicit
          subst hlead hexplicit
          rw [printDocuments_cons_append] at hrest ⊢
          replace hrest : afterRoot.afterTrivia.rest = '-' :: '-' :: '-' :: _ := hrest
          rw [hrest] at hmark ⊢
          refine .of_atDashes hmark ?_
          show atBreak (next'.print ++ _) = true
          rw [← atBreak_congr (hnext.print_head_eq
            (head?_append_congr (head?_append_congr (hothers.head_eq suffix) _) _))]
          exact hmark

private theorem ending_of_dots {r : Reader} (hcolumn : r.afterTrivia.column = 0)
    (hmark : atDots r.afterTrivia.rest = true) :
    r.ending = .ok ({ lead := r.trivia, explicit := true }, r.afterTrivia.skip 3) := by
  have hmore : r.afterTrivia.rest.isEmpty = false := by
    obtain ⟨tail, htail⟩ := eq_dots_of_atDots hmark
    rw [htail]
    rfl
  simp only [ending, hcolumn, hmark, hmore]
  rfl

private theorem ending_of_dashes {r : Reader} (hcolumn : r.afterTrivia.column = 0)
    (hmark : atDashes r.afterTrivia.rest = true) :
    r.ending = .ok ({ lead := r.trivia }, r.afterTrivia) := by
  have hmore : r.afterTrivia.rest.isEmpty = false ∧ atDots r.afterTrivia.rest = false := by
    obtain ⟨tail, htail⟩ := eq_dashes_of_atDashes hmark
    rw [htail]
    exact ⟨rfl, rfl⟩
  simp only [ending, hcolumn, hmark, hmore.1, hmore.2]
  rfl

/-- The end of a document is read again, whatever trivia was skipped before it. -/
private theorem ending_again {afterRoot after last : Reader} {ending : Ending} {y : Text}
    (hending : afterRoot.ending = .ok (ending, after))
    (hahead : Ahead 0 afterRoot.rest (ending.lead ++ (printDots ending.explicit ++ y)))
    (hend : after.rest = [] → y = [])
    (hlast : Before (ending.lead ++ (printDots ending.explicit ++ y)) last) :
    ∃ ending' after', last.ending = .ok (ending', after') ∧ after'.rest = y ∧
      (y ≠ [] → after'.column = after.column) := by
  obtain ⟨trivia, htrivia, hrest⟩ := hlast
  have hplaces := hahead.places htrivia hrest
  rcases ending_eq_ok hending with
    ⟨hnil, rfl, rfl⟩ | ⟨hzero, hmark, rfl, rfl⟩ | ⟨hzero, hmark, rfl, rfl⟩
  · rcases hplaces with ⟨-, hnil'⟩ | ⟨-, -, hne, -⟩
    · refine ⟨{ lead := last.trivia }, last.afterTrivia, by simp [Reader.ending, hnil'], ?_,
        fun hy => absurd (hend hnil) hy⟩
      rw [hnil', hend hnil]
    · exact absurd hnil hne
  · obtain ⟨tail, htail⟩ := eq_dots_of_atDots hmark
    rcases hplaces with ⟨hnil, -⟩ | ⟨-, -, -, hcolumn, halike, htext, -⟩
    · simp [hnil] at htail
    · have hrest' : last.afterTrivia.rest = ['.', '.', '.'] ++ y :=
        (List.append_cancel_left htext).symm
      refine ⟨_, _, ending_of_dots (hcolumn.trans hzero) (halike.dots ▸ hmark), rest_skip hrest',
        fun _ => ?_⟩
      calc (last.afterTrivia.skip 3).column
          = columnAfter last.afterTrivia.column ['.', '.', '.'] := column_skip hrest'
        _ = columnAfter afterRoot.afterTrivia.column ['.', '.', '.'] := by rw [hcolumn]
        _ = (afterRoot.afterTrivia.skip 3).column :=
          (@column_skip _ ['.', '.', '.'] tail htail).symm
  · rcases hplaces with ⟨hnil, -⟩ | ⟨-, -, -, hcolumn, halike, htext, -⟩
    · simp [hnil, atDashes] at hmark
    · exact ⟨_, _, ending_of_dashes (hcolumn.trans hzero) (halike.dashes ▸ hmark),
        (List.append_cancel_left htext).symm, fun _ => hcolumn⟩

/-! ## Documents -/

/-- A changed document starts with its mark if it did before. -/
private theorem startsDocument_again {r afterRoot r' : Reader} {root root' : Block} {y : Text}
    (hroot : BlockNode 0 .root r.afterDashes root afterRoot)
    (hdropped : afterRoot.dropped = r.afterDashes.dropped) (hstart : triviaLength r.rest = 0)
    (hne : r.rest ≠ []) (hpatch : PatchedBlock recipe root root')
    (hahead : Ahead 0 afterRoot.rest y)
    (hrest : r'.rest = printDashes r.startsDocument ++ (root'.print ++ y))
    (hcolumn : r'.column = r.column) : r'.startsDocument = r.startsDocument := by
  cases hexplicit : r.startsDocument with
  | true =>
      have htext := (hroot.keeps.rest_eq hdropped).1
      obtain ⟨hzero, hmark⟩ : r.column = 0 ∧ atDashes r.rest = true := by
        simpa [startsDocument] using hexplicit
      obtain ⟨tail, htail⟩ := eq_dashes_of_atDashes hmark
      rw [htail] at hmark
      have hskip : r.afterDashes.rest = tail := by simp [afterDashes, hexplicit, skip, htail]
      have hbreak : atBreak tail = true := hmark
      rw [← hskip, htext, atBreak_congr (hpatch.print_head_eq hahead.head)] at hbreak
      rw [hexplicit] at hrest
      simp only [startsDocument, hcolumn, hzero, hrest, printDashes]
      exact hbreak
  | false =>
      -- the root starts here, with a visible character
      have hsame : r.afterDashes = r := by simp [afterDashes, hexplicit]
      rw [hsame] at hroot hdropped
      have htrivia : r.trivia = [] := by simp [trivia, hstart, taken]
      have hafter : r.afterTrivia = r := by rw [afterTrivia, hstart, skip_zero]
      have hstop : r.stops 0 .root = false := by simp [stops, htrivia, hafter, hne]
      have hcontent := hroot.content_inv hstop
      rw [hafter, htrivia] at hcontent
      have halike := hcontent.alike hdropped hpatch hahead
      have hlead : root'.lead = [] := hpatch.lead_eq.trans hcontent.keeps.1
      rw [hexplicit, Block.print_eq_append, hlead] at hrest
      simp only [printDashes, List.nil_append, List.append_assoc] at hrest
      rw [← hrest] at halike
      rw [startsDocument, hcolumn, ← halike.dashes, ← hexplicit]
      rfl

private theorem afterDashes_again {r r' : Reader} {x : Text}
    (hrest : r'.rest = printDashes r.startsDocument ++ x)
    (hexplicit : r'.startsDocument = r.startsDocument) (hcolumn : r'.column = r.column) :
    r'.afterDashes.rest = x ∧
      r'.afterDashes.column = columnAfter r.column (printDashes r.startsDocument) := by
  cases hmark : r.startsDocument with
  | true =>
      rw [hmark] at hrest hexplicit
      have hskip : r'.afterDashes = r'.skip 3 := by simp [afterDashes, hexplicit]
      rw [hskip, ← hcolumn]
      exact ⟨rest_skip hrest, column_skip hrest⟩
  | false =>
      rw [hmark] at hrest hexplicit
      have hskip : r'.afterDashes = r' := by simp [afterDashes, hexplicit]
      rw [hskip, hcolumn]
      exact ⟨hrest, rfl⟩

/-- A changed document is read back exactly if its root is legible. -/
theorem DocumentNode.rereads (hsound : ValueProblem.Sound recipe.options.value) {lead : Text}
    {r after last : Reader} {document : Document} {root' : Block}
    {documents documents' : List Document} {suffix : Text} (h : DocumentNode lead r document after)
    (hmore : MoreDocuments after documents suffix last) (hdropped : last.dropped = r.dropped)
    (hstart : triviaLength r.rest = 0) (hne : r.rest ≠ [])
    (hpatch : PatchedBlock recipe document.root root')
    (hdocuments : PatchedDocuments recipe documents documents') {r' : Reader}
    (hrest : r'.rest = printDashes document.explicit ++ (root'.print ++ (document.ending.lead ++
      (printDots document.ending.explicit ++ (documents'.flatMap Document.print ++ suffix)))))
    (hcolumn : r'.column = r.column) (lead' : Text) :
    Rereads (DocumentNode lead' r') (fun again => again.root.data = root'.data)
      (fun next => next.rest = documents'.flatMap Document.print ++ suffix ∧
        (next.rest ≠ [] → next.column = after.column))
      (root'.legible (some 0)
        (columnAfter r.column (printDashes document.explicit ++ root'.lead))
        (document.ending.lead ++ (printDots document.ending.explicit ++
          (documents'.flatMap Document.print ++ suffix)))) := by
  obtain ⟨hroot, hending⟩ := h
  dsimp only at hpatch hrest ⊢
  -- no anchor is dropped in any part
  have hdashesKeeps := afterDashes_keeps r
  have hendingKeeps := ending_keeps hending
  obtain ⟨hbefore, hafter⟩ := (hdashesKeeps.trans hroot.keeps).dropped_split
    (hendingKeeps.trans hmore.keeps.2) hdropped
  have hlast := (hendingKeeps.dropped_split hmore.keeps.2 hafter).2
  obtain ⟨hdashes, hrootDropped⟩ := hdashesKeeps.dropped_split hroot.keeps hbefore
  have hahead := ahead_of_ending hroot hending hmore hlast hdocuments
  have hexplicit :=
    startsDocument_again hroot hrootDropped hstart hne hpatch hahead hrest hcolumn
  have hend : after.rest = [] → documents'.flatMap Document.print ++ suffix = [] := by
    intro hnil
    have hhead := hdocuments.head_eq suffix
    rw [← hmore.rest_eq hlast, hnil] at hhead
    exact List.head?_eq_none_iff.mp hhead.symm
  -- the root starts at the same column
  have hcolumnRoot := (hdashesKeeps.rest_eq hdashes).2
  obtain ⟨hrest', hcolumn'⟩ := afterDashes_again hrest hexplicit hcolumn
  have hread := hroot.rereads hsound hrootDropped (fun _ => Nat.zero_le _) hpatch hahead hrest'
    (hcolumn'.trans hcolumnRoot.symm)
  rw [hcolumnRoot, ← columnAfter_append] at hread
  refine hread.transfer ?_ ?_
  · intro again last hagain hdata hlast
    obtain ⟨ending', after', hending', -⟩ := ending_again hending hahead hend hlast
    exact ⟨_, after', .intro hagain hending', hdata⟩
  · intro again after' hagain hdata
    obtain ⟨hroot', hending'⟩ := hagain
    refine ⟨_, _, hroot', hdata, fun hlast => ?_⟩
    obtain ⟨ending'', after'', hending'', hrest'', hcolumn''⟩ :=
      ending_again hending hahead hend hlast
    cases hending''.symm.trans hending'
    exact ⟨hrest'', fun hne => hcolumn'' (hrest'' ▸ hne)⟩

/-- The column after a document that another one follows does not depend on its root, since a line
break comes before the mark. -/
private theorem DocumentNode.column_after {lead : Text} {r after : Reader} {document : Document}
    (h : DocumentNode lead r document after) (hmore : after.rest ≠ []) (column : Nat)
    (text : Text) :
    columnAfter column (text ++ (document.ending.lead ++ printDots document.ending.explicit)) =
      after.column := by
  obtain ⟨hroot, hending⟩ := h
  have hbreak := fun hne => hroot.newline_mem_trivia hne
  rw [columnAfter_append, columnAfter_append]
  rcases ending_eq_ok hending with
    ⟨hend, rfl, rfl⟩ | ⟨hzero, hmark, rfl, rfl⟩ | ⟨hzero, hmark, rfl, rfl⟩
  · exact absurd hend hmore
  · obtain ⟨tail, htail⟩ := eq_dots_of_atDots hmark
    have hline := hbreak (by simp [htail]) (by simp [atDocumentMark, hzero, hmark])
    rw [columnAfter_of_mem hline _ 0, ← column_afterTrivia (List.contains_iff_mem.mpr hline)]
    exact (@column_skip _ ['.', '.', '.'] tail htail).symm
  · have hline := hbreak hmore (by simp [atDocumentMark, hzero, hmark])
    rw [columnAfter_of_mem hline _ 0, ← column_afterTrivia (List.contains_iff_mem.mpr hline)]
    rfl

/-- How far the preamble of a document goes depends on the first character after it only. -/
private theorem preamble_again {r r' : Reader} {x : Text} (hrest : r'.rest = r.preamble ++ x)
    (hcolumn : r'.column = r.column) (hne : r.afterPreamble.rest ≠ [])
    (hhead : r.afterPreamble.rest.head? = x.head?) :
    r'.afterPreamble.rest = x ∧ r'.afterPreamble.column = r.afterPreamble.column := by
  have hsplit : r.preamble ++ r.afterPreamble.rest = r.rest := List.take_append_drop _ _
  have hlength : r.preamble.length = preambleLength (r.column == 0) false r.rest := by
    have hlt : preambleLength (r.column == 0) false r.rest < r.rest.length := by
      simpa [afterPreamble, skip] using hne
    rw [preamble, taken, List.length_take, Nat.min_eq_left (Nat.le_of_lt hlt)]
  obtain ⟨c, tail, htail⟩ := List.exists_cons_of_ne_nil hne
  rw [htail] at hhead hsplit
  obtain ⟨tail', rfl⟩ := List.head?_eq_some_iff.mp hhead.symm
  have hagain : preambleLength (r'.column == 0) false r'.rest = r.preamble.length := by
    rw [hcolumn, hrest]
    exact preambleLength_append (by rw [hsplit, hlength])
  rw [afterPreamble, hagain]
  refine ⟨rest_skip hrest, ?_⟩
  rw [column_skip hrest, hcolumn]
  rfl

/-! ## Several documents -/

private theorem documentsLegible_of_column {column : Nat} {after last : Reader} {suffix : Text}
    {documents documents' : List Document} (h : MoreDocuments after documents suffix last)
    (hpatch : PatchedDocuments recipe documents documents')
    (hcolumn : after.rest ≠ [] → column = after.column) :
    documentsLegible column suffix documents' =
      documentsLegible after.column suffix documents' := by
  cases h with
  | done =>
      cases hpatch
      rfl
  | document hmore =>
      rw [hcolumn]
      intro hnil
      simp [afterPreamble, skip, hnil] at hmore

/-- A changed document starts with the same character after the same preamble. -/
theorem document_start {r after last r' : Reader} {document : Document} {root' : Block}
    {documents documents' : List Document} {suffix : Text} (hmore : r.afterPreamble.rest ≠ [])
    (hdocument : DocumentNode r.preamble r.afterPreamble document after)
    (hdocuments : MoreDocuments after documents suffix last) (hdropped : last.dropped = r.dropped)
    (hroot : PatchedBlock recipe document.root root')
    (hpatch : PatchedDocuments recipe documents documents')
    (hrest : r'.rest =
      ({ document with root := root' } :: documents').flatMap Document.print ++ suffix)
    (hcolumn : r'.rest ≠ [] → r'.column = r.column) :
    r'.afterPreamble.rest ≠ [] ∧
      r'.afterPreamble.rest = printDashes document.explicit ++ (root'.print ++
        (document.ending.lead ++ (printDots document.ending.explicit ++
          (documents'.flatMap Document.print ++ suffix)))) ∧
      r'.afterPreamble.column = r.afterPreamble.column := by
  have hlead : document.lead = r.preamble := by cases hdocument; rfl
  have hsource := (MoreDocuments.document hmore hdocument hdocuments).rest_eq hdropped
  rw [printDocuments_cons_append, hlead] at hsource hrest
  have hsplit : r.preamble ++ r.afterPreamble.rest = r.rest := List.take_append_drop _ _
  have hhead := head?_append_congr (hroot.print_head_eq (head?_append_congr
    (head?_append_congr (hpatch.head_eq suffix) (printDots document.ending.explicit))
    document.ending.lead)) (printDashes document.explicit)
  rw [← List.append_cancel_left (hsplit.trans hsource)] at hhead
  have hvisible : ∀ {x : Text}, r.afterPreamble.rest.head? = x.head? → x ≠ [] := by
    rintro x hx rfl
    exact hmore (List.head?_eq_none_iff.mp hx)
  have hne : r'.rest ≠ [] := by
    rw [hrest]
    exact fun hnil => hvisible hhead (List.append_eq_nil_iff.mp hnil).2
  obtain ⟨hrest', hcolumn'⟩ := preamble_again hrest (hcolumn hne) hmore hhead
  exact ⟨hrest' ▸ hvisible hhead, hrest', hcolumn'⟩

/-- Changed documents are read back exactly if they are legible. -/
theorem MoreDocuments.rereads (hsound : ValueProblem.Sound recipe.options.value) {r last : Reader}
    {documents documents' : List Document} {suffix : Text}
    (h : MoreDocuments r documents suffix last) (hdropped : last.dropped = r.dropped)
    (hpatch : PatchedDocuments recipe documents documents') {r' : Reader}
    (hrest : r'.rest = documents'.flatMap Document.print ++ suffix)
    (hcolumn : r'.rest ≠ [] → r'.column = r.column) :
    Rereads (fun again last => ∃ suffix', MoreDocuments r' again suffix' last)
      (fun again => again.map (·.root.data) = documents'.map (·.root.data)) (fun _ => True)
      (documentsLegible r.column suffix documents') := by
  induction h generalizing documents' r' with
  | @done r hend =>
      cases hpatch
      have hsource : r.rest = r.preamble := by
        rw [← List.append_nil r.preamble, ← hend]
        exact (List.take_append_drop _ _).symm
      have hsame : r'.rest = r.rest := hrest.trans hsource.symm
      have hend' : r'.afterPreamble.rest = [] := by
        by_cases hnil : r'.rest = []
        · simp [afterPreamble, skip, hnil]
        · rw [afterPreamble, hcolumn hnil, skip, hsame]
          exact hend
      exact ⟨fun _ => ⟨[], _, ⟨_, .done hend'⟩, rfl⟩, fun _ _ => ⟨rfl, trivial⟩⟩
  | @document r after last document documents suffix hmore hdocument hdocuments ih =>
      obtain ⟨text, -, hkeeps⟩ := hdocument.keeps
      obtain ⟨hbefore, hlast⟩ := ((preamble_keeps r).trans hkeeps).dropped_split
        hdocuments.keeps.2 hdropped
      have hdocumentDropped := ((preamble_keeps r).dropped_split hkeeps hbefore).2
      have hlead : document.lead = r.preamble := by cases hdocument; rfl
      cases hpatch with
      | @inside _ markers explicit root root' ending _ documents' hroot hpatch =>
          replace hlead : _ = r.preamble := hlead
          subst hlead
          obtain ⟨hmore', hrest', hcolumn'⟩ :=
            document_start hmore hdocument hdocuments hdropped hroot hpatch hrest hcolumn
          have hfirst := hdocument.rereads hsound hdocuments
            (hlast.trans hdocumentDropped) (preamble_start r) hmore hroot hpatch hrest' hcolumn'
            r'.preamble
          have hnextColumn : after.rest ≠ [] → columnAfter r.column
              (Document.print ⟨r.preamble, markers, explicit, root', ending⟩) = after.column := by
            intro hnext
            have hcolumnAfter := hdocument.column_after hnext r.column
              (r.preamble ++ printDashes explicit ++ root'.print)
            simpa [Document.print] using hcolumnAfter
          have hstartColumn : columnAfter r.column (r.preamble ++ (printDashes explicit ++
              root'.lead)) =
              columnAfter r.afterPreamble.column (printDashes explicit ++ root'.lead) := by
            rw [columnAfter_append]
            rfl
          rw [documentsLegible, documentsLegible_of_column hdocuments hpatch hnextColumn]
          simp only [List.append_assoc, hstartColumn]
          refine hfirst.andThen (fun hsynced => ih hlast hpatch hsynced.1 hsynced.2) ?_ ?_
          · rintro first middle others last hagain hdata - ⟨suffix', hothers⟩ hsame
            exact ⟨first :: others, ⟨suffix', .document hmore' hagain hothers⟩,
              by simp [hdata, hsame]⟩
          · rintro all last ⟨suffix', hall⟩ hdata
            cases hall with
            | done => simp at hdata
            | document _ hagain hothers =>
                simp only [List.map_cons, List.cons.injEq] at hdata
                exact ⟨_, _, hagain, hdata.1, fun _ => ⟨_, ⟨suffix', hothers⟩, hdata.2⟩⟩

end Reader

end LosslessYaml
