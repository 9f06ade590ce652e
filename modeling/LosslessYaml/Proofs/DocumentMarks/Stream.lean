import LosslessYaml.Proofs.DocumentMarks.Reading

/-!
# Marks of documents in a stream

Every line of a source that starts with `---` or `...` is accounted for.  It is the mark of a
document's start or end, or it stands in a quoted scalar or a flow collection, where line starts
mean nothing; with one exception.  Where a document without `---` starts, the reader looks for
`---` only.  A line `...` there is read as plain text: as a scalar, or as the start of a key.

The documents of a source are read one after the other, each after its preamble.
`DocumentNode.shows` says what becomes of the marks in one of them, and `ShowsDocuments` is the
invariant of the run over all of them.

Main statement: `Stream.marks_of_parse`.
-/

namespace LosslessYaml

open Text Lookahead

/-! ## Documents without a mark of their own -/

/-- The place is that at which a document without `---` starts, after its lead. -/
def BareStart (documents : List Document) (n : Nat) : Prop :=
  ∃ front document back, documents = front ++ document :: back ∧ document.explicit = false ∧
    n = (front.flatMap Document.print ++ document.lead).length

theorem bareStart_cons {document : Document} {documents : List Document} {n : Nat} :
    BareStart (document :: documents) n ↔
      (document.explicit = false ∧ n = document.lead.length) ∨
        ∃ rest, n = document.print.length + rest ∧ BareStart documents rest := by
  constructor
  · rintro ⟨front, bare, back, hdocuments, hexplicit, rfl⟩
    cases front with
    | nil =>
        cases hdocuments
        exact .inl ⟨hexplicit, rfl⟩
    | cons _ front =>
        cases hdocuments
        refine .inr ⟨_, ?_, front, bare, back, rfl, hexplicit, rfl⟩
        simp
  · rintro (⟨hexplicit, rfl⟩ | ⟨_, rfl, front, bare, back, rfl, hexplicit, rfl⟩)
    · exact ⟨[], document, documents, rfl, hexplicit, rfl⟩
    · refine ⟨document :: front, bare, back, rfl, hexplicit, ?_⟩
      simp

/-- A mark at a place, before the rest of the text.  At the start of a document without `---` it is
`...` and starts the text of a plain scalar or of a plain key.  Everywhere else it is settled. -/
def Stream.Accounts (stream : Stream) (n : Nat) (rest : Text) : Prop :=
  (BareStart stream.documents n ∧ atDots rest = true ∧ Falls Reader.Plain stream.pieces n) ∨
    (¬ BareStart stream.documents n ∧ Falls Reader.Settled stream.pieces n)

theorem Stream.pieces_cons (document : Document) (documents : List Document) (suffix : Text) :
    Stream.pieces { documents := document :: documents, suffix } =
      ⟨.trivia, document.lead⟩ ::
        (document.contentPieces ++ Stream.pieces { documents, suffix }) := by
  simp [Stream.pieces, Document.pieces]

theorem Document.length_print (document : Document) :
    document.print.length = document.lead.length + (textOf document.contentPieces).length := by
  rw [← document.textOf_pieces, Document.pieces, textOf_cons, List.length_append]

namespace Reader

/-! ## One document -/

/-- A node that starts with a mark is not followed by one directly, and one that is not there ends
where it starts. -/
theorem BlockNode.eq_or_atDocumentMark {floor : Nat} {place : Place} {r after : Reader}
    {node : Block} (h : BlockNode floor place r node after) :
    after = r ∨ after.atDocumentMark = false := by
  cases h with
  | missing hstop => exact .inl rfl
  | content hstop hcontent =>
      exact .inr (hcontent.atDocumentMark_eq_false (rest_ne_nil_of_stops hstop)
        (triviaLength_afterTrivia r))

theorem ending_shows {r after : Reader} {ending : Ending} (h : r.ending = .ok (ending, after)) :
    Shows r [⟨.trivia, ending.lead⟩, ⟨.finish, printDots ending.explicit⟩] after := by
  rcases ending_eq_ok h with ⟨-, rfl, rfl⟩ | ⟨-, hdots, rfl, rfl⟩ | ⟨-, -, rfl, rfl⟩
  · exact (Shows.trivia r).append_empty .finish
  · obtain ⟨tail, hrest⟩ := eq_dots_of_atDots hdots
    have hreads : Reads r.afterTrivia ['.', '.', '.'] (r.afterTrivia.skip 3) := by
      simpa [taken, hrest] using Reads.skip r.afterTrivia 3
    have hshows : Shows r.afterTrivia [⟨.finish, ['.', '.', '.']⟩] (r.afterTrivia.skip 3) :=
      .line hreads (by decide)
    have hsettled : Falls Settled [⟨.finish, ['.', '.', '.']⟩] 0 :=
      .head (by decide) (.inr ⟨rfl, .inr rfl⟩) []
    exact (Shows.trivia r).append hshows fun _ _ => hsettled
  · exact (Shows.trivia r).append_empty .finish

/-- A tree for the text of a document from after its lead on. -/
structure DisplaysDocument (r : Reader) (full document : Document) (after : Reader) : Prop where
  unstacked : full.unstacked = document
  shows : Shows r full.contentPieces after
  explicit : full.explicit = true → Falls Settled full.contentPieces 0
  bare : full.explicit = false → r.atDocumentMark = true →
    atDots r.rest = true ∧ Falls Plain full.contentPieces 0

theorem newline_notMem_printDashes (explicit : Bool) : '\n' ∉ printDashes explicit := by
  cases explicit <;> decide

theorem DocumentNode.shows {lead : Text} {r after : Reader} {document : Document}
    (h : DocumentNode lead r document after) :
    ∃ full, full.lead = lead ∧ DisplaysDocument r full document after := by
  cases h with
  | @intro afterRoot _ node ending hroot hending =>
      obtain ⟨root, hunstacked, hshows, hdots⟩ := hroot.shows
      have hdashes := afterDashes_reads r
      have hline := newline_notMem_printDashes r.startsDocument
      refine ⟨{ lead, explicit := r.startsDocument, root, ending }, rfl, ?_, ?_, ?_, ?_⟩
      · simp [Document.unstacked, hunstacked]
      · refine (hshows.after_line hdashes hline .start).append (ending_shows hending) ?_
        intro hne hmark
        refine absurd hmark (Bool.eq_false_iff.mp ?_)
        rcases hroot.eq_or_atDocumentMark with rfl | hend
        · -- without a root the document is its mark, or nothing at all
          have hnil : textOf root.pieces = [] :=
            List.self_eq_append_left.mp hshows.reads.rest
          rw [textOf_cons, hnil, List.append_nil] at hne
          exact atDocumentMark_of_column (hdashes.column_ne_zero hline hne)
        · exact hend
      · intro hexplicit
        have hstart : r.startsDocument = true := hexplicit
        show Falls Settled (⟨.start, printDashes r.startsDocument⟩ :: _) 0
        rw [hstart]
        exact .head (by decide) (.inr ⟨rfl, .inl rfl⟩) _
      · intro hbare hmark
        have hstart : r.startsDocument = false := hbare
        have hat : atDots r.rest = true := by
          simp only [startsDocument, atDocumentMark, Bool.and_eq_true, Bool.or_eq_true,
            Bool.and_eq_false_iff] at hstart hmark
          rcases hstart with hcolumn | hnot
          · rw [hmark.1] at hcolumn
            cases hcolumn
          · rw [hnot] at hmark
            simpa using hmark.2
        have hsame : r.afterDashes = r := by
          rw [afterDashes, hstart]
          rfl
        rw [hsame] at hdots
        refine ⟨hat, ?_⟩
        show Falls Plain (⟨.start, printDashes r.startsDocument⟩ :: (root.pieces ++ _)) 0
        rw [hstart]
        exact ((hdots hat).append_left _).cons ⟨.start, []⟩

/-! ## The documents of a source -/

/-- There is no mark in a preamble. -/
theorem atDocumentMark_preamble (r : Reader) {n : Nat} (hn : n < r.preamble.length) :
    (r.skip n).atDocumentMark = false := by
  refine Bool.eq_false_iff.mpr fun hmark => ?_
  rcases Nat.eq_zero_or_pos n with rfl | hpos
  · rw [skip_zero, atDocumentMark, Bool.and_eq_true] at hmark
    have hzero := preambleLength_of_mark hmark.2 (r.column == 0)
    rw [preamble, taken, List.length_take, hzero] at hn
    omega
  · have hshows : Shows r [⟨.trivia, r.preamble⟩] r.afterPreamble := .preamble r
    obtain ⟨rest, -, hfalls⟩ := (hshows.marks n hpos (by simpa using hn) hmark).behind
      (by simp [Settled, Role.encloses])
    obtain ⟨piece, offset, hat, -⟩ := hfalls
    cases hat

/-- There is no mark in a source that is a preamble. -/
theorem atDocumentMark_of_blank {r : Reader} (h : r.afterPreamble.rest = []) (n : Nat) :
    (r.skip n).atDocumentMark = false := by
  rcases Nat.lt_or_ge n r.preamble.length with hlt | hge
  · exact atDocumentMark_preamble r hlt
  · have hrest := (Reads.preamble r).rest
    rw [h, List.append_nil] at hrest
    have hnil : r.rest.drop n = [] := by
      rw [hrest]
      exact List.drop_of_length_le hge
    rw [atDocumentMark, skip, hnil]
    exact Bool.and_false _

/-- Documents for the text from a place to the end of the source, with all marks accounted for. -/
structure ShowsDocuments (r : Reader) (fulls documents : List Document) (suffix : Text) :
    Prop where
  unstacked : fulls.map Document.unstacked = documents
  rest : r.rest = fulls.flatMap Document.print ++ suffix
  marks : ∀ n, (r.skip n).atDocumentMark = true →
    Stream.Accounts { documents := fulls, suffix } n (r.rest.drop n)

theorem DocumentNode.shows_cons {suffix : Text} {r after : Reader} {document : Document}
    {fulls documents : List Document} (h : DocumentNode r.preamble r.afterPreamble document after)
    (hmore : ShowsDocuments after fulls documents suffix) :
    ∃ full, ShowsDocuments r (full :: fulls) (document :: documents) suffix := by
  obtain ⟨full, hlead, hfull⟩ := h.shows
  have hpreamble := Reads.preamble r
  have hcontent := hfull.shows.reads
  have hprint := full.length_print
  refine ⟨full, by simp [hfull.unstacked, hmore.unstacked], ?_, fun n hmark => ?_⟩
  · calc r.rest = full.lead ++ (textOf full.contentPieces ++ after.rest) := by
          rw [hlead, ← hcontent.rest, ← hpreamble.rest]
      _ = (full.lead ++ textOf full.contentPieces) ++ after.rest := (List.append_assoc ..).symm
      _ = full.print ++ (fulls.flatMap Document.print ++ suffix) := by
          rw [hmore.rest, ← full.textOf_pieces, Document.pieces, textOf_cons]
      _ = (full :: fulls).flatMap Document.print ++ suffix := by
          rw [List.flatMap_cons, List.append_assoc]
  · rcases Nat.lt_or_ge n full.lead.length with hlt | hge
    · rw [atDocumentMark_preamble r (by rwa [← hlead])] at hmark
      cases hmark
    obtain ⟨k, rfl⟩ : ∃ k, n = full.lead.length + k := ⟨n - full.lead.length, by omega⟩
    rw [hlead, hpreamble.atDocumentMark_skip] at hmark
    have hdrop : r.rest.drop (full.lead.length + k) = r.afterPreamble.rest.drop k := by
      rw [hlead, hpreamble.drop_rest]
    show (BareStart (full :: fulls) _ ∧ _) ∨ (¬ BareStart (full :: fulls) _ ∧ _)
    rw [Stream.pieces_cons, bareStart_cons, hdrop]
    rcases Nat.eq_zero_or_pos k with rfl | hk
    · -- the mark stands where the document starts
      rw [skip_zero] at hmark
      cases hexplicit : full.explicit with
      | true =>
          have hfalls := hfull.explicit hexplicit
          have hlt := hfalls.lt
          refine .inr ⟨?_, (hfalls.append_left _).cons ⟨.trivia, full.lead⟩⟩
          rintro (⟨hbare, -⟩ | ⟨rest, hrest, -⟩)
          · cases hbare
          · omega
      | false =>
          obtain ⟨hdots, hfalls⟩ := hfull.bare hexplicit hmark
          exact .inl ⟨.inl ⟨rfl, Nat.add_zero _⟩, hdots,
            (hfalls.append_left _).cons ⟨.trivia, full.lead⟩⟩
    rcases Nat.lt_or_ge k (textOf full.contentPieces).length with hlt | hge
    · -- the mark stands within the document
      have hfalls := hfull.shows.marks k hk hlt hmark
      refine .inr ⟨?_, (hfalls.append_left _).cons ⟨.trivia, full.lead⟩⟩
      rintro (⟨-, hstart⟩ | ⟨rest, hrest, -⟩) <;> omega
    · obtain ⟨m, rfl⟩ : ∃ m, k = (textOf full.contentPieces).length + m :=
        ⟨k - (textOf full.contentPieces).length, by omega⟩
      rw [hcontent.atDocumentMark_skip] at hmark
      rw [hcontent.drop_rest]
      rcases hmore.marks m hmark with ⟨hbare, hdots, hfalls⟩ | ⟨hbare, hfalls⟩
      · exact .inl ⟨.inr ⟨m, by omega, hbare⟩, hdots,
          (hfalls.append_right _).cons ⟨.trivia, full.lead⟩⟩
      · refine .inr ⟨?_, (hfalls.append_right _).cons ⟨.trivia, full.lead⟩⟩
        rintro (⟨-, hstart⟩ | ⟨rest, hrest, hlater⟩)
        · omega
        · obtain rfl : rest = m := by omega
          exact hbare hlater

theorem MoreDocuments.shows {r last : Reader} {documents : List Document} {suffix : Text}
    (h : MoreDocuments r documents suffix last) :
    ∃ fulls, ShowsDocuments r fulls documents suffix := by
  induction h with
  | @done r hend =>
      have hrest := (Reads.preamble r).rest
      rw [hend, List.append_nil] at hrest
      refine ⟨[], rfl, hrest, fun n hmark => ?_⟩
      rw [atDocumentMark_of_blank hend n] at hmark
      cases hmark
  | document _ hdocument _ ih =>
      obtain ⟨fulls, hfulls⟩ := ih
      obtain ⟨full, hfull⟩ := hdocument.shows_cons hfulls
      exact ⟨full :: fulls, hfull⟩

end Reader

/-! ## Streams -/

/-- A text after which a line starts.  The byte order mark is before the first line. -/
def StartsLine (before : Text) : Prop :=
  before = [] ∨ before = ['\ufeff'] ∨ before.getLast? = some '\n'

theorem columnAfter_of_getLast? {text : Text} (h : text.getLast? = some '\n') (column : Nat) :
    columnAfter column text = 0 := by
  obtain ⟨start, rfl⟩ := List.getLast?_eq_some_iff.mp h
  rw [columnAfter_append]
  rfl

/-- A mark at the start of a line is one for the reader, which starts after the byte order mark. -/
theorem exists_mark_of_startsLine {source before rest : Text} (hsource : source = before ++ rest)
    (hline : StartsLine before) (hmark : (atDashes rest || atDots rest) = true) :
    ∃ n, before.length = (splitMark source).1.length + n ∧
      (splitMark source).2.drop n = rest ∧
      (Reader.skip { rest := (splitMark source).2 } n).atDocumentMark = true := by
  have hat : ∀ start, (splitMark source).2 = start ++ rest → columnAfter 0 start = 0 →
      (splitMark source).2.drop start.length = rest ∧
        (Reader.skip { rest := (splitMark source).2 } start.length).atDocumentMark = true := by
    intro start hbody hcolumn
    rw [hbody]
    simp [Reader.atDocumentMark, Reader.skip, hcolumn, hmark]
  have hsplit := (splitMark_append source).trans hsource
  rcases splitMark_cases source with hbom | ⟨hbom, hhead⟩
  · rw [hbom, List.singleton_append] at hsplit
    cases before with
    | nil =>
        -- the byte order mark is no mark of a document
        rw [List.nil_append] at hsplit
        rw [← hsplit] at hmark
        exact absurd (head?_of_mark hmark) (by simp)
    | cons c before =>
        obtain ⟨rfl, hbody⟩ := List.cons.inj hsplit
        refine ⟨before.length, ?_, hat before hbody ?_⟩
        · rw [hbom, List.length_cons, List.length_singleton, Nat.add_comm]
        · rcases hline with hnil | hsingle | hlast
          · cases hnil
          · cases hsingle
            rfl
          · cases before with
            | nil => simp at hlast
            | cons d before =>
                rw [List.getLast?_cons_cons] at hlast
                exact columnAfter_of_getLast? hlast 0
  · rw [hbom, List.nil_append] at hsplit
    refine ⟨before.length, by rw [hbom, List.length_nil, Nat.zero_add], hat before hsplit ?_⟩
    rcases hline with rfl | rfl | hlast
    · rfl
    · rw [hsplit] at hhead
      exact absurd rfl hhead
    · exact columnAfter_of_getLast? hlast 0

/-- A text in front of the first document moves the marks, and changes nothing else. -/
theorem Stream.Accounts.prepend {document : Document} {documents : List Document}
    {suffix rest : Text} {n : Nat}
    (h : Stream.Accounts { documents := document :: documents, suffix } n rest) (mark : Text) :
    Stream.Accounts
      { documents := { document with lead := mark ++ document.lead } :: documents, suffix }
      (mark.length + n) rest := by
  have hbare : BareStart ({ document with lead := mark ++ document.lead } :: documents)
      (mark.length + n) ↔ BareStart (document :: documents) n := by
    rw [bareStart_cons, bareStart_cons]
    simp [Document.print, Nat.add_assoc]
  have hfalls : ∀ P : Piece → Nat → Prop, (∀ text offset, ¬ P ⟨.trivia, text⟩ offset) →
      Falls P (Stream.pieces { documents := document :: documents, suffix }) n →
      Falls P (Stream.pieces
        { documents := { document with lead := mark ++ document.lead } :: documents, suffix })
        (mark.length + n) := by
    intro P hnot hat
    rw [Stream.pieces_cons] at hat ⊢
    obtain ⟨k, rfl, hk⟩ := hat.behind (hnot document.lead)
    have hmoved := hk.cons ⟨.trivia, mark ++ document.lead⟩
    rw [List.length_append, Nat.add_assoc] at hmoved
    exact hmoved
  rcases h with ⟨hstart, hdots, hplain⟩ | ⟨hstart, hsettled⟩
  · exact .inl ⟨hbare.mpr hstart, hdots, hfalls _ (by simp [Reader.Plain]) hplain⟩
  · refine .inr ⟨fun hmoved => hstart (hbare.mp hmoved), hfalls _ ?_ hsettled⟩
    simp [Reader.Settled, Role.encloses]

/-- A source without content holds no mark. -/
private theorem not_startsLine_of_blank {source before rest : Text}
    (hblank : (Reader.afterPreamble { rest := (splitMark source).2 }).rest = [])
    (hsource : source = before ++ rest) (hline : StartsLine before) :
    (atDashes rest || atDots rest) = false := by
  refine Bool.eq_false_iff.mpr fun hmark => ?_
  obtain ⟨n, -, -, hat⟩ := exists_mark_of_startsLine hsource hline hmark
  rw [Reader.atDocumentMark_of_blank hblank] at hat
  cases hat

private theorem Stream.exists_accounting {source : Text} {stream : Stream}
    (h : Stream.parse source = .ok stream) :
    ∃ full : Stream, full.print = source ∧ full.unstacked = stream ∧
      ∀ before rest, source = before ++ rest → StartsLine before →
        (atDashes rest || atDots rest) = true → full.Accounts before.length rest := by
  obtain ⟨last, hrules⟩ := Stream.parse_eq_ok_iff.mp h
  by_cases hmore : (Reader.afterPreamble { rest := (splitMark source).2 }).rest = []
  · obtain ⟨full, hprint, hunstacked, -, -⟩ := Stream.exists_asRead_of_parse h
    refine ⟨full, hprint, hunstacked, fun before rest hsource hline hmark => ?_⟩
    rw [not_startsLine_of_blank hmore hsource hline] at hmark
    cases hmark
  · obtain ⟨first, documents, suffix, rfl, hdocuments⟩ := (Reader.streamNode_iff hmore).mp hrules
    obtain ⟨fulls, hfulls⟩ := hdocuments.shows
    obtain ⟨full, others, rfl, rfl, rfl⟩ := List.map_eq_cons_iff.mp hfulls.unstacked
    refine ⟨{ documents := { full with lead := (splitMark source).1 ++ full.lead } :: others,
              suffix }, ?_, rfl, ?_⟩
    · have hbody : (splitMark source).2 = (full :: others).flatMap Document.print ++ suffix :=
        hfulls.rest
      calc
        _ = (splitMark source).1 ++ ((full :: others).flatMap Document.print ++ suffix) := by
          simp [Stream.print, Document.print]
        _ = source := by rw [← hbody, splitMark_append]
    · intro before rest hsource hline hmark
      obtain ⟨n, hlength, hrest, hat⟩ := exists_mark_of_startsLine hsource hline hmark
      have haccounts := (hfulls.marks n hat).prepend (splitMark source).1
      rw [hlength, ← hrest]
      exact haccounts

/-- Every source that is read is the text of a tree that is the stream once its anchors are
unstacked, and the marks in the text are accounted for.  A line that starts with `---` or `...` is
the mark of a document's start or end, or stands in a quoted scalar or a flow collection, unless it
is `...` and a document without `---` starts with it.  Then it is the start of a plain scalar or of
a plain key.  If the stream prints as the source, it is that tree. -/
theorem Stream.marks_of_parse {source : Text} {stream : Stream}
    (h : Stream.parse source = .ok stream) :
    ∃ full : Stream, textOf full.pieces = source ∧ full.unstacked = stream ∧
      (stream.print = source → full = stream) ∧
      ∀ before rest, source = before ++ rest → StartsLine before →
        (atDashes rest || atDots rest) = true → full.Accounts before.length rest := by
  obtain ⟨full, hprint, rfl, hmarks⟩ := Stream.exists_accounting h
  refine ⟨full, full.textOf_pieces.trans hprint, rfl, fun hsame => ?_, hmarks⟩
  exact (Stream.unstacked_eq_self (hsame.trans hprint.symm)).symm

/-- Four marks: in a quoted scalar, before and after the second document, and one that the third
document takes for its text. -/
theorem Stream.marks_of_parse_dots :
    ∃ stream : Stream, Stream.parse "- 'a\n---\n'\n---\nb\n...\n...\n".toList = .ok stream ∧
      [5, 11, 17, 21].map (pieceAt stream.pieces) =
        [some (⟨.value .singleQuoted, "'a\n---\n'".toList⟩, 3), some (⟨.start, "---".toList⟩, 0),
          some (⟨.finish, "...".toList⟩, 0), some (⟨.value .plain, "...".toList⟩, 0)] ∧
      stream.Accounts 5 "---\n'\n---\nb\n...\n...\n".toList ∧
      stream.Accounts 11 "---\nb\n...\n...\n".toList ∧
      stream.Accounts 17 "...\n...\n".toList ∧ stream.Accounts 21 "...\n".toList := by
  have hread : (Stream.parse "- 'a\n---\n'\n---\nb\n...\n...\n".toList).toOption.map
      (fun stream => (stream.print, [5, 11, 17, 21].map (pieceAt stream.pieces))) =
      some ("- 'a\n---\n'\n---\nb\n...\n...\n".toList,
        [some (⟨.value .singleQuoted, "'a\n---\n'".toList⟩, 3), some (⟨.start, "---".toList⟩, 0),
          some (⟨.finish, "...".toList⟩, 0), some (⟨.value .plain, "...".toList⟩, 0)]) := by
    decide +kernel
  cases hparse : Stream.parse "- 'a\n---\n'\n---\nb\n...\n...\n".toList with
  | error error =>
      rw [hparse] at hread
      cases hread
  | ok stream =>
      rw [hparse] at hread
      obtain ⟨hprint, hpieces⟩ := Prod.mk.inj (Option.some.inj hread)
      obtain ⟨full, -, -, hsame, hmarks⟩ := Stream.marks_of_parse hparse
      rw [hsame hprint] at hmarks
      refine ⟨stream, rfl, hpieces, ?_, ?_, ?_, ?_⟩
      · exact hmarks "- 'a\n".toList _ (by decide) (.inr (.inr (by decide))) (by decide)
      · exact hmarks "- 'a\n---\n'\n".toList _ (by decide) (.inr (.inr (by decide))) (by decide)
      · exact hmarks "- 'a\n---\n'\n---\nb\n".toList _ (by decide) (.inr (.inr (by decide)))
          (by decide)
      · exact hmarks "- 'a\n---\n'\n---\nb\n...\n".toList _ (by decide)
          (.inr (.inr (by decide))) (by decide)

end LosslessYaml
