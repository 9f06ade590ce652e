import LosslessYaml.Proofs.ReadBack.Document

/-!
# Reading a changed stream again

A recipe checks its value so that the file it writes can be read again.  The check looks at the
value alone, and what stands around it matters, too: a comment that is not set off, or a line that
goes on with a plain scalar, becomes part of the new value.  This file says exactly when the written
text says what the changed tree says.

Sources with two anchors before one node are set apart.  One of the anchors is dropped with the
trivia after it, so that the nodes in the tree may not stand where they stood in the source, and the
text of the tree may not be read at all.

Main statement: `ChangeValue.reads_back_iff_legible`.
-/

namespace LosslessYaml

open Text Lookahead ChangeValue

variable {recipe : ChangeValue}

/-- The new text of a stream with content has content. -/
private theorem documents_start {r last : Reader} {documents documents' : List Document}
    {first first' : Document} {suffix : Text}
    (h : Reader.MoreDocuments r (first :: documents) suffix last)
    (hdropped : last.dropped = r.dropped)
    (hpatch : PatchedDocuments recipe (first :: documents) (first' :: documents')) {r' : Reader}
    (hrest : r'.rest = (first' :: documents').flatMap Document.print ++ suffix)
    (hcolumn : r'.rest ≠ [] → r'.column = r.column) : r'.afterPreamble.rest ≠ [] := by
  cases hpatch with
  | inside hroot hpatch =>
      cases h with
      | document hmore hdocument hdocuments =>
          exact (Reader.document_start hmore hdocument hdocuments hdropped hroot hpatch hrest
            hcolumn).1

/-- The changed text of a stream that has content is read back exactly if it is legible. -/
private theorem documents_read_back (hsound : ValueProblem.Sound recipe.options.value)
    {source : Text} {first first' : Document} {documents documents' : List Document}
    {suffix : Text} {last : Reader}
    (h : Reader.MoreDocuments { rest := (splitMark source).2 } (first :: documents) suffix last)
    (hdropped : last.dropped = [])
    (hpatch : PatchedDocuments recipe (first :: documents) (first' :: documents'))
    {stream' : Stream} (hstream : stream'.documents =
      { first' with lead := (splitMark source).1 ++ first'.lead } :: documents')
    (hsuffix : stream'.suffix = suffix) :
    (∃ again, Stream.parse stream'.print = .ok again ∧ again.data = stream'.data) ↔
      stream'.legible = true := by
  have hbody := h.rest_eq hdropped
  have hlead : first'.lead = first.lead := by cases hpatch; rfl
  have hprint : stream'.print = (splitMark source).1 ++
      ((first' :: documents').flatMap Document.print ++ suffix) := by
    simp [Stream.print, hstream, hsuffix, Document.print]
  have hsplit := @splitMark_append_of_head source
    ((first' :: documents').flatMap Document.print ++ suffix)
    (.inr (by rw [← hpatch.head_eq, ← hbody]))
  have hlegible : stream'.legible = documentsLegible 0 suffix (first' :: documents') := by
    simp only [Stream.legible, hstream, hsuffix]
    rw [hlead, splitMark_lead (hbody.trans (printDocuments_cons_append ..)), ← hlead]
  -- The new text is read from its start, as the source was.
  have hrest : Reader.rest { rest := (first' :: documents').flatMap Document.print ++ suffix } =
    (first' :: documents').flatMap Document.print ++ suffix := rfl
  have hmore' := documents_start h hdropped hpatch hrest (fun _ => rfl)
  have hreread := h.rereads hsound hdropped hpatch hrest (fun _ => rfl)
  rw [hlegible, hprint]
  simp only [Stream.parse_eq_ok_iff, hsplit]
  constructor
  · rintro ⟨again, ⟨last', hnode⟩, hdata⟩
    obtain ⟨first'', documents'', suffix'', rfl, hagain⟩ := (Reader.streamNode_iff hmore').mp hnode
    exact (hreread.sound ⟨suffix'', hagain⟩ (by simpa [Stream.data, hstream] using hdata)).1
  · intro hlegible
    obtain ⟨again, last', ⟨suffix'', hagain⟩, hsame⟩ := hreread.complete hlegible
    obtain ⟨first'', documents'', rfl⟩ : ∃ first'' documents'', again = first'' :: documents'' :=
      List.exists_cons_of_ne_nil (by rintro rfl; simp at hsame)
    exact ⟨_, ⟨last', (Reader.streamNode_iff hmore').mpr ⟨_, _, _, rfl, hagain⟩⟩,
      by simpa [Stream.data, hstream] using hsame⟩

/-- A stream without content has nothing to change. -/
private theorem blank_patched {lead : Text} {documents' : List Document}
    (h : PatchedDocuments recipe [⟨lead, [], false, .empty, {}⟩] documents') :
    documents' = [⟨lead, [], false, .empty, {}⟩] := by
  cases h with
  | inside hroot hdocuments =>
      cases hroot
      cases hdocuments
      rfl

/-- A changed stream is read back exactly if it is legible. -/
theorem Stream.reads_back_of_patched (hsound : ValueProblem.Sound recipe.options.value)
    {source : Text} {stream stream' : Stream} (hread : Stream.read source = .ok ⟨stream, []⟩)
    (hpatch : recipe.Patched stream stream') :
    (∃ again, Stream.parse stream'.print = .ok again ∧ again.data = stream'.data) ↔
      stream'.legible = true := by
  obtain ⟨last, hrules, hdropped⟩ := Stream.read_rules hread
  obtain ⟨-, hsuffix, hdocuments⟩ := hpatch
  by_cases hmore : (Reader.afterPreamble { rest := (splitMark source).2 }).rest = []
  · have hsource := print_eq_source hread rfl
    have hparse : Stream.parse source = .ok stream := by
      rw [Stream.parse, hread]
      rfl
    cases hrules with
    | documents hcontent => exact absurd hmore hcontent
    | blank =>
        have hsame := blank_patched hdocuments
        have hprint : stream'.print = source := by
          rw [← hsource, Stream.print, Stream.print, hsame, hsuffix]
        have hlegible : stream'.legible = true := by
          simp [Stream.legible, hsame, documentsLegible, Block.legible, Block.empty,
            anchorLegible_none, Scalar.legible]
        rw [hprint, hlegible]
        exact iff_of_true ⟨_, hparse, by simp only [Stream.data, hsame]⟩ rfl
  · obtain ⟨first, documents, suffix, hstream, h⟩ := (Reader.streamNode_iff hmore).mp hrules
    subst hstream
    obtain ⟨markers', documents', suffix'⟩ := stream'
    cases hdocuments with
    | inside hroot hdocuments =>
        exact documents_read_back hsound h hdropped (.inside hroot hdocuments) rfl hsuffix

namespace ChangeValue

/-- A recipe that was built has a value that is written as it is. -/
theorem sound_of_build {options : ChangeOptions} (hbuild : build options = .ok recipe) :
    ValueProblem.Sound recipe.options.value := by
  unfold build at hbuild
  split at hbuild
  next => cases hbuild
  next =>
    cases hproblem : ValueProblem.find? options.value with
    | some problem => simp [hproblem] at hbuild
    | none =>
        cases hpath : Path.parse options.keyPath with
        | error error => simp [hproblem, hpath] at hbuild
        | ok path =>
            simp only [hproblem, hpath, Except.ok.injEq] at hbuild
            subst hbuild
            exact ValueProblem.sound_of_find? hproblem

/-- The text that a recipe writes says what the changed tree says exactly if the changed tree is
legible.  This is so for every source of which no anchor was dropped, and for every other one, if
the text of its tree is read as that tree. -/
theorem reads_back_iff_legible {options : ChangeOptions} {source : Text} {parsed : Parsed}
    (hbuild : build options = .ok recipe) (hread : Stream.read source = .ok parsed)
    (hkept : parsed.dropped = [] ∨ Stream.read parsed.stream.print = .ok ⟨parsed.stream, []⟩) :
    (∃ again, Stream.parse (recipe.run parsed.stream).print = .ok again ∧
        again.data = (recipe.run parsed.stream).data) ↔
      (recipe.run parsed.stream).legible = true := by
  have hsound := sound_of_build hbuild
  have hpatch := run_patched recipe parsed.stream
  rcases hkept with hdropped | hagain
  · obtain ⟨stream, dropped⟩ := parsed
    subst hdropped
    exact Stream.reads_back_of_patched hsound hread hpatch
  · exact Stream.reads_back_of_patched hsound hagain hpatch

/-- A comment right behind a quoted scalar is set off by the quotation mark, and becomes part of the
plain scalar that takes its place.  After a blank it stays a comment. -/
theorem reads_back_comment_set_off :
    ∃ recipe attached apart,
      build ⟨"a".toList, "y".toList⟩ = .ok recipe ∧
      Stream.read "a: \"x\"#c\n".toList = .ok attached ∧ attached.dropped = [] ∧
      Stream.read "a: \"x\" #c\n".toList = .ok apart ∧ apart.dropped = [] ∧
      (recipe.run attached.stream).print = "a: y#c\n".toList ∧
      (¬ ∃ again, Stream.parse (recipe.run attached.stream).print = .ok again ∧
        again.data = (recipe.run attached.stream).data) ∧
      (∃ again, Stream.parse (recipe.run apart.stream).print = .ok again ∧
        again.data = (recipe.run apart.stream).data) := by
  refine ⟨_, _, _, rfl, rfl, rfl, rfl, rfl, rfl, fun hagain => ?_, ?_⟩
  · have hlegible := (@reads_back_iff_legible _ ⟨"a".toList, "y".toList⟩ "a: \"x\"#c\n".toList _
      rfl rfl (.inl rfl)).mp hagain
    exact absurd hlegible (by decide +kernel)
  · exact (@reads_back_iff_legible _ ⟨"a".toList, "y".toList⟩ "a: \"x\" #c\n".toList _
      rfl rfl (.inl rfl)).mpr (by decide +kernel)

end ChangeValue

end LosslessYaml
