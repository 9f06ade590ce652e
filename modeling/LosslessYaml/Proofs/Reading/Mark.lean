import LosslessYaml.Reading.Stream

/-!
# A byte order mark is transparent

A source may start with a byte order mark, which takes up no column.  This file proves that the
mark makes no difference to how the rest is read: the same sources are accepted, the trees differ
in the lead of the first document only, and a source that is not accepted fails for the same cause
at the same line and column.

The mark is put in front of the lead of the first document and into nothing else that the reader
looks at.  So the argument follows the lead from `Reader.stream` through `Reader.document`, and no
other function of the reader is opened.

Main statement: `Stream.parse_after_mark`.
-/

namespace LosslessYaml

/-- The stream with a text in front of its first document. -/
def Stream.withLead (mark : Text) (stream : Stream) : Stream :=
  match stream.documents with
  | [] => stream
  | first :: documents =>
    { stream with documents := { first with lead := mark ++ first.lead } :: documents }

namespace Reader

/-- A document is read without regard to its lead. -/
theorem document_append_lead (fuel : Nat) (mark lead : Text) (r : Reader) :
    document fuel (mark ++ lead) r =
      (document fuel lead r).map fun (document, after) =>
        ({ document with lead := mark ++ document.lead }, after) := by
  unfold document
  dsimp only
  cases block fuel 0 .root (if r.column == 0 && Lookahead.atDashes r.rest then r.skip 3 else r) with
  | error failure => rfl
  | ok root =>
      obtain ⟨root, afterRoot⟩ := root
      cases hending : afterRoot.ending with
      | error failure => simp [bind, Except.bind, hending, Except.map]
      | ok ending => simp [bind, Except.bind, hending, Except.map]

/-- A stream with a mark is read like one without it. -/
theorem stream_mark (fuel : Nat) (mark : Text) (r : Reader) :
    stream fuel mark r =
      (stream fuel [] r).map fun (stream, last) => (stream.withLead mark, last) := by
  unfold stream
  dsimp only
  rw [List.nil_append]
  split
  next => rfl
  next =>
    rw [document_append_lead]
    cases document fuel r.preamble r.afterPreamble with
    | error failure => rfl
    | ok first =>
        obtain ⟨first, after⟩ := first
        cases hmore : moreDocuments fuel after with
        | error failure => simp [bind, Except.bind, hmore, Except.map]
        | ok more => simp [bind, Except.bind, hmore, Except.map, Stream.withLead]

/-- A stream that was read has a first document. -/
theorem stream_documents_ne_nil {fuel : Nat} {mark : Text} {r last : Reader} {result : Stream}
    (h : stream fuel mark r = .ok (result, last)) : result.documents ≠ [] := by
  unfold stream at h
  dsimp only at h
  split at h
  next =>
    cases h
    simp
  next =>
    cases hfirst : document fuel (mark ++ r.preamble) r.afterPreamble with
    | error failure => simp [hfirst, bind, Except.bind] at h
    | ok first =>
        obtain ⟨first, after⟩ := first
        cases hmore : moreDocuments fuel after with
        | error failure => simp [hfirst, hmore, bind, Except.bind] at h
        | ok more =>
            simp only [hfirst, hmore, bind, Except.bind, Except.ok.injEq, Prod.mk.injEq] at h
            rw [← h.1]
            simp

end Reader

namespace Stream

theorem splitMark_of_head {source : Text} (h : source.head? ≠ some '\ufeff') :
    splitMark source = ([], source) := by
  unfold splitMark
  split
  next => simp at h
  next => rfl

/-- Both the tree and the failure are those of the source without the mark. -/
theorem parse_cons_mark {source : Text} (h : source.head? ≠ some '\ufeff') :
    Stream.parse ('\ufeff' :: source) = (Stream.parse source).map (withLead ['\ufeff']) := by
  have hmark : splitMark ('\ufeff' :: source) = (['\ufeff'], source) := rfl
  simp only [Stream.parse, Stream.read, hmark, splitMark_of_head h]
  rw [Reader.stream_mark]
  cases Reader.stream (readingFuel source) [] { rest := source } <;> rfl

theorem documents_ne_nil_of_parse {source : Text} {stream : Stream}
    (h : Stream.parse source = .ok stream) : stream.documents ≠ [] := by
  simp only [Stream.parse, Stream.read] at h
  cases hread : Reader.stream (readingFuel (splitMark source).2) (splitMark source).1
      { rest := (splitMark source).2 } with
  | error failure => simp [hread, Except.map] at h
  | ok result =>
      simp only [hread, Except.map, Except.ok.injEq] at h
      exact h ▸ Reader.stream_documents_ne_nil hread

/-- A byte order mark in front of a source that does not start with one is transparent.  The source
is accepted with it if and only if it is accepted without it; the tree differs in the lead of the
first document; and a failure has the same cause, line and column. -/
theorem parse_after_mark {source : Text} (h : source.head? ≠ some '\ufeff') :
    ((∃ stream, Stream.parse ('\ufeff' :: source) = .ok stream) ↔
      ∃ stream, Stream.parse source = .ok stream) ∧
    (∀ stream, Stream.parse source = .ok stream →
      ∃ first documents, stream.documents = first :: documents ∧
        Stream.parse ('\ufeff' :: source) = .ok { stream with
          documents := { first with lead := '\ufeff' :: first.lead } :: documents }) ∧
    ∀ error, Stream.parse ('\ufeff' :: source) = .error error ↔
      Stream.parse source = .error error := by
  have hboth := parse_cons_mark h
  cases hparse : Stream.parse source with
  | error error => simp [hboth, hparse, Except.map]
  | ok stream =>
      obtain ⟨first, documents, hdocuments⟩ :=
        List.exists_cons_of_ne_nil (documents_ne_nil_of_parse hparse)
      refine ⟨by simp [hboth, hparse, Except.map], ?_, by simp [hboth, hparse, Except.map]⟩
      rintro _ ⟨⟩
      refine ⟨first, documents, hdocuments, ?_⟩
      rw [hboth, hparse, Except.map, withLead, hdocuments]
      rfl

/-- A mark before a directive stays in front of the first document, and a tag on the first line is
found at the column where it stands without the mark. -/
theorem parse_after_mark_directive :
    (∃ stream, Stream.parse "\ufeff%D\n---\na: 1\n---\nb: 2\n".toList = .ok stream ∧
      stream.documents.map Document.lead = ["\ufeff%D\n".toList, []]) ∧
    Stream.parse "\ufeffa: !t\n".toList = .error ⟨⟨1, 4⟩, .tag⟩ := by
  constructor
  · have hleads : (Stream.parse "%D\n---\na: 1\n---\nb: 2\n".toList).toOption.map
        (fun stream => stream.documents.map Document.lead) = some ["%D\n".toList, []] := by
      decide +kernel
    cases hparse : Stream.parse "%D\n---\na: 1\n---\nb: 2\n".toList with
    | error error =>
        rw [hparse] at hleads
        cases hleads
    | ok stream =>
        rw [hparse] at hleads
        obtain ⟨first, documents, hdocuments, hmark⟩ :=
          (parse_after_mark (by decide)).2.1 stream hparse
        have hlist : stream.documents.map Document.lead = ["%D\n".toList, []] :=
          Option.some.inj hleads
        rw [hdocuments, List.map_cons, List.cons.injEq] at hlist
        refine ⟨_, hmark, ?_⟩
        rw [List.map_cons, hlist.1, hlist.2]
        rfl
  · have hhead : "a: !t\n".toList.head? ≠ some '\ufeff' := by decide
    refine ((parse_after_mark hhead).2.2 _).mpr ?_
    have herror : (match Stream.parse "a: !t\n".toList with
        | .ok _ => none
        | .error error => some error) = some ⟨⟨1, 4⟩, .tag⟩ := by
      decide +kernel
    cases hparse : Stream.parse "a: !t\n".toList with
    | ok stream =>
        rw [hparse] at herror
        cases herror
    | error error =>
        rw [hparse] at herror
        exact congrArg Except.error (Option.some.inj herror)

end Stream

end LosslessYaml
