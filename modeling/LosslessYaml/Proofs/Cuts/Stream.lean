import LosslessYaml.Proofs.Cuts.Nodes
import LosslessYaml.Proofs.Trace.Progress

/-!
# No cut of a source fails

Streams by positions, and with them all of reading.  A source is read by its bytes alone, every part
of the tree and every line, column and lookahead is cut out of it between two positions, and a cut
that is out of order, out of range or within a character stops the reading.  None does: what is read
is what the reader of characters reads, and an error is its error.

Main statement: `Stream.cuts_succeed`.
-/

namespace LosslessYaml

open Text Lookahead

namespace ByteSource

open Reader

/-! ## Documents and streams -/

/-- Reads what follows the root of a document. -/
def ending (s : ByteSource) (position : Nat) : Checked (Ending × Nat) := do
  let next ← s.peek position
  let lead ← s.slice position next.stop
  if next.stop == s.length then return ({ lead }, next.stop)
  else do
    let dots ← s.atMark atDots next.stop
    if dots then return ({ lead, explicit := true }, next.stop + 3)
    else do
      let dashes ← s.atMark atDashes next.stop
      if dashes then return ({ lead }, next.stop)
      else s.errorAt next.stop .contentAfterRoot

/-- Reads a document whose preamble was read already. -/
def document (s : ByteSource) (fuel : Nat) (lead : Text) (position : Nat) :
    Checked (Document × Nat) := do
  let explicit ← s.atMark atDashes position
  let (root, afterRoot) ← s.block fuel 0 .root (if explicit then position + 3 else position)
  let (ending, after) ← s.ending afterRoot
  return ({ lead, explicit, root, ending }, after)

/-- Reads the documents after the first, and the trivia after the last. -/
def moreDocuments (s : ByteSource) (fuel position : Nat) :
    Checked (List Document × Text × Nat) :=
  match fuel with
  | 0 => s.errorAt position .tooDeep
  | fuel + 1 => do
    let stop ← s.preambleEnd position
    let lead ← s.slice position stop
    if stop == s.length then return ([], lead, stop)
    else do
      let (document, after) ← s.document fuel lead stop
      let (documents, suffix, last) ← moreDocuments s fuel after
      return (document :: documents, suffix, last)

/-- Reads a stream from behind the byte order mark, which is a part of its first document. -/
def stream (s : ByteSource) (fuel : Nat) : Checked Stream := do
  let stop ← s.preambleEnd s.mark
  let lead ← s.slice 0 stop
  if stop == s.length then return { documents := [⟨lead, [], false, .empty, {}⟩] }
  else do
    let (first, after) ← s.document fuel lead stop
    let (documents, suffix, _) ← s.moreDocuments fuel after
    return { documents := first :: documents, suffix }

/-- Reads a source.  There is a bound of four nested calls for each byte and four more. -/
def parse (s : ByteSource) : Checked Stream := s.stream (4 * s.length + 4)

variable {source : Text} {r : Reader}

/-- The marks of documents are three bytes long. -/
theorem position_skip_three {a b c : Char} {tail : Text} (h : Stands source r)
    (hrest : r.rest = a :: b :: c :: tail) (ha : a.toNat < 128) (hb : b.toNat < 128)
    (hc : c.toNat < 128) : position source (r.skip 3) = position source r + 3 := by
  have hsecond : (r.skip 1).rest = b :: c :: tail := by rw [skip, hrest]; rfl
  have hthird : (r.skip 2).rest = c :: tail := by rw [skip, hrest]; rfl
  calc position source (r.skip 3)
      = position source (r.skip 2) + 1 := by
        rw [← position_skip_one (h.skip 2) hthird hc, skip_skip]
    _ = position source (r.skip 1) + 1 + 1 := by
        rw [← position_skip_one (h.skip 1) hsecond hb, skip_skip]
    _ = position source r + 3 := by
        rw [position_skip_one h hrest ha]

theorem ending_position (h : Stands source r) :
    (ofText source).ending (position source r) =
      located source (positioned source) r.ending := by
  rw [ending, peek_position h, ok_bind, peeked]
  dsimp only
  rw [slice_trivia h, ok_bind, position_beq_length h.afterTrivia,
    atMark_position h.afterTrivia atDots_octets, atMark_position h.afterTrivia atDashes_octets,
    ok_bind, ok_bind, Reader.ending]
  split
  next => rfl
  split
  next hdots =>
    rw [Bool.and_eq_true] at hdots
    obtain ⟨tail, hrest⟩ := eq_dots_of_atDots hdots.2
    rw [← position_skip_three h.afterTrivia hrest (by decide) (by decide) (by decide)]
    rfl
  split
  next => rfl
  next => exact errorAt_eq h.afterTrivia _ _

theorem document_position {fuel : Nat} {lead : Text} (h : Stands source r) :
    (ofText source).document fuel lead (position source r) =
      located source (positioned source) (r.document fuel lead) := by
  have hroot : Stands source r.afterDashes := h.keeps (afterDashes_keeps r)
  have hposition : (if r.startsDocument then position source r + 3 else position source r) =
      position source r.afterDashes := by
    rw [afterDashes]
    split
    next hstart =>
      rw [startsDocument, Bool.and_eq_true] at hstart
      obtain ⟨tail, hrest⟩ := eq_dashes_of_atDashes hstart.2
      rw [position_skip_three h hrest (by decide) (by decide) (by decide)]
    next => rfl
  have hexplicit : (ofText source).atMark atDashes (position source r) = .ok r.startsDocument :=
    atMark_position h atDashes_octets
  rw [document, hexplicit, ok_bind, hposition, block_position fuel hroot, Reader.document]
  refine located_bind fun found hfound => ?_
  obtain ⟨root, afterRoot⟩ := found
  dsimp only [positioned]
  rw [ending_position (hroot.keeps (block_rules fuel hfound).keeps)]
  exact located_bind fun found _ => rfl

theorem moreDocuments_position {fuel : Nat} (h : Stands source r) :
    (ofText source).moreDocuments fuel (position source r) =
      located source (closedAt source) (r.moreDocuments fuel) := by
  induction fuel generalizing r with
  | zero =>
      rw [moreDocuments, Reader.moreDocuments]
      exact errorAt_eq h _ _
  | succ fuel ih =>
      have hcut : (ofText source).slice (position source r) (position source r.afterPreamble) =
          .ok r.preamble := slice_position h _
      have hpreamble : Stands source r.afterPreamble := h.skip _
      rw [moreDocuments, Reader.moreDocuments, preambleEnd_position h, ok_bind, hcut, ok_bind,
        position_beq_length hpreamble]
      split
      next => rfl
      next =>
        rw [document_position hpreamble]
        refine located_bind fun found hfound => ?_
        obtain ⟨first, after⟩ := found
        obtain ⟨text, -, hkeeps⟩ := (document_rules hfound).keeps
        dsimp only [positioned]
        rw [ih (hpreamble.keeps hkeeps)]
        exact located_bind fun found _ => rfl

theorem stream_position (fuel : Nat) (source : Text) :
    (ofText source).stream fuel =
      located source Prod.fst
        (Reader.stream fuel (splitMark source).1 { rest := (splitMark source).2 }) := by
  have hstart := stands_start source
  have hpreamble : Stands source ({ rest := (splitMark source).2 } : Reader).afterPreamble :=
    hstart.skip _
  have hmark : (ofText source).mark = position source { rest := (splitMark source).2 } := by
    rw [@position_eq source _ [] rfl, List.append_nil]
    rfl
  have hcut : (ofText source).slice 0
      (position source ({ rest := (splitMark source).2 } : Reader).afterPreamble) =
      .ok ((splitMark source).1 ++ ({ rest := (splitMark source).2 } : Reader).preamble) :=
    slice_before (List.take_append_drop _ _).symm
  rw [stream, hmark, preambleEnd_position hstart, ok_bind, hcut, ok_bind,
    position_beq_length hpreamble, Reader.stream]
  split
  next => rfl
  next =>
    rw [document_position hpreamble]
    refine located_bind fun found hfound => ?_
    obtain ⟨first, after⟩ := found
    obtain ⟨text, -, hkeeps⟩ := (document_rules hfound).keeps
    dsimp only [positioned]
    rw [moreDocuments_position (hpreamble.keeps hkeeps)]
    exact located_bind fun found _ => rfl

end ByteSource

/-! ## Reading a source -/

/-- A bound that grows with the bytes leaves room for all the characters. -/
theorem ByteSource.stream_bound (source : Text) :
    Reader.stream (4 * (ofText source).length + 4) (splitMark source).1
        { rest := (splitMark source).2 } =
      Reader.stream (readingFuel (splitMark source).2) (splitMark source).1
        { rest := (splitMark source).2 } := by
  have hbody : (splitMark source).2.length ≤ (ofText source).length := by
    have hsize := length_le_size (splitMark source).2
    rw [length_ofText (Reader.stands_start source)]
    exact Nat.le_add_left_of_le hsize
  have hle : readingFuel (splitMark source).2 ≤ 4 * (ofText source).length + 4 := by
    rw [readingFuel]
    omega
  rw [← Traced.stream_result, ← Traced.stream_result,
    Traced.stream_eq_of_le (Nat.le_refl _) hle]
  rfl

/-- Reading by positions is reading. -/
theorem ByteSource.parse_ofText (source : Text) :
    (ofText source).parse = (Stream.parse source).mapError .error := by
  rw [parse, stream_position, stream_bound, Stream.parse, Stream.read]
  dsimp only
  cases Reader.stream _ _ _ with
  | ok found => rfl
  | error failure => rfl

/-- No source makes a cut fail.  Reading by positions gives the stream or the error that reading
gives; it never cuts at positions that are out of order, out of range or within a character, never
takes a byte past the end, and no loop runs on.  A cut is made exactly where whole characters of the
source stand before both of its ends. -/
theorem Stream.cuts_succeed (source : Text) :
    (ByteSource.ofText source).parse = (Stream.parse source).mapError .error ∧
    (∀ start stop, (ByteSource.ofText source).parse ≠ .error (.cut start stop)) ∧
    (∀ position, (ByteSource.ofText source).parse ≠ .error (.index position)) ∧
    (ByteSource.ofText source).parse ≠ .error .endless ∧
    ∀ start stop text, (ByteSource.ofText source).slice start stop = .ok text ↔
      ∃ before after, source = before ++ (text ++ after) ∧ start = size before ∧
        stop = size before + size text := by
  have hparse := ByteSource.parse_ofText source
  have herror : ∀ halt, (ByteSource.ofText source).parse = .error halt →
      ∃ error, halt = .error error := by
    intro halt h
    rw [hparse] at h
    cases hread : Stream.parse source with
    | ok stream =>
        rw [hread] at h
        cases h
    | error error =>
        rw [hread] at h
        exact ⟨error, (Except.error.inj h).symm⟩
  refine ⟨hparse, ?_, ?_, ?_, ?_⟩
  · intro start stop h
    obtain ⟨error, habsurd⟩ := herror _ h
    cases habsurd
  · intro position h
    obtain ⟨error, habsurd⟩ := herror _ h
    cases habsurd
  · intro h
    obtain ⟨error, habsurd⟩ := herror _ h
    cases habsurd
  · intro start stop text
    exact ByteSource.slice_eq_ok

end LosslessYaml
