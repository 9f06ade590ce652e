import LosslessYaml.Proofs.Reading.Lossless

/-!
# Places along a source

`Reader.Reads` says that exactly the text stands between two places of a source.  The parts of a
tree that hold no node are read so: names, quoted scalars, keys, commas and the ends of documents.
`Reader.Keeps` says it of nodes as well, up to the anchors that are dropped in them.
-/

namespace LosslessYaml.Reader

open Text Lookahead

/-- Exactly the text stands between the two places. -/
structure Reads (r : Reader) (text : Text) (after : Reader) : Prop where
  rest : r.rest = text ++ after.rest
  column : after.column = columnAfter r.column text

namespace Reads

theorem refl (r : Reader) : Reads r [] r := ⟨rfl, rfl⟩

theorem trans {r middle after : Reader} {first second : Text} (hfirst : Reads r first middle)
    (hsecond : Reads middle second after) : Reads r (first ++ second) after := by
  constructor
  · rw [hfirst.rest, hsecond.rest, List.append_assoc]
  · rw [hsecond.column, hfirst.column, columnAfter_append]

theorem skip (r : Reader) (n : Nat) : Reads r (r.taken n) (r.skip n) :=
  ⟨(List.take_append_drop n r.rest).symm, rfl⟩

theorem trivia (r : Reader) : Reads r r.trivia r.afterTrivia := skip r _

theorem blanks (r : Reader) : Reads r r.blanks r.afterBlanks := skip r _

theorem head {r : Reader} {c : Char} {tail : Text} (h : r.rest = c :: tail) :
    Reads r [c] (r.skip 1) := by
  simpa [taken, h] using skip r 1

/-- Dropping an anchor is not a step. -/
theorem dropping {r after : Reader} {text : Text} (h : Reads r text after)
    (anchor : Option Anchor) : Reads r text (after.dropping anchor) := ⟨h.rest, h.column⟩

theorem of_keeps {r after : Reader} {text : Text} (h : Keeps r text after)
    (hdropped : after.dropped = r.dropped) : Reads r text after :=
  ⟨(h.rest_eq hdropped).1, (h.rest_eq hdropped).2⟩

end Reads

/-! ## Parts that hold no node -/

theorem anchorName_reads {r after : Reader} {name tail : Text} (hopen : r.rest = '&' :: tail)
    (h : r.anchorName = .ok (name, after)) : Reads r ('&' :: name) after := by
  refine .of_keeps (anchorName_keeps hopen h) ?_
  simp only [anchorName] at h
  split at h
  next => simp [fail] at h
  next =>
    cases h
    rfl

private theorem quoted_dropped {quote : Char} {lead : Text} {r after : Reader} {scalar : Scalar}
    (h : r.quoted quote lead = .ok (scalar, after)) : after.dropped = r.dropped := by
  simp only [quoted] at h
  split at h
  next => simp [fail] at h
  next =>
    cases h
    rfl

theorem quoted_reads {quote : Char} {lead tail : Text} {r after : Reader} {scalar : Scalar}
    (hquote : quote = '"' ∨ quote = '\'') (hopen : r.rest = quote :: tail)
    (h : r.quoted quote lead = .ok (scalar, after)) : Reads r scalar.printBody after :=
  .of_keeps (quoted_keeps hquote hopen h).2.2 (quoted_dropped h)

private theorem plainKey_dropped {n : Nat} {r after : Reader} {key : Scalar}
    (h : r.plainKey n = .ok (key, after)) : after.dropped = r.dropped := by
  unfold plainKey at h
  split at h
  next => simp [fail] at h
  next =>
    cases h
    rfl

private theorem keyAnchor_dropped {r after : Reader} {anchor : Option Anchor}
    (h : r.keyAnchor = .ok (anchor, after)) : after.dropped = r.dropped := by
  unfold keyAnchor at h
  split at h
  next =>
    obtain ⟨⟨name, afterName⟩, hname, h⟩ := bind_eq_ok.mp h
    cases h
    simp only [anchorName] at hname
    split at hname
    next => simp [fail] at hname
    next =>
      cases hname
      rfl
  next =>
    cases h
    rfl

private theorem keyWith_dropped {bare : Reader → Except Failure (Scalar × Reader)}
    (hbare : ∀ {r after : Reader} {key : Scalar}, bare r = .ok (key, after) →
      after.dropped = r.dropped)
    {r after : Reader} {key : Scalar} (h : keyWith bare r = .ok (key, after)) :
    after.dropped = r.dropped := by
  unfold keyWith at h
  obtain ⟨⟨anchor, middle⟩, hanchor, h⟩ := bind_eq_ok.mp h
  obtain ⟨⟨plain, last⟩, hplain, h⟩ := bind_eq_ok.mp h
  cases h
  exact (hbare hplain).trans (keyAnchor_dropped hanchor)

/-- No anchor is dropped within a key of a block mapping. -/
theorem blockKey_dropped {r after : Reader} {key : Scalar} (h : r.blockKey = .ok (key, after)) :
    after.dropped = r.dropped := by
  refine keyWith_dropped ?_ h
  intro r after key h
  unfold bareBlockKey at h
  split at h
  next => exact quoted_dropped h
  next => exact quoted_dropped h
  next => exact plainKey_dropped h

theorem blockKey_reads {r after : Reader} {key : Scalar} (h : r.blockKey = .ok (key, after)) :
    Reads r key.print after := .of_keeps (blockKey_keeps h) (blockKey_dropped h)

theorem flowKey_reads {r after : Reader} {key : Scalar} (h : r.flowKey = .ok (key, after)) :
    Reads r key.print after := by
  refine .of_keeps (flowKey_keeps h) (keyWith_dropped ?_ h)
  intro r after key h
  unfold bareFlowKey at h
  split at h
  next => exact quoted_dropped h
  next => exact quoted_dropped h
  next => simp [fail] at h
  next => simp [fail] at h
  next => exact plainKey_dropped h

theorem separator_reads {closing : Char} {r after : Reader} {comma : Option Text}
    (h : r.separator closing = .ok (comma, after)) : Reads r (printComma comma) after := by
  rcases separator_eq_ok h with ⟨tail, hrest, rfl, rfl⟩ | ⟨tail, -, rfl, rfl⟩
  · exact (Reads.trivia r).trans (.head hrest)
  · exact .refl _

end LosslessYaml.Reader
