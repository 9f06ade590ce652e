import LosslessYaml.Proofs.DocumentMarks.Pieces
import LosslessYaml.Proofs.Indentation.Nesting

/-!
# Marks of documents inside of nodes

A line that starts with `---` or `...` is a mark.  This file shows that the reader takes no mark for
a part of a node, unless the node starts with it or encloses it.

The tree of a node is built along the places of the source, as in `Proofs/Indentation/Reading.lean`,
and `Reader.Shows` is the invariant: between two places stands the text of a row of pieces, and a
mark past the first place falls into a piece where marks may stand.  Rows are joined by
`Shows.append`, which asks for the place between them.  The reader asks for it too, wherever a node
or an entry may start on a line of its own.

The first place is left out, since a document without `---` may start with `...`.

Main statement: `Reader.BlockNode.shows`.
-/

namespace LosslessYaml

open Text Lookahead

/-! ## Marks and what looks ahead -/

namespace Lookahead

theorem head?_of_mark {text : Text} (h : (atDashes text || atDots text) = true) :
    text.head? = some '-' ∨ text.head? = some '.' := by
  rcases Bool.or_eq_true_iff.mp h with h | h
  · obtain ⟨tail, rfl⟩ := eq_dashes_of_atDashes h
    exact .inl rfl
  · obtain ⟨tail, rfl⟩ := eq_dots_of_atDots h
    exact .inr rfl

theorem isBlankLine_of_mark {text : Text} (h : (atDashes text || atDots text) = true) :
    isBlankLine text = false := by
  rcases head?_of_mark h with hhead | hhead
  · obtain ⟨tail, rfl⟩ := List.head?_eq_some_iff.mp hhead
    exact isBlankLine_cons (by decide) tail
  · obtain ⟨tail, rfl⟩ := List.head?_eq_some_iff.mp hhead
    exact isBlankLine_cons (by decide) tail

/-- A mark is no trivia and no directive. -/
theorem preambleLength_of_mark {text : Text} (h : (atDashes text || atDots text) = true)
    (lineStart : Bool) : preambleLength lineStart false text = 0 := by
  rcases head?_of_mark h with hhead | hhead
  · obtain ⟨tail, rfl⟩ := List.head?_eq_some_iff.mp hhead
    simp [preambleLength, isTrailing]
  · obtain ⟨tail, rfl⟩ := List.head?_eq_some_iff.mp hhead
    simp [preambleLength, isTrailing]

/-- A preamble that goes on past the end of a line goes on with the next line. -/
theorem preambleLength_of_lt {start line : Text} {lineStart skipping : Bool}
    (h : start.length + 1 < preambleLength lineStart skipping (start ++ '\n' :: line)) :
    0 < preambleLength true false line := by
  induction start generalizing lineStart skipping with
  | nil =>
      simp only [List.nil_append, preambleLength, List.length_nil, beq_self_eq_true, if_true] at h
      omega
  | cons c start ih =>
      simp only [List.cons_append, preambleLength, List.length_cons] at h
      split at h
      next => exact ih (Nat.lt_of_succ_lt_succ h)
      next =>
        split at h
        next => exact ih (Nat.lt_of_succ_lt_succ h)
        next =>
          split at h
          next => exact ih (Nat.lt_of_succ_lt_succ h)
          next => omega

/-- No line of a preamble starts with a mark. -/
theorem mark_eq_false_of_lt_preambleLength {start line : Text} {lineStart skipping : Bool}
    (h : start.length + 1 < preambleLength lineStart skipping (start ++ '\n' :: line)) :
    (atDashes line || atDots line) = false := by
  refine Bool.eq_false_iff.mpr fun hmark => ?_
  have hnext := preambleLength_of_lt h
  rw [preambleLength_of_mark hmark] at hnext
  omega

/-- Trivia is a preamble without directives. -/
theorem triviaFrom_le_preambleLength (comment lineStart : Bool) (text : Text) :
    triviaFrom comment text ≤ preambleLength lineStart comment text := by
  induction text generalizing comment lineStart with
  | nil => exact Nat.le_refl 0
  | cons c text ih =>
      simp only [triviaFrom, preambleLength]
      by_cases hline : (c == '\n') = true
      · rw [if_pos hline, if_pos hline]
        exact Nat.succ_le_succ (ih false true)
      rw [if_neg hline, if_neg hline]
      by_cases hcomment : (comment || c == '#') = true
      · rw [if_pos hcomment, if_pos (by rw [hcomment, Bool.true_or])]
        exact Nat.succ_le_succ (ih true false)
      rw [if_neg hcomment]
      by_cases htrailing : isTrailing c = true
      · have hdirective : ¬ (comment || c == '#' || (c == '%' && lineStart)) = true := by
          have hc : (c == '%') = false := by
            rw [beq_eq_false_iff_ne]
            rintro rfl
            simp [isTrailing] at htrailing
          rwa [hc, Bool.false_and, Bool.or_false]
        rw [if_pos htrailing, if_neg hdirective, if_pos htrailing]
        exact Nat.succ_le_succ (ih false false)
      · rw [if_neg htrailing]
        exact Nat.zero_le _

end Lookahead

namespace Reader

/-! ## Rows of pieces between places -/

/-- A line before a mark ends where the mark starts. -/
theorem exists_line_of_mark {r : Reader} {n : Nat} (hpos : 0 < n) (hn : n ≤ r.rest.length)
    (hmark : (r.skip n).atDocumentMark = true) :
    ∃ start line, r.rest = start ++ '\n' :: line ∧ start.length + 1 = n ∧
      (atDashes line || atDots line) = true := by
  simp only [atDocumentMark, skip, Bool.and_eq_true, beq_iff_eq] at hmark
  obtain ⟨hcolumn, hmark⟩ := hmark
  have hlength : (r.rest.take n).length = n := by rw [List.length_take, Nat.min_eq_left hn]
  rcases List.eq_nil_or_concat (r.rest.take n) with hnil | ⟨start, c, htake⟩
  · rw [hnil, List.length_nil] at hlength
    omega
  · rw [List.concat_eq_append] at htake
    have hc : c = '\n' := by
      refine Classical.byContradiction fun hc => ?_
      rw [htake] at hcolumn
      exact columnAfter_concat_ne_zero hc r.column start hcolumn
    subst hc
    refine ⟨start, r.rest.drop n, ?_, ?_, hmark⟩
    · calc r.rest = r.rest.take n ++ r.rest.drop n := (List.take_append_drop n r.rest).symm
        _ = start ++ '\n' :: r.rest.drop n := by rw [htake, List.append_assoc]; rfl
    · rw [← hlength, htake, List.length_append, List.length_singleton]

/-- Whether marks may stand in the piece: it encloses them, or is one. -/
def Settled (piece : Piece) (offset : Nat) : Prop :=
  piece.role.encloses = true ∨
    offset = 0 ∧ (piece = ⟨.start, ['-', '-', '-']⟩ ∨ piece = ⟨.finish, ['.', '.', '.']⟩)

/-- Between the two places stands the text of the pieces, and the marks in it, past the first place,
are settled. -/
structure Shows (r : Reader) (pieces : List Piece) (after : Reader) : Prop where
  reads : Reads r (textOf pieces) after
  marks : ∀ n, 0 < n → n < (textOf pieces).length → (r.skip n).atDocumentMark = true →
    Falls Settled pieces n

theorem Reads.drop_rest {r after : Reader} {text : Text} (h : Reads r text after) (n : Nat) :
    r.rest.drop (text.length + n) = after.rest.drop n := by
  rw [h.rest, ← List.drop_drop, List.drop_left]

/-- Whether a mark starts at a place depends on what was read before it by its column only. -/
theorem Reads.atDocumentMark_skip {r after : Reader} {text : Text} (h : Reads r text after)
    (n : Nat) : (r.skip (text.length + n)).atDocumentMark = (after.skip n).atDocumentMark := by
  have htake : r.rest.take (text.length + n) = text ++ after.rest.take n := by
    rw [h.rest, List.take_length_add_append]
  simp only [atDocumentMark, Reader.skip, h.drop_rest, htake, columnAfter_append, h.column]

/-- A place within a line is no mark. -/
theorem Reads.column_ne_zero {r after : Reader} {text : Text} (h : Reads r text after)
    (hline : '\n' ∉ text) (hne : text ≠ []) : after.column ≠ 0 := by
  have hle := le_columnAfter hline r.column
  have hpos := List.length_pos_iff.mpr hne
  rw [h.column]
  omega

namespace Shows

variable {r middle after : Reader} {pieces first second : List Piece} {text : Text} {role : Role}

theorem nil (r : Reader) : Shows r [] r := ⟨.refl r, fun n _ hn => absurd hn (Nat.not_lt_zero n)⟩

theorem dropping (h : Shows r pieces after) (anchor : Option Anchor) :
    Shows r pieces (after.dropping anchor) := ⟨h.reads.dropping anchor, h.marks⟩

/-- Two rows that meet where no mark starts, or where one is settled. -/
theorem append (hfirst : Shows r first middle) (hsecond : Shows middle second after)
    (hmiddle : textOf first ≠ [] → middle.atDocumentMark = true → Falls Settled second 0) :
    Shows r (first ++ second) after := by
  refine ⟨by rw [textOf_append]; exact hfirst.reads.trans hsecond.reads, ?_⟩
  intro n hpos hn hmark
  rw [textOf_append, List.length_append] at hn
  rcases Nat.lt_or_ge n (textOf first).length with hlt | hge
  · exact (hfirst.marks n hpos hlt hmark).append_left second
  · obtain ⟨k, rfl⟩ : ∃ k, n = (textOf first).length + k := ⟨n - (textOf first).length, by omega⟩
    rw [hfirst.reads.atDocumentMark_skip] at hmark
    refine Falls.append_right ?_ first
    rcases Nat.eq_zero_or_pos k with rfl | hk
    · rw [skip_zero] at hmark
      refine hmiddle (fun hnil => ?_) hmark
      simp [hnil] at hpos
    · exact hsecond.marks k hk (by omega) hmark

/-- An empty piece behind a row. -/
theorem append_empty (h : Shows r pieces after) (role : Role) :
    Shows r (pieces ++ [⟨role, []⟩]) after := by
  have htext : textOf (pieces ++ [⟨role, []⟩]) = textOf pieces := by simp
  refine ⟨by rw [htext]; exact h.reads, fun n hpos hn hmark => ?_⟩
  rw [htext] at hn
  exact (h.marks n hpos hn hmark).append_left _

/-- A text of which no line starts with a mark. -/
theorem of_lines (h : Reads r text after)
    (hlines : ∀ start line, r.rest = start ++ '\n' :: line → start.length + 1 < text.length →
      (atDashes line || atDots line) = false) : Shows r [⟨role, text⟩] after := by
  refine ⟨by simpa using h, fun n hpos hn hmark => ?_⟩
  have hlength : text.length ≤ r.rest.length := by
    rw [h.rest, List.length_append]
    omega
  simp only [textOf_cons, textOf_nil, List.append_nil] at hn
  obtain ⟨start, line, hrest, rfl, hline⟩ := exists_line_of_mark hpos (by omega) hmark
  rw [hlines start line hrest hn] at hline
  cases hline

/-- Within a line there are no marks. -/
theorem line (h : Reads r text after) (hline : '\n' ∉ text) : Shows r [⟨role, text⟩] after := by
  refine of_lines h fun start line hrest hlt => absurd ?_ hline
  have htext : text = (start ++ '\n' :: line).take text.length := by
    rw [← hrest, h.rest, List.take_left]
  obtain ⟨k, hk⟩ : ∃ k, text.length - start.length = k + 1 :=
    ⟨text.length - start.length - 1, by omega⟩
  rw [htext, List.take_append, hk, List.take_succ_cons]
  simp

/-- A text that encloses its marks. -/
theorem enclosed (h : Reads r text after) (hrole : role.encloses = true) :
    Shows r [⟨role, text⟩] after := by
  refine ⟨by simpa using h, fun n _ hn _ => ?_⟩
  simp only [textOf_cons, textOf_nil, List.append_nil] at hn
  exact .head hn (.inl hrole) []

theorem preamble (r : Reader) : Shows r [⟨role, r.preamble⟩] r.afterPreamble := by
  refine of_lines (.preamble r) fun start line hrest hlt => ?_
  rw [Reader.preamble, taken, List.length_take] at hlt
  refine @mark_eq_false_of_lt_preambleLength start line (r.column == 0) false ?_
  rw [← hrest]
  omega

theorem trivia (r : Reader) : Shows r [⟨role, r.trivia⟩] r.afterTrivia := by
  refine of_lines (.trivia r) fun start line hrest hlt => ?_
  rw [Reader.trivia, taken, List.length_take] at hlt
  have hle := triviaFrom_le_preambleLength false true r.rest
  refine @mark_eq_false_of_lt_preambleLength start line true false ?_
  rw [triviaLength] at hlt
  rw [← hrest]
  omega

/-- A part of a line in front of a row. -/
theorem after_line (h : Reads r text middle) (hline : '\n' ∉ text) (role : Role)
    (hrest : Shows middle pieces after) : Shows r (⟨role, text⟩ :: pieces) after := by
  refine (line h hline).append hrest fun hne hmark => ?_
  simp only [textOf_cons, textOf_nil, List.append_nil] at hne
  rw [atDocumentMark_of_column (h.column_ne_zero hline hne)] at hmark
  cases hmark

/-- Two pieces of anchors are one. -/
theorem merge {x y : Text} (h : Shows r (⟨.anchor, x⟩ :: ⟨.anchor, y⟩ :: pieces) after) :
    Shows r (⟨.anchor, x ++ y⟩ :: pieces) after := by
  have hnot : ∀ (text : Text) (offset : Nat), ¬ Settled ⟨.anchor, text⟩ offset := by
    intro text offset hsettled
    simp [Settled, Role.encloses] at hsettled
  have htext : textOf (⟨.anchor, x ++ y⟩ :: pieces) =
      textOf (⟨.anchor, x⟩ :: ⟨.anchor, y⟩ :: pieces) := by simp
  refine ⟨by rw [htext]; exact h.reads, fun n hpos hn hmark => ?_⟩
  obtain ⟨m, rfl, hm⟩ := (h.marks n hpos (by rwa [← htext]) hmark).behind (hnot x)
  obtain ⟨k, rfl, hk⟩ := hm.behind (hnot y)
  have hfalls := hk.cons ⟨.anchor, x ++ y⟩
  rwa [List.length_append, Nat.add_assoc] at hfalls

/-- Trivia in front of a row that does not start with a mark on a line of its own. -/
theorem after_trivia (hmark : r.trivia ≠ [] → r.afterTrivia.atDocumentMark = false) (role : Role)
    (hrest : Shows r.afterTrivia pieces after) : Shows r (⟨role, r.trivia⟩ :: pieces) after := by
  refine (trivia r).append hrest fun hne hstarts => ?_
  simp only [textOf_cons, textOf_nil, List.append_nil] at hne
  rw [hmark hne] at hstarts
  cases hstarts

end Shows

/-! ## Where nodes, entries and items start -/

/-- A node that was asked for its column does not start with a mark. -/
theorem atDocumentMark_of_stops {floor : Nat} {place : Place} {r : Reader}
    (hstop : r.stops floor place = false) (hne : r.trivia ≠ []) :
    r.afterTrivia.atDocumentMark = false := by
  by_cases hline : '\n' ∈ r.trivia
  · have hcontinues := continues_of_stops hstop (List.contains_iff_mem.mpr hline)
    simp only [continues, Bool.and_eq_true, Bool.not_eq_true'] at hcontinues
    exact hcontinues.1
  · exact atDocumentMark_of_column ((Reads.trivia r).column_ne_zero hline hne)

theorem atDocumentMark_of_entryFollows {column : Nat} {r : Reader}
    (h : r.entryFollows column = true) : r.afterTrivia.atDocumentMark = false := by
  simp only [entryFollows, Bool.and_eq_true, Bool.not_eq_true'] at h
  exact h.1.2

/-- The dash of an item is followed by a break, the first dash of a mark is not. -/
theorem atDocumentMark_of_atDash {r : Reader} (h : atDash r.rest = true) :
    r.atDocumentMark = false := by
  obtain ⟨tail, hrest⟩ := eq_dash_of_atDash h
  have hmark : (atDashes r.rest || atDots r.rest) = false := by
    rw [hrest] at h ⊢
    refine Bool.eq_false_iff.mpr fun hmark => ?_
    rcases Bool.or_eq_true_iff.mp hmark with hdashes | hdots
    · obtain ⟨more, hmore⟩ := eq_dashes_of_atDashes hdashes
      cases hmore
      simp [atDash, atBreak] at h
    · obtain ⟨more, hmore⟩ := eq_dots_of_atDots hdots
      cases hmore
  rw [atDocumentMark, hmark, Bool.and_false]

/-- The text of a plain scalar or of a plain key, from its start on. -/
def Plain (piece : Piece) (offset : Nat) : Prop :=
  offset = 0 ∧ (piece.role = .value .plain ∨ piece.role = .key .plain)

theorem atDots_eq_false {text tail : Text} {c : Char} (h : text = c :: tail) (hc : c ≠ '.') :
    atDots text = false := by
  refine Bool.eq_false_iff.mpr fun hdots => ?_
  obtain ⟨more, hmore⟩ := eq_dots_of_atDots hdots
  rw [h] at hmore
  cases hmore
  exact hc rfl

/-- Nothing is skipped before a mark. -/
theorem trivia_of_atDots {r : Reader} (h : atDots r.rest = true) :
    r.trivia = [] ∧ r.afterTrivia = r := by
  have hzero : triviaLength r.rest = 0 := by
    have hle := triviaFrom_le_preambleLength false true r.rest
    rw [preambleLength_of_mark (by rw [h, Bool.or_true])] at hle
    exact Nat.le_zero.mp hle
  rw [trivia, afterTrivia, hzero, skip_zero]
  exact ⟨rfl, rfl⟩

/-! ## Keys -/

theorem newline_notMem_blanks (r : Reader) : '\n' ∉ r.blanks := by
  intro hmem
  have hblank := isBlank_of_mem_blanks _ hmem
  simp [isBlank] at hblank

theorem keyAnchor_reads {r after : Reader} {anchor : Option Anchor}
    (h : r.keyAnchor = .ok (anchor, after)) :
    Reads r (Anchor.printOption anchor) after ∧ '\n' ∉ Anchor.printOption anchor := by
  unfold keyAnchor at h
  split at h
  next hhead =>
    obtain ⟨⟨name, afterName⟩, hname, h⟩ := bind_eq_ok.mp h
    cases h
    obtain ⟨tail, hrest⟩ := List.head?_eq_some_iff.mp (eq_of_beq hhead)
    refine ⟨(anchorName_reads hrest hname).trans (.blanks afterName), ?_⟩
    simp only [Anchor.printOption, Anchor.print, List.cons_append, List.mem_cons, List.mem_append,
      not_or]
    exact ⟨by decide, newline_notMem_anchorName hname, newline_notMem_blanks afterName⟩
  next =>
    cases h
    exact ⟨.refl r, by simp [Anchor.printOption]⟩

/-- What is to be known about a key: it has no lead, its marks are settled, and it ends within a
line. -/
structure ShowsKey (r : Reader) (key : Scalar) (after : Reader) : Prop where
  lead : key.lead = []
  shows : Shows r [⟨.key key.style, key.printBody⟩] after
  column : after.column ≠ 0
  dots : atDots r.rest = true → key.style = .plain ∧ key.printBody ≠ []

theorem quotedKey_shows {quote : Char} {tail : Text} {r after : Reader} {key : Scalar}
    (hquote : quote = '"' ∨ quote = '\'') (hopen : r.rest = quote :: tail)
    (h : r.quoted quote [] = .ok (key, after)) : ShowsKey r key after := by
  have hreads := quoted_reads hquote hopen h
  obtain ⟨text, rfl, -, -⟩ := quoted_eq_ok h
  have hline : quote ≠ '\n' := by rcases hquote with rfl | rfl <;> decide
  have hdot : quote ≠ '.' := by rcases hquote with rfl | rfl <;> decide
  refine ⟨rfl, .enclosed hreads (by rcases hquote with rfl | rfl <;> rfl), ?_, ?_⟩
  · rw [hreads.column, printBody_quoted hquote]
    exact columnAfter_concat_ne_zero hline r.column (quote :: text)
  · intro hdots
    rw [atDots_eq_false hopen hdot] at hdots
    cases hdots

theorem plainKey_shows {n : Nat} {r after : Reader} {key : Scalar} (hn : n ≤ r.rest.length)
    (hline : '\n' ∉ r.taken n) (h : r.plainKey n = .ok (key, after)) : ShowsKey r key after := by
  unfold plainKey at h
  split at h
  next => simp [fail] at h
  next hzero =>
    cases h
    have hne : r.taken n ≠ [] := by
      intro hnil
      have hlength := congrArg List.length hnil
      rw [taken, List.length_take, Nat.min_eq_left hn, List.length_nil] at hlength
      simp [hlength] at hzero
    have hreads := Reads.skip r n
    exact ⟨rfl, .line hreads hline, hreads.column_ne_zero hline hne, fun _ => ⟨rfl, hne⟩⟩

theorem bareBlockKey_shows {r after : Reader} {key : Scalar}
    (h : r.bareBlockKey = .ok (key, after)) : ShowsKey r key after := by
  unfold bareBlockKey at h
  split at h
  next tail hopen => exact quotedKey_shows (.inl rfl) hopen h
  next tail hopen => exact quotedKey_shows (.inr rfl) hopen h
  next => exact plainKey_shows (plainKeyLength_le r.rest) (notMem_run _ (by simp) _) h

/-- A key with its anchor. -/
theorem blockKey_shows {r after : Reader} {key : Scalar} (h : r.blockKey = .ok (key, after)) :
    Shows r (key.pieces .key) after ∧ after.column ≠ 0 ∧
      (atDots r.rest = true → Falls Plain (key.pieces .key) 0) := by
  unfold blockKey keyWith at h
  obtain ⟨⟨anchor, middle⟩, hanchor, h⟩ := bind_eq_ok.mp h
  obtain ⟨⟨bare, last⟩, hbare, h⟩ := bind_eq_ok.mp h
  cases h
  have hkey := bareBlockKey_shows hbare
  obtain ⟨hreads, hline⟩ := keyAnchor_reads hanchor
  have hlead : Reads r bare.lead r := by
    rw [hkey.lead]
    exact .refl r
  refine ⟨?_, hkey.column, fun hdots => ?_⟩
  · exact .after_line hlead (by simp [hkey.lead]) .trivia (.after_line hreads hline .anchor hkey.shows)
  · -- an anchor would start with an ampersand
    have hnone : anchor = none ∧ middle = r := by
      unfold keyAnchor at hanchor
      split at hanchor
      next hhead =>
        obtain ⟨tail, hrest⟩ := List.head?_eq_some_iff.mp (eq_of_beq hhead)
        rw [atDots_eq_false hrest (by decide)] at hdots
        cases hdots
      next =>
        cases hanchor
        exact ⟨rfl, rfl⟩
    obtain ⟨rfl, rfl⟩ := hnone
    obtain ⟨hstyle, hne⟩ := hkey.dots hdots
    refine ⟨⟨.key bare.style, bare.printBody⟩, 0, ?_, rfl, .inr (by rw [hstyle])⟩
    have hpos := List.length_pos_iff.mpr hne
    simp only [Scalar.pieces, pieceAt, hkey.lead, Anchor.printOption, List.length_nil,
      Nat.lt_irrefl, if_false, Nat.sub_zero]
    exact if_pos hpos

/-! ## Scalars -/

/-- A line that a plain scalar goes on with is no mark. -/
theorem plain_shows (r : Reader) (floor : Nat) (role : Role) :
    Shows r [⟨role, r.taken (plainBlockLength floor r.rest)⟩]
      (r.skip (plainBlockLength floor r.rest)) := by
  refine .of_lines (.skip r _) fun start line hrest hlt => ?_
  refine Bool.eq_false_iff.mpr fun hmark => ?_
  rw [taken, List.length_take, hrest] at hlt
  obtain ⟨n, goesOn, hline, -⟩ := plainLine_of_lt (isBlankLine_of_mark hmark)
    (show start.length < plainBlockLength floor (start ++ '\n' :: line) by omega)
  rw [(plainLine_eq_some hline).2.2] at hmark
  cases hmark

/-- A line of a literal or folded scalar is no mark. -/
theorem literal_shows {r : Reader} {c : Char} {tail : Text} (hopen : r.rest = c :: tail)
    (hc : c ≠ '\n') (floor : Nat) (role : Role) :
    Shows r [⟨role, c :: (r.skip 1).taken (literalLength floor (r.skip 1).rest)⟩]
      ((r.skip 1).skip (literalLength floor (r.skip 1).rest)) := by
  have htail : (r.skip 1).rest = tail := by
    simp [skip, hopen]
  refine .of_lines ((Reads.head hopen).trans (.skip _ _)) fun start line hrest hlt => ?_
  refine Bool.eq_false_iff.mpr fun hmark => ?_
  rw [hopen] at hrest
  -- the first line starts with the indicator
  cases start with
  | nil => exact hc (List.cons.inj hrest).1
  | cons _ start =>
      obtain ⟨rfl, rfl⟩ := List.cons.inj (hrest.trans List.cons_append)
      rw [taken, htail, List.length_cons, List.length_cons, List.length_take] at hlt
      obtain ⟨n, goesOn, hline⟩ := literalLine_of_lt (isBlankLine_of_mark hmark)
        (show start.length < literalLength floor (start ++ '\n' :: line) by omega)
      rw [(literalLine_eq_some hline).2.2] at hmark
      cases hmark

/-! ## Nodes -/

/-- A tree for the text between two places, from after the lead of its node on.  It is the node that
was read once its anchors are unstacked, and a mark that it starts with is plain text. -/
structure Displays (r : Reader) (full node : Block) (after : Reader) : Prop where
  unstacked : full.unstacked = node
  shows : Shows r full.contentPieces after
  dots : atDots r.rest = true → Falls Plain full.contentPieces 0

namespace Displays

variable {r after : Reader}

/-- A scalar without an anchor. -/
theorem scalar {s : Scalar} (hanchor : s.anchor = none)
    (hshows : Shows r [⟨.value s.style, s.printBody⟩] after)
    (hdots : atDots r.rest = true → s.style = .plain ∧ s.printBody ≠ []) :
    Displays r (.scalar s) (.scalar s) after := by
  have hpieces : (Block.scalar s).contentPieces =
      [⟨.anchor, []⟩, ⟨.value s.style, s.printBody⟩] := by
    simp [Block.contentPieces, Block.anchor, hanchor, Anchor.printOption, Block.bodyPieces]
  refine ⟨?_, ?_, fun hstart => ?_⟩
  · cases s
    cases hanchor
    simp [Block.unstacked]
  · rw [hpieces]
    exact .after_line (.refl r) (by simp) .anchor hshows
  · obtain ⟨hstyle, hne⟩ := hdots hstart
    have hfalls : Falls Plain [⟨.value s.style, s.printBody⟩] 0 :=
      .head (List.length_pos_iff.mpr hne) ⟨rfl, .inl (by rw [hstyle])⟩ []
    rw [hpieces]
    exact hfalls.cons ⟨.anchor, []⟩

/-- A node that does not start with a dot. -/
theorem of_head {full node : Block} {c : Char} {tail : Text} (hopen : r.rest = c :: tail)
    (hc : c ≠ '.') (hunstacked : full.unstacked = node) (hshows : Shows r full.contentPieces after) :
    Displays r full node after := by
  refine ⟨hunstacked, hshows, fun hdots => ?_⟩
  rw [atDots_eq_false hopen hc] at hdots
  cases hdots

end Displays

/-- A flow mapping is one piece, stacked anchors in it included. -/
theorem contentPieces_flowMapping {full : Block} {lead closing : Text}
    {entries : List (Entry Block)}
    (h : full.unstacked = .mapping { lead, layout := .flow closing, entries }) :
    full.contentPieces = [⟨.anchor, []⟩, ⟨.flow, full.content⟩] := by
  cases full with
  | mapping m =>
      cases m
      simp only [Block.unstacked, Block.mapping.injEq, Mapping.mk.injEq,
        Option.map_eq_none_iff] at h
      obtain ⟨-, -, rfl, rfl, -⟩ := h
      simp [Block.contentPieces, Block.bodyPieces, Block.content, Block.anchor, Block.body,
        Anchor.printOption, Layout.printOpening, Layout.printClosing]
  | _ => simp [Block.unstacked] at h

/-- A flow sequence is one piece, stacked anchors in it included. -/
theorem contentPieces_flowSequence {full : Block} {lead closing : Text}
    {items : List (Item Block)}
    (h : full.unstacked = .sequence { lead, layout := .flow closing, items }) :
    full.contentPieces = [⟨.anchor, []⟩, ⟨.flow, full.content⟩] := by
  cases full with
  | sequence q =>
      cases q
      simp only [Block.unstacked, Block.sequence.injEq, Sequence.mk.injEq,
        Option.map_eq_none_iff] at h
      obtain ⟨-, -, rfl, rfl, -⟩ := h
      simp [Block.contentPieces, Block.bodyPieces, Block.content, Block.anchor, Block.body,
        Anchor.printOption, Layout.printOpening, Layout.printClosing]
  | _ => simp [Block.unstacked] at h

/-- A flow collection encloses its marks. -/
theorem flow_displays {lead : Text} {r after : Reader} {node : Block}
    (hopen : opening r.rest = .flow) (hstart : triviaLength r.rest = 0)
    (h : FlowNode lead r node after) : ∃ full, Displays r full node after := by
  obtain ⟨full, hfull⟩ := h.restores .root hstart (.inr hopen)
  have henclosed : full.contentPieces = [⟨.anchor, []⟩, ⟨.flow, full.content⟩] →
      Shows r full.contentPieces after := by
    intro hpieces
    rw [hpieces]
    exact .after_line (.refl r) (by simp) .anchor (.enclosed hfull.reads rfl)
  have hunstacked := hfull.unstacked
  refine ⟨full, ?_⟩
  rcases describes_of_opening hopen with ⟨tail, htail | htail⟩
  · obtain ⟨items, closing, rfl, -⟩ := h.bracket_inv htail
    exact .of_head htail (by decide) hunstacked (henclosed (contentPieces_flowSequence hunstacked))
  · obtain ⟨entries, closing, rfl, -⟩ := h.brace_inv htail
    exact .of_head htail (by decide) hunstacked (henclosed (contentPieces_flowMapping hunstacked))

/-- An anchor in front of a node leaves the rest of its pieces alone. -/
theorem contentPieces_withAnchor {lead : Text} {anchor : Anchor} {block node : Block}
    (h : block.withAnchor? lead anchor = some node) :
    node.contentPieces = ⟨.anchor, anchor.print⟩ :: block.bodyPieces := by
  cases block with
  | aliasNode a => cases h
  | scalar s =>
      cases h
      rfl
  | mapping m =>
      cases h
      obtain ⟨_, _, _, _ | _, _⟩ := m <;> rfl
  | sequence q =>
      cases h
      obtain ⟨_, _, _, _ | _, _, _⟩ := q <;> rfl

/-- An anchor takes those behind it into its piece. -/
theorem Displays.anchored {r after last : Reader} {lead name tail : Text} {full block node : Block}
    (hopen : r.rest = '&' :: tail) (hname : r.anchorName = .ok (name, after))
    (hne : after.afterTrivia.rest ≠ [])
    (hmark : after.trivia ≠ [] → after.afterTrivia.atDocumentMark = false)
    (h : Displays after.afterTrivia full block last)
    (hanchor : block.withAnchor? lead ⟨name, after.trivia⟩ = some node) :
    ∃ outer, Displays r outer node (last.dropping block.anchor) := by
  rw [← h.unstacked] at hanchor
  obtain ⟨outer, houter, hnode⟩ := Block.exists_stacked (isTrivia_trivia hne) hanchor
  have hline : '\n' ∉ '&' :: name := by simpa using newline_notMem_anchorName hname
  have htrail : Shows after (⟨.anchor, after.trivia ++ Anchor.printOption full.anchor⟩ ::
      full.bodyPieces) last := (Shows.after_trivia hmark .anchor h.shows).merge
  have hstack := (Shows.after_line (anchorName_reads hopen hname) hline .anchor htrail).merge
  refine ⟨outer, .of_head hopen (by decide) hnode ?_⟩
  rw [contentPieces_withAnchor houter]
  exact hstack.dropping block.anchor

/-- An entry of a block mapping, from its key on, and what follows it. -/
theorem entry_shows {floor : Nat} {place : Place} {r afterKey after last : Reader} {key : Scalar}
    {colonTail : Text} {full value : Block} {pieces : List Piece}
    (hkey : r.blockKey = .ok (key, afterKey))
    (hcolon : afterKey.afterBlanks.rest = ':' :: colonTail)
    (hvalue : BlockNode floor place (afterKey.afterBlanks.skip 1) value after)
    (hshows : Shows (afterKey.afterBlanks.skip 1) full.pieces after)
    (hmore : Shows after pieces last) :
    Shows r (key.pieces .key ++ ([⟨.trivia, afterKey.blanks⟩, ⟨.indicator, [':']⟩] ++
      (full.pieces ++ ⟨.indicator, printComma none⟩ :: pieces))) last := by
  obtain ⟨hkeyShows, hcolumn, -⟩ := blockKey_shows hkey
  have hafterColon := (Reads.head hcolon).column_ne_zero (by decide) (by simp)
  have hend := hvalue.atDocumentMark_eq_false hafterColon
  have hcomma : Shows after (⟨.indicator, printComma none⟩ :: pieces) last :=
    .after_line (.refl after) (by simp) .indicator hmore
  have hrest := hshows.append hcomma fun _ hmark => by rw [hend] at hmark; cases hmark
  have hcolonShows := Shows.after_line (.head hcolon) (by decide) .indicator hrest
  have hblanks := Shows.after_line (.blanks afterKey) (newline_notMem_blanks afterKey) .trivia
    hcolonShows
  refine hkeyShows.append hblanks fun _ hmark => ?_
  rw [atDocumentMark_of_column hcolumn] at hmark
  cases hmark

/-- An item of a block sequence, from its dash on, and what follows it. -/
theorem item_shows {floor : Nat} {place : Place} {r after last : Reader} {full value : Block}
    {pieces : List Piece} (hstart : atDash r.rest = true)
    (hvalue : BlockNode floor place (r.skip 1) value after)
    (hshows : Shows (r.skip 1) full.pieces after) (hmore : Shows after pieces last) :
    Shows r (⟨.indicator, printDash true⟩ ::
      (full.pieces ++ ⟨.indicator, printComma none⟩ :: pieces)) last := by
  obtain ⟨tail, hrest⟩ := eq_dash_of_atDash hstart
  have hafterDash := (Reads.head hrest).column_ne_zero (by decide) (by simp)
  have hend := hvalue.atDocumentMark_eq_false hafterDash
  have hcomma : Shows after (⟨.indicator, printComma none⟩ :: pieces) last :=
    .after_line (.refl after) (by simp) .indicator hmore
  refine .after_line (.head hrest) (by decide) .indicator ?_
  exact hshows.append hcomma fun _ hmark => by rw [hend] at hmark; cases hmark

mutual

/-- A node in block context.  A mark in it, past the place before its lead, is settled, and a mark
that it starts with is plain text. -/
theorem BlockNode.shows {floor : Nat} {place : Place} {r after : Reader} {node : Block}
    (h : BlockNode floor place r node after) :
    ∃ full : Block, full.unstacked = node ∧ Shows r full.pieces after ∧
      (atDots r.rest = true → Falls Plain full.pieces 0) := by
  match h with
  | .missing hstop =>
    refine ⟨.empty, by simp [Block.empty, Block.unstacked], ?_, fun hdots => ?_⟩
    · exact .after_line (.refl r) List.not_mem_nil .trivia <|
        .after_line (.refl r) List.not_mem_nil .anchor <|
        .after_line (.refl r) List.not_mem_nil (.value .plain) (.nil r)
    · -- what starts with a dot is not skipped
      obtain ⟨htrivia, hsame⟩ := trivia_of_atDots hdots
      obtain ⟨tail, hrest⟩ := eq_dots_of_atDots hdots
      simp [stops, htrivia, hsame, hrest] at hstop
  | .content hstop hcontent =>
    obtain ⟨full, hfull⟩ := hcontent.displays (triviaLength_afterTrivia r)
    have hlead : full.lead = r.trivia := by
      rw [← Block.lead_unstacked, hfull.unstacked, hcontent.keeps.1]
    refine ⟨full, hfull.unstacked, ?_, fun hdots => ?_⟩
    · rw [Block.pieces, hlead]
      exact .after_trivia (atDocumentMark_of_stops hstop) .trivia hfull.shows
    · obtain ⟨htrivia, hsame⟩ := trivia_of_atDots hdots
      have hfalls := (hfull.dots (by rwa [hsame])).cons ⟨.trivia, r.trivia⟩
      rw [Block.pieces, hlead]
      rwa [htrivia] at hfalls ⊢

theorem BlockContent.displays {floor : Nat} {place : Place} {sameLine : Bool} {lead : Text}
    {r after : Reader} {node : Block} (h : BlockContent floor place sameLine lead r node after)
    (hstart : triviaLength r.rest = 0) : ∃ full, Displays r full node after := by
  match h with
  | @BlockContent.anchorAlone _ _ _ _ name _ _ hopen hname hend =>
    obtain ⟨⟨tail, hrest⟩, -⟩ := describes_of_opening hopen
    refine ⟨.scalar { lead, anchor := some ⟨name, []⟩, text := [] },
      .of_head hrest (by decide) (by simp [Block.unstacked, Anchor.unstacked]) ?_⟩
    have hline : '\n' ∉ '&' :: name ++ [] := by simpa using newline_notMem_anchorName hname
    exact .after_line ((anchorName_reads hrest hname).trans (.refl after)) hline .anchor <|
      .after_line (.refl after) List.not_mem_nil (.value .plain) (.nil after)
  | .anchored hopen hname hend hcontent hanchor =>
    obtain ⟨⟨tail, hrest⟩, -⟩ := describes_of_opening hopen
    have hstop := (Bool.or_eq_false_iff.mp hend).1
    obtain ⟨full, hfull⟩ := hcontent.displays (triviaLength_afterTrivia _)
    exact hfull.anchored hrest hname (rest_ne_nil_of_stops hstop) (atDocumentMark_of_stops hstop)
      hanchor
  | .aliasNode hopen =>
    obtain ⟨tail, hrest⟩ := describes_of_opening hopen
    refine ⟨(r.aliasNode lead).1, .of_head hrest (by decide) (by simp [aliasNode, Block.unstacked])
      ?_⟩
    have hname : '\n' ∉ (r.skip 1).taken (nameLength (r.skip 1).rest) :=
      notMem_run _ (by simp) _
    exact .after_line (.refl r) List.not_mem_nil .anchor <|
      .line ((Reads.head hrest).trans (.skip _ _)) (by simpa using hname)
  | .flow hopen hnode => exact flow_displays hopen hstart hnode
  | .literal hopen | .folded hopen =>
    obtain ⟨tail, hrest⟩ := describes_of_opening hopen
    refine ⟨_, .scalar rfl (literal_shows hrest (by decide) floor _) fun hdots => ?_⟩
    rw [atDots_eq_false hrest (by decide)] at hdots
    cases hdots
  | .quoted hopen hscalar =>
    obtain ⟨hquote, ⟨tail, hrest⟩, -⟩ := describes_of_opening hopen
    have hreads := quoted_reads hquote hrest hscalar
    obtain ⟨text, rfl, -, -⟩ := quoted_eq_ok hscalar
    refine ⟨_, .scalar rfl (.enclosed hreads (by rcases hquote with rfl | rfl <;> rfl))
      fun hdots => ?_⟩
    rw [atDots_eq_false hrest (by rcases hquote with rfl | rfl <;> decide)] at hdots
    cases hdots
  | .sequence hopen hline hitems =>
    obtain ⟨fulls, tail, hfulls, hpieces, hshows⟩ := hitems.shows
    obtain ⟨dashTail, hrest⟩ := eq_dash_of_atDash (describes_of_opening hopen)
    refine ⟨.sequence { lead, indentless := place == .mappingValue && r.column + 1 == floor,
                        items := fulls },
      .of_head hrest (by decide) (by simp [Block.unstacked, hfulls]) ?_⟩
    rw [Block.contentPieces, Block.bodyPieces, hpieces]
    exact .after_line (.refl r) List.not_mem_nil .anchor <|
      .after_line (.refl r) List.not_mem_nil .trivia hshows
  | .mapping hopen hline hentries =>
    obtain ⟨fulls, tail, hfulls, hpieces, hshows, hdots⟩ := hentries.shows
    refine ⟨.mapping { lead, entries := fulls }, by simp [Block.unstacked, hfulls], ?_,
      fun hmark => ?_⟩
    · rw [Block.contentPieces, Block.bodyPieces, hpieces]
      exact .after_line (.refl r) List.not_mem_nil .anchor <|
        .after_line (.refl r) List.not_mem_nil .trivia hshows
    · rw [Block.contentPieces, Block.bodyPieces, hpieces]
      exact ((hdots hmark).cons ⟨.trivia, []⟩).cons ⟨.anchor, []⟩
  | .plain hopen =>
    refine ⟨_, .scalar rfl (plain_shows r floor _) fun hdots => ⟨rfl, fun hnil => ?_⟩⟩
    obtain ⟨tail, hrest⟩ := eq_dots_of_atDots hdots
    have hpos := plainBlockLength_pos floor (by simp [hrest]) hstart
    have hle := plainBlockLength_le floor r.rest
    have hlength : (r.taken (plainBlockLength floor r.rest)).length = 0 := congrArg List.length hnil
    rw [taken, List.length_take] at hlength
    omega

/-- The entries of a block mapping, from the first key on. -/
theorem BlockEntries.shows {lead : Text} {r after : Reader} {entries : List (Entry Block)}
    (h : BlockEntries lead r entries after) :
    ∃ fulls tail, unstackedEntries fulls = entries ∧
      entriesPieces fulls = ⟨.trivia, lead⟩ :: tail ∧ Shows r tail after ∧
      (atDots r.rest = true → Falls Plain tail 0) := by
  match h with
  | @BlockEntries.last _ _ _ afterKey _ key _ hstart hkey hcolon hvalue hnext =>
    obtain ⟨full, hfull, hshows, -⟩ := hvalue.shows
    refine ⟨[{ lead, key, beforeColon := afterKey.blanks, value := full }], _, ?_, ?_,
      entry_shows hkey hcolon hvalue hshows (.nil after), fun hdots => ?_⟩
    · simp [unstackedEntries, hfull]
    · simp [entriesPieces, Block.pieces, Block.contentPieces]
    · exact ((blockKey_shows hkey).2.2 hdots).append_left _
  | @BlockEntries.more _ _ _ afterKey _ _ key _ _ hstart hkey hcolon hvalue hnext hentries =>
    obtain ⟨full, hfull, hshows, -⟩ := hvalue.shows
    obtain ⟨fulls, tail, hfulls, hpieces, htail, -⟩ := hentries.shows
    have hmore := htail.after_trivia (fun _ => atDocumentMark_of_entryFollows hnext) .trivia
    rw [← hpieces] at hmore
    refine ⟨{ lead, key, beforeColon := afterKey.blanks, value := full } :: fulls, _, ?_, ?_,
      entry_shows hkey hcolon hvalue hshows hmore, fun hdots => ?_⟩
    · simp [unstackedEntries, hfull, hfulls]
    · simp [entriesPieces, Block.pieces, Block.contentPieces]
    · exact ((blockKey_shows hkey).2.2 hdots).append_left _

/-- The items of a block sequence, from the first dash on. -/
theorem BlockItems.shows {lead : Text} {r after : Reader} {items : List (Item Block)}
    (h : BlockItems lead r items after) :
    ∃ fulls tail, unstackedItems fulls = items ∧
      itemsPieces fulls = ⟨.trivia, lead⟩ :: tail ∧ Shows r tail after := by
  match h with
  | .last hstart hvalue hnext =>
    obtain ⟨full, hfull, hshows, -⟩ := hvalue.shows
    refine ⟨[{ lead, dash := true, value := full }], _, ?_, ?_,
      item_shows hstart hvalue hshows (.nil after)⟩
    · simp [unstackedItems, hfull]
    · simp [itemsPieces, Block.pieces, Block.contentPieces]
  | .more hstart hvalue hnext hitems =>
    obtain ⟨full, hfull, hshows, -⟩ := hvalue.shows
    obtain ⟨fulls, tail, hfulls, hpieces, htail⟩ := hitems.shows
    have hmark := atDocumentMark_of_atDash (itemFollows_inv hnext).2.2.2
    have hmore := htail.after_trivia (fun _ => hmark) .trivia
    rw [← hpieces] at hmore
    refine ⟨{ lead, dash := true, value := full } :: fulls, _, ?_, ?_,
      item_shows hstart hvalue hshows hmore⟩
    · simp [unstackedItems, hfull, hfulls]
    · simp [itemsPieces, Block.pieces, Block.contentPieces]

end

end Reader

end LosslessYaml
