import LosslessYaml.Proofs.Indentation.Nesting

/-!
# The margins of plain scalars

A plain scalar takes no white space at its start and no comment.  At its end it takes white space in
one case: the scalar is asked to go on with a line on which a tab or a carriage return separates the
indentation from a comment.  Such a line is not told from one with text on it, since a comment is
looked for right after the spaces only.  Nothing but its spaces is then left for the scalar.

Main statement: `Stream.trimmed_of_parse`.
-/

namespace LosslessYaml

open Text Lookahead

/-! ## Runs -/

namespace Text

/-- A run ends at a stop. -/
theorem runLength_le_of_stop {stop : Char → Text → Bool} {loose : Char → Bool} {c : Char}
    {rest : Text} (hstop : stop c rest = true) (front : Text) :
    runLength stop loose (front ++ c :: rest) ≤ front.length := by
  induction front with
  | nil => simp [runLength, hstop]
  | cons d front ih =>
      simp only [List.cons_append, runLength, List.length_cons]
      split
      next => omega
      next =>
        split
        next => split <;> omega
        next n hn => omega

/-- The last character of a run is not a loose one. -/
theorem getLast?_run {stop : Char → Text → Bool} {loose : Char → Bool} {text : Text} {c : Char}
    (hc : (text.take (runLength stop loose text)).getLast? = some c) : loose c = false := by
  induction text with
  | nil => simp at hc
  | cons d text ih =>
      simp only [runLength] at hc
      split at hc
      next => simp at hc
      next =>
        split at hc
        next =>
          split at hc
          next => simp at hc
          next hd =>
            obtain rfl : d = c := by simpa using hc
            simpa using hd
        next n hn =>
          cases text with
          | nil => simp [runLength] at hn
          | cons e rest =>
              rw [hn, List.take_succ_cons] at ih
              rw [List.take_succ_cons, List.take_succ_cons, List.getLast?_cons_cons] at hc
              exact ih hc

end Text

/-! ## Comments -/

namespace Lookahead

/-- A line with a comment left on it does not end with blanks. -/
theorem lineEnds_comment {front : Text} (hfront : '\n' ∉ front) (words : Text) :
    lineEnds (front ++ '#' :: words) = false := by
  induction front with
  | nil => simp [lineEnds, isTrailing]
  | cons c front ih =>
      rw [List.mem_cons, not_or] at hfront
      cases hc : isTrailing c with
      | true => simpa [lineEnds, hc] using ih hfront.2
      | false => simpa [lineEnds, hc] using Ne.symm hfront.1

theorem ne_newline_of_isBlank {c : Char} (hc : isBlank c = true) : '\n' ≠ c := by
  rintro rfl
  exact absurd hc (by decide)

section Comment

variable {blank : Char} {front : Text} (words : Text)

/-- The text of a line ends before the blank that sets a comment off. -/
theorem plainLineLength_comment (hblank : isBlank blank = true) :
    plainLineLength (front ++ blank :: '#' :: words) ≤ front.length :=
  runLength_le_of_stop (by simp [atComment, hblank]) front

theorem lineEnds_drop_comment (hblank : isBlank blank = true) (hfront : '\n' ∉ front) {n : Nat}
    (hn : n ≤ front.length) :
    lineEnds ((front ++ blank :: '#' :: words).drop n) = false := by
  have hbreak : '\n' ∉ front.drop n ++ [blank] := by
    simp only [List.mem_append, List.mem_singleton, not_or]
    exact ⟨fun hmem => hfront (List.mem_of_mem_drop hmem), ne_newline_of_isBlank hblank⟩
  have hends := lineEnds_comment hbreak words
  rwa [List.append_assoc, List.singleton_append, ← List.drop_append_of_le_length hn] at hends

/-- A plain scalar does not go on after a line with a comment on it, and ends before the comment. -/
theorem plainLine_comment_le {floor n : Nat} {goesOn : Bool} (hblank : isBlank blank = true)
    (hfront : '\n' ∉ front)
    (h : plainLine floor (front ++ blank :: '#' :: words) = some (n, goesOn)) :
    n ≤ front.length ∧ goesOn = false := by
  have hindent : indentation (front ++ blank :: '#' :: words) ≤ front.length + 1 := by
    have hle := @indentation_append_le ('#' :: words) (by simp) (front ++ [blank])
    simpa using hle
  obtain ⟨-, hcomment, rfl, rfl⟩ := plainLine_inv h
  rcases Nat.lt_or_eq_of_le hindent with hlt | heq
  · have hle := Nat.le_of_lt_succ hlt
    have hrun := @plainLineLength_comment _
      (front.drop (indentation (front ++ blank :: '#' :: words))) words hblank
    rw [List.drop_append_of_le_length hle]
    refine ⟨?_, lineEnds_drop_comment words hblank ?_ hrun⟩
    · rw [List.length_drop] at hrun
      omega
    · exact fun hmem => hfront (List.mem_of_mem_drop hmem)
  · -- The comment is right after the indentation, and such a line is not taken.
    rw [heq] at hcomment
    exact absurd (by simp) hcomment

end Comment

/-- No comment is in a plain scalar, in block context. -/
theorem isBlank_of_plainBlockLength {floor : Nat} {text after front back : Text} {c : Char}
    (h : plainBlockLength floor (text ++ after) = text.length)
    (htext : text = front ++ c :: '#' :: back) : isBlank c = false := by
  refine Bool.eq_false_iff.mpr fun hc => ?_
  have hlength : text.length = front.length + (back.length + 2) := by simp [htext]
  by_cases hline : '\n' ∈ front
  · obtain ⟨start, line, rfl, hlast⟩ := exists_last_line hline
    have hsplit : text ++ after = start ++ '\n' :: (line ++ c :: '#' :: (back ++ after)) := by
      simp [htext]
    rw [hsplit] at h
    have hvisible : isBlankLine (line ++ c :: '#' :: (back ++ after)) = false := by
      have hword := isBlankLine_cons (by decide : isWhitespace '#' = false) (back ++ after)
      have hbreak : '\n' ∉ line ++ [c] := by simp [hlast, ne_newline_of_isBlank hc]
      simpa using isBlankLine_append hbreak hword
    simp only [List.length_append, List.length_cons] at hlength
    obtain ⟨n, goesOn, hfound, hend⟩ :=
      @plainLine_of_lt floor start _ hvisible (by omega)
    obtain ⟨hle, hstops⟩ := plainLine_comment_le _ hc hlast hfound
    have hlast := hend hstops
    omega
  · have hsplit : text ++ after = front ++ c :: '#' :: (back ++ after) := by simp [htext]
    have hfirst := @plainLineLength_comment _ front (back ++ after) hc
    have hends := lineEnds_drop_comment (back ++ after) hc hline hfirst
    rw [hsplit, plainBlockLength] at h
    simp only [hends, Bool.false_eq_true, if_false] at h
    omega

/-- No comment is in a plain scalar, in flow context. -/
theorem isBlank_of_plainFlowLength {text after front back : Text} {c : Char}
    (h : plainFlowLength (text ++ after) = text.length)
    (htext : text = front ++ c :: '#' :: back) : isBlank c = false := by
  refine Bool.eq_false_iff.mpr fun hc => ?_
  have hsplit : text ++ after = front ++ c :: '#' :: (back ++ after) := by simp [htext]
  have hle : plainFlowLength (front ++ c :: '#' :: (back ++ after)) ≤ front.length :=
    runLength_le_of_stop (by simp [atComment, hc]) front
  have hlength : text.length = front.length + (back.length + 2) := by simp [htext]
  rw [hsplit] at h
  omega

/-! ## Ends -/

/-- A line is its indentation and what does not start with a space. -/
theorem spaces_of_indentation (line : Text) :
    (line.take (indentation line)).length = indentation line ∧
      (∀ c ∈ line.take (indentation line), c = ' ') ∧
      (line.drop (indentation line)).head? ≠ some ' ' := by
  have hlength : (line.take (indentation line)).length = indentation line := by
    rw [List.length_take]
    exact Nat.min_eq_left (List.takeWhile_sublist _).length_le
  have hparts : ((line.take (indentation line) ++ line.drop (indentation line)).takeWhile
      (· == ' ')).length = (line.take (indentation line)).length := by
    rw [List.take_append_drop, hlength]
    rfl
  obtain ⟨hspaces, hbody⟩ := takeWhile_append_length hparts
  refine ⟨hlength, fun c hc => by simpa using hspaces c hc, fun hspace => ?_⟩
  exact absurd (hbody ' ' hspace) (by decide)

/-- Spaces in front do not make a line visible. -/
theorem isBlankLine_of_spaces {spaces rest : Text} (hspaces : ∀ c ∈ spaces, c = ' ')
    (h : isBlankLine (spaces ++ rest) = false) : isBlankLine rest = false := by
  have hkept : ∀ c ∈ spaces, (c != '\n') = true := by
    intro c hc
    rw [hspaces c hc]
    rfl
  have hwhite : spaces.all isWhitespace = true := by
    rw [List.all_eq_true]
    intro c hc
    rw [hspaces c hc]
    rfl
  rw [isBlankLine, List.takeWhile_append_of_pos hkept, List.all_append, hwhite] at h
  simpa [isBlankLine] using h

/-- White space of the format: a space, a tab, a carriage return or a line break. -/
def isMargin (c : Char) : Bool := isTrailing c || c == '\n'

/-- A run that stops at line breaks has no white space at its end. -/
theorem isMargin_run {stop : Char → Text → Bool} (hstop : ∀ rest, stop '\n' rest = true)
    {text : Text} {c : Char}
    (hc : (text.take (runLength stop isTrailing text)).getLast? = some c) :
    isMargin c = false := by
  have hloose := getLast?_run hc
  have hline : c ≠ '\n' := by
    rintro rfl
    exact notMem_run isTrailing hstop text (List.mem_of_getLast? hc)
  simp [isMargin, hloose, hline]

/-- A line without text, but with something on it, has a comment that is set off by a blank. -/
theorem exists_comment {text : Text} (hrun : plainLineLength text = 0)
    (hvisible : isBlankLine text = false) :
    ∃ gap blank words, text = gap ++ blank :: '#' :: words ∧
      (∀ c ∈ gap, isTrailing c = true) ∧ isBlank blank = true := by
  induction text with
  | nil => simp [isBlankLine] at hvisible
  | cons c text ih =>
      by_cases hline : c = '\n'
      · simp [isBlankLine, hline] at hvisible
      by_cases hcomment : atComment c text = true
      · simp only [atComment, Bool.and_eq_true, beq_iff_eq] at hcomment
        obtain ⟨words, rfl⟩ := List.head?_eq_some_iff.mp hcomment.2
        exact ⟨[], c, words, rfl, by simp, hcomment.1⟩
      · have hstep : isTrailing c = true ∧ plainLineLength text = 0 := by
          simp only [plainLineLength, runLength] at hrun ⊢
          grind
        have hrest : isBlankLine text = false := by
          have hwhite : isWhitespace c = true := by
            have htrailing := hstep.1
            simp only [isTrailing, Bool.or_eq_true, beq_iff_eq] at htrailing
            rcases htrailing with (rfl | rfl) | rfl <;> rfl
          simpa [isBlankLine, hline, hwhite] using hvisible
        obtain ⟨gap, blank, words, rfl, hgap, hblank⟩ := ih hstep.2 hrest
        exact ⟨c :: gap, blank, words, rfl, List.forall_mem_cons.mpr ⟨hstep.1, hgap⟩, hblank⟩

end Lookahead

/-- The text ends with the indentation of a line that has a comment on it, set off from the
indentation by white space that does not start with a space. -/
def EndsBeforeComment (floor : Nat) (text after : Text) : Prop :=
  ∃ body spaces gap blank words, text = body ++ '\n' :: spaces ∧ floor ≤ spaces.length ∧
    (∀ c ∈ spaces, c = ' ') ∧ after = gap ++ blank :: '#' :: words ∧
    (∀ c ∈ gap, isTrailing c = true) ∧ isBlank blank = true ∧ (gap ++ [blank]).head? ≠ some ' '

/-- A plain scalar that goes on ends within a line that continues it. -/
theorem exists_lastLine {floor : Nat} {text after : Text}
    (h : plainBlockLength floor (text ++ after) = text.length)
    (hmore : plainLineLength (text ++ after) ≠ text.length) :
    ∃ start line n goesOn, text = start ++ '\n' :: line.take n ∧ after = line.drop n ∧
      isBlankLine line = false ∧ plainLine floor line = some (n, goesOn) := by
  unfold plainBlockLength at h
  dsimp only at h
  split at h
  next =>
    rcases extendLines_cases (plainLine floor) (plainLineLength (text ++ after)) 0
        (text ++ after) with hsame | ⟨start, line, n, goesOn, hsplit, hvisible, hline, hend⟩
    · exact absurd (hsame.symm.trans h) hmore
    · have hle := (plainLine_eq_some hline).1
      have hparts : text ++ after = (start ++ '\n' :: line.take n) ++ line.drop n := by
        simp [hsplit]
      have hlength : text.length = (start ++ '\n' :: line.take n).length := by
        rw [← h, hend, List.length_append, List.length_cons, List.length_take, Nat.min_eq_left hle]
        omega
      obtain ⟨htext, hafter⟩ := List.append_inj hparts hlength
      exact ⟨start, line, n, goesOn, htext, hafter, hvisible, hline⟩
  next => exact absurd h hmore

/-- White space at the end of a plain scalar is the indentation of a line with a comment. -/
theorem endsBeforeComment_of_getLast? {floor : Nat} {text after : Text}
    (h : plainBlockLength floor (text ++ after) = text.length) {c : Char}
    (hc : text.getLast? = some c) (hmargin : isMargin c = true) :
    EndsBeforeComment floor text after := by
  have hmore : plainLineLength (text ++ after) ≠ text.length := by
    intro hfirst
    have hrun : (text ++ after).take (plainLineLength (text ++ after)) = text := by
      rw [hfirst, List.take_left]
    rw [← hrun] at hc
    simp [isMargin_run (by simp) hc] at hmargin
  obtain ⟨start, line, n, goesOn, rfl, rfl, hvisible, hline⟩ := exists_lastLine h hmore
  obtain ⟨hfloor, -, rfl, -⟩ := plainLine_inv hline
  obtain ⟨hlength, hspaces, hbody⟩ := spaces_of_indentation line
  cases hrun : plainLineLength (line.drop (indentation line)) with
  | zero =>
      have hrest : isBlankLine (line.drop (indentation line)) = false := by
        rw [← List.take_append_drop (indentation line) line] at hvisible
        exact isBlankLine_of_spaces hspaces hvisible
      obtain ⟨gap, blank, words, hcomment, hgap, hblank⟩ := exists_comment hrun hrest
      refine ⟨start, line.take (indentation line), gap, blank, words, by rw [Nat.add_zero],
        by omega, hspaces, by rw [Nat.add_zero, hcomment], hgap, hblank, ?_⟩
      rw [hcomment] at hbody
      cases gap with
      | nil => simpa using hbody
      | cons d gap => simpa using hbody
  | succ k =>
      -- the line has text on it, and the scalar ends with that text
      rw [List.take_add] at hc
      cases hlast : ((line.drop (indentation line)).take
          (plainLineLength (line.drop (indentation line)))).getLast? with
      | none =>
          rw [List.getLast?_eq_none_iff, hrun, List.take_eq_nil_iff] at hlast
          rw [hlast.resolve_left (by simp)] at hrun
          cases hrun
      | some d =>
          obtain rfl : d = c := by
            simpa [List.getLast?_append, List.getLast?_cons, hlast] using hc
          simp [isMargin_run (by simp) hlast] at hmargin

/-! ## Trimmed scalars -/

/-- The margins of a plain scalar that the text follows. -/
structure Scalar.Trimmed (context : Option Nat) (after : Text) (s : Scalar) : Prop where
  start : ∀ c ∈ s.text.head?, isMargin c = false
  comment : ∀ front c back, s.text = front ++ c :: '#' :: back → isBlank c = false
  ending : (∃ c ∈ s.text.getLast?, isMargin c = true) ↔
    ∃ floor, context = some floor ∧ EndsBeforeComment floor s.text after

theorem EndsBeforeComment.getLast? {floor : Nat} {text after : Text}
    (h : EndsBeforeComment floor text after) : ∃ c ∈ text.getLast?, isMargin c = true := by
  obtain ⟨body, spaces, gap, blank, words, rfl, -, hspaces, -⟩ := h
  cases hlast : ('\n' :: spaces).getLast? with
  | none => simp at hlast
  | some c =>
      refine ⟨c, by simp [List.getLast?_append, hlast], ?_⟩
      rcases List.mem_cons.mp (List.mem_of_getLast? hlast) with rfl | hmem
      · rfl
      · rw [hspaces c hmem]
        rfl

theorem Scalar.Measured.flowLength {after : Text} {s : Scalar} (h : s.Measured none after)
    (hstyle : s.style = .plain) (hne : s.text ≠ []) :
    plainFlowLength (s.text ++ after) = s.text.length := by
  have hlegible := h.plain
  simpa [Scalar.legible, hstyle, hne] using hlegible

theorem Scalar.Measured.trimmed {context : Option Nat} {after : Text} {s : Scalar}
    (h : s.Measured context after) (hstyle : s.style = .plain) : s.Trimmed context after := by
  constructor
  · intro c hc
    obtain ⟨rest, htext⟩ := List.head?_eq_some_iff.mp hc
    have hvisible := h.visible hstyle
    simp only [htext, triviaLength, triviaFrom, isMargin] at hvisible ⊢
    grind
  · intro front c back htext
    have hne : s.text ≠ [] := by simp [htext]
    cases context with
    | none => exact isBlank_of_plainFlowLength (h.flowLength hstyle hne) htext
    | some floor => exact isBlank_of_plainBlockLength (h.plainLength hstyle hne rfl) htext
  · constructor
    · rintro ⟨c, hc, hmargin⟩
      have hne : s.text ≠ [] := by
        intro hnil
        simp [hnil] at hc
      cases context with
      | some floor =>
          exact ⟨floor, rfl, endsBeforeComment_of_getLast? (h.plainLength hstyle hne rfl) hc hmargin⟩
      | none =>
          have hrun : (s.text ++ after).take (plainFlowLength (s.text ++ after)) = s.text := by
            rw [h.flowLength hstyle hne, List.take_left]
          rw [← hrun] at hc
          simp [isMargin_run (by simp) hc] at hmargin
    · rintro ⟨floor, -, hends⟩
      exact hends.getLast?

/-- A plain scalar in its place is trimmed. -/
def Spot.Trimmed (spot : Spot) : Prop :=
  ∀ s, spot.node = .scalar s → s.style = .plain → s.Trimmed spot.nesting.context spot.after

theorem Spot.AsRead.trimmed {spot : Spot} (h : spot.AsRead) : spot.Trimmed := by
  obtain ⟨nesting, column, node, after⟩ := spot
  rintro s rfl hstyle
  exact Scalar.Measured.trimmed h hstyle

/-- No plain scalar of a source that is read has white space at its start, or a comment in it.
White space at its end is there exactly if the scalar ends before a comment that stands deeper than
the scalar's lines start and has a tab or a carriage return between the indentation and itself. -/
theorem Stream.trimmed_of_parse {source : Text} {stream : Stream}
    (h : Stream.parse source = .ok stream) :
    ∃ full : Stream, full.print = source ∧ full.unstacked = stream ∧
      (stream.print = source → full = stream) ∧ ∀ spot ∈ full.spots, spot.Trimmed := by
  obtain ⟨full, hprint, hunstacked, hsame, hspots⟩ := Stream.exists_asRead_of_parse h
  exact ⟨full, hprint, hunstacked, hsame, fun spot hspot => (hspots spot hspot).trimmed⟩

/-- The line of a comment behind a tab leaves its spaces, and the line break before them, at the end
of the scalar. -/
theorem Stream.trimmed_comment_line :
    ∃ stream : Stream, Stream.parse "a b\n  \t#c\n".toList = .ok stream ∧
      stream.documents.map (fun document => document.root.print) = ["a b\n  ".toList] ∧
      ∀ spot ∈ stream.spots, spot.Trimmed := by
  have hread : (Stream.parse "a b\n  \t#c\n".toList).toOption.map
      (fun stream => (stream.print, stream.documents.map fun document => document.root.print)) =
      some ("a b\n  \t#c\n".toList, ["a b\n  ".toList]) := by
    decide +kernel
  cases hparse : Stream.parse "a b\n  \t#c\n".toList with
  | error error =>
      rw [hparse] at hread
      cases hread
  | ok stream =>
      rw [hparse] at hread
      obtain ⟨hprint, hroot⟩ := Prod.mk.inj (Option.some.inj hread)
      obtain ⟨full, -, -, hsame, hspots⟩ := Stream.trimmed_of_parse hparse
      rw [hsame hprint] at hspots
      exact ⟨stream, rfl, hroot, hspots⟩

end LosslessYaml
