import LosslessYaml.Proofs.ReadBack.Stream

/-!
# Accepted values are read as they are written

A value in which `ValueProblem.find?` finds no problem is read as the plain scalar that it is meant
to be, in block context and in flow context, wherever nothing after it can become part of it.  In
flow context that is a matter of the rest of the line.  In block context a later line may continue
the value, so the next line that is not blank has to stand further to the left, or to be a comment.

`ValueProblem.BlockEnd` and `ValueProblem.FlowEnd` say what may follow, without regard to how
scalars are measured.

Main statement: `ValueProblem.reads_plain_of_find?`.
-/

namespace LosslessYaml

open Text Lookahead

/-! ## Runs -/

namespace Text

/-- Loose characters before the end of a run do not count. -/
theorem runLength_loose_append {stop : Char → Text → Bool} {loose : Char → Bool}
    {start rest : Text} (hstart : ∀ c ∈ start, loose c = true)
    (hrest : runLength stop loose rest = 0) : runLength stop loose (start ++ rest) = 0 := by
  induction start with
  | nil => exact hrest
  | cons c start ih =>
      rw [List.forall_mem_cons] at hstart
      simp [runLength, ih hstart.2, hstart.1]

/-- A text without a stop in it is a run, up to where no run goes on. -/
theorem runLength_append_eq {stop : Char → Text → Bool} {loose : Char → Bool} {text rest : Text}
    (hstop : ∀ start c tail, text = start ++ c :: tail → stop c (tail ++ rest) = false)
    (hlast : ∀ c ∈ text.getLast?, loose c = false) (hrest : runLength stop loose rest = 0) :
    runLength stop loose (text ++ rest) = text.length := by
  induction text with
  | nil => exact hrest
  | cons c text ih =>
      have hc : stop c (text ++ rest) = false := hstop [] c text rfl
      have hlength : runLength stop loose (text ++ rest) = text.length := by
        apply ih
        · intro start d tail htext
          exact hstop (c :: start) d tail (by rw [htext]; rfl)
        · intro d hd
          refine hlast d ?_
          cases text with
          | nil => simp at hd
          | cons e text => simpa using hd
      simp only [List.cons_append, runLength, hc, hlength]
      cases text with
      | nil => simp [hlast c rfl]
      | cons d text => simp

end Text

namespace ValueProblem

/-! ## What the check says about the end of a value -/

/-- What the check of a value establishes, with what bears on the text after it. -/
structure Closed (value : Text) : Prop extends Sound value where
  visibleEnd : ∀ c ∈ value.getLast?, isWhitespace c = false
  comment : ¬ [' ', '#'] <:+: value ∧ ¬ ['\t', '#'] <:+: value

theorem closed_of_find? {value : Text} (h : find? value = none) : Closed value := by
  have hsound := sound_of_find? h
  have htrim : trim value = value := by
    unfold find? at h
    split at h
    next => simp at h
    next =>
      split at h
      next => simp at h
      next htrim => simpa using htrim
  refine { hsound with visibleEnd := visibleEnd_of_trim htrim, comment := ?_ }
  cases value with
  | nil => simp
  | cons c rest =>
      rw [← hasInfix_iff, ← hasInfix_iff, ← not_or, ← Bool.or_eq_true]
      intro hcomment
      simp only [find?, hcomment, if_true, List.isEmpty_cons, Bool.false_eq_true, if_false] at h
      repeat' split at h
      all_goals cases h

namespace Closed

variable {value after : Text}

/-- No comment starts within a value, or with its last character. -/
theorem atComment_eq_false (h : Closed value) {start tail : Text} {c : Char}
    (hvalue : value = start ++ c :: tail) : atComment c (tail ++ after) = false := by
  refine Bool.eq_false_iff.mpr fun hcomment => ?_
  simp only [atComment, Bool.and_eq_true, beq_iff_eq] at hcomment
  obtain ⟨hblank, hhash⟩ := hcomment
  have hc : c = ' ' ∨ c = '\t' := by simpa [isBlank] using hblank
  cases tail with
  | nil =>
      have hvisible := h.visibleEnd c (by simp [hvalue])
      rcases hc with rfl | rfl <;> revert hvisible <;> decide
  | cons d tail =>
      obtain rfl : d = '#' := by simpa using hhash
      have hinfix : [c, '#'] <:+: value := ⟨start, tail, by simp [hvalue]⟩
      rcases hc with rfl | rfl
      · exact h.comment.1 hinfix
      · exact h.comment.2 hinfix

theorem visibleEnd_trailing (h : Closed value) : ∀ c ∈ value.getLast?, isTrailing c = false := by
  intro c hc
  have hvisible := h.visibleEnd c hc
  have hne : c ≠ ' ' ∧ c ≠ '\t' ∧ c ≠ '\r' := by
    refine ⟨?_, ?_, ?_⟩ <;> rintro rfl <;> revert hvisible <;> decide
  simp [isTrailing, hne]

/-- A value is all of the plain line that it starts. -/
theorem plainLineLength_eq (h : Closed value) (hafter : plainLineLength after = 0) :
    plainLineLength (value ++ after) = value.length := by
  apply runLength_append_eq _ h.visibleEnd_trailing hafter
  intro start c tail hvalue
  have hline : c ≠ '\n' := by
    rintro rfl
    exact h.oneLine.1 (by simp [hvalue])
  simp [hline, h.atComment_eq_false hvalue]

/-- A value is all of the plain scalar that it starts in flow context. -/
theorem plainFlowLength_eq (h : Closed value) (hafter : plainFlowLength after = 0) :
    plainFlowLength (value ++ after) = value.length := by
  apply runLength_append_eq _ h.visibleEnd_trailing hafter
  intro start c tail hvalue
  have hline : c ≠ '\n' := by
    rintro rfl
    exact h.oneLine.1 (by simp [hvalue])
  have hcolon : (c == ':' && (atBreak (tail ++ after) || atFlowEnd (tail ++ after))) = false := by
    by_cases hc : c = ':'
    · subst hc
      simp [h.colon_eq_false hvalue]
    · simp [hc]
  simp [hline, h.flow c (by simp [hvalue]), hcolon, h.atComment_eq_false hvalue]

end Closed

/-! ## What may follow a value -/

/-- Lines with white space only. -/
def BlankLines (gap : Text) : Prop :=
  (∀ c ∈ gap, isWhitespace c = true) ∧ ∀ c ∈ gap.getLast?, c = '\n'

/-- What may follow a value in block context, where a continuation line would have to be indented by
at least `floor` spaces. -/
inductive BlockEnd (floor : Nat) : Text → Prop
  | source {blanks : Text} (hblanks : ∀ c ∈ blanks, isTrailing c = true) : BlockEnd floor blanks
  | comment {blanks words : Text} {b : Char} (hblanks : ∀ c ∈ blanks, isTrailing c = true)
      (hb : isBlank b = true) : BlockEnd floor (blanks ++ b :: '#' :: words)
  | blankLines {blanks gap : Text} (hblanks : ∀ c ∈ blanks, isTrailing c = true)
      (hgap : ∀ c ∈ gap, isWhitespace c = true) : BlockEnd floor (blanks ++ '\n' :: gap)
  | line {blanks gap line : Text} (hblanks : ∀ c ∈ blanks, isTrailing c = true)
      (hgap : BlankLines gap) (hline : isBlankLine line = false)
      (hindent : indentation line < floor) : BlockEnd floor (blanks ++ '\n' :: (gap ++ line))
  | commentLine {blanks gap words : Text} {n : Nat} (hblanks : ∀ c ∈ blanks, isTrailing c = true)
      (hgap : BlankLines gap) :
      BlockEnd floor (blanks ++ '\n' :: (gap ++ (List.replicate n ' ' ++ '#' :: words)))

/-- What may follow a value in flow context. -/
inductive FlowEnd : Text → Prop
  | mark {blanks tail : Text} {c : Char} (hblanks : ∀ c ∈ blanks, isTrailing c = true)
      (hc : c = '\n' ∨ isFlowIndicator c = true) : FlowEnd (blanks ++ c :: tail)
  | comment {blanks words : Text} {b : Char} (hblanks : ∀ c ∈ blanks, isTrailing c = true)
      (hb : isBlank b = true) : FlowEnd (blanks ++ b :: '#' :: words)

theorem FlowEnd.plainFlowLength_eq_zero {after : Text} (h : FlowEnd after) :
    plainFlowLength after = 0 := by
  cases h with
  | mark hblanks hc =>
      apply runLength_loose_append hblanks
      rcases hc with rfl | hc
      · simp [runLength]
      · simp [runLength, hc]
  | comment hblanks hb =>
      apply runLength_loose_append hblanks
      simp [runLength, atComment, hb]

namespace BlockEnd

variable {floor : Nat} {after : Text}

theorem plainLineLength_eq_zero (h : BlockEnd floor after) : plainLineLength after = 0 := by
  cases h with
  | source hblanks =>
      rw [← List.append_nil after]
      exact runLength_loose_append hblanks rfl
  | comment hblanks hb =>
      apply runLength_loose_append hblanks
      simp [runLength, atComment, hb]
  | blankLines hblanks | line hblanks | commentLine hblanks =>
      apply runLength_loose_append hblanks
      simp [runLength]

/-- A line break within white space leaves a blank line before it. -/
private theorem isBlankLine_of_mem {gap : Text} (hline : '\n' ∈ gap)
    (hgap : ∀ c ∈ gap, isWhitespace c = true) (rest : Text) :
    isBlankLine (gap ++ rest) = true := by
  induction gap with
  | nil => simp at hline
  | cons c gap ih =>
      rw [List.forall_mem_cons] at hgap
      by_cases hc : c = '\n'
      · simp [isBlankLine, hc]
      · have hrest := ih (by simpa [Ne.symm hc] using hline) hgap.2
        simp only [isBlankLine] at hrest ⊢
        simp [hc, hgap.1, hrest]

/-- White space up to the end of the source adds nothing to a scalar. -/
private theorem extendLines_whitespace (next : Text → Option (Nat × Bool)) (reached offset : Nat)
    {gap : Text} (hgap : ∀ c ∈ gap, isWhitespace c = true) :
    extendLines next reached offset gap = reached := by
  induction gap generalizing offset with
  | nil => rfl
  | cons c gap ih =>
      rw [List.forall_mem_cons] at hgap
      have hblank : isBlankLine gap = true := by
        apply List.all_eq_true.mpr
        intro d hd
        exact hgap.2 d ((List.takeWhile_sublist _).subset hd)
      simp [extendLines, hblank, ih _ hgap.2]

/-- A scalar does not go on after blank lines where the next line does not belong to it. -/
private theorem extendLines_blankLines {next : Text → Option (Nat × Bool)} {gap line : Text}
    (reached offset : Nat) (hgap : BlankLines ('\n' :: gap)) (hline : isBlankLine line = false)
    (hnext : next line = none) :
    extendLines next reached offset ('\n' :: (gap ++ line)) = reached := by
  -- From any place within the blank lines, up to the last line break.
  have hwithin : ∀ (lines : Text) (offset : Nat), lines ≠ [] → BlankLines lines →
      extendLines next reached offset (lines ++ line) = reached := by
    intro lines
    induction lines with
    | nil => simp
    | cons c lines ih =>
        intro offset _ ⟨hspace, hlast⟩
        rw [List.forall_mem_cons] at hspace
        by_cases hlines : lines = []
        · subst hlines
          obtain rfl : c = '\n' := hlast c rfl
          simp [extendLines, hline, hnext]
        · have hlast' : ∀ d ∈ lines.getLast?, d = '\n' := by
            intro d hd
            apply hlast
            rwa [List.getLast?_cons_of_ne_nil hlines]
          have hbreak : '\n' ∈ lines := by
            have hmem := List.getLast_mem hlines
            rwa [hlast' _ (List.getLast?_eq_some_getLast hlines)] at hmem
          simp [extendLines, isBlankLine_of_mem hbreak hspace.2, ih _ hlines ⟨hspace.2, hlast'⟩]
  exact hwithin ('\n' :: gap) offset (by simp) hgap

private theorem blankLines_cons {gap : Text} (h : BlankLines gap) : BlankLines ('\n' :: gap) := by
  constructor
  · exact List.forall_mem_cons.mpr ⟨by decide, h.1⟩
  · intro c hc
    cases gap with
    | nil => exact (by simpa using hc.symm)
    | cons d gap => exact h.2 c (by simpa using hc)

/-- A line with a comment, set off by spaces only, belongs to no plain scalar. -/
private theorem plainLine_comment (floor n : Nat) (words : Text) :
    plainLine floor (List.replicate n ' ' ++ '#' :: words) = none := by
  have hindent : indentation (List.replicate n ' ' ++ '#' :: words) = n := by
    simp [indentation, List.takeWhile_append_of_pos]
  simp [plainLine, hindent]

private theorem isBlankLine_comment (n : Nat) (words : Text) :
    isBlankLine (List.replicate n ' ' ++ '#' :: words) = false := by
  rw [isBlankLine, List.takeWhile_append_of_pos (by simp), List.all_append]
  simp [isWhitespace]

/-- No line after a value belongs to it. -/
private theorem extendLines_eq (h : BlockEnd floor after) (reached offset : Nat) :
    lineEnds after = false ∨ extendLines (plainLine floor) reached offset after = reached := by
  have hskip : ∀ {blanks rest : Text}, (∀ c ∈ blanks, isTrailing c = true) →
      extendLines (plainLine floor) reached offset (blanks ++ rest) =
        extendLines (plainLine floor) reached (offset + blanks.length) rest := by
    intro blanks rest hblanks
    exact extendLines_of_notMem (fun hmem => absurd (hblanks _ hmem) (by decide)) _ _ _
  cases h with
  | source hblanks =>
      right
      rw [← List.append_nil after, hskip hblanks]
      rfl
  | @comment blanks words b hblanks hb =>
      left
      have htrailing : isTrailing b = true := by
        simp only [isBlank] at hb
        simp [isTrailing, hb]
      rw [lineEnds, List.dropWhile_append_of_pos hblanks, List.dropWhile_cons_of_pos htrailing]
      rfl
  | blankLines hblanks hgap =>
      right
      rw [hskip hblanks]
      exact extendLines_whitespace _ _ _ (List.forall_mem_cons.mpr ⟨by decide, hgap⟩)
  | line hblanks hgap hline hindent =>
      right
      rw [hskip hblanks]
      exact extendLines_blankLines _ _ (blankLines_cons hgap) hline (by simp [plainLine, hindent])
  | commentLine hblanks hgap =>
      right
      rw [hskip hblanks]
      exact extendLines_blankLines _ _ (blankLines_cons hgap) (isBlankLine_comment _ _)
        (plainLine_comment _ _ _)

/-- A value ends where its text ends. -/
theorem plainBlockLength_eq {value : Text} (h : BlockEnd floor after) (hvalue : Closed value) :
    plainBlockLength floor (value ++ after) = value.length := by
  have hfirst := hvalue.plainLineLength_eq h.plainLineLength_eq_zero
  have hrest : (value ++ after).drop value.length = after := List.drop_left
  unfold plainBlockLength
  simp only [hfirst, hrest]
  rcases h.extendLines_eq value.length value.length with hends | hsame
  · simp [hends]
  · rw [extendLines_of_notMem hvalue.oneLine.1, Nat.zero_add, hsame, ite_self]

end BlockEnd

/-! ## Reading -/

variable {value after : Text}

/-- A value is read as it is written in block context. -/
private theorem blockContent_value (h : Closed value) (hne : value ≠ []) {floor : Nat} {r : Reader}
    (hrest : r.rest = value ++ after) (hafter : BlockEnd floor after) (fuel : Nat) (place : Place)
    (sameLine : Bool) (lead : Text) :
    Reader.blockContent (fuel + 1) floor place sameLine lead r =
      .ok (.scalar { lead, text := value }, r.skip value.length) := by
  have hlength := hafter.plainBlockLength_eq h
  have hopen := h.opening_plain hne hlength
  rw [Reader.blockContent]
  simp only [hrest, hopen, hlength, Reader.plain, Reader.taken_eq hrest]

/-- A value is read as it is written in flow context. -/
private theorem flowContent_value (h : Closed value) (hne : value ≠ []) {r : Reader}
    (hrest : r.rest = value ++ after) (hafter : FlowEnd after) (fuel : Nat) (lead : Text) :
    Reader.flowContent (fuel + 1) lead r =
      .ok (.scalar { lead, text := value }, r.skip value.length) := by
  have hlength := h.plainFlowLength_eq hafter.plainFlowLength_eq_zero
  obtain ⟨c, rest, rfl⟩ := List.exists_cons_of_ne_nil hne
  rw [Reader.flowContent_plain hrest h.isFlowMark_eq_false, hrest, hlength]
  simp only [Reader.plain, Reader.taken_eq hrest]

/-- A source that starts with its root and has nothing but trivia after it is one document. -/
private theorem parse_of_root {source : Text} {root : Block} {last : Reader} (hne : source ≠ [])
    (hmark : splitMark source = ([], source)) (hpreamble : preambleLength true false source = 0)
    (hdashes : atDashes source = false)
    (hroot : Reader.BlockNode 0 .root { rest := source } root last) {ending : Text}
    (hend : last.trivia = ending ∧ last.afterTrivia.rest = []) :
    Stream.parse source = .ok { documents := [⟨[], [], false, root, { lead := ending }⟩] } := by
  have hstart : Reader.afterPreamble { rest := source } = { rest := source } ∧
      Reader.preamble { rest := source } = [] := by
    simp [Reader.afterPreamble, Reader.preamble, hpreamble, Reader.skip_zero, Reader.taken]
  have hexplicit : Reader.startsDocument { rest := source } = false := by
    simp [Reader.startsDocument, hdashes]
  have hdocument : Reader.DocumentNode [] { rest := source }
      ⟨[], [], false, root, { lead := ending }⟩ last.afterTrivia := by
    have hending : last.ending = .ok ({ lead := ending }, last.afterTrivia) := by
      simp [Reader.ending, hend]
    have hstart : Reader.afterDashes { rest := source } = { rest := source } := by
      simp [Reader.afterDashes, hexplicit]
    have hdocument := @Reader.DocumentNode.intro [] _ _ _ _ _ (by rwa [hstart]) hending
    rwa [hexplicit] at hdocument
  have hmore : last.afterTrivia.afterPreamble.rest = [] ∧ last.afterTrivia.preamble = [] := by
    simp [Reader.afterPreamble, Reader.preamble, Reader.skip, Reader.taken, hend]
  have hdone := Reader.MoreDocuments.done hmore.1
  rw [hmore.2] at hdone
  apply Stream.parse_eq_ok_iff.mpr
  rw [hmark]
  refine ⟨_, .documents ?_ ?_ hdone⟩
  · rwa [hstart.1]
  · rwa [hstart.1, hstart.2]

/-- The stream of one mapping with one entry, that has the key `k` and the value. -/
def oneEntry (layout : Layout) (value ending : Text) : Stream :=
  { documents := [⟨[], [], false,
      .mapping { lead := [], layout, entries := [
        { lead := [], key := { lead := [], text := ['k'] }, beforeColon := [],
          value := .scalar { lead := [' '], text := value } }] },
      { lead := ending }⟩] }

private theorem parse_block (h : Closed value) (hne : value ≠ []) :
    Stream.parse ('k' :: ':' :: ' ' :: (value ++ ['\n'])) =
      .ok (oneEntry .block value ['\n']) := by
  generalize hr : ({ rest := 'k' :: ':' :: ' ' :: (value ++ ['\n']) } : Reader) = r
  have hrest : (r.skip 2).rest = [' '] ++ (value ++ ['\n']) := by
    rw [← hr]
    rfl
  obtain ⟨htrivia, hnext⟩ := Reader.trivia_eq hrest (isTrivia_of_blank (by simp [isBlank]))
    (h.triviaLength_eq_zero hne ['\n'])
  have hstart : (r.skip 2).afterTrivia.rest = value ++ ['\n'] := by
    rw [hnext, Reader.rest_skip hrest]
  have hvalue : Reader.BlockNode 1 .mappingValue (r.skip 2)
      (.scalar { lead := [' '], text := value }) ((r.skip 2).afterTrivia.skip value.length) := by
    refine .content (by simp [Reader.stops, hstart, htrivia]) ?_
    rw [htrivia]
    exact Reader.blockContent_rules 1 (blockContent_value h hne hstart
      (@BlockEnd.blankLines 1 [] [] (by simp) (by simp)) 0 _ _ _)
  have hend := Reader.rest_skip hstart
  generalize (r.skip 2).afterTrivia.skip value.length = last at hvalue hend
  have hlast : last.trivia = ['\n'] ∧ last.afterTrivia.rest = [] := by
    simp only [Reader.trivia, Reader.afterTrivia, Reader.taken, Reader.skip, hend]
    decide
  have hfollows : last.entryFollows r.column = false := by
    simp [Reader.entryFollows, hlast, atKey, atBareKey]
  subst hr
  refine parse_of_root (by simp) rfl rfl rfl (.content rfl (.mapping rfl rfl ?_)) hlast
  exact @Reader.BlockEntries.last [] _ _ (Reader.skip _ 1) _ _ _ rfl rfl rfl hvalue hfollows

private theorem parse_flow (h : Closed value) (hne : value ≠ []) :
    Stream.parse ('\x7b' :: 'k' :: ':' :: ' ' :: (value ++ ['\x7d'])) =
      .ok (oneEntry (.flow []) value []) := by
  generalize hr : ({ rest := '\x7b' :: 'k' :: ':' :: ' ' :: (value ++ ['\x7d']) } : Reader) = r
  have hrest : (r.skip 3).rest = [' '] ++ (value ++ ['\x7d']) := by
    rw [← hr]
    rfl
  obtain ⟨htrivia, hnext⟩ := Reader.trivia_eq hrest (isTrivia_of_blank (by simp [isBlank]))
    (h.triviaLength_eq_zero hne ['\x7d'])
  have hstart : (r.skip 3).afterTrivia.rest = value ++ ['\x7d'] := by
    rw [hnext, Reader.rest_skip hrest]
  have hvalue : Reader.FlowNode (r.skip 3).trivia (r.skip 3).afterTrivia
      (.scalar { lead := [' '], text := value }) ((r.skip 3).afterTrivia.skip value.length) := by
    rw [htrivia]
    exact Reader.flowContent_rules 1 (flowContent_value h hne hstart
      (@FlowEnd.mark [] [] _ (by simp) (.inr rfl)) 0 _)
  have hend := Reader.rest_skip hstart
  generalize (r.skip 3).afterTrivia.skip value.length = last at hvalue hend
  have hlast : last.trivia = [] ∧ last.afterTrivia.rest = ['\x7d'] := by
    simp only [Reader.trivia, Reader.afterTrivia, Reader.taken, Reader.skip, hend]
    decide
  have hseparator : last.separator '\x7d' = .ok (none, last) := by
    simp [Reader.separator, hlast]
  have hclose := Reader.FlowEntries.close hlast.2
  rw [hlast.1] at hclose
  have hkey : (r.skip 1).afterTrivia.flowKey = .ok ({ lead := [], text := ['k'] }, r.skip 2) := by
    rw [← hr]
    rfl
  have hend : (last.afterTrivia.skip 1).trivia = [] ∧
      (last.afterTrivia.skip 1).afterTrivia.rest = [] := by
    generalize hfinal : last.afterTrivia.skip 1 = final
    have hnil : final.rest = [] := by simp [← hfinal, Reader.skip, hlast.2]
    simp [Reader.trivia, Reader.afterTrivia, Reader.skip, Reader.taken, hnil]
  subst hr
  refine parse_of_root (by simp) rfl rfl rfl (.content rfl (.flow rfl (.mapping rfl ?_))) hend
  exact .entry rfl (by decide : 'k' ≠ '\x7d') hkey rfl hvalue hseparator hclose

/-- A text without a problem is read as the plain scalar that it is, in block context and in flow
context, wherever nothing after it can belong to it. -/
theorem reads_plain_of_find? (hne : value ≠ []) (h : find? value = none) :
    (∀ fuel floor place sameLine lead after (r : Reader),
      r.rest = value ++ after → BlockEnd floor after →
        Reader.blockContent (fuel + 1) floor place sameLine lead r =
          .ok (.scalar { lead, text := value }, r.skip value.length)) ∧
    (∀ fuel lead after (r : Reader), r.rest = value ++ after → FlowEnd after →
      Reader.flowContent (fuel + 1) lead r =
        .ok (.scalar { lead, text := value }, r.skip value.length)) ∧
    Stream.parse ("k: ".toList ++ value ++ "\n".toList) =
      .ok (oneEntry .block value "\n".toList) ∧
    Stream.parse ("\x7bk: ".toList ++ value ++ "\x7d".toList) =
      .ok (oneEntry (.flow []) value []) := by
  have hclosed := closed_of_find? h
  refine ⟨?_, ?_, parse_block hclosed hne, parse_flow hclosed hne⟩
  · intro fuel floor place sameLine lead after r hrest hafter
    exact blockContent_value hclosed hne hrest hafter fuel place sameLine lead
  · intro fuel lead after r hrest hafter
    exact flowContent_value hclosed hne hrest hafter fuel lead

/-- An address has colons and a number sign in it and stays what it is: before a blank line and a
line that is not nested deeply enough, before a comment in brackets, and as a whole source. -/
theorem reads_plain_address :
    find? "::1#a 'b'".toList = none ∧
    Reader.blockContent 1 3 .mappingValue true [' ']
        { rest := "::1#a 'b'\t\n \n  c: d".toList, column := 4 } =
      .ok (.scalar { lead := [' '], text := "::1#a 'b'".toList },
        { rest := "\t\n \n  c: d".toList, column := 13 }) ∧
    Reader.flowContent 1 [] { rest := "::1#a 'b' #]\n]".toList, column := 1 } =
      .ok (.scalar { lead := [], text := "::1#a 'b'".toList },
        { rest := " #]\n]".toList, column := 10 }) ∧
    Stream.parse "\x7bk: ::1#a 'b'\x7d".toList =
      .ok (oneEntry (.flow []) "::1#a 'b'".toList []) := by
  have haddress := @reads_plain_of_find? "::1#a 'b'".toList (by decide) (by decide)
  have hline : BlockEnd 3 "\t\n \n  c: d".toList :=
    @BlockEnd.line 3 ['\t'] [' ', '\n'] "  c: d".toList (by simp [isTrailing])
      ⟨by simp [isWhitespace], by simp⟩ (by decide) (by decide)
  have hcomment : FlowEnd " #]\n]".toList :=
    @FlowEnd.comment [] "]\n]".toList ' ' (by simp) (by decide)
  exact ⟨by decide, haddress.1 0 3 _ _ _ _ _ rfl hline, haddress.2.1 0 _ _ _ rfl hcomment,
    haddress.2.2.2⟩

end ValueProblem

end LosslessYaml
