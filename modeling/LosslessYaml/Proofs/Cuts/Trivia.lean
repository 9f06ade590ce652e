import LosslessYaml.Proofs.Cuts.Slices

/-!
# Trivia by positions

What stands between nodes: white space, comments, directives and the marks of documents.  Each loop
is given as many turns as there are bytes and one more, and halts if it needs more; the equations
say that it never does, since each turn moves past a character.
-/

namespace LosslessYaml

open Text Lookahead

/-! ## Trivia line by line -/

theorem Lookahead.triviaFrom_comment (text : Text) :
    triviaFrom true text = lineLength text + triviaFrom false (text.drop (lineLength text)) := by
  induction text with
  | nil => rfl
  | cons c rest ih =>
      by_cases hc : c = '\n'
      · subst hc
        rw [lineLength_newline, List.drop_zero, Nat.zero_add]
        rfl
      · rw [triviaFrom, if_neg (by simpa using hc), Bool.true_or, if_pos rfl, ih,
          lineLength_cons hc, List.drop_succ_cons]
        omega

/-- What is skipped ends with the line, and what comes then does not depend on where it started. -/
theorem Lookahead.preambleLength_skipping (lineStart : Bool) (other : Bool) (text : Text) :
    preambleLength lineStart true text =
      lineLength text + preambleLength other false (text.drop (lineLength text)) := by
  induction text generalizing lineStart with
  | nil => rfl
  | cons c rest ih =>
      by_cases hc : c = '\n'
      · subst hc
        rw [lineLength_newline, List.drop_zero, Nat.zero_add]
        rfl
      · rw [preambleLength, if_neg (by simpa using hc), if_pos (by simp), ih, lineLength_cons hc,
          List.drop_succ_cons]
        omega

namespace Reader

variable {r : Reader} {c : Char} {tail : Text}

theorem afterTrivia_space (hrest : r.rest = c :: tail) (hc : (isTrailing c || c == '\n') = true) :
    (r.skip 1).afterTrivia = r.afterTrivia := by
  have htail : (r.skip 1).rest = tail := by simp [skip, hrest]
  have hlength : triviaLength (c :: tail) = 1 + triviaLength tail := by
    have hmark : c ≠ '#' := by
      rintro rfl
      cases hc
    rw [triviaLength, triviaFrom]
    split
    · exact Nat.add_comm _ _
    next hline =>
      rw [if_neg (by simpa using hmark), if_pos (by simpa [hline] using hc)]
      exact Nat.add_comm _ _
  rw [afterTrivia, afterTrivia, skip_skip, htail, hrest, hlength]

theorem afterTrivia_comment (hrest : r.rest = '#' :: tail) :
    (r.skip (lineLength r.rest)).afterTrivia = r.afterTrivia := by
  have hlength : triviaLength r.rest =
      lineLength r.rest + triviaLength (r.skip (lineLength r.rest)).rest := by
    have hcomment : triviaLength r.rest = triviaFrom true r.rest := by
      rw [hrest]
      rfl
    rw [hcomment, triviaFrom_comment]
    rfl
  rw [afterTrivia, afterTrivia, skip_skip, ← hlength]

theorem afterTrivia_none (h : triviaLength r.rest = 0) : r.afterTrivia = r := by
  rw [afterTrivia, h, skip_zero]

theorem triviaLength_cons_eq_zero (h : triviaLength (c :: tail) = 0) :
    (isTrailing c || c == '\n') = false ∧ c ≠ '#' := by
  rw [triviaLength, triviaFrom] at h
  split at h
  next => cases h
  next hline =>
    split at h
    next => cases h
    next hmark =>
      split at h
      next => cases h
      next hspace => grind

/-- Trivia is walked over character by character, comments line by line. -/
theorem triviaInduction {motive : Reader → Prop}
    (space : ∀ r c tail, r.rest = c :: tail → (isTrailing c || c == '\n') = true →
      motive (r.skip 1) → motive r)
    (comment : ∀ r tail, r.rest = '#' :: tail → motive (r.skip (lineLength r.rest)) → motive r)
    (none : ∀ r, triviaLength r.rest = 0 → motive r) (r : Reader) : motive r := by
  induction hlength : r.rest.length using Nat.strongRecOn generalizing r with
  | ind n ih =>
      cases hrest : r.rest with
      | nil => exact none r (by rw [hrest]; rfl)
      | cons c tail =>
          have hskip : ∀ m, 0 < m → (r.skip m).rest.length < n := by
            intro m hm
            rw [skip_length, ← hlength, hrest, List.length_cons]
            omega
          by_cases hspace : (isTrailing c || c == '\n') = true
          · exact space r c tail hrest hspace (ih _ (hskip 1 Nat.one_pos) _ rfl)
          by_cases hmark : c = '#'
          · subst hmark
            refine comment r tail hrest (ih _ (hskip _ ?_) _ rfl)
            rw [hrest, lineLength_cons (by decide)]
            exact Nat.succ_pos _
          · refine none r ?_
            rw [Bool.or_eq_true, not_or, Bool.not_eq_true, Bool.not_eq_true] at hspace
            rw [hrest, triviaLength, triviaFrom]
            simp [hspace.1, hspace.2, hmark]

end Reader

namespace ByteSource

open Reader

variable {source : Text} {r : Reader}

/-- The position after the trivia. -/
def triviaEndIn (s : ByteSource) : Nat → Nat → Checked Nat
  | 0, _ => .error .endless
  | turns + 1, position =>
    match s.view position with
    | [] => .ok position
    | c :: _ =>
      if isTrailing c || c == '\n' then triviaEndIn s turns (position + 1)
      else if c == '#' then do
        let stop ← s.lineEnd position
        triviaEndIn s turns stop
      else .ok position

def triviaEnd (s : ByteSource) : Nat → Checked Nat := s.triviaEndIn (s.length + 1)

theorem triviaEndIn_position (r : Reader) (h : Stands source r) (turns : Nat)
    (hturns : r.rest.length < turns) :
    (ofText source).triviaEndIn turns (position source r) =
      .ok (position source r.afterTrivia) := by
  induction r using triviaInduction generalizing turns with
  | space r c tail hrest hspace ih =>
      obtain ⟨turns, rfl⟩ := Nat.exists_eq_succ_of_ne_zero (Nat.ne_zero_of_lt hturns)
      have hc : c.toNat < 128 := by
        simp only [isTrailing, Bool.or_eq_true, beq_iff_eq] at hspace
        rcases hspace with ((rfl | rfl) | rfl) | rfl <;> decide
      have hskip : (r.skip 1).rest.length < turns := by
        rw [hrest, List.length_cons] at hturns
        rw [skip_length, hrest, List.length_cons]
        omega
      rw [triviaEndIn, view_position h, hrest, octets_narrow hc]
      dsimp only
      rw [if_pos hspace, ← position_skip_one h hrest hc, ih (h.skip 1) turns hskip,
        afterTrivia_space hrest hspace]
  | comment r tail hrest ih =>
      obtain ⟨turns, rfl⟩ := Nat.exists_eq_succ_of_ne_zero (Nat.ne_zero_of_lt hturns)
      have hline : (r.skip (lineLength r.rest)).rest.length < turns := by
        rw [hrest, List.length_cons] at hturns
        rw [skip_length, hrest, lineLength_cons (by decide), List.length_cons]
        omega
      rw [triviaEndIn, view_position h, hrest, octets_narrow (by decide)]
      dsimp only
      rw [if_neg (by decide), if_pos (by decide), lineEnd_position h, ok_bind,
        ih (h.skip _) turns hline, afterTrivia_comment hrest]
  | none r htrivia =>
      obtain ⟨turns, rfl⟩ := Nat.exists_eq_succ_of_ne_zero (Nat.ne_zero_of_lt hturns)
      rw [triviaEndIn, view_position h, afterTrivia_none htrivia]
      cases hrest : r.rest with
      | nil => rfl
      | cons c tail =>
          obtain ⟨hspace, hmark⟩ := triviaLength_cons_eq_zero (hrest ▸ htrivia)
          rcases octets_cons c tail with ⟨-, hview⟩ | ⟨-, d, more, hview, -, hd, -⟩
          · rw [hview]
            simp [hspace, hmark]
          · rw [hview]
            simp [isTrailing, hd.ne]

theorem length_rest_lt (h : Stands source r) : r.rest.length < (ofText source).length + 1 := by
  have hsize := length_le_size r.rest
  rw [length_ofText h]
  omega

theorem triviaEnd_position (h : Stands source r) :
    (ofText source).triviaEnd (position source r) = .ok (position source r.afterTrivia) :=
  triviaEndIn_position r h _ (length_rest_lt h)

/-- What follows the trivia at a position. -/
structure Peek where
  stop : Nat
  column : Nat
  newLine : Bool

/-- Looks over the trivia. -/
def peek (s : ByteSource) (start : Nat) : Checked Peek := do
  let stop ← s.triviaEnd start
  let column ← s.column stop
  let text ← s.slice start stop
  return ⟨stop, column, text.contains '\n'⟩

/-- What looking over the trivia shows at the place of a reader. -/
def peeked (source : Text) (r : Reader) : Peek :=
  ⟨position source r.afterTrivia, r.afterTrivia.column, r.trivia.contains '\n'⟩

theorem peek_position (h : Stands source r) :
    (ofText source).peek (position source r) = .ok (peeked source r) := by
  rw [peek, triviaEnd_position h, ok_bind, column_position h.afterTrivia, ok_bind, slice_trivia h]
  rfl

/-! ## Marks of documents -/

/-- Whether a document starts or ends at the position by the mark that the test is for. -/
def atMark (s : ByteSource) (test : Text → Bool) (position : Nat) : Checked Bool := do
  let column ← s.column position
  if column == 0 then
    if position ≤ s.length then return test (s.view position) else .error (.index position)
  else return false

def atDocumentMark (s : ByteSource) (position : Nat) : Checked Bool := do
  let dashes ← s.atMark atDashes position
  if dashes then return true else s.atMark atDots position

/-- Whether a node that starts on a line of its own belongs to the place whose nested content starts
at column `floor` or later. -/
def continues (s : ByteSource) (floor : Nat) (place : Place) (next : Peek) : Checked Bool := do
  let mark ← s.atDocumentMark next.stop
  if mark then return false
  else
    return floor ≤ next.column ||
      (place == .mappingValue && next.column + 1 == floor && atDash (s.view next.stop))

theorem atMark_position (h : Stands source r) {test : Text → Bool}
    (htest : ∀ text, test (octets text) = test text) :
    (ofText source).atMark test (position source r) = .ok (r.column == 0 && test r.rest) := by
  rw [atMark, column_position h, ok_bind, view_position h, htest, if_pos (position_le_length h)]
  cases r.column == 0 <;> rfl

theorem atDocumentMark_position (h : Stands source r) :
    (ofText source).atDocumentMark (position source r) = .ok r.atDocumentMark := by
  rw [atDocumentMark, atMark_position h atDashes_octets, atMark_position h atDots_octets, ok_bind,
    Reader.atDocumentMark, Bool.and_or_distrib_left]
  cases r.column == 0 && atDashes r.rest <;> rfl

theorem continues_position (h : Stands source r) {floor : Nat} {place : Place} :
    (ofText source).continues floor place (peeked source r) =
      .ok (r.afterTrivia.continues floor place) := by
  rw [continues, peeked, atDocumentMark_position h.afterTrivia, ok_bind,
    view_position h.afterTrivia, atDash_octets, Reader.continues]
  cases r.afterTrivia.atDocumentMark <;> rfl

/-! ## Directives -/

/-- The position after the lines that start with `%`, and the trivia after each. -/
def directivesEnd (s : ByteSource) : Nat → Nat → Checked Nat
  | 0, _ => .error .endless
  | turns + 1, position => do
    let column ← s.column position
    if column == 0 && (s.view position).head? == some '%' then do
      let line ← s.lineEnd position
      let stop ← s.triviaEnd line
      directivesEnd s turns stop
    else return position

/-- The position after trivia and directives. -/
def preambleEnd (s : ByteSource) (start : Nat) : Checked Nat := do
  let stop ← s.triviaEnd start
  s.directivesEnd (s.length + 1) stop

end ByteSource

namespace Reader

variable {r : Reader} {c : Char} {tail : Text}

theorem afterPreamble_space (hrest : r.rest = c :: tail)
    (hc : (isTrailing c || c == '\n') = true) : (r.skip 1).afterPreamble = r.afterPreamble := by
  have htail : (r.skip 1).rest = tail := by simp [skip, hrest]
  have hlength : preambleLength (r.column == 0) false (c :: tail) =
      1 + preambleLength ((r.skip 1).column == 0) false tail := by
    have hcolumn : (r.skip 1).column = if c == '\n' then 0 else r.column + c.utf8Size := by
      simp [skip, hrest, columnAfter]
    rw [preambleLength, hcolumn]
    split
    · exact Nat.add_comm _ _
    next hline =>
      have hspace : isTrailing c = true := by simpa [hline] using hc
      have hmark : (false || c == '#' || (c == '%' && r.column == 0)) = false := by
        simp only [isTrailing, Bool.or_eq_true, beq_iff_eq] at hspace
        rcases hspace with (rfl | rfl) | rfl <;> rfl
      have hpositive : (r.column + c.utf8Size == 0) = false := by
        have hsize := c.utf8Size_pos
        rw [beq_eq_false_iff_ne]
        omega
      rw [hmark, if_neg Bool.false_ne_true, if_pos hspace, hpositive]
      exact Nat.add_comm _ _
  rw [afterPreamble, afterPreamble, skip_skip, htail, hrest, hlength]

/-- A comment or a directive ends with its line. -/
theorem afterPreamble_line (hrest : r.rest = c :: tail)
    (hc : c = '#' ∨ c = '%' ∧ r.column = 0) :
    (r.skip (lineLength r.rest)).afterPreamble = r.afterPreamble := by
  have hline : c ≠ '\n' := by rcases hc with rfl | ⟨rfl, -⟩ <;> decide
  have hlength : preambleLength (r.column == 0) false r.rest = lineLength r.rest +
      preambleLength ((r.skip (lineLength r.rest)).column == 0) false
        (r.skip (lineLength r.rest)).rest := by
    have hskipping : preambleLength (r.column == 0) false r.rest =
        preambleLength false true r.rest := by
      have hmark : (false || c == '#' || (c == '%' && r.column == 0)) = true := by
        rcases hc with rfl | ⟨rfl, hcolumn⟩
        · rfl
        · simp [hcolumn]
      have hbreak : (c == '\n') = false := beq_eq_false_iff_ne.mpr hline
      simp only [hrest, preambleLength, hbreak, hmark, Bool.true_or, if_true, Bool.false_eq_true,
        if_false]
    rw [hskipping]
    exact preambleLength_skipping _ _ _
  rw [afterPreamble, afterPreamble, skip_skip, ← hlength]

theorem afterPreamble_afterTrivia (r : Reader) : r.afterTrivia.afterPreamble = r.afterPreamble := by
  induction r using triviaInduction with
  | space r c tail hrest hspace ih =>
      rw [← afterTrivia_space hrest hspace, ih, afterPreamble_space hrest hspace]
  | comment r tail hrest ih =>
      rw [← afterTrivia_comment hrest, ih, afterPreamble_line hrest (.inl rfl)]
  | none r htrivia => rw [afterTrivia_none htrivia]

theorem afterPreamble_none (htrivia : triviaLength r.rest = 0)
    (hline : (r.column == 0 && r.rest.head? == some '%') = false) : r.afterPreamble = r := by
  have hlength : preambleLength (r.column == 0) false r.rest = 0 := by
    cases hrest : r.rest with
    | nil => rfl
    | cons c tail =>
        obtain ⟨hspace, hmark⟩ := triviaLength_cons_eq_zero (hrest ▸ htrivia)
        rw [hrest] at hline
        rw [preambleLength]
        grind
  rw [afterPreamble, hlength, skip_zero]

end Reader

namespace ByteSource

open Reader

variable {source : Text} {r : Reader}

theorem directivesEnd_position (h : Stands source r) (htrivia : triviaLength r.rest = 0)
    {turns : Nat} (hturns : r.rest.length < turns) :
    (ofText source).directivesEnd turns (position source r) =
      .ok (position source r.afterPreamble) := by
  induction turns generalizing r with
  | zero => omega
  | succ turns ih =>
      rw [directivesEnd, column_position h, ok_bind, view_position h, head?_octets (by decide)]
      split
      next hline =>
        rw [Bool.and_eq_true, beq_iff_eq, beq_iff_eq] at hline
        obtain ⟨tail, hrest⟩ := List.head?_eq_some_iff.mp hline.2
        have hlater := h.skip (lineLength r.rest)
        have hshorter : (r.skip (lineLength r.rest)).afterTrivia.rest.length < turns := by
          have hle := afterTrivia_length_le (r.skip (lineLength r.rest))
          rw [skip_length, hrest, lineLength_cons (by decide), List.length_cons] at hle
          rw [hrest, List.length_cons] at hturns
          rw [hrest, lineLength_cons (by decide)]
          omega
        rw [lineEnd_position h, ok_bind, triviaEnd_position hlater, ok_bind,
          ih hlater.afterTrivia (triviaLength_drop _) hshorter, afterPreamble_afterTrivia,
          afterPreamble_line hrest (.inr ⟨rfl, hline.1⟩)]
      next hline =>
        rw [afterPreamble_none htrivia (by simpa using hline)]
        rfl

theorem preambleEnd_position (h : Stands source r) :
    (ofText source).preambleEnd (position source r) = .ok (position source r.afterPreamble) := by
  rw [preambleEnd, triviaEnd_position h, ok_bind,
    directivesEnd_position h.afterTrivia (triviaLength_drop _) (length_rest_lt h.afterTrivia),
    afterPreamble_afterTrivia]

end ByteSource

end LosslessYaml
