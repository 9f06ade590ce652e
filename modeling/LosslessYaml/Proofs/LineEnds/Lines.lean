import LosslessYaml.Proofs.LineEnds.Lookahead

/-!
# Scalars over lines that end in a carriage return

How far a scalar goes on over lines, in a text and in the converted text.  A literal scalar takes
the carriage return of its last line with it.  A plain scalar covers the same lines, unless it ends
before a broken key, which is no key in the converted text.  Where it ends then, only white space
stands before that line.
-/

namespace LosslessYaml.Lookahead

open Text

/-! ## Lines -/

theorem isBlankLine_crlf (text : Text) : isBlankLine (crlf text) = isBlankLine text := by
  induction text using lineInduction with
  | nil => rfl
  | newline rest _ => simp [isBlankLine, isWhitespace]
  | other c rest hc ih =>
      rw [crlf_cons hc]
      simp only [isBlankLine, bne_iff_ne, ne_eq, hc, not_false_eq_true, List.takeWhile_cons_of_pos,
        List.all_cons] at ih ⊢
      rw [ih]

theorem lineEnds_crlf (text : Text) : lineEnds (crlf text) = lineEnds text := by
  induction text using lineInduction with
  | nil => rfl
  | newline rest _ => simp [lineEnds, isTrailing]
  | other c rest hc ih =>
      rw [crlf_cons hc]
      by_cases hp : isTrailing c = true
      · simpa [lineEnds, hp] using ih
      · simp [lineEnds, hp]

/-- The carriage return that a scalar takes with it if a line feed follows. -/
def returnLength (after : Text) : Nat := if after.head? == some '\n' then 1 else 0

theorem lineLength_crlf (text : Text) :
    lineLength (crlf text) =
      crlfLength text (lineLength text) + returnLength (text.drop (lineLength text)) := by
  induction text using lineInduction with
  | nil => rfl
  | newline rest _ => simp [lineLength, returnLength]
  | other c rest hc ih =>
      have hcons : lineLength (c :: rest) = lineLength rest + 1 := by simp [lineLength, hc]
      have hcons' : lineLength (c :: crlf rest) = lineLength (crlf rest) + 1 := by
        simp [lineLength, hc]
      rw [crlf_cons hc, hcons, hcons', crlfLength_cons hc, List.drop_succ_cons, ih]
      omega


/-! ## Scalars over several lines -/

/-- The line before which a scalar over several lines ends, if it ends before a line that is not
blank. -/
def stopLine? (next : Text → Option (Nat × Bool)) : Text → Option Text
  | [] => none
  | c :: rest =>
    if c == '\n' then
      if isBlankLine rest then stopLine? next rest
      else
        match next rest with
        | none => some rest
        | some (_, true) => stopLine? next rest
        | some (_, false) => none
    else stopLine? next rest

theorem stopLine?_newline (next : Text → Option (Nat × Bool)) (rest : Text) :
    stopLine? next ('\n' :: rest) =
      if isBlankLine rest then stopLine? next rest
      else
        match next rest with
        | none => some rest
        | some (_, true) => stopLine? next rest
        | some (_, false) => none := by
  rw [stopLine?, if_pos (by rfl)]

theorem stopLine?_other {c : Char} (hc : c ≠ '\n') (next : Text → Option (Nat × Bool))
    (rest : Text) : stopLine? next (c :: rest) = stopLine? next rest := by
  rw [stopLine?, if_neg (by simpa using hc)]

/-- How far a line reaches in the converted text that starts after a break. -/
theorem crlfLength_append_line (front rest : Text) (n : Nat) :
    crlfLength (front ++ '\n' :: rest) (front.length + 1 + n) =
      (crlf front).length + 2 + crlfLength rest n := by
  have hreach := crlfLength_append (front ++ ['\n']) rest n
  simpa [crlf_append] using hreach

theorem drop_append_line (front rest : Text) (n : Nat) :
    (front ++ '\n' :: rest).drop (front.length + 1 + n) = rest.drop n := by
  rw [show front ++ '\n' :: rest = (front ++ ['\n']) ++ rest by simp,
    show front.length + 1 = (front ++ ['\n']).length by simp, List.drop_length_add_append]

/-- A scalar that goes on over lines covers the same lines, unless it ends before a line that is a
`stop` in the first text only.  `more` is what it takes beyond the converted part of the text, which
depends on what follows. -/
theorem extendLines_crlf {next : Text → Option (Nat × Bool)} (more : Text → Nat)
    {stop : Text → Prop}
    (hnext : ∀ line, (next (crlf line) = (next line).map fun found =>
        (crlfLength line found.1 + more (line.drop found.1), found.2)) ∨
      (next line = none ∧ stop line)) (front text : Text) (reached : Nat) :
    extendLines next
        (crlfLength (front ++ text) reached + more ((front ++ text).drop reached))
        (crlf front).length (crlf text) =
      crlfLength (front ++ text) (extendLines next reached front.length text) +
        more ((front ++ text).drop (extendLines next reached front.length text)) ∨
    ∃ line, stopLine? next text = some line ∧ stop line := by
  -- `front` holds what was passed, since offsets are counted from where the scalar starts.
  induction text using lineInduction generalizing front reached with
  | nil => exact .inl rfl
  | newline rest ih =>
      have ih := ih (front ++ ['\n'])
      have hoffset : (crlf (front ++ ['\n'])).length = (crlf front).length + 2 := by
        simp [crlf_append]
      have hlength : (front ++ ['\n']).length = front.length + 1 := by simp
      have htext : front ++ ['\n'] ++ rest = front ++ '\n' :: rest := by simp
      rw [hoffset, hlength, htext] at ih
      rw [crlf_newline, extendLines_other (by decide), extendLines_newline, isBlankLine_crlf,
        extendLines_newline, stopLine?_newline]
      split
      · exact ih reached
      · obtain hsame | ⟨hnone, hstop⟩ := hnext rest
        · rw [hsame]
          cases hfound : next rest with
          | none => exact .inl rfl
          | some found =>
              obtain ⟨n, goesOn⟩ := found
              have hsum : (crlf front).length + 1 + 1 + (crlfLength rest n + more (rest.drop n)) =
                  crlfLength (front ++ '\n' :: rest) (front.length + 1 + n) +
                    more ((front ++ '\n' :: rest).drop (front.length + 1 + n)) := by
                rw [crlfLength_append_line, drop_append_line]
                omega
              cases goesOn with
              | true =>
                  show extendLines next
                    ((crlf front).length + 1 + 1 + (crlfLength rest n + more (rest.drop n)))
                    ((crlf front).length + 2) (crlf rest) = _ ∨ _
                  rw [hsum]
                  exact ih (front.length + 1 + n)
              | false => exact .inl hsum
        · exact .inr ⟨rest, by rw [hnone], hstop⟩
  | other c rest hc ih =>
      have ih := ih (front ++ [c])
      have hoffset : (crlf (front ++ [c])).length = (crlf front).length + 1 := by
        simp [crlf_append, crlf_cons hc]
      have hlength : (front ++ [c]).length = front.length + 1 := by simp
      have htext : front ++ [c] ++ rest = front ++ c :: rest := by simp
      rw [hoffset, hlength, htext] at ih
      rw [crlf_cons hc, extendLines_other hc, extendLines_other hc, stopLine?_other hc]
      exact ih reached

theorem literalLine_crlf (floor : Nat) (line : Text) :
    literalLine floor (crlf line) = (literalLine floor line).map fun found =>
      (crlfLength line found.1 + returnLength (line.drop found.1), found.2) := by
  rw [literalLine, literalLine, indentation_crlf, atDashes_crlf, atDots_crlf, lineLength_crlf]
  split <;> rfl

/-- A literal scalar takes the carriage return of its last line with it. -/
theorem literalLength_crlf (floor : Nat) (text : Text) :
    literalLength floor (crlf text) = crlfLength text (literalLength floor text) +
      returnLength (text.drop (literalLength floor text)) := by
  have hlines := @extendLines_crlf _ returnLength (fun _ => False)
    (fun line => .inl (literalLine_crlf floor line)) [] text (lineLength text)
  rw [List.nil_append, ← lineLength_crlf] at hlines
  obtain hlines | ⟨-, -, hstop⟩ := hlines
  · exact hlines
  · exact hstop.elim

theorem plainLine_crlf (floor : Nat) {line : Text}
    (h : atBrokenKey (line.drop (indentation line)) = false) :
    plainLine floor (crlf line) = (plainLine floor line).map fun found =>
      (crlfLength line found.1, found.2) := by
  have hbody : (crlf line).drop (indentation line) = crlf (line.drop (indentation line)) := by
    have hdrop := drop_crlf line (indentation line)
    rwa [crlfLength_indentation] at hdrop
  have hafter : (crlf (line.drop (indentation line))).drop
      (plainLineLength (line.drop (indentation line))) =
        crlf ((line.drop (indentation line)).drop
          (plainLineLength (line.drop (indentation line)))) := by
    have hdrop := drop_crlf (line.drop (indentation line))
      (plainLineLength (line.drop (indentation line)))
    rwa [crlfLength_plainLine] at hdrop
  have hlength : crlfLength line (indentation line +
      plainLineLength (line.drop (indentation line))) =
        indentation line + plainLineLength (line.drop (indentation line)) := by
    rw [crlfLength_add, crlfLength_indentation, crlfLength_plainLine]
  simp only [plainLine, indentation_crlf, hbody, head?_crlf (c := '#') (by decide) (by decide),
    atDashes_crlf, atDots_crlf, atKey_crlf h, plainLineLength_crlf, hafter, lineEnds_crlf]
  split
  · rfl
  · simp [hlength]

/-- A line continues both scalars alike, or a broken key in it ends the first one. -/
theorem plainLine_crlf_or (floor : Nat) (line : Text) :
    (plainLine floor (crlf line) = (plainLine floor line).map fun found =>
      (crlfLength line found.1, found.2)) ∨
    (plainLine floor line = none ∧
      (floor ≤ indentation line ∧ atBrokenKey (line.drop (indentation line)) = true)) := by
  by_cases hbroken : atBrokenKey (line.drop (indentation line)) = true
  · by_cases hfloor : floor ≤ indentation line
    · refine .inr ⟨?_, hfloor, hbroken⟩
      simp [plainLine, (atKey_of_atBrokenKey hbroken).1]
    · left
      have hshort : indentation line < floor := by omega
      simp [plainLine, indentation_crlf, hshort]
  · exact .inl (plainLine_crlf floor (Bool.eq_false_iff.mpr hbroken))

/-- A plain scalar covers the same lines, unless it ends before a broken key. -/
theorem plainBlockLength_crlf (floor : Nat) (text : Text) :
    plainBlockLength floor (crlf text) = crlfLength text (plainBlockLength floor text) ∨
      lineEnds (text.drop (plainLineLength text)) = true ∧
        ∃ line, stopLine? (plainLine floor) text = some line ∧
          floor ≤ indentation line ∧ atBrokenKey (line.drop (indentation line)) = true := by
  have hlines := extendLines_crlf (fun _ => 0) (plainLine_crlf_or floor) [] text
    (plainLineLength text)
  rw [List.nil_append, crlfLength_plainLine] at hlines
  have hafter : (crlf text).drop (plainLineLength text) =
      crlf (text.drop (plainLineLength text)) := by
    have hdrop := drop_crlf text (plainLineLength text)
    rwa [crlfLength_plainLine] at hdrop
  simp only [plainBlockLength, plainLineLength_crlf, hafter, lineEnds_crlf]
  by_cases hends : lineEnds (text.drop (plainLineLength text)) = true
  · simp only [hends, if_true, true_and]
    exact hlines
  · simp only [hends, Bool.false_eq_true, if_false]
    exact .inl (crlfLength_plainLine text).symm

/-! ## Where a scalar over several lines ends -/

/-- Only white space stands between the first `reached` characters and the end of the line that
comes after `front`. -/
def WhiteTo (front : Text) (reached : Nat) (text : Text) : Prop :=
  ∀ start tail, text = start ++ '\n' :: tail → '\n' ∉ start →
    reached ≤ (front ++ start).length ∧ ∀ c ∈ (front ++ start).drop reached, isWhitespace c = true

theorem whiteTo_of_lineEnds {text : Text} {n : Nat} (hline : '\n' ∉ text.take n)
    (hends : lineEnds (text.drop n) = true) : WhiteTo [] n text := by
  have htrailing : ∀ (start : Text) {tail : Text}, '\n' ∉ start →
      lineEnds (start ++ '\n' :: tail) = true → ∀ c ∈ start, isTrailing c = true := by
    intro start tail hstart hends
    induction start with
    | nil => simp
    | cons c start ih =>
        rw [List.mem_cons, not_or] at hstart
        cases hc : isTrailing c with
        | true =>
            have hrest := ih hstart.2 (by simpa [lineEnds, hc] using hends)
            simpa [hc] using hrest
        | false => simp [lineEnds, hc, Ne.symm hstart.1] at hends
  intro start tail htext hstart
  have hle : n ≤ start.length := by
    refine Classical.byContradiction fun hlt => hline ?_
    have htake : text.take (start.length + 1) = start ++ ['\n'] := by
      rw [htext, List.take_length_add_append]
      rfl
    have hprefix := @List.take_prefix_take_left _ text _ _ (by omega : start.length + 1 ≤ n)
    rw [htake] at hprefix
    exact hprefix.subset (by simp)
  refine ⟨hle, fun c hc => ?_⟩
  rw [List.nil_append] at hc
  rw [htext, List.drop_append_of_le_length hle] at hends
  have hmem := htrailing (start.drop n) (fun h => hstart (List.mem_of_mem_drop h)) hends c hc
  simp only [isTrailing, Bool.or_eq_true, beq_iff_eq] at hmem
  obtain (rfl | rfl) | rfl := hmem <;> rfl

theorem WhiteTo.other {front rest : Text} {reached : Nat} {c : Char} (hc : c ≠ '\n')
    (h : WhiteTo front reached (c :: rest)) : WhiteTo (front ++ [c]) reached rest := by
  intro start tail hrest hstart
  have hline := h (c :: start) tail (by rw [hrest, List.cons_append]) (by simp [Ne.symm hc, hstart])
  rwa [List.append_assoc]

theorem WhiteTo.blank {front rest : Text} {reached : Nat} (h : WhiteTo front reached ('\n' :: rest))
    (hblank : isBlankLine rest = true) : WhiteTo (front ++ ['\n']) reached rest := by
  intro start tail hrest hstart
  obtain ⟨hle, hwhite⟩ := h [] rest rfl (by simp)
  rw [List.append_nil] at hle hwhite
  have hline : rest.takeWhile (· != '\n') = start := by
    have hall : ∀ c ∈ start, (c != '\n') = true := by
      intro c hc
      simpa using ne_of_mem_of_not_mem hc hstart
    rw [hrest, List.takeWhile_append_of_pos hall]
    simp
  rw [isBlankLine, hline, List.all_eq_true] at hblank
  rw [List.append_assoc]
  refine ⟨by simp only [List.length_append]; omega, fun c hc => ?_⟩
  rw [List.drop_append_of_le_length hle] at hc
  simp only [List.singleton_append, List.mem_append, List.mem_cons] at hc
  obtain hc | rfl | hc := hc
  · exact hwhite c hc
  · rfl
  · exact hblank c hc

theorem WhiteTo.line {rest : Text} {n : Nat} (h : WhiteTo [] n rest) (front : Text) :
    WhiteTo front (front.length + n) rest := by
  intro start tail hrest hstart
  obtain ⟨hle, hwhite⟩ := h start tail hrest hstart
  rw [List.nil_append] at hle hwhite
  rw [List.length_append, List.drop_length_add_append]
  exact ⟨by omega, hwhite⟩

/-- Between the end of a scalar over several lines and the line that ends it there is only white
space. -/
theorem drop_extendLines {next : Text → Option (Nat × Bool)}
    (hnext : ∀ {line n}, next line = some (n, true) → WhiteTo [] n line) {line : Text}
    (front : Text) {text : Text} (hstop : stopLine? next text = some line) {reached : Nat}
    (hreached : WhiteTo front reached text) :
    ∃ gap, (front ++ text).drop (extendLines next reached front.length text) = gap ++ '\n' :: line ∧
      ∀ c ∈ gap, isWhitespace c = true := by
  -- Only white space stands behind what was reached, up to the end of the line that is passed.
  induction text using lineInduction generalizing front reached with
  | nil => cases hstop
  | newline rest ih =>
      have htext : front ++ ['\n'] ++ rest = front ++ '\n' :: rest := by simp
      have hlength : (front ++ ['\n']).length = front.length + 1 := by simp
      have ih : stopLine? next rest = some line → ∀ reached,
          WhiteTo (front ++ ['\n']) reached rest →
          ∃ gap, (front ++ '\n' :: rest).drop (extendLines next reached (front.length + 1) rest) =
            gap ++ '\n' :: line ∧ ∀ c ∈ gap, isWhitespace c = true := by
        intro hstop reached hreached
        rw [← htext, ← hlength]
        exact ih _ hstop hreached
      rw [stopLine?_newline] at hstop
      rw [extendLines_newline]
      cases hblank : isBlankLine rest with
      | true =>
          rw [hblank, if_pos rfl] at hstop
          exact ih hstop reached (hreached.blank hblank)
      | false =>
          rw [hblank, if_neg (by simp)] at hstop
          rw [if_neg (by simp)]
          cases hfound : next rest with
          | none =>
              obtain ⟨hle, hwhite⟩ := hreached [] rest rfl (by simp)
              rw [hfound] at hstop
              cases hstop
              rw [List.append_nil] at hle hwhite
              exact ⟨front.drop reached, List.drop_append_of_le_length hle, hwhite⟩
          | some found =>
              obtain ⟨n, _ | _⟩ := found
              · simp [hfound] at hstop
              · simp only [hfound] at hstop
                have hline := (hnext hfound).line (front ++ ['\n'])
                rw [hlength] at hline
                exact ih hstop _ hline
  | other c rest hc ih =>
      have hrest := @ih (front ++ [c]) (by rwa [stopLine?_other hc] at hstop) reached
        (hreached.other hc)
      rw [extendLines_other hc]
      rwa [List.append_assoc, List.length_append] at hrest

theorem whiteTo_of_plainLine {floor n : Nat} {line : Text}
    (h : plainLine floor line = some (n, true)) : WhiteTo [] n line := by
  refine whiteTo_of_lineEnds (plainLine_eq_some h).2.1 ?_
  obtain ⟨-, -, rfl, hends⟩ := plainLine_inv h
  rw [List.drop_drop] at hends
  exact hends.symm

theorem drop_plainBlockLength {floor : Nat} {text line : Text}
    (hends : lineEnds (text.drop (plainLineLength text)) = true)
    (hstop : stopLine? (plainLine floor) text = some line) :
    ∃ gap, text.drop (plainBlockLength floor text) = gap ++ '\n' :: line ∧
      ∀ c ∈ gap, isWhitespace c = true := by
  have hfirst : WhiteTo [] (plainLineLength text) text :=
    whiteTo_of_lineEnds (notMem_run _ (by simp) _) hends
  simp only [plainBlockLength, hends, if_true]
  exact drop_extendLines whiteTo_of_plainLine [] hstop hfirst

end LosslessYaml.Lookahead
