import LosslessYaml.Proofs.Indentation.Reading

/-!
# Nesting by columns

The tree of a source follows the columns of the source.  The keys of a block mapping start at one
column and the dashes of a block sequence stand at one column.  A block collection in another one is
further to the right, and so is every line that a plain or literal scalar in it goes on with.  The
one exception is a sequence at the column of the key that it is the value of, and these sequences
are the indentless ones.

Main statement: `Stream.indented_of_parse`.
-/

namespace LosslessYaml

open Text Lookahead

/-! ## The lines of a scalar -/

namespace Lookahead

private theorem newline_mem_take {start line : Text} {n : Nat} (h : start.length < n) :
    '\n' ∈ (start ++ '\n' :: line).take n := by
  rw [List.take_append]
  obtain ⟨k, hk⟩ : ∃ k, n - start.length = k + 1 := ⟨n - start.length - 1, by omega⟩
  simp [hk]

private theorem eq_zero_of_newline {rest : Text} {n : Nat} (h : '\n' ∉ ('\n' :: rest).take n) :
    n = 0 := by
  cases n with
  | zero => rfl
  | succ n => simp at h

/-- A line of a scalar over several lines is blank, or was asked for.  If it says that the scalar
does not go on, the scalar ends with it. -/
theorem next_of_lt_extendLines {next : Text → Option (Nat × Bool)}
    (hnext : ∀ {line n goesOn}, next line = some (n, goesOn) → '\n' ∉ line.take n)
    {start line : Text} (hblank : isBlankLine line = false) {reached offset : Nat}
    (hreached : '\n' ∉ (start ++ '\n' :: line).take (reached - offset))
    (hlt : offset + start.length < extendLines next reached offset (start ++ '\n' :: line)) :
    ∃ n goesOn, next line = some (n, goesOn) ∧ (goesOn = false →
      extendLines next reached offset (start ++ '\n' :: line) = offset + (start.length + 1 + n)) := by
  -- The part that was reached is within a line, so a line break is past it when it is met.
  induction start generalizing reached offset with
  | nil =>
      have hpast := eq_zero_of_newline hreached
      rw [List.nil_append, extendLines_newline, if_neg (by simp [hblank])] at hlt ⊢
      cases hfound : next line with
      | none =>
          simp only [hfound] at hlt
          omega
      | some found =>
          obtain ⟨n, _ | _⟩ := found
          · exact ⟨n, false, rfl, fun _ => by simp only [List.length_nil]; omega⟩
          · exact ⟨n, true, rfl, nofun⟩
  | cons c start ih =>
      rw [List.cons_append] at hreached hlt ⊢
      have hshift : ∀ n, offset + 1 + (start.length + 1 + n) =
          offset + ((c :: start).length + 1 + n) := by
        intro n
        rw [List.length_cons]
        omega
      rw [List.length_cons] at hlt
      simp only [← hshift]
      by_cases hc : c = '\n'
      · subst hc
        have hpast := eq_zero_of_newline hreached
        rw [extendLines_newline] at hlt ⊢
        cases hempty : isBlankLine (start ++ '\n' :: line) with
        | true =>
            rw [hempty, if_pos rfl] at hlt
            rw [if_pos rfl]
            exact ih (by simp [show reached - (offset + 1) = 0 by omega]) (by omega)
        | false =>
            rw [hempty, if_neg (by simp)] at hlt
            rw [if_neg (by simp)]
            cases hfirst : next (start ++ '\n' :: line) with
            | none =>
                simp only [hfirst] at hlt
                omega
            | some found =>
                have hline := @hnext _ found.1 found.2 hfirst
                obtain ⟨m, _ | _⟩ := found
                · -- this line break would be within the line that was found before it
                  simp only [hfirst] at hlt
                  exact absurd (newline_mem_take (by omega)) hline
                · simp only [hfirst] at hlt ⊢
                  refine ih ?_ (by omega)
                  rw [Nat.add_sub_cancel_left]
                  exact hline
      · rw [extendLines_other hc] at hlt ⊢
        refine ih (fun hmem => hreached ?_) (by omega)
        cases hreach : reached - offset with
        | zero => simp [show reached - (offset + 1) = 0 by omega] at hmem
        | succ k =>
            rw [show reached - (offset + 1) = k by omega] at hmem
            exact List.mem_cons_of_mem c hmem

/-- A line of a plain scalar is blank, or continues it. -/
theorem plainLine_of_lt {floor : Nat} {start line : Text} (hblank : isBlankLine line = false)
    (h : start.length < plainBlockLength floor (start ++ '\n' :: line)) :
    ∃ n goesOn, plainLine floor line = some (n, goesOn) ∧
      (goesOn = false →
        plainBlockLength floor (start ++ '\n' :: line) = start.length + 1 + n) := by
  have hfirst : '\n' ∉ (start ++ '\n' :: line).take (plainLineLength (start ++ '\n' :: line)) :=
    notMem_run _ (by simp) _
  unfold plainBlockLength at h ⊢
  dsimp only at h ⊢
  split at h
  next hends =>
    rw [if_pos hends]
    have hlines := next_of_lt_extendLines (fun h => (plainLine_eq_some h).2.1) hblank hfirst
      (by rwa [Nat.zero_add])
    simpa only [Nat.zero_add] using hlines
  next => exact absurd (newline_mem_take h) hfirst

/-- A line of a literal scalar is blank, or belongs to it. -/
theorem literalLine_of_lt {floor : Nat} {start line : Text} (hblank : isBlankLine line = false)
    (h : start.length < literalLength floor (start ++ '\n' :: line)) :
    ∃ n goesOn, literalLine floor line = some (n, goesOn) := by
  obtain ⟨n, goesOn, hline, -⟩ := next_of_lt_extendLines (fun h => (literalLine_eq_some h).2.1)
    hblank (newline_notMem_takeWhile rfl _) (by rwa [Nat.zero_add])
  exact ⟨n, goesOn, hline⟩

theorem le_indentation_of_literalLine {floor n : Nat} {line : Text} {goesOn : Bool}
    (h : literalLine floor line = some (n, goesOn)) : floor ≤ indentation line := by
  simp only [literalLine] at h
  grind

end Lookahead

/-! ## Indented nodes -/

/-- Every line that the text goes on with is blank, or starts with more spaces than the column has
bytes before it.  The last of these lines may go on after the text. -/
def LinesBeyond (column : Nat) (text after : Text) : Prop :=
  ∀ start line, text = start ++ '\n' :: line → isBlankLine (line ++ after) = false →
    column < indentation (line ++ after)

/-- A node stands where the collection around it asks for it, and so do the parts of the node. -/
def Spot.Indented (spot : Spot) : Prop :=
  match spot.node with
  | .scalar s =>
    s.style = .plain ∨ s.style = .literal ∨ s.style = .folded →
      ∀ outer ∈ spot.nesting.column?, LinesBeyond outer s.text spot.after
  | .aliasNode _ => True
  | .mapping m => m.Indented spot.nesting spot.column
  | .sequence q => q.Indented spot.nesting spot.column

/-- A plain scalar without text is not there; any other one has the length that was found. -/
theorem Scalar.Measured.plainLength {context : Option Nat} {after : Text} {s : Scalar}
    (h : s.Measured context after) (hstyle : s.style = .plain) (hne : s.text ≠ []) {floor : Nat}
    (hcontext : context = some floor) :
    plainBlockLength floor (s.text ++ after) = s.text.length := by
  have hlegible := h.plain
  simpa [Scalar.legible, hstyle, hne, hcontext] using hlegible

theorem Scalar.Measured.linesBeyond {context : Option Nat} {after : Text} {s : Scalar}
    (h : s.Measured context after)
    (hstyle : s.style = .plain ∨ s.style = .literal ∨ s.style = .folded) {column : Nat}
    (hcontext : context = some (column + 1)) : LinesBeyond column s.text after := by
  intro start line htext hblank
  have hsplit : s.text ++ after = start ++ '\n' :: (line ++ after) := by simp [htext]
  have hlt : start.length < s.text.length := by
    rw [htext, List.length_append, List.length_cons]
    omega
  rcases hstyle with hplain | hliteral
  · have hlength := h.plainLength hplain (by simp [htext]) hcontext
    rw [hsplit] at hlength
    obtain ⟨n, goesOn, hline, -⟩ := plainLine_of_lt hblank (hlength ▸ hlt)
    exact (plainLine_inv hline).1
  · have hlength := h.literal hliteral _ hcontext
    rw [hsplit] at hlength
    obtain ⟨n, goesOn, hline⟩ := literalLine_of_lt hblank (hlength ▸ hlt)
    exact le_indentation_of_literalLine hline

theorem Spot.AsRead.indented {spot : Spot} (h : spot.AsRead) : spot.Indented := by
  obtain ⟨nesting, column, node, after⟩ := spot
  cases node with
  | aliasNode | mapping | sequence => exact h
  | scalar s =>
      intro hstyle outer houter
      exact Scalar.Measured.linesBeyond h hstyle (Nesting.context_of_column? houter)

/-- Every node of a source that is read stands where the collection around it asks for it.  Columns
are taken in the tree whose text is the source.  That tree is the stream once its anchors are
unstacked, and the stream itself if it prints as the source. -/
theorem Stream.indented_of_parse {source : Text} {stream : Stream}
    (h : Stream.parse source = .ok stream) :
    ∃ full : Stream, full.print = source ∧ full.unstacked = stream ∧
      (stream.print = source → full = stream) ∧ ∀ spot ∈ full.spots, spot.Indented := by
  obtain ⟨full, hprint, hunstacked, hsame, hspots⟩ := Stream.exists_asRead_of_parse h
  exact ⟨full, hprint, hunstacked, hsame, fun spot hspot => (hspots spot hspot).indented⟩

/-- A mapping on the line of its document's mark, an indentless sequence, anchors on lines of their
own of which one is dropped, a sequence in a sequence, and scalars over several lines. -/
theorem Stream.indented_stacked_anchors :
    ∃ stream full : Stream,
      Stream.parse
        "\ufeff--- a:\n    - &x\n      &y\n      b: c\n\n       d\n    - - |\n        e\n".toList =
        .ok stream ∧
      stream.print =
        "\ufeff--- a:\n    - &x\n      b: c\n\n       d\n    - - |\n        e\n".toList ∧
      full.print =
        "\ufeff--- a:\n    - &x\n      &y\n      b: c\n\n       d\n    - - |\n        e\n".toList ∧
      full.unstacked = stream ∧ ∀ spot ∈ full.spots, spot.Indented := by
  have hprint : (Stream.parse
      "\ufeff--- a:\n    - &x\n      &y\n      b: c\n\n       d\n    - - |\n        e\n".toList
      ).toOption.map Stream.print =
      some "\ufeff--- a:\n    - &x\n      b: c\n\n       d\n    - - |\n        e\n".toList := by
    decide +kernel
  cases hparse : Stream.parse
      "\ufeff--- a:\n    - &x\n      &y\n      b: c\n\n       d\n    - - |\n        e\n".toList with
  | error error =>
      rw [hparse] at hprint
      cases hprint
  | ok stream =>
      rw [hparse] at hprint
      obtain ⟨full, hfull, hunstacked, -, hspots⟩ := Stream.indented_of_parse hparse
      exact ⟨stream, full, rfl, Option.some.inj hprint, hfull, hunstacked, hspots⟩

end LosslessYaml
