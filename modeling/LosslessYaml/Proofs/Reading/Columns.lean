import LosslessYaml.Proofs.Reading.Ahead
import LosslessYaml.Proofs.Reading.Places

/-!
# Columns of nested nodes

A node in block context belongs to the entry or item before it by its column.  The column is asked
for where a line starts only; on the line of a dash or an anchor it is greater as a matter of
course, and on the line of a key nothing that nests by columns may start.

Main statement: `Reader.nested_of_stops`.
-/

namespace LosslessYaml.Reader

open Text Lookahead

variable {floor : Nat} {place : Place}

/-- A node on a line of its own was asked for its column. -/
theorem continues_of_stops {r : Reader} (hstop : r.stops floor place = false)
    (hline : r.trivia.contains '\n' = true) : r.afterTrivia.continues floor place = true := by
  simp only [stops, hline, Bool.true_and, Bool.or_eq_false_iff, Bool.not_eq_false'] at hstop
  exact hstop.2

/-- A node that may be a block collection is nested, or is a sequence at the column of its key. -/
theorem nested_of_stops {r : Reader} (hstop : r.stops floor place = false)
    (hplace : place ≠ .mappingValue → floor ≤ r.column)
    (hline : (place == .mappingValue && !r.trivia.contains '\n') = false) :
    floor ≤ r.afterTrivia.column ∨
      place = .mappingValue ∧ r.afterTrivia.column + 1 = floor ∧
        atDash r.afterTrivia.rest = true := by
  cases hbreak : r.trivia.contains '\n' with
  | true =>
      have hcontinues := continues_of_stops hstop hbreak
      simp only [continues, Bool.and_eq_true, Bool.or_eq_true, decide_eq_true_eq, beq_iff_eq]
        at hcontinues
      exact hcontinues.2.imp_right fun h => ⟨h.1.1, h.1.2, h.2⟩
  | false =>
      have hle : floor ≤ r.column := hplace (by
        rintro rfl
        rw [hbreak] at hline
        exact absurd hline (by decide))
      have hcolumn := @le_columnAfter r.trivia (by simpa using hbreak) r.column
      exact .inl (Nat.le_trans hle (Nat.le_trans (Nat.le_add_right _ _) hcolumn))

/-- An anchor's name takes columns of its line. -/
theorem anchorName_column {r after : Reader} {name tail : Text} (hopen : r.rest = '&' :: tail)
    (h : r.anchorName = .ok (name, after)) : r.column ≤ after.column := by
  have hname : '\n' ∉ '&' :: name := by simpa using newline_notMem_anchorName h
  rw [(anchorName_reads hopen h).column]
  exact Nat.le_trans (Nat.le_add_right _ _) (le_columnAfter hname r.column)

theorem dash_column {r : Reader} (h : atDash r.rest = true) :
    (r.skip 1).column = r.column + 1 := by
  obtain ⟨tail, htail⟩ := eq_dash_of_atDash h
  simp only [skip, htail, columnAfter, List.take_succ_cons, List.take_zero]
  rfl

end LosslessYaml.Reader
