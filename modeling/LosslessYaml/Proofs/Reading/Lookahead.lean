import LosslessYaml.Reading.Lookahead

/-!
# What lookahead tells

A length or an answer that looking ahead gives says something about the text it was given for.
This file collects these facts, one for each function, so that the proofs about readers cite them
and never look into the functions.
-/

namespace LosslessYaml.Lookahead

open Text

/-! ## Openings -/

/-- What a text starts with when a node of the given form starts there. -/
def Opening.Describes (text : Text) : Opening → Prop
  | .anchor => (∃ tail, text = '&' :: tail) ∧ atKey text = false
  | .aliasNode => ∃ tail, text = '*' :: tail
  | .tag => ∃ tail, text = '!' :: tail
  | .complexKey => ∃ tail, text = '?' :: tail ∧ atBreak tail = true
  | .flow => ∃ tail, text = '[' :: tail ∨ text = '\x7b' :: tail
  | .literal => ∃ tail, text = '|' :: tail
  | .folded => ∃ tail, text = '>' :: tail
  | .quoted quote =>
    (quote = '"' ∨ quote = '\'') ∧ (∃ tail, text = quote :: tail) ∧ atKey text = false
  | .item => atDash text = true
  | .key => atKey text = true
  | .plain => atKey text = false

theorem opening_describes (text : Text) : (opening text).Describes text := by
  match text with
  | [] => rfl
  | c :: rest =>
    unfold opening
    dsimp only
    split
    next h =>
      simp only [Bool.and_eq_true, beq_iff_eq, Bool.not_eq_true'] at h
      exact ⟨⟨rest, by rw [h.1]⟩, h.2⟩
    split
    next h => exact ⟨rest, by rw [eq_of_beq h]⟩
    split
    next h => exact ⟨rest, by rw [eq_of_beq h]⟩
    split
    next h =>
      simp only [Bool.and_eq_true, beq_iff_eq] at h
      exact ⟨rest, by rw [h.1], h.2⟩
    split
    next h =>
      simp only [Bool.or_eq_true, beq_iff_eq] at h
      exact ⟨rest, h.imp (fun h => by rw [h]) (fun h => by rw [h])⟩
    split
    next h => exact ⟨rest, by rw [eq_of_beq h]⟩
    split
    next h => exact ⟨rest, by rw [eq_of_beq h]⟩
    split
    next h =>
      simp only [Bool.and_eq_true, Bool.or_eq_true, beq_iff_eq, Bool.not_eq_true'] at h
      exact ⟨h.1, ⟨rest, rfl⟩, h.2⟩
    split
    next h => exact h
    split
    next h => exact h
    next h => exact Bool.eq_false_iff.mpr h

theorem describes_of_opening {text : Text} {form : Opening} (h : opening text = form) :
    form.Describes text := h ▸ opening_describes text

/-! ## Marks -/

theorem eq_dash_of_atDash {text : Text} (h : atDash text = true) : ∃ tail, text = '-' :: tail := by
  unfold atDash at h
  split at h
  next tail => exact ⟨tail, rfl⟩
  next => simp at h

theorem opening_item {text : Text} (h : atDash text = true) : opening text = .item := by
  obtain ⟨tail, rfl⟩ := eq_dash_of_atDash h
  simp [opening, h]

theorem eq_dashes_of_atDashes {text : Text} (h : atDashes text = true) :
    ∃ tail, text = '-' :: '-' :: '-' :: tail := by
  unfold atDashes at h
  split at h
  next tail => exact ⟨tail, rfl⟩
  next => simp at h

theorem eq_dots_of_atDots {text : Text} (h : atDots text = true) :
    ∃ tail, text = '.' :: '.' :: '.' :: tail := by
  unfold atDots at h
  split at h
  next tail => exact ⟨tail, rfl⟩
  next => simp at h

/-! ## Quoted texts -/

/-- The closing quote stands where a quoted text is said to end. -/
theorem drop_quotedLength {oneLine : Bool} {quote : Char} {text : Text} {n : Nat}
    (h : quotedLength oneLine quote text = some n) : ∃ tail, text.drop n = quote :: tail := by
  fun_induction quotedLength oneLine quote text generalizing n with
  | case1 => simp at h
  | case2 c hquote =>
      cases h
      exact ⟨[], by rw [eq_of_beq hquote]; rfl⟩
  | case3 => simp at h
  | case4 => simp at h
  | case5 c d rest _ _ ih =>
      obtain ⟨m, hm, rfl⟩ := Option.map_eq_some_iff.mp h
      exact ih hm
  | case6 c d rest _ _ hquote =>
      cases h
      exact ⟨d :: rest, by rw [eq_of_beq hquote]; rfl⟩
  | case7 c d rest _ _ _ ih =>
      obtain ⟨m, hm, rfl⟩ := Option.map_eq_some_iff.mp h
      exact ih hm

end LosslessYaml.Lookahead
