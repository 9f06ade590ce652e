import LosslessYaml.Proofs.Reading.Ahead
import LosslessYaml.Recipe.ChangeValue

/-!
# Values without a problem

`ValueProblem.find?` is meant to accept the texts that are read back as plain scalars.  It looks at
the text alone, and what it finds out about the text is right: a value without a problem is no node
of another kind, wherever it is put.  Whether it is also read back whole depends on the text after
it, which the check does not see; so a plain scalar is what it becomes when its length is found to
be its own (`Sound.opening_plain`).
-/

namespace LosslessYaml

open Text Lookahead

theorem Text.hasInfix_iff {part text : Text} : hasInfix part text = true ↔ part <:+: text := by
  induction text with
  | nil => simp [hasInfix]
  | cons c text ih =>
      rw [hasInfix, Bool.or_eq_true, ih, List.isPrefixOf_iff_prefix, List.infix_cons_iff]

namespace ValueProblem

/-- What the check of a value establishes. -/
structure Sound (value : Text) : Prop where
  oneLine : '\n' ∉ value ∧ '\r' ∉ value
  visible : ∀ c ∈ value.head?, isWhitespace c = false
  indicator : ∀ c ∈ value.head?, isIndicator c = false
  mark : startsWithMark value = false
  colon : hasInfix [':', ' '] value = false ∧ hasInfix [':', '\t'] value = false ∧
    value.getLast? ≠ some ':'
  flow : ∀ c ∈ value, isFlowIndicator c = false

/-- A trimmed text starts with a visible character. -/
private theorem visible_of_trim {c : Char} {rest : Text} (h : trim (c :: rest) = c :: rest) :
    isWhitespace c = false := by
  refine Bool.eq_false_iff.mpr fun hc => ?_
  have hlength := congrArg List.length h
  have hle : ∀ text : Text, (text.dropWhile isWhitespace).length ≤ text.length := fun text =>
    (List.dropWhile_suffix isWhitespace).length_le
  have hrest := hle rest
  have hreverse := hle (rest.dropWhile isWhitespace).reverse
  simp only [trim, List.dropWhile_cons, hc, if_true, List.length_reverse, List.length_cons]
    at hlength hreverse
  omega

theorem sound_of_find? {value : Text} (h : find? value = none) : Sound value := by
  unfold find? at h
  split at h
  next => simp at h
  next hline =>
  split at h
  next => simp at h
  next htrim =>
  simp only [Bool.or_eq_true, List.contains_iff_mem, not_or] at hline
  simp only [bne_iff_ne, ne_eq, Decidable.not_not] at htrim
  cases value with
  | nil =>
      exact ⟨hline, by simp, by simp, rfl, ⟨rfl, rfl, by simp⟩, by simp⟩
  | cons c rest =>
      simp only [List.isEmpty_cons, Bool.false_eq_true, if_false] at h
      split at h
      next => simp at h
      next hindicator =>
      split at h
      next => simp at h
      next hcolon =>
      split at h
      next => simp at h
      next =>
      split at h
      next => simp at h
      next hflow =>
      simp only [Bool.or_eq_true, not_or, Bool.not_eq_true, beq_eq_false_iff_ne, List.head?_cons,
        Option.any_some] at hindicator hcolon
      refine ⟨hline, ?_, ?_, hindicator.2, ⟨hcolon.1.1, hcolon.1.2, hcolon.2⟩, ?_⟩
      · simpa using visible_of_trim htrim
      · simpa using hindicator.1
      · simpa using hflow

namespace Sound

theorem triviaLength_eq_zero {value : Text} (h : Sound value) (hne : value ≠ []) (after : Text) :
    triviaLength (value ++ after) = 0 := by
  obtain ⟨c, rest, rfl⟩ := List.exists_cons_of_ne_nil hne
  have hvisible := h.visible c (by simp)
  have hindicator := h.indicator c (by simp)
  have hc : c ≠ '\n' ∧ c ≠ '#' ∧ c ≠ ' ' ∧ c ≠ '\t' ∧ c ≠ '\r' := by
    refine ⟨?_, ?_, ?_, ?_, ?_⟩ <;> rintro rfl <;> revert hvisible hindicator <;> decide
  simp [triviaLength, triviaFrom, isTrailing, hc]

theorem isFlowMark_eq_false {c : Char} {rest : Text} (h : Sound (c :: rest)) :
    isFlowMark c = false := by
  have hindicator := h.indicator c (by simp)
  have hflow := h.flow c (by simp)
  have hc : c ≠ '"' ∧ c ≠ '\'' ∧ c ≠ '*' ∧ c ≠ '!' ∧ c ≠ '&' := by
    refine ⟨?_, ?_, ?_, ?_, ?_⟩ <;> rintro rfl <;> revert hindicator <;> decide
  simp [isFlowMark, hflow, hc]

/-- A mark is one only before a break, and the check looked for one. -/
theorem atBreak_eq_false {c : Char} {rest : Text} (h : Sound (c :: rest))
    (hc : c = '-' ∨ c = '?' ∨ c = ':') (after : Text) : atBreak (rest ++ after) = false := by
  have hmark := h.mark
  have hline := h.oneLine
  cases rest with
  | nil => rcases hc with rfl | rfl | rfl <;> simp [startsWithMark] at hmark
  | cons d rest =>
      have hd : d ≠ ' ' ∧ d ≠ '\t' := by
        rcases hc with rfl | rfl | rfl <;> simpa [startsWithMark, isBlank] using hmark
      have hbreak : d ≠ '\n' ∧ d ≠ '\r' := by
        constructor <;> rintro rfl <;> simp at hline
      simp [atBreak, hd, hbreak]

/-- A value is a plain scalar, or the key of a mapping. -/
theorem opening_eq {value : Text} (h : Sound value) (hne : value ≠ []) (after : Text) :
    opening (value ++ after) =
      if plainKeyCloses (value ++ after) then .key else .plain := by
  obtain ⟨c, rest, rfl⟩ := List.exists_cons_of_ne_nil hne
  have hindicator := h.indicator c (by simp)
  have hvisible := h.visible c (by simp)
  have hflow := h.flow c (by simp)
  have hc : c ≠ '&' ∧ c ≠ '*' ∧ c ≠ '!' ∧ c ≠ '|' ∧ c ≠ '>' ∧ c ≠ '"' ∧ c ≠ '\'' ∧ c ≠ '#' := by
    refine ⟨?_, ?_, ?_, ?_, ?_, ?_, ?_, ?_⟩ <;> rintro rfl <;> revert hindicator <;> decide
  have hbracket : c ≠ '[' ∧ c ≠ '\x7b' := by
    constructor <;> rintro rfl <;> revert hflow <;> decide
  have hline : c ≠ '\n' := by
    rintro rfl
    revert hvisible
    decide
  have hquestion : (c == '?' && atBreak (rest ++ after)) = false := by
    by_cases hq : c = '?'
    · simp [h.atBreak_eq_false (.inr (.inl hq)) after]
    · simp [hq]
  have hdash : atDash (c :: (rest ++ after)) = false := by
    by_cases hd : c = '-'
    · subst hd
      exact h.atBreak_eq_false (.inl rfl) after
    · simp [atDash, hd]
  have hkey : atKey (c :: (rest ++ after)) = plainKeyCloses (c :: (rest ++ after)) := by
    rw [atKey_cons hc.1]
    simp [atBareKey, hc, hbracket, hline, hquestion, hdash]
  simp [opening, hc, hbracket, hquestion, hdash, hkey]

/-- No key is closed within a value. -/
private theorem plainKeyCloses_append_eq_false {value after : Text}
    (hline : '\n' ∉ value ∧ '\r' ∉ value)
    (hcolon : hasInfix [':', ' '] value = false ∧ hasInfix [':', '\t'] value = false ∧
      value.getLast? ≠ some ':') (hafter : plainKeyCloses after = false) :
    plainKeyCloses (value ++ after) = false := by
  induction value with
  | nil => exact hafter
  | cons c rest ih =>
      simp only [hasInfix, Bool.or_eq_false_iff, List.mem_cons, not_or] at hcolon hline
      have hrest : plainKeyCloses (rest ++ after) = false := by
        refine ih ⟨hline.1.2, hline.2.2⟩ ⟨hcolon.1.2, hcolon.2.1.2, ?_⟩
        cases rest with
        | nil => simp
        | cons d rest => simpa using hcolon.2.2
      have hbreak : (c == ':' && atBreak (rest ++ after)) = false := by
        by_cases hc : c = ':'
        · subst hc
          cases rest with
          | nil => simp at hcolon
          | cons d rest =>
              have hd : d ≠ ' ' ∧ d ≠ '\t' := by
                constructor <;> rintro rfl <;> simp [List.isPrefixOf] at hcolon
              have hd' : d ≠ '\n' ∧ d ≠ '\r' := by
                constructor <;> rintro rfl <;> simp at hline
              simp [atBreak, hd, hd']
        · simp [hc]
      simp [plainKeyCloses, hbreak, hrest]

/-- A value that is as long as it is found to be is a plain scalar. -/
theorem opening_plain {value after : Text} (h : Sound value) (hne : value ≠ []) {floor : Nat}
    (hlength : plainBlockLength floor (value ++ after) = value.length) :
    opening (value ++ after) = .plain := by
  have hfirst := plainLineLength_of_plainBlockLength h.oneLine.1 hlength
  have hafter := plainKeyCloses_of_plainLineLength (runLength_eq_zero_of_append hfirst)
  rw [h.opening_eq hne, plainKeyCloses_append_eq_false h.oneLine h.colon hafter]
  rfl

/-- A colon within a value does not end a key. -/
theorem colon_eq_false {value after : Text} (h : Sound value) {start tail : Text}
    (hvalue : value = start ++ ':' :: tail) :
    (atBreak (tail ++ after) || atFlowEnd (tail ++ after)) = false := by
  cases tail with
  | nil => exact absurd (by simp [hvalue]) h.colon.2.2
  | cons d tail =>
      have hspace : d ≠ ' ' := by
        rintro rfl
        have hcolon := h.colon.1
        rw [← Bool.not_eq_true, hasInfix_iff] at hcolon
        exact hcolon ⟨start, tail, by simp [hvalue]⟩
      have htab : d ≠ '\t' := by
        rintro rfl
        have hcolon := h.colon.2.1
        rw [← Bool.not_eq_true, hasInfix_iff] at hcolon
        exact hcolon ⟨start, tail, by simp [hvalue]⟩
      have hline : d ≠ '\n' ∧ d ≠ '\r' := by
        constructor
        · rintro rfl
          exact h.oneLine.1 (by simp [hvalue])
        · rintro rfl
          exact h.oneLine.2 (by simp [hvalue])
      have hflow := h.flow d (by simp [hvalue])
      simp only [isFlowIndicator, Bool.or_eq_false_iff] at hflow
      simp [atBreak, atFlowEnd, hspace, htab, hline, hflow]

end Sound

end ValueProblem

end LosslessYaml
