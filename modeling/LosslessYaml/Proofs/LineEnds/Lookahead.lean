import LosslessYaml.Proofs.Reading.Local

/-!
# Looking ahead at lines that end in a carriage return

A text whose lines end in a line feed, and the same text with a carriage return before each line
feed.  A lookahead answers the same question the same way for both, and the lengths that it finds
cover the same part of the text.  There is one exception here: an escaped line break in a
double-quoted text goes on to the next line only if it is a line feed, so that the text can be a key
in one form and not in the other.

Main definitions: `Text.crlf`, `Lookahead.atBrokenKey`.
-/

namespace LosslessYaml

namespace Text

/-- The text with a carriage return before each line feed. -/
def crlf : Text → Text
  | [] => []
  | c :: rest => if c == '\n' then '\r' :: '\n' :: crlf rest else c :: crlf rest

@[simp] theorem crlf_nil : crlf [] = [] := rfl

@[simp] theorem crlf_newline (rest : Text) : crlf ('\n' :: rest) = '\r' :: '\n' :: crlf rest := rfl

theorem crlf_cons {c : Char} (hc : c ≠ '\n') (rest : Text) : crlf (c :: rest) = c :: crlf rest := by
  simp [crlf, hc]

/-- Induction on a text that tells line feeds from other characters. -/
theorem lineInduction {motive : Text → Prop} (nil : motive [])
    (newline : ∀ rest, motive rest → motive ('\n' :: rest))
    (other : ∀ c rest, c ≠ '\n' → motive rest → motive (c :: rest)) (text : Text) :
    motive text := by
  induction text with
  | nil => exact nil
  | cons c rest ih =>
      by_cases hc : c = '\n'
      · subst hc
        exact newline rest ih
      · exact other c rest hc ih

theorem crlf_append (first second : Text) : crlf (first ++ second) = crlf first ++ crlf second := by
  induction first using lineInduction with
  | nil => rfl
  | newline rest ih => simp [ih]
  | other c rest hc ih => simp [crlf_cons hc, ih]

/-- A text on one line stays as it is. -/
theorem crlf_eq_self {text : Text} (h : '\n' ∉ text) : crlf text = text := by
  induction text using lineInduction with
  | nil => rfl
  | newline rest _ => simp at h
  | other c rest hc ih => rw [crlf_cons hc, ih (by simp_all)]

@[simp] theorem crlf_eq_nil_iff {text : Text} : crlf text = [] ↔ text = [] := by
  cases text using lineInduction with
  | nil => simp
  | newline rest => simp
  | other c rest hc => simp [crlf_cons hc]

/-- A converted text does not start with a line feed. -/
theorem head?_crlf_ne (text : Text) : (crlf text).head? ≠ some '\n' := by
  cases text using lineInduction with
  | nil => simp
  | newline rest => simp
  | other c rest hc => simpa [crlf_cons hc] using hc

/-- Converted texts are equal only if the texts are. -/
theorem crlf_injective {first second : Text} (h : crlf first = crlf second) : first = second := by
  induction first using lineInduction generalizing second with
  | nil => exact (crlf_eq_nil_iff.mp h.symm).symm
  | newline first ih =>
      cases second using lineInduction with
      | nil => cases h
      | newline second =>
          rw [crlf_newline, crlf_newline, List.cons_inj_right, List.cons_inj_right] at h
          rw [ih h]
      | other c second hc =>
          rw [crlf_newline, crlf_cons hc] at h
          exact absurd (by rw [← (List.cons.inj h).2]; rfl) (head?_crlf_ne second)
  | other c first hc ih =>
      cases second using lineInduction with
      | nil => rw [crlf_cons hc] at h; cases h
      | newline second =>
          rw [crlf_newline, crlf_cons hc] at h
          exact absurd (by rw [(List.cons.inj h).2]; rfl) (head?_crlf_ne first)
      | other d second hd =>
          rw [crlf_cons hc, crlf_cons hd] at h
          rw [(List.cons.inj h).1, ih (List.cons.inj h).2]

theorem newline_mem_crlf {text : Text} : '\n' ∈ crlf text ↔ '\n' ∈ text := by
  induction text using lineInduction with
  | nil => simp
  | newline rest _ => simp
  | other c rest hc ih => simp [crlf_cons hc, ih]

theorem length_le_crlf (text : Text) : text.length ≤ (crlf text).length := by
  induction text using lineInduction with
  | nil => exact Nat.le_refl _
  | newline rest ih =>
      simp only [crlf_newline, List.length_cons]
      omega
  | other c rest hc ih =>
      simp only [crlf_cons hc, List.length_cons]
      omega

theorem columnAfter_crlf (column : Nat) (text : Text) :
    columnAfter column (crlf text) = columnAfter column text := by
  induction text using lineInduction generalizing column with
  | nil => rfl
  | newline rest ih => simp [columnAfter, ih]
  | other c rest hc ih => simp [crlf_cons hc, columnAfter, ih]

/-! ## Parts of a converted text -/

/-- How far the first `n` characters of a text reach once they are converted. -/
def crlfLength (text : Text) (n : Nat) : Nat := (crlf (text.take n)).length

theorem take_crlf (text : Text) (n : Nat) :
    (crlf text).take (crlfLength text n) = crlf (text.take n) := by
  have hsplit := crlf_append (text.take n) (text.drop n)
  rw [List.take_append_drop] at hsplit
  rw [hsplit, crlfLength, List.take_left]

theorem drop_crlf (text : Text) (n : Nat) :
    (crlf text).drop (crlfLength text n) = crlf (text.drop n) := by
  have hsplit := crlf_append (text.take n) (text.drop n)
  rw [List.take_append_drop] at hsplit
  rw [hsplit, crlfLength, List.drop_left]

@[simp] theorem crlfLength_zero (text : Text) : crlfLength text 0 = 0 := rfl

@[simp] theorem crlfLength_newline (rest : Text) (n : Nat) :
    crlfLength ('\n' :: rest) (n + 1) = crlfLength rest n + 2 := rfl

theorem crlfLength_cons {c : Char} (hc : c ≠ '\n') (rest : Text) (n : Nat) :
    crlfLength (c :: rest) (n + 1) = crlfLength rest n + 1 := by
  simp [crlfLength, crlf_cons hc]

theorem crlfLength_append (front text : Text) (n : Nat) :
    crlfLength (front ++ text) (front.length + n) = (crlf front).length + crlfLength text n := by
  rw [crlfLength, List.take_length_add_append, crlf_append, List.length_append, crlfLength]

theorem crlfLength_add (text : Text) (m n : Nat) :
    crlfLength text (m + n) = crlfLength text m + crlfLength (text.drop m) n := by
  rw [crlfLength, List.take_add, crlf_append, List.length_append, crlfLength, crlfLength]

/-- On one line lengths do not change. -/
theorem crlfLength_eq {text : Text} {n : Nat} (h : '\n' ∉ text.take n) (hn : n ≤ text.length) :
    crlfLength text n = n := by
  rw [crlfLength, crlf_eq_self h, List.length_take]
  omega

end Text

namespace Lookahead

open Text

/-! ## Marks -/

theorem crlf_eq_cons {c : Char} (hc : c ≠ '\r') {text tail : Text} (h : crlf text = c :: tail) :
    ∃ rest, text = c :: rest ∧ tail = crlf rest := by
  cases text using lineInduction with
  | nil => cases h
  | newline rest => exact absurd (List.cons.inj h).1.symm hc
  | other d rest hd =>
      rw [crlf_cons hd] at h
      obtain ⟨rfl, rfl⟩ := List.cons.inj h
      exact ⟨rest, rfl, rfl⟩

theorem crlf_eq_three {c : Char} (hc : c ≠ '\r') {text tail : Text}
    (h : crlf text = c :: c :: c :: tail) : ∃ rest, text = c :: c :: c :: rest := by
  obtain ⟨first, rfl, hfirst⟩ := crlf_eq_cons hc h
  obtain ⟨second, rfl, hsecond⟩ := crlf_eq_cons hc hfirst.symm
  obtain ⟨third, rfl, -⟩ := crlf_eq_cons hc hsecond.symm
  exact ⟨third, rfl⟩

theorem head?_crlf {c : Char} (hreturn : c ≠ '\r') (hnewline : c ≠ '\n') (text : Text) :
    ((crlf text).head? == some c) = (text.head? == some c) := by
  cases text using lineInduction with
  | nil => rfl
  | newline rest =>
      have hfirst : ('\r' == c) = false := beq_eq_false_iff_ne.mpr (Ne.symm hreturn)
      have hsecond : ('\n' == c) = false := beq_eq_false_iff_ne.mpr (Ne.symm hnewline)
      simp [hfirst, hsecond]
  | other d rest hd => rw [crlf_cons hd]; rfl

theorem atBreak_crlf (text : Text) : atBreak (crlf text) = atBreak text := by
  cases text using lineInduction with
  | nil => rfl
  | newline rest => rfl
  | other c rest hc => rw [crlf_cons hc]; rfl

theorem atFlowEnd_crlf (text : Text) : atFlowEnd (crlf text) = atFlowEnd text := by
  cases text using lineInduction with
  | nil => rfl
  | newline rest => rfl
  | other c rest hc => rw [crlf_cons hc]; rfl

theorem atColon_crlf (text : Text) : atColon (crlf text) = atColon text := by
  cases text using lineInduction with
  | nil => rfl
  | newline rest => rfl
  | other c rest hc =>
      rw [crlf_cons hc]
      by_cases hcolon : c = ':'
      · subst hcolon
        exact atBreak_crlf rest
      · simp [atColon, hcolon]

theorem atDash_crlf (text : Text) : atDash (crlf text) = atDash text := by
  cases text using lineInduction with
  | nil => rfl
  | newline rest => rfl
  | other c rest hc =>
      rw [crlf_cons hc]
      by_cases hdash : c = '-'
      · subst hdash
        exact atBreak_crlf rest
      · simp [atDash, hdash]

theorem atDashes_crlf (text : Text) : atDashes (crlf text) = atDashes text := by
  rw [Bool.eq_iff_iff]
  constructor
  · intro h
    obtain ⟨tail, htail⟩ := eq_dashes_of_atDashes h
    obtain ⟨rest, rfl⟩ := crlf_eq_three (by decide) htail
    exact (atBreak_crlf rest).symm.trans h
  · intro h
    obtain ⟨tail, rfl⟩ := eq_dashes_of_atDashes h
    exact (atBreak_crlf tail).trans h

theorem atDots_crlf (text : Text) : atDots (crlf text) = atDots text := by
  rw [Bool.eq_iff_iff]
  constructor
  · intro h
    obtain ⟨tail, htail⟩ := eq_dots_of_atDots h
    obtain ⟨rest, rfl⟩ := crlf_eq_three (by decide) htail
    exact (atBreak_crlf rest).symm.trans h
  · intro h
    obtain ⟨tail, rfl⟩ := eq_dots_of_atDots h
    exact (atBreak_crlf tail).trans h

theorem atComment_crlf (c : Char) (rest : Text) : atComment c (crlf rest) = atComment c rest := by
  rw [atComment, head?_crlf (by decide) (by decide), atComment]

/-! ## Trivia -/

theorem triviaFrom_crlf (comment : Bool) (text : Text) :
    triviaFrom comment (crlf text) = crlfLength text (triviaFrom comment text) := by
  induction text using lineInduction generalizing comment with
  | nil => rfl
  | newline rest ih =>
      have hreturn : triviaFrom comment ('\r' :: '\n' :: crlf rest) =
          triviaFrom false (crlf rest) + 2 := by
        cases comment <;> simp [triviaFrom, isTrailing]
      rw [crlf_newline, hreturn, ih]
      simp [triviaFrom]
  | other c rest hc ih =>
      have hbeq : (c == '\n') = false := beq_eq_false_iff_ne.mpr hc
      rw [crlf_cons hc]
      simp only [triviaFrom, hbeq, Bool.false_eq_true, if_false]
      split
      · rw [ih, crlfLength_cons hc]
      · split
        · rw [ih, crlfLength_cons hc]
        · rfl

theorem triviaLength_crlf (text : Text) :
    triviaLength (crlf text) = crlfLength text (triviaLength text) :=
  triviaFrom_crlf false text

theorem preambleLength_crlf (lineStart skipping : Bool) (text : Text) :
    preambleLength lineStart skipping (crlf text) =
      crlfLength text (preambleLength lineStart skipping text) := by
  induction text using lineInduction generalizing lineStart skipping with
  | nil => rfl
  | newline rest ih =>
      have hreturn : preambleLength lineStart skipping ('\r' :: '\n' :: crlf rest) =
          preambleLength true false (crlf rest) + 2 := by
        cases skipping <;> simp [preambleLength, isTrailing]
      rw [crlf_newline, hreturn, ih]
      simp [preambleLength]
  | other c rest hc ih =>
      have hbeq : (c == '\n') = false := beq_eq_false_iff_ne.mpr hc
      rw [crlf_cons hc]
      simp only [preambleLength, hbeq, Bool.false_eq_true, if_false]
      split
      · rw [ih, crlfLength_cons hc]
      · split
        · rw [ih, crlfLength_cons hc]
        · rfl

/-! ## Runs on one line -/

/-- A run that stops at line breaks is the same if it stops at the carriage return, or if that does
not count at its end. -/
theorem runLength_crlf {stop : Char → Text → Bool} {loose : Char → Bool}
    (hnewline : ∀ rest, stop '\n' rest = true)
    (hreturn : ∀ rest, stop '\r' rest = true ∨ loose '\r' = true)
    (hstop : ∀ c rest, stop c (crlf rest) = stop c rest) (text : Text) :
    runLength stop loose (crlf text) = runLength stop loose text := by
  induction text using lineInduction with
  | nil => rfl
  | newline rest _ =>
      have hzero : runLength stop loose ('\n' :: crlf rest) = 0 := by
        simp [runLength, hnewline]
      have hzero' : runLength stop loose ('\n' :: rest) = 0 := by
        simp [runLength, hnewline]
      rw [crlf_newline, runLength, hzero, hzero']
      obtain h | h := hreturn ('\n' :: crlf rest) <;> simp [h]
  | other c rest hc ih =>
      rw [crlf_cons hc]
      simp only [runLength, hstop, ih]

/-- What a run on one line covers is the same in both texts. -/
theorem crlfLength_run {stop : Char → Text → Bool} (loose : Char → Bool)
    (hnewline : ∀ rest, stop '\n' rest = true) (text : Text) :
    crlfLength text (runLength stop loose text) = runLength stop loose text :=
  crlfLength_eq (notMem_run loose hnewline text) (runLength_le stop loose text)

theorem nameLength_crlf (text : Text) : nameLength (crlf text) = nameLength text :=
  runLength_crlf (by simp) (by simp) (by simp) text

theorem crlfLength_name (text : Text) : crlfLength text (nameLength text) = nameLength text :=
  crlfLength_run _ (by simp) text

theorem plainLineLength_crlf (text : Text) : plainLineLength (crlf text) = plainLineLength text :=
  runLength_crlf (by simp) (by simp [isTrailing]) (by simp [atComment_crlf]) text

theorem crlfLength_plainLine (text : Text) :
    crlfLength text (plainLineLength text) = plainLineLength text :=
  crlfLength_run _ (by simp) text

theorem plainFlowLength_crlf (text : Text) : plainFlowLength (crlf text) = plainFlowLength text :=
  runLength_crlf (by simp) (by simp [isTrailing])
    (by simp [atComment_crlf, atBreak_crlf, atFlowEnd_crlf]) text

theorem crlfLength_plainFlow (text : Text) :
    crlfLength text (plainFlowLength text) = plainFlowLength text :=
  crlfLength_run _ (by simp) text

theorem plainKeyCloses_crlf (text : Text) : plainKeyCloses (crlf text) = plainKeyCloses text := by
  induction text using lineInduction with
  | nil => rfl
  | newline rest _ => simp [plainKeyCloses, atComment, isBlank]
  | other c rest hc ih =>
      rw [crlf_cons hc]
      simp only [plainKeyCloses, atBreak_crlf, atComment_crlf, ih]

/-- A key that a colon ends is the same in both texts. A carriage return would count as a part of
any other key. -/
theorem plainKeyLength_crlf {text : Text} (h : plainKeyCloses text = true) :
    plainKeyLength (crlf text) = plainKeyLength text := by
  induction text using lineInduction with
  | nil => rfl
  | newline rest _ => simp [plainKeyCloses] at h
  | other c rest hc ih =>
      have hbeq : (c == '\n') = false := beq_eq_false_iff_ne.mpr hc
      rw [crlf_cons hc]
      simp only [plainKeyLength, runLength, atBreak_crlf, hbeq, Bool.false_or]
      by_cases hcolon : (c == ':' && atBreak rest) = true
      · rw [if_pos hcolon, if_pos hcolon]
      · rw [if_neg hcolon, if_neg hcolon]
        have hrest : plainKeyCloses rest = true := by
          rw [plainKeyCloses, if_neg (by simp [hbeq]), if_neg hcolon] at h
          split at h
          · cases h
          · exact h
        have hsame := ih hrest
        simp only [plainKeyLength] at hsame
        rw [hsame]

theorem crlfLength_plainKey (text : Text) :
    crlfLength text (plainKeyLength text) = plainKeyLength text :=
  crlfLength_run _ (by simp) text

theorem takeWhile_crlf {p : Char → Bool} (hreturn : p '\r' = false) (hnewline : p '\n' = false)
    (text : Text) : (crlf text).takeWhile p = text.takeWhile p := by
  induction text using lineInduction with
  | nil => rfl
  | newline rest _ => simp [hreturn, hnewline]
  | other c rest hc ih =>
      rw [crlf_cons hc]
      by_cases hp : p c = true
      · rw [List.takeWhile_cons_of_pos hp, List.takeWhile_cons_of_pos hp, ih]
      · rw [List.takeWhile_cons_of_neg hp, List.takeWhile_cons_of_neg hp]

theorem blankLength_crlf (text : Text) : blankLength (crlf text) = blankLength text := by
  rw [blankLength, takeWhile_crlf rfl rfl, blankLength]

theorem crlfLength_blank (text : Text) : crlfLength text (blankLength text) = blankLength text :=
  crlfLength_eq (newline_notMem_takeWhile rfl text) (List.takeWhile_sublist _).length_le

theorem indentation_crlf (text : Text) : indentation (crlf text) = indentation text := by
  rw [indentation, takeWhile_crlf rfl rfl, indentation]

theorem crlfLength_indentation (text : Text) :
    crlfLength text (indentation text) = indentation text :=
  crlfLength_eq (newline_notMem_takeWhile rfl text) (List.takeWhile_sublist _).length_le

/-! ## Quoted texts -/

/-- A character that neither closes the text nor escapes anything is one more of the text. -/
theorem quotedLength_other {oneLine : Bool} {quote c : Char} (hquote : c ≠ quote)
    (hescape : (c == '\\' && quote == '"') = false) (hline : (oneLine && c == '\n') = false)
    (rest : Text) :
    quotedLength oneLine quote (c :: rest) = (quotedLength oneLine quote rest).map (· + 1) := by
  have hbeq : (c == quote) = false := beq_eq_false_iff_ne.mpr hquote
  cases rest with
  | nil => simp [quotedLength, hbeq]
  | cons d rest =>
      have hpair : ((c == '\\' && quote == '"') ||
          (c == '\'' && quote == '\'' && d == '\'')) = false := by
        rw [hescape, Bool.false_or]
        by_cases hsingle : c = '\''
        · have hother : (quote == '\'') = false := by
            rw [← hsingle]
            exact beq_eq_false_iff_ne.mpr (Ne.symm hquote)
          simp [hother]
        · simp [hsingle]
      rw [quotedLength, hline, hpair, hbeq]
      rfl

/-- A backslash in double quotes, and two single quotes, take the next character with them. -/
theorem quotedLength_pair {oneLine : Bool} {quote c d : Char} (hc : c ≠ '\n')
    (hpair : ((c == '\\' && quote == '"') ||
      (c == '\'' && quote == '\'' && d == '\'')) = true) (rest : Text) :
    quotedLength oneLine quote (c :: d :: rest) =
      (quotedLength oneLine quote rest).map (· + 2) := by
  rw [quotedLength, if_neg (by simp [hc]), if_pos hpair]

theorem quotedLength_newline {quote : Char} (hquote : quote ≠ '\n') (rest : Text) :
    quotedLength true quote ('\n' :: rest) = none := by
  have hbeq : ('\n' == quote) = false := beq_eq_false_iff_ne.mpr (Ne.symm hquote)
  cases rest with
  | nil => simp [quotedLength, hbeq]
  | cons d rest => simp [quotedLength]

/-- The text ends at a quote that is not the first of a pair. -/
theorem quotedLength_close {oneLine : Bool} {quote d : Char} (hquote : quote ≠ '\n')
    (hpair : (quote == '\'' && d == '\'') = false) (rest : Text) :
    quotedLength oneLine quote (quote :: d :: rest) = some 0 := by
  have hescape : (quote == '\\' && quote == '"') = false := by
    by_cases hbackslash : quote = '\\'
    · subst hbackslash
      rfl
    · simp [hbackslash]
  rw [quotedLength, if_neg (by simp [hquote]), hescape, Bool.and_assoc, hpair]
  simp

theorem quotedLength_close_crlf {oneLine : Bool} {quote d : Char} (hquote : quote ≠ '\n')
    (hpair : (quote == '\'' && d == '\'') = false) (rest : Text) :
    quotedLength oneLine quote (crlf (quote :: d :: rest)) = some 0 := by
  rw [crlf_cons hquote]
  by_cases hd : d = '\n'
  · rw [hd, crlf_newline]
    exact quotedLength_close hquote (by simp) _
  · rw [crlf_cons hd]
    exact quotedLength_close hquote hpair _

/-- What is skipped together with a line feed is a backslash, and that is skipped together with any
character. -/
theorem pair_of_newline {c d quote : Char}
    (hpair : ((c == '\\' && quote == '"') ||
      (c == '\'' && quote == '\'' && '\n' == '\'')) = true) :
    ((c == '\\' && quote == '"') || (c == '\'' && quote == '\'' && d == '\'')) = true := by
  have hescape : (c == '\\' && quote == '"') = true := by simpa using hpair
  rw [hescape, Bool.true_or]

/-- A line feed is never skipped with the character after it. -/
theorem ne_newline_of_pair {c d quote : Char}
    (hpair : ((c == '\\' && quote == '"') ||
      (c == '\'' && quote == '\'' && d == '\'')) = true) : c ≠ '\n' := by
  rintro rfl
  simp at hpair

/-- A quoted text closes at the same quote.  Only the character after a backslash is skipped, so a
line feed is then reached on its own, which makes no difference over several lines. -/
theorem quotedLength_crlf {quote : Char} (hreturn : quote ≠ '\r') (hnewline : quote ≠ '\n')
    (text : Text) : quotedLength false quote (crlf text) =
      (quotedLength false quote text).map (crlfLength text) := by
  have hfirst : ∀ rest, quotedLength false quote ('\r' :: rest) =
      (quotedLength false quote rest).map (· + 1) :=
    quotedLength_other (Ne.symm hreturn) rfl rfl
  have hsecond : ∀ rest, quotedLength false quote ('\n' :: rest) =
      (quotedLength false quote rest).map (· + 1) :=
    quotedLength_other (Ne.symm hnewline) rfl rfl
  fun_induction quotedLength false quote text with
  | case1 => rfl
  | case2 c hc =>
      obtain rfl : c = quote := by simpa using hc
      simp [crlf_cons hnewline, quotedLength]
  | case3 c hc =>
      by_cases hline : c = '\n'
      · subst hline
        rw [crlf_newline, crlf_nil, hfirst, hsecond]
        rfl
      · simp [crlf_cons hline, quotedLength, hc]
  | case4 c d rest h => simp at h
  | case5 c d rest _ hpair ih =>
      have hc := ne_newline_of_pair hpair
      by_cases hd : d = '\n'
      · subst hd
        -- The carriage return is skipped in place of the line feed, which is then passed alone.
        rw [crlf_cons hc, crlf_newline, quotedLength_pair hc (pair_of_newline hpair), hsecond, ih]
        simp [Function.comp_def, crlfLength_cons hc]
      · rw [crlf_cons hc, crlf_cons hd, quotedLength_pair hc hpair, ih]
        simp [Function.comp_def, crlfLength_cons hc, crlfLength_cons hd]
  | case6 c d rest _ hpair hc =>
      obtain rfl : c = quote := by simpa using hc
      rw [quotedLength_close_crlf hnewline (by simp_all)]
      rfl
  | case7 c d rest _ hpair hc ih =>
      by_cases hline : c = '\n'
      · subst hline
        rw [crlf_newline, hfirst, hsecond, ih]
        simp [Function.comp_def]
      · have hother : c ≠ quote := by simpa using hc
        have hescape : (c == '\\' && quote == '"') = false := by
          simp only [Bool.or_eq_true, not_or] at hpair
          exact Bool.eq_false_iff.mpr hpair.1
        rw [crlf_cons hline, quotedLength_other hother hescape rfl, ih]
        simp [Function.comp_def, crlfLength_cons hline]

theorem filter_map_add {p q : Nat → Bool} (k : Nat) (h : ∀ n, p (n + k) = q n)
    (length : Option Nat) : (length.map (· + k)).filter p = (length.filter q).map (· + k) := by
  cases length with
  | none => rfl
  | some n =>
      rw [Option.map_some, Option.filter_some, Option.filter_some, h]
      split <;> rfl

/-- A text that closes on its line closes at the same place, unless it goes on over a line break by
an escape. -/
theorem quotedLength_oneLine_crlf {quote : Char} (hreturn : quote ≠ '\r')
    (hnewline : quote ≠ '\n') (text : Text) : quotedLength true quote (crlf text) =
      (quotedLength true quote text).filter fun n => !(text.take n).contains '\n' := by
  have hend : ∀ rest, quotedLength true quote ('\r' :: '\n' :: rest) = none := by
    intro rest
    rw [quotedLength_other (Ne.symm hreturn) rfl rfl, quotedLength_newline hnewline]
    rfl
  fun_induction quotedLength true quote text with
  | case1 => rfl
  | case2 c hc =>
      obtain rfl : c = quote := by simpa using hc
      rw [crlf_cons hnewline, Option.filter_some]
      simp [quotedLength]
  | case3 c hc =>
      by_cases hline : c = '\n'
      · subst hline
        exact hend []
      · simp [crlf_cons hline, quotedLength, hc]
  | case4 c d rest h =>
      obtain rfl : c = '\n' := by simpa using h
      exact hend _
  | case5 c d rest _ hpair ih =>
      have hc := ne_newline_of_pair hpair
      by_cases hd : d = '\n'
      · subst hd
        -- The carriage return is skipped in place of the line feed, which then ends the search.
        rw [crlf_cons hc, crlf_newline, quotedLength_pair hc (pair_of_newline hpair),
          quotedLength_newline hnewline]
        cases quotedLength true quote rest with
        | none => rfl
        | some n => rw [Option.map_some, Option.filter_some]; simp
      · rw [crlf_cons hc, crlf_cons hd, quotedLength_pair hc hpair, ih]
        exact (filter_map_add 2 (by simp [Ne.symm hc, Ne.symm hd]) _).symm
  | case6 c d rest _ hpair hc =>
      obtain rfl : c = quote := by simpa using hc
      rw [quotedLength_close_crlf hnewline (by simp_all)]
      rfl
  | case7 c d rest hbreak hpair hc ih =>
      have hline : c ≠ '\n' := by
        rintro rfl
        simp at hbreak
      have hother : c ≠ quote := by simpa using hc
      have hescape : (c == '\\' && quote == '"') = false := by
        simp only [Bool.or_eq_true, not_or] at hpair
        exact Bool.eq_false_iff.mpr hpair.1
      rw [crlf_cons hline, quotedLength_other hother hescape (by simp [hline]), ih]
      exact (filter_map_add 1 (by simp [Ne.symm hline]) _).symm

/-! ## Keys -/

/-- Whether a quoted key with an escaped line break but without an anchor, and its colon, start
here. -/
def atBrokenBareKey : Text → Bool
  | [] => false
  | c :: rest =>
    if c == '"' || c == '\'' then
      match quotedLength true c rest with
      | none => false
      | some n => (rest.take n).contains '\n' && atColon ((rest.drop (n + 1)).dropWhile isBlank)
    else false

/-- Whether a quoted key with an escaped line break, with or without an anchor, and its colon start
here. -/
def atBrokenKey : Text → Bool
  | '&' :: rest => atBrokenBareKey ((rest.drop (nameLength rest)).dropWhile isBlank)
  | text => atBrokenBareKey text

theorem dropWhile_crlf {p : Char → Bool} (hreturn : p '\r' = false) (hnewline : p '\n' = false)
    (text : Text) : (crlf text).dropWhile p = crlf (text.dropWhile p) := by
  induction text using lineInduction with
  | nil => rfl
  | newline rest _ => simp [hreturn, hnewline]
  | other c rest hc ih =>
      rw [crlf_cons hc]
      by_cases hp : p c = true
      · rw [List.dropWhile_cons_of_pos hp, List.dropWhile_cons_of_pos hp, ih]
      · rw [List.dropWhile_cons_of_neg hp, List.dropWhile_cons_of_neg hp, crlf_cons hc]

theorem quotedLength_lt {oneLine : Bool} {quote : Char} {text : Text} {n : Nat}
    (h : quotedLength oneLine quote text = some n) : n < text.length := by
  obtain ⟨tail, htail⟩ := drop_quotedLength h
  have hlength := congrArg List.length htail
  rw [List.length_drop, List.length_cons] at hlength
  omega

/-- What a quoted text on one line and its closing quote cover is the same in both texts. -/
theorem crlfLength_closed {oneLine : Bool} {quote : Char} (hquote : quote ≠ '\n') {text : Text}
    {n : Nat} (h : quotedLength oneLine quote text = some n) (hline : '\n' ∉ text.take n) :
    crlfLength text (n + 1) = n + 1 := by
  obtain ⟨tail, htail⟩ := drop_quotedLength h
  have htake : text.take (n + 1) = text.take n ++ [quote] := by
    rw [List.take_add, htail]
    rfl
  apply crlfLength_eq
  · simp [htake, hline, Ne.symm hquote]
  · exact quotedLength_lt h

theorem atBareKey_crlf {text : Text} (h : atBrokenBareKey text = false) :
    atBareKey (crlf text) = atBareKey text := by
  cases text using lineInduction with
  | nil => rfl
  | newline rest => simp [atBareKey, atDash, plainKeyCloses, atComment, isBlank]
  | other c rest hc =>
      have hdash := atDash_crlf (c :: rest)
      have hcloses := plainKeyCloses_crlf (c :: rest)
      rw [crlf_cons hc] at hdash hcloses ⊢
      by_cases hquote : (c == '"' || c == '\'') = true
      · have hreturn : c ≠ '\r' := by rintro rfl; simp at hquote
        rw [atBareKey, if_pos hquote, atBareKey, if_pos hquote,
          quotedLength_oneLine_crlf hreturn hc]
        rw [atBrokenBareKey, if_pos hquote] at h
        cases hlength : quotedLength true c rest with
        | none => rfl
        | some n =>
            rw [hlength] at h
            rw [Option.filter_some]
            cases hbreak : (rest.take n).contains '\n' with
            | true =>
                have hmem : '\n' ∈ rest.take n := by simpa using hbreak
                have hcolon : atColon ((rest.drop (n + 1)).dropWhile isBlank) = false := by
                  simpa [hmem] using h
                exact hcolon.symm
            | false =>
                have hline : '\n' ∉ rest.take n := by simpa using hbreak
                have hdrop := drop_crlf rest (n + 1)
                rw [crlfLength_closed hc hlength hline] at hdrop
                show atColon (((crlf rest).drop (n + 1)).dropWhile isBlank) = _
                rw [hdrop, dropWhile_crlf rfl rfl, atColon_crlf]
      · rw [atBareKey, if_neg hquote, atBareKey, if_neg hquote, hdash, hcloses, atBreak_crlf]

/-- What a broken key looks like. -/
theorem eq_of_atBrokenBareKey {text : Text} (h : atBrokenBareKey text = true) :
    ∃ quote rest n, (quote = '"' ∨ quote = '\'') ∧ text = quote :: rest ∧
      quotedLength true quote rest = some n ∧ '\n' ∈ rest.take n ∧
      atColon ((rest.drop (n + 1)).dropWhile isBlank) = true := by
  cases text with
  | nil => cases h
  | cons c rest =>
      rw [atBrokenBareKey] at h
      split at h
      next hquote =>
        cases hlength : quotedLength true c rest with
        | none => simp [hlength] at h
        | some n =>
            simp only [hlength, Bool.and_eq_true, List.contains_iff_mem] at h
            exact ⟨c, rest, n, by simpa using hquote, rfl, hlength, h.1, h.2⟩
      next => cases h

/-- A broken key is a key before a line feed, and none before a carriage return. -/
theorem atBareKey_of_atBrokenBareKey {text : Text} (h : atBrokenBareKey text = true) :
    atBareKey text = true ∧ atBareKey (crlf text) = false := by
  obtain ⟨quote, rest, n, hquote, rfl, hlength, hbreak, hcolon⟩ := eq_of_atBrokenBareKey h
  have hreturn : quote ≠ '\r' := by obtain rfl | rfl := hquote <;> decide
  have hnewline : quote ≠ '\n' := by obtain rfl | rfl := hquote <;> decide
  have hmark : (quote == '"' || quote == '\'') = true := by simpa using hquote
  constructor
  · rw [atBareKey, if_pos hmark, hlength]
    exact hcolon
  · rw [crlf_cons hnewline, atBareKey, if_pos hmark, quotedLength_oneLine_crlf hreturn hnewline,
      hlength, Option.filter_some, if_neg (by simp [hbreak])]

/-- The text after an anchor is converted with it. -/
theorem afterName_crlf (rest : Text) :
    ((crlf rest).drop (nameLength (crlf rest))).dropWhile isBlank =
      crlf ((rest.drop (nameLength rest)).dropWhile isBlank) := by
  have hdrop := drop_crlf rest (nameLength rest)
  rw [crlfLength_name] at hdrop
  rw [nameLength_crlf, hdrop, dropWhile_crlf rfl rfl]

theorem atBrokenKey_cons {c : Char} (hc : c ≠ '&') (rest : Text) :
    atBrokenKey (c :: rest) = atBrokenBareKey (c :: rest) := by
  unfold atBrokenKey
  split
  next heq => exact absurd (List.cons.inj heq).1 hc
  next => rfl

theorem atKey_crlf {text : Text} (h : atBrokenKey text = false) :
    atKey (crlf text) = atKey text := by
  cases text using lineInduction with
  | nil => rfl
  | newline rest => exact @atBareKey_crlf ('\n' :: rest) rfl
  | other c rest hc =>
      rw [crlf_cons hc]
      by_cases hanchor : c = '&'
      · subst hanchor
        show atBareKey (((crlf rest).drop (nameLength (crlf rest))).dropWhile isBlank) = _
        rw [afterName_crlf]
        exact atBareKey_crlf h
      · rw [atBrokenKey_cons hanchor] at h
        have hbare := atBareKey_crlf h
        rw [crlf_cons hc] at hbare
        rwa [atKey_cons hanchor, atKey_cons hanchor]

theorem atKey_of_atBrokenKey {text : Text} (h : atBrokenKey text = true) :
    atKey text = true ∧ atKey (crlf text) = false := by
  cases text using lineInduction with
  | nil => cases h
  | newline rest => cases h
  | other c rest hc =>
      rw [crlf_cons hc]
      by_cases hanchor : c = '&'
      · subst hanchor
        show _ ∧ atBareKey (((crlf rest).drop (nameLength (crlf rest))).dropWhile isBlank) = false
        rw [afterName_crlf]
        exact atBareKey_of_atBrokenBareKey h
      · rw [atBrokenKey_cons hanchor] at h
        have hbare := atBareKey_of_atBrokenBareKey h
        rw [crlf_cons hc] at hbare
        rwa [atKey_cons hanchor, atKey_cons hanchor]

/-- A broken key starts with a quote or an anchor. -/
theorem head?_of_atBrokenKey {text : Text} (h : atBrokenKey text = true) :
    ∃ c, text.head? = some c ∧ (c = '"' ∨ c = '\'' ∨ c = '&') := by
  cases text with
  | nil => cases h
  | cons c rest =>
      by_cases hanchor : c = '&'
      · exact ⟨c, rfl, .inr (.inr hanchor)⟩
      · rw [atBrokenKey_cons hanchor] at h
        obtain ⟨quote, tail, n, hquote, htext, -⟩ := eq_of_atBrokenBareKey h
        obtain ⟨rfl, -⟩ := List.cons.inj htext
        exact ⟨c, rfl, hquote.imp_right .inl⟩

theorem opening_crlf {text : Text} (h : atBrokenKey text = false) :
    opening (crlf text) = opening text := by
  have hkey := atKey_crlf h
  have hdash := atDash_crlf text
  cases text using lineInduction with
  | nil => rfl
  | newline rest =>
      rw [crlf_newline] at hkey hdash ⊢
      simp [opening, hkey, hdash]
  | other c rest hc =>
      rw [crlf_cons hc] at hkey hdash ⊢
      simp only [opening, hkey, hdash, atBreak_crlf]

end Lookahead

end LosslessYaml
