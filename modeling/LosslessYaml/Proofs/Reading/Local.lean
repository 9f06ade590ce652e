import LosslessYaml.Proofs.Reading.Lookahead

/-!
# Looking ahead sees a start of the text only

When a part of a source is written anew, what stands before it is read as it was, as far as looking
ahead does not reach into the new part.  This file says for each function how far it looks: a run
ends at its first stop, a name or a blank at the first character that is none, a quoted text at its
quote, and most questions are settled by the end of the line.

Two texts are compared throughout that share a start and go on in different ways, `x` and `y`.
-/

namespace LosslessYaml

open Text Lookahead

/-! ## Runs -/

namespace Text

theorem runLength_le (stop : Char → Text → Bool) (loose : Char → Bool) (text : Text) :
    runLength stop loose text ≤ text.length := by
  fun_induction runLength stop loose text <;> grind

/-- A run does not hold a character that it stops at whatever follows; a run that stops at line
breaks stays on its line. -/
theorem notMem_run {stop : Char → Text → Bool} (loose : Char → Bool) {d : Char}
    (hstop : ∀ rest, stop d rest = true) (text : Text) :
    d ∉ text.take (runLength stop loose text) := by
  induction text with
  | nil => simp
  | cons c text ih =>
      simp only [runLength]
      split
      next => simp
      next hc =>
        have hne : d ≠ c := by
          rintro rfl
          exact hc (hstop text)
        split
        next => split <;> simp [hne]
        next n hn =>
          rw [hn] at ih
          simp only [List.take_succ_cons, List.mem_cons, not_or]
          exact ⟨hne, ih⟩

/-- A run that has a stop before the texts part is the same in both.  Whether a character is a stop
may depend on the next one. -/
theorem runLength_append_cons {stop : Char → Text → Bool} {loose : Char → Bool}
    (hstop : ∀ c x y, x.head? = y.head? → stop c x = stop c y) {c : Char} {x y : Text}
    (hx : stop c x = true) (hy : stop c y = true) (start : Text) :
    runLength stop loose (start ++ c :: x) = runLength stop loose (start ++ c :: y) := by
  induction start with
  | nil => simp [runLength, hx, hy]
  | cons d start ih =>
      have hd : stop d (start ++ c :: x) = stop d (start ++ c :: y) :=
        hstop d _ _ (by cases start <;> rfl)
      simp only [List.cons_append, runLength, hd, ih]

/-- No run goes on where a run has ended. -/
theorem runLength_eq_zero_of_append {stop : Char → Text → Bool} {loose : Char → Bool}
    {start rest : Text} (h : runLength stop loose (start ++ rest) = start.length) :
    runLength stop loose rest = 0 := by
  induction start with
  | nil => exact h
  | cons c start ih =>
      apply ih
      simp only [List.cons_append, runLength, List.length_cons] at h
      grind

theorem drop_length_takeWhile (p : Char → Bool) (text : Text) :
    text.drop (text.takeWhile p).length = text.dropWhile p := by
  calc text.drop (text.takeWhile p).length
      = (text.takeWhile p ++ text.dropWhile p).drop (text.takeWhile p).length := by
        rw [List.takeWhile_append_dropWhile]
    _ = text.dropWhile p := List.drop_left

theorem takeWhile_append_length {p : Char → Bool} {start x : Text}
    (h : ((start ++ x).takeWhile p).length = start.length) :
    (∀ c ∈ start, p c = true) ∧ ∀ c ∈ x.head?, p c = false := by
  induction start with
  | nil =>
      cases x with
      | nil => simp
      | cons c x => cases hc : p c <;> simp_all
  | cons d start ih =>
      cases hd : p d with
      | false => simp [hd] at h
      | true =>
          have := ih (by simpa [List.takeWhile_cons, hd] using h)
          simpa [hd] using this

/-- The longest start of a kind ends in both texts where they go on with the same character. -/
theorem takeWhile_append_congr {p : Char → Bool} {start x y : Text}
    (h : ((start ++ x).takeWhile p).length = start.length) (hhead : x.head? = y.head?) :
    ((start ++ y).takeWhile p).length = start.length := by
  obtain ⟨hstart, hx⟩ := takeWhile_append_length h
  rw [List.takeWhile_append_of_pos hstart]
  cases y with
  | nil => simp
  | cons c y => simp [hx c (by simp [hhead])]

end Text

namespace Lookahead

theorem nameLength_le (text : Text) : nameLength text ≤ text.length := runLength_le _ _ text

theorem plainKeyLength_le (text : Text) : plainKeyLength text ≤ text.length := runLength_le _ _ text

theorem nameLength_append {name x y : Text} (h : nameLength (name ++ x) = name.length)
    (hhead : x.head? = y.head?) : nameLength (name ++ y) = name.length := by
  have htake : ∀ (ends : Char → Bool) (text : Text),
      runLength (fun c _ => ends c) (fun _ => false) text =
        (text.takeWhile fun c => !ends c).length := by
    intro ends text
    induction text with
    | nil => rfl
    | cons c text ih =>
        cases hc : ends c with
        | true => simp [runLength, hc]
        | false =>
            simp only [runLength, hc, ih, List.takeWhile_cons, Bool.not_false, if_true,
              List.length_cons, Bool.false_eq_true, if_false]
            cases (text.takeWhile fun c => !ends c).length <;> rfl
  unfold nameLength at h ⊢
  rw [htake] at h ⊢
  exact takeWhile_append_congr h hhead

theorem blankLength_append {blanks x y : Text} (h : blankLength (blanks ++ x) = blanks.length)
    (hhead : x.head? = y.head?) : blankLength (blanks ++ y) = blanks.length :=
  takeWhile_append_congr h hhead

/-! ## Trivia -/

/-- A text that is skipped as trivia whatever follows it. -/
def IsTrivia (text : Text) : Prop :=
  ∀ rest, triviaLength (text ++ rest) = text.length + triviaLength rest

theorem IsTrivia.nil : IsTrivia [] := fun rest => by simp

theorem IsTrivia.append {first second : Text} (hfirst : IsTrivia first)
    (hsecond : IsTrivia second) : IsTrivia (first ++ second) := by
  intro rest
  rw [List.append_assoc, hfirst, hsecond, List.length_append]
  omega

theorem isTrivia_of_blank {text : Text} (h : ∀ c ∈ text, isBlank c = true) : IsTrivia text := by
  intro rest
  induction text with
  | nil => simp
  | cons c text ih =>
      have hc := h c (by simp)
      have htext := ih fun d hd => h d (by simp [hd])
      simp only [isBlank, Bool.or_eq_true, beq_iff_eq] at hc
      rcases hc with rfl | rfl <;> simp_all [triviaLength, triviaFrom, isTrailing] <;> omega

private theorem triviaFrom_append {comment : Bool} {trivia x : Text} {c : Char}
    (h : triviaFrom comment (trivia ++ c :: x) = trivia.length) (rest : Text) :
    triviaFrom comment (trivia ++ rest) = trivia.length + triviaFrom false rest := by
  induction trivia generalizing comment with
  | nil =>
      cases comment with
      | false => simp
      | true =>
          -- within a comment every character is taken
          simp only [List.nil_append, triviaFrom, Bool.true_or, if_true] at h
          split at h <;> simp at h
  | cons d trivia ih =>
      simp only [List.cons_append, triviaFrom, List.length_cons] at h ⊢
      split
      next hd =>
        rw [if_pos hd] at h
        rw [ih (by omega)]
        omega
      next hd =>
        rw [if_neg hd] at h
        split
        next hcomment =>
          rw [if_pos hcomment] at h
          rw [ih (by omega)]
          omega
        next hcomment =>
          rw [if_neg hcomment] at h
          split
          next htrailing =>
            rw [if_pos htrailing] at h
            rw [ih (by omega)]
            omega
          next htrailing =>
            rw [if_neg htrailing] at h
            omega

/-- Trivia that another character ends is trivia before any text. -/
theorem isTrivia_of_length {trivia x : Text} (hne : x ≠ [])
    (h : triviaLength (trivia ++ x) = trivia.length) : IsTrivia trivia := by
  obtain ⟨c, x, rfl⟩ := List.exists_cons_of_ne_nil hne
  exact triviaFrom_append h

private theorem triviaFrom_drop (comment : Bool) (text : Text) :
    triviaLength (text.drop (triviaFrom comment text)) = 0 := by
  fun_induction triviaFrom comment text with
  | case1 => rfl
  | case2 comment c rest _ ih => exact ih
  | case3 comment c rest _ _ ih => exact ih
  | case4 comment c rest _ _ _ ih => exact ih
  | case5 comment c rest hline hcomment htrailing =>
      simp only [Bool.or_eq_true, not_or] at hcomment
      simp [triviaLength, triviaFrom, hline, hcomment.2, htrailing]

theorem triviaLength_drop (text : Text) : triviaLength (text.drop (triviaLength text)) = 0 :=
  triviaFrom_drop false text

theorem triviaLength_le (text : Text) : triviaLength text ≤ text.length := by
  have hle : ∀ comment, triviaFrom comment text ≤ text.length := by
    intro comment
    fun_induction triviaFrom comment text <;> simp_all
  exact hle false

/-- Whether trivia starts a text is told by its first character. -/
theorem triviaLength_eq_zero_congr {x y : Text} (hhead : x.head? = y.head?)
    (h : triviaLength x = 0) : triviaLength y = 0 := by
  match x, y with
  | [], [] => rfl
  | [], _ :: _ => simp at hhead
  | _ :: _, [] => rfl
  | c :: x, d :: y =>
    obtain rfl : c = d := by simpa using hhead
    simp only [triviaLength, triviaFrom] at h ⊢
    grind

theorem preambleLength_le (lineStart skipping : Bool) (text : Text) :
    preambleLength lineStart skipping text ≤ text.length := by
  fun_induction preambleLength lineStart skipping text <;> simp_all

theorem preambleLength_append {lineStart skipping : Bool} {lead x y : Text} {c : Char}
    (h : preambleLength lineStart skipping (lead ++ c :: x) = lead.length) :
    preambleLength lineStart skipping (lead ++ c :: y) = lead.length := by
  induction lead generalizing lineStart skipping with
  | nil =>
      simp only [List.nil_append, preambleLength] at h ⊢
      grind
  | cons d lead ih =>
      simp only [List.cons_append, preambleLength, List.length_cons] at h ⊢
      grind

/-! ## Quoted texts -/

/-- A quoted text is as long in both texts, as far as the character after its quote is the same:
a second single quote would take the first one with it. -/
theorem quotedLength_append {quote : Char} (hquote : quote = '"' ∨ quote = '\'')
    {x y : Text} (hhead : x.head? = y.head?) (oneLine : Bool) (text : Text)
    (h : quotedLength false quote (text ++ quote :: x) = some text.length) :
    quotedLength oneLine quote (text ++ quote :: x) =
      quotedLength oneLine quote (text ++ quote :: y) := by
  match text with
  | [] =>
    match x, y with
    | [], [] => rfl
    | [], _ :: _ => simp at hhead
    | _ :: _, [] => simp at hhead
    | c :: x, d :: y =>
      obtain rfl : c = d := by simpa using hhead
      rcases hquote with rfl | rfl
      · simp [quotedLength]
      · by_cases hc : c = '\''
        · subst hc
          simp only [List.nil_append, quotedLength] at h
          simp at h
        · simp [quotedLength, hc]
  | [c] =>
    simp only [List.cons_append, List.nil_append] at h ⊢
    rw [quotedLength] at h
    rw [quotedLength, quotedLength]
    by_cases hpair : ((c == '\\' && quote == '"') ||
        (c == '\'' && quote == '\'' && quote == '\'')) = true
    · rw [if_pos hpair] at h
      simp [Option.map_eq_some_iff] at h
    · rw [if_neg hpair] at h
      rw [if_neg hpair, if_neg hpair]
      by_cases hc : (c == quote) = true
      · simp [hc] at h
      · rw [if_neg hc] at h
        rw [if_neg hc, if_neg hc]
        have hclose : quotedLength false quote ([] ++ quote :: x) = some 0 := by
          simpa [Option.map_eq_some_iff] using h
        have ih := quotedLength_append hquote hhead oneLine [] hclose
        simp only [List.nil_append] at ih
        rw [ih]
  | c :: d :: text =>
    simp only [List.cons_append] at h ⊢
    rw [quotedLength] at h
    rw [quotedLength, quotedLength]
    simp only [Bool.false_and, Bool.false_eq_true, if_false] at h
    by_cases hpair : ((c == '\\' && quote == '"') ||
        (c == '\'' && quote == '\'' && d == '\'')) = true
    · rw [if_pos hpair] at h
      rw [if_pos hpair, if_pos hpair]
      obtain ⟨n, hn, hlength⟩ := Option.map_eq_some_iff.mp h
      have hlength : n = text.length := by simpa using hlength
      rw [quotedLength_append hquote hhead oneLine text (hlength ▸ hn)]
    · rw [if_neg hpair] at h
      rw [if_neg hpair, if_neg hpair]
      by_cases hc : (c == quote) = true
      · simp [hc] at h
      · rw [if_neg hc] at h
        rw [if_neg hc, if_neg hc]
        obtain ⟨n, hn, hlength⟩ := Option.map_eq_some_iff.mp h
        have hlength : n = (d :: text).length := by simpa using hlength
        have ih := quotedLength_append hquote hhead oneLine (d :: text) (hlength ▸ hn)
        simp only [List.cons_append] at ih
        rw [ih]
termination_by text.length

/-- A quoted text that closes on its line closes at the same place without that condition. -/
theorem quotedLength_of_oneLine {quote : Char} {text : Text} {n : Nat}
    (h : quotedLength true quote text = some n) : quotedLength false quote text = some n := by
  fun_induction quotedLength true quote text generalizing n with
  | case1 => simp at h
  | case2 c hquote => simpa [quotedLength, hquote] using h
  | case3 => simp at h
  | case4 => simp at h
  | case5 c d rest _ hpair ih =>
      obtain ⟨m, hm, rfl⟩ := Option.map_eq_some_iff.mp h
      rw [quotedLength, if_neg (by simp), if_pos hpair, ih hm]
      rfl
  | case6 c d rest _ hpair hquote =>
      rw [quotedLength, if_neg (by simp), if_neg hpair, if_pos hquote]
      exact h
  | case7 c d rest _ hpair hquote ih =>
      obtain ⟨m, hm, rfl⟩ := Option.map_eq_some_iff.mp h
      rw [quotedLength, if_neg (by simp), if_neg hpair, if_neg hquote, ih hm]
      rfl

/-! ## Marks -/

theorem atBreak_congr {x y : Text} (hhead : x.head? = y.head?) : atBreak x = atBreak y := by
  cases x <;> cases y <;> simp_all [atBreak]

theorem atFlowEnd_congr {x y : Text} (hhead : x.head? = y.head?) : atFlowEnd x = atFlowEnd y := by
  cases x <;> cases y <;> simp_all [atFlowEnd]

theorem head?_append_cons (start x y : Text) (c : Char) :
    (start ++ c :: x).head? = (start ++ c :: y).head? := by
  cases start <;> rfl

theorem atDash_iff {text : Text} :
    atDash text = true ↔ ∃ tail, text = '-' :: tail ∧ atBreak tail = true := by
  constructor
  · intro h
    obtain ⟨tail, rfl⟩ := eq_dash_of_atDash h
    exact ⟨tail, rfl, h⟩
  · rintro ⟨tail, rfl, h⟩
    exact h

/-- A mark of three characters is settled by another character before the texts part. -/
theorem atDashes_append {c : Char} (hc : c ≠ '-') (start x y : Text) :
    atDashes (start ++ c :: x) = atDashes (start ++ c :: y) := by
  match start with
  | [] | [_] | [_, _] => simp [atDashes, hc]
  | [a, b, d] => by_cases h : a = '-' ∧ b = '-' ∧ d = '-' <;> simp_all [atDashes, atBreak]
  | a :: b :: d :: _ :: _ =>
    by_cases h : a = '-' ∧ b = '-' ∧ d = '-' <;> simp_all [atDashes, atBreak]

theorem atDots_append {c : Char} (hc : c ≠ '.') (start x y : Text) :
    atDots (start ++ c :: x) = atDots (start ++ c :: y) := by
  match start with
  | [] | [_] | [_, _] => simp [atDots, hc]
  | [a, b, d] => by_cases h : a = '.' ∧ b = '.' ∧ d = '.' <;> simp_all [atDots, atBreak]
  | a :: b :: d :: _ :: _ =>
    by_cases h : a = '.' ∧ b = '.' ∧ d = '.' <;> simp_all [atDots, atBreak]

theorem atDash_append {c : Char} (hc : c ≠ '-') (start x y : Text) :
    atDash (start ++ c :: x) = atDash (start ++ c :: y) := by
  cases start with
  | nil => simp [atDash, hc]
  | cons d start =>
      by_cases hd : d = '-'
      · subst hd
        exact atBreak_congr (head?_append_cons start x y c)
      · simp [atDash, hd]

/-! ## Keys and openings -/

/-- Whether a plain key is closed on its line is settled by the end of the line, and by a colon that
closes a key in both texts. -/
theorem plainKeyCloses_append {c : Char} {x y : Text}
    (h : c = '\n' ∨ c = ':' ∧ atBreak x = true ∧ atBreak y = true) (start : Text) :
    plainKeyCloses (start ++ c :: x) = plainKeyCloses (start ++ c :: y) := by
  induction start with
  | nil =>
      rcases h with rfl | ⟨rfl, hx, hy⟩
      · rfl
      · simp [plainKeyCloses, hx, hy]
  | cons d start ih =>
      have hhead := head?_append_cons start x y c
      have hcomment : atComment d (start ++ c :: x) = atComment d (start ++ c :: y) := by
        unfold atComment
        rw [hhead]
      simp only [List.cons_append, plainKeyCloses, hcomment, atBreak_congr hhead, ih]

theorem atKey_cons {c : Char} (hc : c ≠ '&') (rest : Text) :
    atKey (c :: rest) = atBareKey (c :: rest) := by
  simp [atKey, hc]

/-- A key that is not quoted is found on its line. -/
theorem atBareKey_append {c : Char} (hdouble : c ≠ '"') (hsingle : c ≠ '\'') {d : Char}
    {x y : Text} (hd : d = '\n' ∨ d = ':' ∧ atBreak x = true ∧ atBreak y = true) (start : Text) :
    atBareKey (c :: (start ++ d :: x)) = atBareKey (c :: (start ++ d :: y)) := by
  have hbreak := atBreak_congr (head?_append_cons start x y d)
  have hdash : atDash (c :: (start ++ d :: x)) = atDash (c :: (start ++ d :: y)) := by
    by_cases hc : c = '-'
    · subst hc
      exact hbreak
    · simp [atDash, hc]
  have hcloses := plainKeyCloses_append hd (c :: start)
  simp only [List.cons_append] at hcloses
  have hquote : (c == '"' || c == '\'') = false := by simp [hdouble, hsingle]
  simp only [atBareKey, hquote, Bool.false_eq_true, if_false, hbreak, hdash, hcloses]

/-- A plain scalar is told from the other nodes by its first line. -/
theorem opening_append_line {start x y : Text} (hne : start ≠ [])
    (h : opening (start ++ '\n' :: x) = .plain) : opening (start ++ '\n' :: y) = .plain := by
  obtain ⟨c, start, rfl⟩ := List.exists_cons_of_ne_nil hne
  have hbreak := atBreak_congr (head?_append_cons start x y '\n')
  have hdash := atDash_append (by decide : '\n' ≠ '-') (c :: start) x y
  simp only [List.cons_append] at h hdash ⊢
  -- quoted nodes and anchored ones are never plain, whether a key starts there or not
  have hc : c ≠ '&' ∧ c ≠ '"' ∧ c ≠ '\'' := by
    refine ⟨?_, ?_, ?_⟩ <;> rintro rfl <;> simp only [opening, atDash] at h <;> grind
  have hkey : atKey (c :: (start ++ '\n' :: x)) = atKey (c :: (start ++ '\n' :: y)) := by
    rw [atKey_cons hc.1, atKey_cons hc.1, atBareKey_append hc.2.1 hc.2.2 (.inl rfl)]
  simpa only [opening, hbreak, hdash, hkey] using h

/-! ## Lines -/

/-- A line that starts with a visible character is not blank. -/
theorem isBlankLine_cons {c : Char} (hc : isWhitespace c = false) (rest : Text) :
    isBlankLine (c :: rest) = false := by
  have hline : c ≠ '\n' := by
    rintro rfl
    simp [isWhitespace] at hc
  simp [isBlankLine, hline, hc]

private theorem isBlankLine_of_plainKeyCloses {text : Text} (h : plainKeyCloses text = true) :
    isBlankLine text = false := by
  fun_induction plainKeyCloses text with
  | case1 => simp at h
  | case2 => simp at h
  | case3 c rest _ hcolon =>
      simp only [Bool.and_eq_true, beq_iff_eq] at hcolon
      rw [hcolon.1]
      exact isBlankLine_cons (by decide) rest
  | case4 => simp at h
  | case5 c rest hline _ _ ih =>
      have := ih h
      simp_all [isBlankLine]

/-- The line of a key is not blank. -/
theorem isBlankLine_of_atKey {text : Text} (h : atKey text = true) : isBlankLine text = false := by
  match text with
  | [] => simp [atKey, atBareKey] at h
  | c :: rest =>
    by_cases hc : c = '&' ∨ c = '"' ∨ c = '\''
    · rcases hc with rfl | rfl | rfl <;> exact isBlankLine_cons (by decide) rest
    · simp only [not_or] at hc
      rw [atKey_cons hc.1, atBareKey] at h
      refine isBlankLine_of_plainKeyCloses ?_
      grind

/-- What is asked of each character of a line is settled by the end of the line. -/
theorem takeWhile_append_cons {p : Char → Bool} {c : Char} (hc : p c = false) (start x y : Text) :
    (start ++ c :: x).takeWhile p = (start ++ c :: y).takeWhile p := by
  induction start with
  | nil => simp [hc]
  | cons d start ih => simp [List.takeWhile_cons, ih]

theorem extendLines_newline (next : Text → Option (Nat × Bool)) (reached offset : Nat)
    (rest : Text) :
    extendLines next reached offset ('\n' :: rest) =
      if isBlankLine rest then extendLines next reached (offset + 1) rest
      else
        match next rest with
        | none => reached
        | some (n, true) => extendLines next (offset + 1 + n) (offset + 1) rest
        | some (n, false) => offset + 1 + n := by
  cases hblank : isBlankLine rest with
  | true => simp [extendLines, hblank]
  | false =>
      rcases hfound : next rest with _ | ⟨n, _ | _⟩
      all_goals simp [extendLines, hblank, hfound]

theorem extendLines_other {c : Char} (hc : c ≠ '\n') (next : Text → Option (Nat × Bool))
    (reached offset : Nat) (rest : Text) :
    extendLines next reached offset (c :: rest) = extendLines next reached (offset + 1) rest := by
  rw [extendLines, if_neg (by simpa using hc)]

/-- Nothing is asked about a scalar over several lines before the first line break. -/
theorem extendLines_of_notMem {next : Text → Option (Nat × Bool)} {start : Text}
    (hstart : '\n' ∉ start) (reached offset : Nat) (after : Text) :
    extendLines next reached offset (start ++ after) =
      extendLines next reached (offset + start.length) after := by
  induction start generalizing offset with
  | nil => rfl
  | cons c start ih =>
      simp only [List.mem_cons, not_or] at hstart
      rw [List.cons_append, extendLines_other (Ne.symm hstart.1), ih hstart.2, List.length_cons,
        show offset + 1 + start.length = offset + (start.length + 1) by omega]

/-- A scalar over several lines ends where it did, or within a line that belongs to it. -/
theorem extendLines_cases (next : Text → Option (Nat × Bool)) (reached offset : Nat)
    (text : Text) : extendLines next reached offset text = reached ∨
      ∃ start line n goesOn, text = start ++ '\n' :: line ∧ isBlankLine line = false ∧
        next line = some (n, goesOn) ∧
        extendLines next reached offset text = offset + (start.length + 1 + n) := by
  induction text generalizing reached offset with
  | nil => exact .inl rfl
  | cons c text ih =>
      have hlater : ∀ {result : Nat}, (∃ start line n goesOn, text = start ++ '\n' :: line ∧
            isBlankLine line = false ∧ next line = some (n, goesOn) ∧
            result = offset + 1 + (start.length + 1 + n)) →
          ∃ start line n goesOn, c :: text = start ++ '\n' :: line ∧ isBlankLine line = false ∧
            next line = some (n, goesOn) ∧ result = offset + (start.length + 1 + n) := by
        rintro result ⟨start, line, n, goesOn, rfl, hblank, hline, hresult⟩
        refine ⟨c :: start, line, n, goesOn, rfl, hblank, hline, ?_⟩
        rw [hresult, List.length_cons]
        omega
      simp only [extendLines]
      split
      next hc =>
        split
        next => exact (ih reached (offset + 1)).imp_right hlater
        next hblank =>
          have hhere : ∀ {n : Nat} {goesOn : Bool}, next text = some (n, goesOn) →
              ∃ start line m goesOn, c :: text = start ++ '\n' :: line ∧
                isBlankLine line = false ∧ next line = some (m, goesOn) ∧
                offset + 1 + n = offset + (start.length + 1 + m) := by
            intro n goesOn hline
            refine ⟨[], text, n, goesOn, by rw [eq_of_beq hc]; rfl, by simpa using hblank, hline, ?_⟩
            simp only [List.length_nil]
            omega
          split
          next => exact .inl rfl
          next n hline =>
            rcases ih (offset + 1 + n) (offset + 1) with hsame | hmore
            · rw [hsame]
              exact .inr (hhere hline)
            · exact .inr (hlater hmore)
          next n hline => exact .inr (hhere hline)
      next => exact (ih reached (offset + 1)).imp_right hlater

theorem extendLines_le {next : Text → Option (Nat × Bool)}
    (hnext : ∀ line n goesOn, next line = some (n, goesOn) → n ≤ line.length)
    {reached : Nat} {text : Text} (h : reached ≤ text.length) :
    extendLines next reached 0 text ≤ text.length := by
  rcases extendLines_cases next reached 0 text with
    hsame | ⟨start, line, n, goesOn, rfl, -, hline, hend⟩
  · rwa [hsame]
  · have hle := hnext line n goesOn hline
    rw [hend, List.length_append, List.length_cons]
    omega

/-- Where a line ends a scalar in both texts, the scalar is as long in both. -/
theorem extendLines_append {next : Text → Option (Nat × Bool)} {x y : Text}
    (hnext : ∀ start, next (start ++ '\n' :: x) = next (start ++ '\n' :: y))
    (hx : isBlankLine x = false) (hy : isBlankLine y = false) (hxnone : next x = none)
    (hynone : next y = none) (start : Text) (reached offset : Nat) :
    extendLines next reached offset (start ++ '\n' :: x) =
      extendLines next reached offset (start ++ '\n' :: y) := by
  induction start generalizing reached offset with
  | nil => simp [extendLines, hx, hy, hxnone, hynone]
  | cons c start ih =>
      have hblank : isBlankLine (start ++ '\n' :: x) = isBlankLine (start ++ '\n' :: y) := by
        unfold isBlankLine
        rw [takeWhile_append_cons (by decide)]
      simp only [List.cons_append, extendLines, hblank, hnext, ih]

/-- The lines of a literal scalar are the same in both texts when the line that they part on does
not belong to the scalar. -/
theorem literalLength_append {floor : Nat} {x y : Text} (hx : isBlankLine x = false)
    (hy : isBlankLine y = false) (hxnone : literalLine floor x = none)
    (hynone : literalLine floor y = none) (start : Text) :
    literalLength floor (start ++ '\n' :: x) = literalLength floor (start ++ '\n' :: y) := by
  have hlength : ∀ start, lineLength (start ++ '\n' :: x) = lineLength (start ++ '\n' :: y) := by
    intro start
    unfold lineLength
    rw [takeWhile_append_cons (by decide)]
  have hindent : ∀ start,
      indentation (start ++ '\n' :: x) = indentation (start ++ '\n' :: y) := by
    intro start
    unfold indentation
    rw [takeWhile_append_cons (by decide)]
  unfold literalLength
  rw [hlength]
  refine extendLines_append (fun start => ?_) hx hy hxnone hynone start _ _
  simp only [literalLine, hlength, hindent, atDashes_append (by decide : '\n' ≠ '-') start x y,
    atDots_append (by decide : '\n' ≠ '.') start x y]

theorem lineLength_newline (rest : Text) : lineLength ('\n' :: rest) = 0 := rfl

theorem lineLength_cons {c : Char} (hc : c ≠ '\n') (rest : Text) :
    lineLength (c :: rest) = lineLength rest + 1 := by
  simp [lineLength, hc]

theorem newline_notMem_takeWhile {p : Char → Bool} (hp : p '\n' = false) (text : Text) :
    '\n' ∉ text.take (text.takeWhile p).length := by
  rw [← List.prefix_iff_eq_take.mp (List.takeWhile_prefix p)]
  intro hmem
  simpa [hp] using List.all_eq_true.mp (List.all_takeWhile) _ hmem

/-- A line that belongs to a literal scalar is no mark of a document. -/
theorem literalLine_eq_some {floor n : Nat} {line : Text} {goesOn : Bool}
    (h : literalLine floor line = some (n, goesOn)) :
    n ≤ line.length ∧ '\n' ∉ line.take n ∧ (atDashes line || atDots line) = false := by
  simp only [literalLine] at h
  split at h
  next => simp at h
  next hline =>
    simp only [Option.some.injEq, Prod.mk.injEq] at h
    obtain ⟨rfl, -⟩ := h
    refine ⟨(List.takeWhile_sublist _).length_le, ?_, by grind⟩
    exact newline_notMem_takeWhile rfl line

theorem literalLength_le (floor : Nat) (text : Text) : literalLength floor text ≤ text.length :=
  extendLines_le (fun _ _ _ h => (literalLine_eq_some h).1) (List.takeWhile_sublist _).length_le

/-! ## Plain scalars -/

/-- What a line that continues a plain scalar is like, and how much of it belongs to the scalar. -/
theorem plainLine_inv {floor n : Nat} {line : Text} {goesOn : Bool}
    (h : plainLine floor line = some (n, goesOn)) :
    floor ≤ indentation line ∧ (line.drop (indentation line)).head? ≠ some '#' ∧
      n = indentation line + plainLineLength (line.drop (indentation line)) ∧
      goesOn = lineEnds ((line.drop (indentation line)).drop
        (plainLineLength (line.drop (indentation line)))) := by
  simp only [plainLine] at h
  split at h
  next => cases h
  next hline =>
    simp only [Option.some.injEq, Prod.mk.injEq] at h
    simp only [Bool.or_eq_true, decide_eq_true_eq, beq_iff_eq, not_or, Nat.not_lt] at hline
    exact ⟨hline.1.1.1.1, hline.1.1.1.2, h.1.symm, h.2.symm⟩

/-- A line that continues a plain scalar is no mark of a document. -/
theorem plainLine_eq_some {floor n : Nat} {line : Text} {goesOn : Bool}
    (h : plainLine floor line = some (n, goesOn)) :
    n ≤ line.length ∧ '\n' ∉ line.take n ∧ (atDashes line || atDots line) = false := by
  simp only [plainLine] at h
  split at h
  next => simp at h
  next hline =>
    simp only [Option.some.injEq, Prod.mk.injEq] at h
    obtain ⟨rfl, -⟩ := h
    refine ⟨?_, ?_, by grind⟩
    · have hindent : indentation line ≤ line.length := (List.takeWhile_sublist _).length_le
      have hrun : plainLineLength (line.drop (indentation line)) ≤
          (line.drop (indentation line)).length := runLength_le _ _ _
      rw [List.length_drop] at hrun
      omega
    · rw [List.take_add, List.mem_append, not_or]
      constructor
      · exact newline_notMem_takeWhile rfl line
      · exact notMem_run _ (by simp) _

theorem plainBlockLength_le (floor : Nat) (text : Text) :
    plainBlockLength floor text ≤ text.length := by
  have hfirst : plainLineLength text ≤ text.length := runLength_le _ _ _
  unfold plainBlockLength
  dsimp only
  split
  · exact extendLines_le (fun _ _ _ h => (plainLine_eq_some h).1) hfirst
  · exact hfirst

/-- A plain scalar without line breaks that ends with its first line is as long as that line. -/
theorem plainLineLength_of_plainBlockLength {floor : Nat} {text after : Text}
    (hline : '\n' ∉ text) (h : plainBlockLength floor (text ++ after) = text.length) :
    plainLineLength (text ++ after) = text.length := by
  unfold plainBlockLength at h
  dsimp only at h
  split at h
  · rw [extendLines_of_notMem hline, Nat.zero_add] at h
    rcases extendLines_cases (plainLine floor) (plainLineLength (text ++ after)) text.length
      after with hsame | ⟨_, _, _, _, -, -, -, hlater⟩ <;> omega
  · exact h

/-- A plain scalar that starts with a visible character is not empty. -/
theorem plainLineLength_pos {text : Text} (hne : text ≠ []) (hstart : triviaLength text = 0) :
    0 < plainLineLength text := by
  obtain ⟨c, rest, rfl⟩ := List.exists_cons_of_ne_nil hne
  have hc : c ≠ '\n' ∧ isTrailing c = false := by
    simp only [triviaLength, triviaFrom] at hstart
    grind
  have hcomment : atComment c rest = false := by
    simp only [isTrailing, atComment, isBlank] at hc ⊢
    grind
  simp only [plainLineLength, runLength, hcomment, hc.2]
  grind

theorem plainBlockLength_pos (floor : Nat) {text : Text} (hne : text ≠ [])
    (hstart : triviaLength text = 0) : 0 < plainBlockLength floor text := by
  have hfirst := plainLineLength_pos hne hstart
  unfold plainBlockLength
  dsimp only
  split
  · rcases extendLines_cases (plainLine floor) (plainLineLength text) 0 text with
      hsame | ⟨_, _, _, _, -, -, -, hlater⟩ <;> omega
  · exact hfirst

/-- No colon that closes a key stands between the end of a plain line and its line break. -/
theorem plainKeyCloses_of_plainLineLength {text : Text} (h : plainLineLength text = 0) :
    plainKeyCloses text = false := by
  induction text with
  | nil => rfl
  | cons c rest ih =>
      simp only [plainLineLength, runLength] at h
      simp only [plainKeyCloses]
      by_cases hc : c = ':'
      · subst hc
        exfalso
        simp only [atComment, isBlank, isTrailing] at h
        grind
      · have hrest : ¬(c == '\n') = true → ¬atComment c rest = true → plainLineLength rest = 0 := by
          intro hline hcomment
          unfold plainLineLength
          grind
        grind

end Lookahead

end LosslessYaml
