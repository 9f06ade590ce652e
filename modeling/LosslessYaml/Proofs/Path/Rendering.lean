import LosslessYaml.Proofs.Path.Image

/-!
# Writing paths

Every path that an expression can stand for has a written form of its own, with each step between
brackets and each key in single quotes.  An anchored path is written with a dollar sign or with
slashes, and one that starts anywhere with slashes between its steps.  This file proves that the
written forms are read back as the path that they were made from, whatever characters the keys hold
and whatever 64-bit numbers the brackets hold.

A descent is two dots in one grammar; in the other it is one slash more in front of the slash of
the step behind it.  So both forms are written segment by segment, and are read back by induction
on `Steps`.

Main statement: `Path.parse_image_and_renderings`.
-/

namespace LosslessYaml

open Text

/-! ## Written forms -/

/-- A character of a key between single quotes. -/
def escape (c : Char) : Text := if c == '\\' || c == '\'' then ['\\', c] else [c]

/-- A key between single quotes. -/
def quotedText (key : Text) : Text := '\'' :: key.flatMap escape ++ ['\'']

/-- Keys between single quotes, with commas between them. -/
def quotedTexts : List Text → Text
  | [] => []
  | [key] => quotedText key
  | key :: keys => quotedText key ++ ',' :: quotedTexts keys

/-- A number in decimal digits. -/
def numberText (n : Int64) : Text :=
  if 0 ≤ n.toInt then Nat.toDigits 10 n.toInt.toNat else '-' :: Nat.toDigits 10 n.toInt.natAbs

/-- A bound of a slice, which may be absent. -/
def boundText : Option Int64 → Text
  | none => []
  | some n => numberText n

namespace Segment

/-- What stands between the brackets of a step. -/
def innerText : Segment → Text
  | .child name => quotedText name
  | .anyOf names => quotedTexts names
  | .index n => numberText n
  | .slice start stop => boundText start ++ ':' :: boundText stop
  | .wildcard => ['*']
  | .descent => []

/-- A step between its brackets. -/
def bracketText (segment : Segment) : Text := '[' :: (segment.innerText ++ [']'])

/-- A segment of a dotted expression. -/
def dottedText : Segment → Text
  | .descent => ['.', '.']
  | segment => segment.bracketText

/-- A segment of a slash expression. -/
def slashText : Segment → Text
  | .descent => ['/']
  | segment => '/' :: segment.bracketText

end Segment

/-- The dotted expression of an anchored path. -/
def Path.dottedText (path : Path) : Text := '$' :: path.segments.flatMap Segment.dottedText

/-- The slash expression of an anchored path. -/
def Path.slashText (path : Path) : Text := path.segments.flatMap Segment.slashText

/-- The slash expression of a path that is not anchored. -/
def Path.relativeText (path : Path) : Text := path.slashText.tail

namespace Segment.IsStep

variable {segment : Segment}

theorem dottedText_eq (h : segment.IsStep) : segment.dottedText = segment.bracketText := by
  cases segment <;> first | rfl | exact absurd h id

theorem slashText_eq (h : segment.IsStep) : segment.slashText = '/' :: segment.bracketText := by
  cases segment <;> first | rfl | exact absurd h id

end Segment.IsStep

namespace PathExpression

/-! ## Tokens -/

theorem skipWhitespace_cons {c : Char} (hc : isWhitespace c = false) (text : Text) :
    skipWhitespace (c :: text) = c :: text := by
  simp [skipWhitespace, hc]

theorem expect_cons {c : Char} (hc : isWhitespace c = false) (text : Text) :
    expect c (c :: text) = .ok text := by
  simp [expect, skipWhitespace_cons hc]

/-- A key is read back from between its quotes. -/
theorem quoted_escape (key rest : Text) :
    quoted '\'' (key.flatMap escape ++ '\'' :: rest) = .ok (key, rest) := by
  induction key with
  | nil => simp [quoted]
  | cons c key ih =>
      rw [List.flatMap_cons, List.append_assoc]
      by_cases hc : c = '\\' ∨ c = '\''
      · rcases hc with rfl | rfl <;>
          simp [escape, quoted, unescape, ih, bind, Except.bind]
      · have hback : c ≠ '\\' := fun h => hc (.inl h)
        have hquote : c ≠ '\'' := fun h => hc (.inr h)
        simp [escape, quoted, hback, hquote, ih, bind, Except.bind]

/-- The digits of a number are read to their end. -/
theorem takeWhile_digits (n : Nat) {rest : Text} (hrest : ∀ c ∈ rest.head?, c.isDigit = false) :
    (Nat.toDigits 10 n ++ rest).takeWhile Char.isDigit = Nat.toDigits 10 n ∧
      (Nat.toDigits 10 n ++ rest).dropWhile Char.isDigit = rest := by
  have hdigits : ∀ c ∈ Nat.toDigits 10 n, c.isDigit = true := fun c hc =>
    Nat.isDigit_of_mem_toDigits (by decide) (by decide) hc
  rw [List.takeWhile_append_of_pos hdigits, List.dropWhile_append_of_pos hdigits]
  cases rest with
  | nil => simp
  | cons c rest =>
      have hc : c.isDigit = false := hrest c rfl
      simp [hc]

theorem digitsValue_toDigits (n : Nat) : digitsValue (Nat.toDigits 10 n) = n :=
  Nat.ofDigitChars_toDigits (by decide) (by decide)

theorem isWhitespace_of_isDigit {c : Char} (h : c.isDigit = true) : isWhitespace c = false := by
  have hrange : 48 ≤ c.toNat ∧ c.toNat ≤ 57 := by
    simpa [Char.isDigit, UInt32.le_iff_toNat_le] using h
  simp only [isWhitespace]
  have : ∀ n, 48 ≤ n ∧ n ≤ 57 → ∀ m, (n == m) = true → 48 ≤ m ∧ m ≤ 57 := by
    intro n hn m hm
    rwa [← eq_of_beq hm]
  grind

/-- A number starts with a visible character: a digit or a minus sign. -/
theorem numberText_start (n : Int64) :
    ∃ c tail, numberText n = c :: tail ∧ (c = '-' ∨ c.isDigit = true) := by
  unfold numberText
  split
  · obtain ⟨c, tail, hdigits⟩ := List.exists_cons_of_ne_nil
      (Nat.toDigits_ne_nil (n := n.toInt.toNat) (b := 10))
    refine ⟨c, tail, hdigits, .inr ?_⟩
    exact Nat.isDigit_of_mem_toDigits (by decide) (by decide) (hdigits ▸ List.mem_cons_self)
  · exact ⟨_, _, rfl, .inl rfl⟩

theorem isWhitespace_of_start {c : Char} (h : c = '-' ∨ c.isDigit = true) :
    isWhitespace c = false := by
  rcases h with rfl | h
  · rfl
  · exact isWhitespace_of_isDigit h

/-- A number between brackets is taken for nothing else. -/
theorem not_other_of_start {c : Char} (h : c = '-' ∨ c.isDigit = true) :
    (c == '*') = false ∧ (c == '"' || c == '\'') = false ∧ (c == '-' || c.isDigit) = true := by
  rcases h with rfl | h
  · decide
  · have hne : ∀ d : Char, d.isDigit = false → (c == d) = false := by
      intro d hd
      rw [beq_eq_false_iff_ne]
      rintro rfl
      simp [h] at hd
    exact ⟨hne _ rfl, by simp [hne '"' rfl, hne '\'' rfl], by simp [h]⟩

/-- Every 64-bit number is read back from its digits. -/
theorem number_numberText (n : Int64) (rest : Text)
    (hrest : ∀ c ∈ rest.head?, c.isDigit = false) :
    number (numberText n ++ rest) = .ok (n, rest) := by
  have hrange : Int64.minValue.toInt ≤ n.toInt ∧ n.toInt ≤ Int64.maxValue.toInt :=
    ⟨Int64.minValue_le_toInt n, Int64.toInt_le n⟩
  obtain ⟨c, tail, hstart, hc⟩ := numberText_start n
  have hskip : skipWhitespace (numberText n ++ rest) = numberText n ++ rest := by
    rw [hstart, List.cons_append, skipWhitespace_cons (isWhitespace_of_start hc)]
  unfold number
  rw [hskip]
  by_cases hsign : 0 ≤ n.toInt
  · have htext : numberText n = Nat.toDigits 10 n.toInt.toNat := if_pos hsign
    have hhead : ((numberText n ++ rest).head? == some '-') = false := by
      rw [hstart, List.cons_append, List.head?_cons]
      have hdigit : c.isDigit = true :=
        Nat.isDigit_of_mem_toDigits (by decide) (by decide)
          (show c ∈ Nat.toDigits 10 n.toInt.toNat by rw [← htext, hstart]; exact List.mem_cons_self)
      have hne : c ≠ '-' := by
        rintro rfl
        simp [Char.isDigit] at hdigit
      simpa using hne
    obtain ⟨htake, hdrop⟩ := takeWhile_digits n.toInt.toNat hrest
    have hvalue : (n.toInt.toNat : Int) = n.toInt := Int.toNat_of_nonneg hsign
    simp only [hhead, Bool.false_eq_true, if_false]
    rw [htext, htake, hdrop, digitsValue_toDigits, hvalue, if_pos hrange, Int64.ofInt_toInt]
    simp
  · have htext : numberText n = '-' :: Nat.toDigits 10 n.toInt.natAbs := if_neg hsign
    obtain ⟨htake, hdrop⟩ := takeWhile_digits n.toInt.natAbs hrest
    have hvalue : -(n.toInt.natAbs : Int) = n.toInt := by omega
    rw [htext, List.cons_append]
    simp only [List.head?_cons, beq_self_eq_true, if_true, List.drop_succ_cons, List.drop_zero]
    rw [htake, hdrop, digitsValue_toDigits, hvalue, if_pos hrange, Int64.ofInt_toInt]
    simp

/-! ## Brackets -/

theorem bound_boundText {closing : Char} (hclosing : closing = ':' ∨ closing = ']')
    (n : Option Int64) (rest : Text) :
    bound closing (boundText n ++ closing :: rest) = .ok (n, closing :: rest) := by
  have hvisible : isWhitespace closing = false := by rcases hclosing with rfl | rfl <;> rfl
  have hdigit : closing.isDigit = false := by rcases hclosing with rfl | rfl <;> rfl
  cases n with
  | none => simp [boundText, bound, skipWhitespace_cons hvisible]
  | some n =>
      obtain ⟨c, tail, hstart, hc⟩ := numberText_start n
      have hne : c ≠ closing := by
        rintro rfl
        rcases hc with rfl | hc
        · simp at hclosing
        · simp [hc] at hdigit
      have hskip : skipWhitespace (numberText n ++ closing :: rest) =
          numberText n ++ closing :: rest := by
        rw [hstart, List.cons_append, skipWhitespace_cons (isWhitespace_of_start hc)]
      have hhead : ((numberText n ++ closing :: rest).head? == some closing) = false := by
        simpa [hstart] using hne
      have hnumber := number_numberText n (closing :: rest) (by simpa using hdigit)
      simp only [bound, boundText, hskip, hhead, hnumber, bind, Except.bind, Bool.false_eq_true,
        if_false]

theorem slice_text {start stop : Option Int64} (hstep : (Segment.slice start stop).IsStep)
    (rest : Text) :
    slice ((boundText start ++ ':' :: boundText stop) ++ ']' :: rest) =
      .ok (.slice start stop, rest) := by
  have hstart := bound_boundText (.inl rfl) start (boundText stop ++ ']' :: rest)
  have hstop := bound_boundText (.inr rfl) stop rest
  rw [List.append_assoc, List.cons_append]
  simp only [slice, hstart, hstop, expect_cons (by rfl : isWhitespace ':' = false),
    expect_cons (by rfl : isWhitespace ']' = false), bind, Except.bind]
  match start, stop with
  | none, _ | some _, none => rfl
  | some s, some e =>
    have hreversed : isReversed s e = false := by
      have hbounds : ¬ (0 ≤ e.toInt ∧ e.toInt < s.toInt) := hstep
      simp only [isReversed, Bool.and_eq_false_iff, decide_eq_false_iff_not]
      omega
    simp [hreversed]

/-- Keys are read back with fuel for each of them. -/
theorem keys_quotedTexts {names : List Text} (hne : names ≠ []) {fuel : Nat}
    (hfuel : names.length ≤ fuel) (rest : Text) :
    keys fuel (quotedTexts names ++ ']' :: rest) = .ok (names, ']' :: rest) := by
  induction names generalizing fuel with
  | nil => exact absurd rfl hne
  | cons key names ih =>
      obtain ⟨fuel, rfl⟩ : ∃ less, fuel = less + 1 := ⟨fuel - 1, by simp at hfuel; omega⟩
      have hopen : ∀ text, skipWhitespace ('\'' :: text) = '\'' :: text :=
        skipWhitespace_cons (by rfl)
      have hcomma : ∀ text, skipWhitespace (',' :: text) = ',' :: text :=
        skipWhitespace_cons (by rfl)
      have hclose : ∀ text, skipWhitespace (']' :: text) = ']' :: text :=
        skipWhitespace_cons (by rfl)
      cases names with
      | nil =>
          have hkey := quoted_escape key (']' :: rest)
          simp [quotedTexts, quotedText, keys, quotedKey, hopen, hkey, hclose, bind, Except.bind]
      | cons next names =>
          have hfewer : (next :: names).length ≤ fuel := by simpa using hfuel
          have hmore := ih (by simp) hfewer
          have hkey := quoted_escape key
            (',' :: (quotedTexts (next :: names) ++ ']' :: rest))
          simp [quotedTexts, quotedText, keys, quotedKey, hopen, hkey, hcomma, hmore, bind, Except.bind]

theorem length_quotedTexts (names : List Text) : names.length ≤ (quotedTexts names).length := by
  induction names with
  | nil => simp
  | cons key names ih =>
      cases names with
      | nil => simp [quotedTexts, quotedText]
      | cons next names =>
          simp only [quotedTexts, quotedText, List.length_cons, List.length_append] at ih ⊢
          omega

/-- A quote after the opening bracket is that of a first key. -/
theorem bracket_quoted {names : List Text} (hne : names ≠ []) (rest : Text) :
    bracket ('[' :: (quotedTexts names ++ ']' :: rest)) = .ok (keysSegment names, rest) := by
  obtain ⟨tail, htext⟩ : ∃ tail, quotedTexts names = '\'' :: tail := by
    match names with
    | [key] => exact ⟨_, rfl⟩
    | key :: _ :: _ => exact ⟨_, rfl⟩
  have hlength : names.length ≤ (quotedTexts names ++ ']' :: rest).length := by
    have := length_quotedTexts names
    rw [List.length_append]
    omega
  have hkeys := keys_quotedTexts hne hlength rest
  have hopen : skipWhitespace (quotedTexts names ++ ']' :: rest) =
      '\'' :: (tail ++ ']' :: rest) := by
    rw [htext, List.cons_append, skipWhitespace_cons (by rfl)]
  rw [htext, List.cons_append] at hkeys
  simp only [bracket, expect_cons (by rfl : isWhitespace '[' = false), hopen, hkeys,
    expect_cons (by rfl : isWhitespace ']' = false), bind, Except.bind]
  rfl

/-- No colon stands in a number, and no closing bracket. -/
theorem notMem_numberText (n : Int64) {c : Char} (hc : c = ':' ∨ c = ']') : c ∉ numberText n := by
  have hdigits : ∀ m, c ∉ Nat.toDigits 10 m := by
    intro m hmem
    have hdigit := Nat.isDigit_of_mem_toDigits (by decide) (by decide) hmem
    rcases hc with rfl | rfl <;> simp [Char.isDigit] at hdigit
  unfold numberText
  split
  · exact hdigits _
  · rw [List.mem_cons, not_or]
    refine ⟨?_, hdigits _⟩
    rcases hc with rfl | rfl <;> decide

theorem takeWhile_bracket {text : Text} (h : ']' ∉ text) (rest : Text) :
    (text ++ ']' :: rest).takeWhile (· != ']') = text := by
  rw [List.takeWhile_append_of_pos fun c hc => by
    simpa using fun hbracket : c = ']' => h (hbracket ▸ hc)]
  simp

theorem bracket_index (n : Int64) (rest : Text) :
    bracket ('[' :: (numberText n ++ ']' :: rest)) = .ok (.index n, rest) := by
  obtain ⟨c, tail, hstart, hc⟩ := numberText_start n
  have hnumber := number_numberText n (']' :: rest) (by simp [Char.isDigit])
  have hslice : isSlice (numberText n ++ ']' :: rest) = false := by
    rw [isSlice, takeWhile_bracket (notMem_numberText n (.inr rfl))]
    simpa using notMem_numberText n (.inl rfl)
  rw [hstart, List.cons_append] at hnumber hslice ⊢
  simp only [bracket, expect_cons (by rfl : isWhitespace '[' = false),
    skipWhitespace_cons (isWhitespace_of_start hc), not_other_of_start hc, hslice, hnumber,
    expect_cons (by rfl : isWhitespace ']' = false), bind, Except.bind, Bool.false_eq_true,
    if_false, if_true]

theorem bracket_slice {start stop : Option Int64} (hstep : (Segment.slice start stop).IsStep)
    (rest : Text) :
    bracket ('[' :: ((boundText start ++ ':' :: boundText stop) ++ ']' :: rest)) =
      .ok (.slice start stop, rest) := by
  have hslice := slice_text hstep rest
  cases start with
  | none =>
      simp only [boundText, List.nil_append, List.cons_append] at hslice ⊢
      simp [bracket, expect_cons (by rfl : isWhitespace '[' = false),
        skipWhitespace_cons (by rfl : isWhitespace ':' = false), hslice, bind, Except.bind,
        Char.isDigit]
  | some n =>
      obtain ⟨c, tail, hstart, hc⟩ := numberText_start n
      have hcolon : isSlice ((boundText (some n) ++ ':' :: boundText stop) ++ ']' :: rest) =
          true := by
        have hstop : ']' ∉ boundText stop := by
          cases stop with
          | none => simp [boundText]
          | some e => exact notMem_numberText e (.inr rfl)
        have hinner : ']' ∉ numberText n ++ ':' :: boundText stop := by
          simp [notMem_numberText n (.inr rfl), hstop]
        rw [isSlice, boundText, takeWhile_bracket hinner]
        simp
      rw [show boundText (some n) = c :: tail from hstart] at hslice hcolon ⊢
      simp only [List.cons_append] at hslice hcolon ⊢
      simp only [bracket, expect_cons (by rfl : isWhitespace '[' = false),
        skipWhitespace_cons (isWhitespace_of_start hc), not_other_of_start hc, hcolon, hslice,
        bind, Except.bind, Bool.false_eq_true, if_false, if_true]

/-- A step is read back from between its brackets. -/
theorem bracket_bracketText {segment : Segment} (hstep : segment.IsStep) (rest : Text) :
    bracket (segment.bracketText ++ rest) = .ok (segment, rest) := by
  rw [Segment.bracketText, List.cons_append, List.append_assoc, List.singleton_append]
  match segment with
  | .child name => exact bracket_quoted (by simp : [name] ≠ []) rest
  | .anyOf names =>
    have hlength : 2 ≤ names.length := hstep
    match names with
    | _ :: _ :: _ => exact bracket_quoted (by simp) rest
  | .index n => exact bracket_index n rest
  | .slice start stop => exact bracket_slice hstep rest
  | .wildcard => rfl

/-! ## Expressions -/

theorem bracketText_append (segment : Segment) (rest : Text) :
    ∃ tail, segment.bracketText ++ rest = '[' :: tail := ⟨_, rfl⟩

theorem dotted_dottedText {segments : List Segment} (h : Steps segments) {fuel : Nat}
    (hfuel : segments.length < fuel) :
    dotted fuel (segments.flatMap Segment.dottedText) = .ok segments := by
  induction h generalizing fuel with
  | nil =>
      obtain ⟨fuel, rfl⟩ : ∃ less, fuel = less + 1 := ⟨fuel - 1, by omega⟩
      rfl
  | @step segment segments hstep _ ih =>
      obtain ⟨fuel, rfl⟩ : ∃ less, fuel = less + 1 := ⟨fuel - 1, by omega⟩
      have hfewer : segments.length < fuel := by simpa using hfuel
      have hmore := ih hfewer
      have hbracket := bracket_bracketText hstep (segments.flatMap Segment.dottedText)
      obtain ⟨tail, htail⟩ := bracketText_append segment (segments.flatMap Segment.dottedText)
      rw [List.flatMap_cons, hstep.dottedText_eq, htail]
      rw [htail] at hbracket
      simp only [dotted, skipWhitespace_cons (by rfl : isWhitespace '[' = false), hbracket, hmore,
        bind, Except.bind]
  | @descent segment segments hstep _ ih =>
      obtain ⟨fuel, rfl⟩ : ∃ less, fuel = less + 2 := ⟨fuel - 2, by simp at hfuel; omega⟩
      have hfewer : segments.length < fuel := by simpa using hfuel
      have hmore := ih hfewer
      have hbracket := bracket_bracketText hstep (segments.flatMap Segment.dottedText)
      obtain ⟨tail, htail⟩ := bracketText_append segment (segments.flatMap Segment.dottedText)
      rw [List.flatMap_cons, List.flatMap_cons, hstep.dottedText_eq, htail]
      rw [htail] at hbracket
      -- the dots are read by one round of the loop, and the bracket by the next
      simp only [Segment.dottedText, List.cons_append, List.nil_append, dotted,
        skipWhitespace_cons (by rfl : isWhitespace '.' = false),
        skipWhitespace_cons (by rfl : isWhitespace '[' = false), hbracket, hmore, bind,
        Except.bind]

theorem brackets_eq_nil {text : Text} (h : text.head? ≠ some '[') (fuel : Nat) :
    brackets fuel text = .ok ([], text) := by
  cases fuel with
  | zero => rfl
  | succ fuel => simp [brackets, h]

theorem slashStep_bracketText {segment : Segment} (hstep : segment.IsStep) {rest : Text}
    (hrest : rest.head? ≠ some '[') :
    slashStep (segment.bracketText ++ rest) = .ok ([segment], rest) := by
  have hbracket := bracket_bracketText hstep rest
  obtain ⟨tail, htail⟩ := bracketText_append segment rest
  rw [htail] at hbracket ⊢
  simp only [slashStep, beq_self_eq_true, if_true, List.length_cons, brackets, List.head?_cons,
    hbracket, brackets_eq_nil hrest, bind, Except.bind]

/-- A slash expression from its first step on. -/
theorem slashed_slashText {segments : List Segment} (h : Steps segments) {segment : Segment}
    (hstep : segment.IsStep) {fuel : Nat} (hfuel : segments.length < fuel) :
    slashed fuel (segment.bracketText ++ segments.flatMap Segment.slashText) =
      .ok (segment :: segments) := by
  induction h generalizing segment fuel with
  | nil =>
      obtain ⟨fuel, rfl⟩ : ∃ less, fuel = less + 1 := ⟨fuel - 1, by omega⟩
      rw [List.flatMap_nil, slashed, slashStep_bracketText hstep (by simp)]
      rfl
  | @step next segments hnext _ ih =>
      obtain ⟨fuel, rfl⟩ : ∃ less, fuel = less + 1 := ⟨fuel - 1, by omega⟩
      have hfewer : segments.length < fuel := by simpa using hfuel
      have hmore := ih hnext hfewer
      obtain ⟨tail, htail⟩ := bracketText_append next (segments.flatMap Segment.slashText)
      rw [List.flatMap_cons, hnext.slashText_eq, List.cons_append, slashed,
        slashStep_bracketText hstep (by simp)]
      rw [htail] at hmore ⊢
      simp [hmore, bind, Except.bind]
  | @descent next segments hnext _ ih =>
      obtain ⟨fuel, rfl⟩ : ∃ less, fuel = less + 1 := ⟨fuel - 1, by omega⟩
      have hfewer : segments.length < fuel := by
        simp only [List.length_cons] at hfuel
        omega
      have hmore := ih hnext hfewer
      obtain ⟨tail, htail⟩ := bracketText_append next (segments.flatMap Segment.slashText)
      rw [List.flatMap_cons, List.flatMap_cons, hnext.slashText_eq, Segment.slashText,
        List.singleton_append, List.cons_append, slashed, slashStep_bracketText hstep (by simp)]
      rw [htail] at hmore ⊢
      simp [hmore, bind, Except.bind]

/-! ## White space around expressions -/

theorem trim_eq_self {text : Text} (hhead : ∀ c ∈ text.head?, isWhitespace c = false)
    (hlast : ∀ c ∈ text.getLast?, isWhitespace c = false) : trim text = text := by
  have hdrop : ∀ text : Text, (∀ c ∈ text.head?, isWhitespace c = false) →
      text.dropWhile isWhitespace = text := by
    intro text htext
    cases text with
    | nil => rfl
    | cons c text => simp [htext c rfl]
  unfold trim
  rw [hdrop text hhead, hdrop text.reverse (by simpa using hlast), List.reverse_reverse]

end PathExpression

namespace Steps

/-- Where segments end, a bracket closes. -/
theorem getLast?_flatMap {segments : List Segment} (h : Steps segments) (write : Segment → Text)
    (hwrite : ∀ segment : Segment, segment.IsStep → ∃ start, write segment = start ++ [']']) :
    ∀ c ∈ (segments.flatMap write).getLast?, c = ']' := by
  induction h with
  | nil => simp
  | step hstep _ ih =>
      obtain ⟨start, hstart⟩ := hwrite _ hstep
      rw [List.flatMap_cons, List.getLast?_append, hstart]
      intro c hc
      rcases Option.or_eq_some_iff.mp hc with hc | ⟨-, hc⟩
      · exact ih c hc
      · simpa using hc.symm
  | descent hstep _ ih =>
      obtain ⟨start, hstart⟩ := hwrite _ hstep
      rw [List.flatMap_cons, List.flatMap_cons, List.getLast?_append, List.getLast?_append, hstart]
      intro c hc
      rcases Option.or_eq_some_iff.mp hc with hc | ⟨hnone, hc⟩
      · rcases Option.or_eq_some_iff.mp hc with hc | ⟨-, hc⟩
        · exact ih c hc
        · simpa using hc.symm
      · simp at hnone

end Steps

namespace Path

open PathExpression

variable {path : Path}

theorem parse_eq_of_trim {text : Text} (htrim : trim text = text)
    (h : PathExpression.path text = .ok path) : Path.parse text = .ok path := by
  unfold Path.parse
  dsimp only
  rw [htrim, h]
  rfl

theorem length_le_flatMap (write : Segment → Text) (hwrite : ∀ segment, write segment ≠ [])
    (segments : List Segment) : segments.length ≤ (segments.flatMap write).length := by
  induction segments with
  | nil => simp
  | cons segment segments ih =>
      have := List.length_pos_iff.mpr (hwrite segment)
      simp only [List.flatMap_cons, List.length_cons, List.length_append]
      omega

theorem parse_dottedText (h : path.Expressible) (hanchored : path.anchored = true) :
    Path.parse path.dottedText = .ok path := by
  obtain ⟨anchored, segments⟩ := path
  obtain rfl : anchored = true := hanchored
  have hsteps : Steps segments := h.steps
  apply parse_eq_of_trim
  · refine trim_eq_self (by simp [dottedText, isWhitespace]) fun c hc => ?_
    rw [dottedText, List.getLast?_cons] at hc
    have hlast := hsteps.getLast?_flatMap Segment.dottedText fun segment hstep =>
      ⟨'[' :: segment.innerText, by rw [hstep.dottedText_eq]; rfl⟩
    cases hend : (segments.flatMap Segment.dottedText).getLast? with
    | none =>
        rw [hend] at hc
        cases hc
        rfl
    | some d =>
        rw [hend] at hc
        cases hc
        rw [hlast d hend]
        rfl
  · have hlength : segments.length ≤ (segments.flatMap Segment.dottedText).length := by
      refine length_le_flatMap _ (fun segment => ?_) segments
      cases segment <;> simp [Segment.dottedText, Segment.bracketText]
    have hread := dotted_dottedText hsteps (Nat.lt_succ_of_le hlength)
    simp only [PathExpression.path, dottedText, hread, bind, Except.bind]

/-- The written forms with slashes start with a slash or a bracket, and end with a bracket. -/
theorem trim_slashes {segments : List Segment} (h : Steps segments) {segment : Segment}
    (hstep : segment.IsStep) (start : Text) (hstart : ∀ c ∈ start, c = '/') :
    trim (start ++ (segment.bracketText ++ segments.flatMap Segment.slashText)) =
      start ++ (segment.bracketText ++ segments.flatMap Segment.slashText) := by
  refine trim_eq_self ?_ ?_
  · intro c hc
    cases start with
    | nil =>
        cases hc
        rfl
    | cons d start =>
        cases hc
        rw [hstart c List.mem_cons_self]
        rfl
  · have hlast := (Steps.step hstep h).getLast?_flatMap Segment.slashText
      fun segment hstep => ⟨'/' :: '[' :: segment.innerText, by rw [hstep.slashText_eq]; rfl⟩
    rw [List.flatMap_cons, hstep.slashText_eq, List.cons_append, List.getLast?_cons] at hlast
    intro c hc
    obtain ⟨tail, htail⟩ := bracketText_append segment (segments.flatMap Segment.slashText)
    rw [htail, List.getLast?_append, List.getLast?_cons, Option.some_or] at hc
    rw [htail, List.getLast?_cons] at hlast
    rw [hlast c hc]
    rfl

/-- The fuel that an expression is read with is enough for its steps. -/
theorem slashed_text {segments : List Segment} (h : Steps segments) {segment : Segment}
    (hstep : segment.IsStep) {tail : Text}
    (htail : segment.bracketText ++ segments.flatMap Segment.slashText = '[' :: tail) :
    slashed (('[' :: tail).length + 1) ('[' :: tail) = .ok (segment :: segments) := by
  have hlength : segments.length ≤ (segments.flatMap Segment.slashText).length := by
    refine length_le_flatMap _ (fun segment => ?_) segments
    cases segment <;> simp [Segment.slashText]
  rw [← htail]
  refine slashed_slashText h hstep ?_
  rw [List.length_append]
  omega

theorem parse_slashText (h : path.Expressible) (hanchored : path.anchored = true)
    (hne : path.segments ≠ []) : Path.parse path.slashText = .ok path := by
  obtain ⟨anchored, segments⟩ := path
  obtain rfl : anchored = true := hanchored
  have hsteps : Steps segments := h.steps
  cases hsteps with
  | nil => exact absurd rfl hne
  | @step segment segments hstep hsegments =>
      have htrim := trim_slashes hsegments hstep ['/'] (by simp)
      obtain ⟨tail, htail⟩ := bracketText_append segment (segments.flatMap Segment.slashText)
      have hread := slashed_text hsegments hstep htail
      rw [slashText, List.flatMap_cons, hstep.slashText_eq]
      refine parse_eq_of_trim htrim ?_
      rw [List.cons_append, htail]
      exact Reader.bind_eq_ok.mpr ⟨_, hread, rfl⟩
  | @descent segment segments hstep hsegments =>
      have htrim := trim_slashes hsegments hstep ['/', '/'] (by simp)
      obtain ⟨tail, htail⟩ := bracketText_append segment (segments.flatMap Segment.slashText)
      have hread := slashed_text hsegments hstep htail
      rw [slashText, List.flatMap_cons, List.flatMap_cons, hstep.slashText_eq]
      refine parse_eq_of_trim htrim ?_
      rw [Segment.slashText, List.singleton_append, List.cons_append, htail]
      exact Reader.bind_eq_ok.mpr ⟨_, hread, rfl⟩

theorem parse_relativeText (h : path.Expressible) (hrelative : path.anchored = false) :
    Path.parse path.relativeText = .ok path := by
  obtain ⟨anchored, segments⟩ := path
  obtain rfl : anchored = false := hrelative
  have hstart := h.relative rfl
  have hsteps : Steps segments := h.steps
  cases hsteps with
  | nil => exact absurd rfl hstart.1
  | descent => simp at hstart
  | @step segment segments hstep hsegments =>
      have htrim := trim_slashes hsegments hstep [] (by simp)
      obtain ⟨tail, htail⟩ := bracketText_append segment (segments.flatMap Segment.slashText)
      have hread := slashed_text hsegments hstep htail
      rw [relativeText, slashText, List.flatMap_cons, hstep.slashText_eq]
      refine parse_eq_of_trim htrim ?_
      rw [List.cons_append, List.tail_cons, htail]
      exact Reader.bind_eq_ok.mpr ⟨_, hread, rfl⟩

/-- The paths that expressions stand for are those that can be written, and each of them is read
back from its written forms: an anchored one from the dotted form, and from the slash form if it
has segments, and any other from the form with slashes between its steps. -/
theorem parse_image_and_renderings :
    (∀ path : Path, (∃ expression, Path.parse expression = .ok path) ↔ path.Expressible) ∧
    ∀ path : Path, path.Expressible →
      (path.anchored = true → Path.parse path.dottedText = .ok path) ∧
      (path.anchored = true → path.segments ≠ [] → Path.parse path.slashText = .ok path) ∧
      (path.anchored = false → Path.parse path.relativeText = .ok path) := by
  refine ⟨fun path => ⟨?_, fun h => ?_⟩, fun path h => ?_⟩
  · rintro ⟨expression, hparse⟩
    exact expressible_of_parse hparse
  · cases hanchored : path.anchored with
    | true => exact ⟨path.dottedText, parse_dottedText h hanchored⟩
    | false => exact ⟨path.relativeText, parse_relativeText h hanchored⟩
  · exact ⟨parse_dottedText h, parse_slashText h, parse_relativeText h⟩

/-- A path with a descent, keys that hold a quote, a backslash and a slash, and numbers at the ends
of their range. -/
theorem parse_renderings_quotedKeys :
    let path : Path := ⟨true, [.descent, .anyOf ["a'b".toList, "c\\".toList],
      .index Int64.minValue, .slice (some 1) (some (-1)), .child "x/y".toList]⟩
    path.Expressible ∧
      path.dottedText =
        "$..['a\\'b','c\\\\'][-9223372036854775808][1:-1]['x/y']".toList ∧
      path.slashText =
        "//['a\\'b','c\\\\']/[-9223372036854775808]/[1:-1]/['x/y']".toList ∧
      Path.parse path.dottedText = .ok path ∧ Path.parse path.slashText = .ok path := by
  intro path
  have hdotted : path.dottedText =
      "$..['a\\'b','c\\\\'][-9223372036854775808][1:-1]['x/y']".toList := by decide +kernel
  have hslash : path.slashText =
      "//['a\\'b','c\\\\']/[-9223372036854775808]/[1:-1]/['x/y']".toList := by decide +kernel
  have hexpressible : path.Expressible :=
    (parse_image_and_renderings.1 path).mp
      ⟨" //[ \"a'b\" , 'c\\\\' ][-9223372036854775808][ 1 : -1 ]/'x/y' ".toList, rfl⟩
  obtain ⟨hparseDotted, hparseSlash, -⟩ := parse_image_and_renderings.2 path hexpressible
  exact ⟨hexpressible, hdotted, hslash, hparseDotted rfl, hparseSlash rfl (by decide)⟩

end Path

end LosslessYaml
