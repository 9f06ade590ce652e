import LosslessYaml.Path.Expression
import Mathlib.Data.List.Basic

/-!
# Where an expression goes wrong

An error that names a character also tells the position of that character in the expression.  The
position is taken at different moments: before or after white space is skipped, and before or after
the character itself is read.  One of these moments would be too late, namely when the opening quote
of a key is found missing, because that character has been read by then.

`PathExpression.Exact` says of a reading that it ends at an end of its text.  If it succeeded, what
remains is such an end; if it failed, the failure arose at one, which starts with the character that
the failure names.  Every function of the two grammars is exact, and the callers of `quotedKey` ask
for the quote first, so that it never finds another character.

Main statement: `Path.error_at_position`.
-/

namespace LosslessYaml

/-- What an expression lacks, if the cause says so. -/
def PathCause.expected? : PathCause → Option Expected
  | .unexpected _ expected => some expected
  | .ended expected => some expected
  | _ => none

/-- Whether the cause names no character, and does not lack the opening quote of a key. -/
def PathCause.isNameless : PathCause → Bool
  | .unexpected _ _ => false
  | .ended .openingQuote => false
  | _ => true

/-- The failure arose at an end of the text, and the character that it names stands there.  The
opening quote of a key is never missing. -/
structure PathFailure.Points (text : Text) (failure : PathFailure) : Prop where
  suffix : failure.rest <:+ text
  found : ∀ c expected, failure.cause = .unexpected c expected → failure.rest.head? = some c
  quotes : failure.cause.expected? ≠ some .openingQuote

theorem PathFailure.Points.behind {text later : Text} {failure : PathFailure}
    (h : failure.Points later) (hlater : later <:+ text) : failure.Points text :=
  ⟨h.suffix.trans hlater, h.found, h.quotes⟩

namespace PathExpression

open Text

/-! ## Exact readings -/

/-- What remains after the reading is an end of the text, and a failure points into the text.
`rest` takes what remains out of the result. -/
def Exact {α : Type} (text : Text) (rest : α → Text) : Except PathFailure α → Prop
  | .ok a => rest a <:+ text
  | .error failure => failure.Points text

section

variable {α β : Type} {text later : Text} {rest : α → Text} {rest' : β → Text}

theorem Exact.behind {x : Except PathFailure α} (h : Exact later rest x)
    (hlater : later <:+ text) : Exact text rest x := by
  cases x with
  | ok a => exact List.IsSuffix.trans h hlater
  | error failure => exact PathFailure.Points.behind h hlater

/-- One reading after another is exact if each of them is. -/
theorem Exact.bind {x : Except PathFailure α} {f : α → Except PathFailure β}
    (hx : Exact text rest x) (hf : ∀ a, Exact (rest a) rest' (f a)) :
    Exact text rest' (x >>= f) := by
  cases x with
  | ok a => exact (hf a).behind hx
  | error failure => exact hx

/-- A failure that names no character. -/
theorem exact_error {cause : PathCause} (hlater : later <:+ text)
    (hcause : cause.isNameless = true) : Exact text rest (.error ⟨cause, later⟩) where
  suffix := hlater
  found c expected hnamed := by
    rw [show cause = _ from hnamed] at hcause
    cases hcause
  quotes hquotes := by
    cases cause with
    | ended expected =>
        obtain rfl : expected = .openingQuote := Option.some.inj hquotes
        cases hcause
    | unexpected c expected => cases hcause
    | _ => cases hquotes

/-- A failure at the character that it names. -/
theorem exact_unexpected {c : Char} {expected : Expected} {tail : Text}
    (hlater : c :: tail <:+ text) (hquotes : expected ≠ .openingQuote) :
    Exact text rest (.error ⟨.unexpected c expected, c :: tail⟩) where
  suffix := hlater
  found d expected' hcause := by
    injection hcause with hc
    rw [hc]
    rfl
  quotes h := hquotes (Option.some.inj h)

end

/-! ## Tokens -/

theorem skipWhitespace_suffix (text : Text) : skipWhitespace text <:+ text :=
  List.dropWhile_suffix _

theorem expect_exact (c : Char) (text : Text) : Exact text id (expect c text) := by
  have hsuffix := skipWhitespace_suffix text
  unfold expect
  split
  next => exact exact_error List.nil_suffix rfl
  next d rest hrest =>
    rw [hrest] at hsuffix
    split
    next => exact (List.suffix_cons d rest).trans hsuffix
    next => exact exact_unexpected hsuffix (by simp)

theorem name_exact (text : Text) : Exact text Prod.snd (name text) := by
  have hsuffix := skipWhitespace_suffix text
  unfold name
  dsimp only
  split
  next => exact exact_error hsuffix rfl
  next => exact (List.dropWhile_suffix _).trans hsuffix

theorem quoted_exact (quote : Char) (text : Text) : Exact text Prod.snd (quoted quote text) := by
  fun_induction quoted quote text with
  | case1 => exact exact_error List.nil_suffix rfl
  | case2 => exact exact_error List.nil_suffix rfl
  | case3 e after => exact exact_error (List.suffix_cons _ _) rfl
  | case4 e after c _ ih =>
      have hlater : after <:+ '\\' :: e :: after := ⟨['\\', e], rfl⟩
      refine Exact.behind ?_ hlater
      exact ih.bind fun found => List.suffix_rfl
  | case5 c rest => exact List.suffix_cons c rest
  | case6 c rest _ _ ih =>
      refine Exact.behind ?_ (List.suffix_cons c rest)
      exact ih.bind fun found => List.suffix_rfl

/-- Where a quote stands, only the key after it can fail. -/
theorem quotedKey_exact {c : Char} (hquote : (c == '"' || c == '\'') = true) (rest : Text) :
    Exact (c :: rest) Prod.snd (quotedKey (c :: rest)) := by
  rw [quotedKey, if_pos hquote]
  exact (quoted_exact c rest).behind (List.suffix_cons c rest)

theorem number_exact (text : Text) : Exact text Prod.snd (number text) := by
  have hsuffix := skipWhitespace_suffix text
  have hunsigned : (if (skipWhitespace text).head? == some '-' then (skipWhitespace text).drop 1
      else skipWhitespace text) <:+ text := by
    split
    next => exact (List.drop_suffix 1 _).trans hsuffix
    next => exact hsuffix
  unfold number
  dsimp only
  generalize (if (skipWhitespace text).head? == some '-' then (skipWhitespace text).drop 1
    else skipWhitespace text) = unsigned at hunsigned
  have hrest := (List.dropWhile_suffix Char.isDigit).trans hunsigned
  have hvalue : ∀ (inRange : Prop) [Decidable inRange] (n : Int64) (digits : Text),
      Exact text Prod.snd (if inRange then .ok (n, unsigned.dropWhile Char.isDigit)
        else .error ⟨.numberOutOfRange digits, unsigned.dropWhile Char.isDigit⟩) := by
    intro inRange _ n digits
    split
    next => exact hrest
    next => exact exact_error hrest rfl
  split
  next => exact exact_error hrest rfl
  next => exact hvalue _ _ _

/-! ## Brackets -/

theorem bound_exact (closing : Char) (text : Text) : Exact text Prod.snd (bound closing text) := by
  have hsuffix := skipWhitespace_suffix text
  unfold bound
  dsimp only
  split
  next => exact hsuffix
  next =>
    refine Exact.behind ?_ hsuffix
    exact (number_exact _).bind fun found => List.suffix_rfl

theorem slice_exact (text : Text) : Exact text Prod.snd (slice text) := by
  unfold slice
  refine (bound_exact ':' text).bind ?_
  rintro ⟨start, afterStart⟩
  refine (expect_exact ':' afterStart).bind fun afterColon => ?_
  refine (bound_exact ']' afterColon).bind ?_
  rintro ⟨stop, afterStop⟩
  refine (expect_exact ']' afterStop).bind fun rest => ?_
  dsimp only [id]
  split
  next =>
    split
    next => exact exact_error List.suffix_rfl rfl
    next => exact List.suffix_rfl
  next => exact List.suffix_rfl

theorem keys_exact (fuel : Nat) (text : Text) : Exact text Prod.snd (keys fuel text) := by
  induction fuel generalizing text with
  | zero => exact List.suffix_rfl
  | succ fuel ih =>
      have hsuffix := skipWhitespace_suffix text
      unfold keys
      split
      next c body hstart =>
        rw [hstart] at hsuffix
        split
        next hquote =>
          refine Exact.behind ?_ hsuffix
          refine (quotedKey_exact hquote body).bind ?_
          rintro ⟨key, rest⟩
          have hrest := skipWhitespace_suffix rest
          dsimp only
          split
          next after hcomma =>
            rw [hcomma] at hrest
            refine Exact.behind ?_ ((List.suffix_cons ',' after).trans hrest)
            exact (ih after).bind fun found => List.suffix_rfl
          next => exact hrest
        next => exact hsuffix
      next => exact List.nil_suffix

theorem bracket_exact (text : Text) : Exact text Prod.snd (bracket text) := by
  unfold bracket
  refine (expect_exact '[' text).bind fun opened => ?_
  have hsuffix := skipWhitespace_suffix opened
  dsimp only [id]
  split
  next => exact exact_error List.nil_suffix rfl
  next c after hopened =>
    rw [hopened] at hsuffix
    refine Exact.behind ?_ hsuffix
    split
    next =>
      refine Exact.behind ?_ (List.suffix_cons c after)
      exact (expect_exact ']' after).bind fun rest => List.suffix_rfl
    split
    next =>
      refine (keys_exact _ _).bind ?_
      rintro ⟨names, afterKeys⟩
      exact (expect_exact ']' afterKeys).bind fun rest => List.suffix_rfl
    split
    next =>
      split
      next => exact slice_exact _
      next =>
        refine (number_exact _).bind ?_
        rintro ⟨n, afterNumber⟩
        exact (expect_exact ']' afterNumber).bind fun rest => List.suffix_rfl
    split
    next => exact slice_exact _
    next => exact exact_unexpected List.suffix_rfl (by simp)

/-! ## Dotted expressions -/

theorem afterDot_exact (text : Text) : Exact text Prod.snd (afterDot text) := by
  unfold afterDot
  split
  next rest => exact List.suffix_cons '*' rest
  next => exact (name_exact text).bind fun found => List.suffix_rfl

/-- After the last segment nothing remains. -/
theorem dotted_exact (fuel : Nat) (text : Text) : Exact text (fun _ => []) (dotted fuel text) := by
  induction fuel generalizing text with
  | zero => exact exact_error List.suffix_rfl rfl
  | succ fuel ih =>
      have hsuffix := skipWhitespace_suffix text
      have hmore : ∀ (after : Text) (first : List Segment),
          Exact after (fun _ => []) (dotted fuel after >>= fun more => .ok (first ++ more)) := by
        intro after first
        exact (ih after).bind fun more => List.nil_suffix
      unfold dotted
      split
      next => exact List.nil_suffix
      next rest hstart =>
        rw [hstart] at hsuffix
        have hlater : '[' :: rest <:+ text := List.IsSuffix.trans ⟨['.', '.'], rfl⟩ hsuffix
        exact (hmore ('[' :: rest) [.descent]).behind hlater
      next rest _ hstart =>
        rw [hstart] at hsuffix
        have hlater : rest <:+ text := List.IsSuffix.trans ⟨['.', '.'], rfl⟩ hsuffix
        refine Exact.behind ?_ hlater
        refine (afterDot_exact rest).bind ?_
        rintro ⟨segment, after⟩
        exact hmore after [.descent, segment]
      next rest _ _ hstart =>
        rw [hstart] at hsuffix
        refine Exact.behind ?_ ((List.suffix_cons '.' rest).trans hsuffix)
        refine (afterDot_exact rest).bind ?_
        rintro ⟨segment, after⟩
        exact hmore after [segment]
      next rest hstart =>
        rw [hstart] at hsuffix
        refine Exact.behind ?_ hsuffix
        refine (bracket_exact ('[' :: rest)).bind ?_
        rintro ⟨segment, after⟩
        exact hmore after [segment]
      next c rest _ _ _ _ hstart =>
        rw [hstart] at hsuffix
        exact exact_unexpected hsuffix (by simp)

/-! ## Slash expressions -/

theorem slashName_exact (text : Text) : Exact text Prod.snd (slashName text) := by
  have hsuffix : text.dropWhile (fun c => c != '/' && c != '[') <:+ text :=
    List.dropWhile_suffix _
  unfold slashName
  dsimp only
  split
  next => exact exact_error List.suffix_rfl rfl
  split
  next => exact hsuffix
  split
  next => exact exact_error hsuffix rfl
  next => exact hsuffix

theorem brackets_exact (fuel : Nat) (text : Text) : Exact text Prod.snd (brackets fuel text) := by
  induction fuel generalizing text with
  | zero => exact List.suffix_rfl
  | succ fuel ih =>
      unfold brackets
      split
      next =>
        refine (bracket_exact text).bind ?_
        rintro ⟨segment, rest⟩
        exact (ih rest).bind fun found => List.suffix_rfl
      next => exact List.suffix_rfl

theorem slashStep_exact (text : Text) : Exact text Prod.snd (slashStep text) := by
  unfold slashStep
  split
  next => exact exact_error List.nil_suffix rfl
  next c rest =>
    split
    next => exact brackets_exact _ _
    next =>
      have hmore : ∀ {first : Except PathFailure (Segment × Text)},
          Exact (c :: rest) Prod.snd first →
          Exact (c :: rest) Prod.snd (first >>= fun found => brackets found.2.length found.2 >>=
            fun more => .ok (found.1 :: more.1, more.2)) := by
        intro first hfirst
        refine hfirst.bind fun found => ?_
        exact (brackets_exact _ found.2).bind fun more => List.suffix_rfl
      dsimp only
      split
      next hquote =>
        -- a quoted key is asked for only where its quote stands
        have hkey := quotedKey_exact hquote rest
        apply hmore
        cases hfound : quotedKey (c :: rest) with
        | ok found =>
            rw [hfound] at hkey
            exact hkey
        | error failure =>
            rw [hfound] at hkey
            exact hkey
      next => exact hmore (slashName_exact _)

theorem slashed_exact (fuel : Nat) (text : Text) :
    Exact text (fun _ => []) (slashed fuel text) := by
  induction fuel generalizing text with
  | zero => exact exact_error List.suffix_rfl rfl
  | succ fuel ih =>
      have hmore : ∀ (after : Text) (first : List Segment),
          Exact after (fun _ => []) (slashed fuel after >>= fun more => .ok (first ++ more)) := by
        intro after first
        exact (ih after).bind fun more => List.nil_suffix
      unfold slashed
      refine (slashStep_exact text).bind ?_
      rintro ⟨segments, rest⟩
      dsimp only
      split
      next => exact List.nil_suffix
      next => exact exact_error List.nil_suffix rfl
      next => exact exact_error List.nil_suffix rfl
      next after _ =>
        refine Exact.behind ?_ (⟨['/', '/'], rfl⟩ : after <:+ '/' :: '/' :: after)
        exact (ih after).bind fun more => List.nil_suffix
      next after _ _ _ =>
        exact (hmore after segments).behind (List.suffix_cons '/' after)
      next => exact exact_unexpected List.suffix_rfl (by simp)

theorem path_exact (text : Text) : Exact text (fun _ => []) (path text) := by
  unfold path
  split
  next => exact exact_error List.nil_suffix rfl
  next rest =>
    refine Exact.behind ?_ (List.suffix_cons '$' rest)
    exact (dotted_exact _ rest).bind fun segments => List.nil_suffix
  next rest =>
    refine Exact.behind ?_ (⟨['/', '/'], rfl⟩ : rest <:+ '/' :: '/' :: rest)
    exact (slashed_exact _ rest).bind fun segments => List.nil_suffix
  next rest _ =>
    refine Exact.behind ?_ (List.suffix_cons '/' rest)
    exact (slashed_exact _ rest).bind fun segments => List.nil_suffix
  next => exact (slashed_exact _ _).bind fun segments => List.nil_suffix

end PathExpression

/-! ## Positions -/

/-- What remains at the position of a failure is what remained where the failure arose. -/
theorem PathFailure.Points.drop_position {text : Text} {failure : PathFailure}
    (h : failure.Points text) : text.drop (failure.locate text).position = failure.rest := by
  obtain ⟨before, hbefore⟩ := h.suffix
  have hposition : (failure.locate text).position = before.length := by
    calc (failure.locate text).position = text.length - failure.rest.length := rfl
      _ = before.length := by rw [← hbefore, List.length_append, Nat.add_sub_cancel]
  rw [hposition, ← hbefore, List.drop_left]

/-- Where an expression is refused for a character, that character stands at the reported position
of the expression without the white space around it.  No expression is refused for want of the
opening quote of a key. -/
theorem Path.error_at_position {expression : Text} {error : PathError}
    (h : Path.parse expression = .error error) :
    (∀ found expected, error.cause = .unexpected found expected →
      error.position < (Text.trim expression).length ∧
      (Text.trim expression)[error.position]? = some found) ∧
    error.cause.expected? ≠ some .openingQuote := by
  have hexact := PathExpression.path_exact (Text.trim expression)
  unfold Path.parse at h
  dsimp only at h
  cases hread : PathExpression.path (Text.trim expression) with
  | ok path =>
      rw [hread] at h
      cases h
  | error failure =>
      rw [hread] at h hexact
      have hpoints : failure.Points (Text.trim expression) := hexact
      obtain rfl : failure.locate (Text.trim expression) = error := Except.error.inj h
      refine ⟨?_, hpoints.quotes⟩
      intro found expected hcause
      have hfound : (Text.trim expression)[(failure.locate (Text.trim expression)).position]? =
          some found := by
        rw [← List.head?_drop, hpoints.drop_position]
        exact hpoints.found found expected hcause
      exact ⟨(List.getElem?_eq_some_iff.mp hfound).1, hfound⟩

/-- White space around an expression and within it, and a letter of two bytes: the position counts
characters from the dollar sign on. -/
theorem Path.error_at_position_bracket :
    Path.parse " $.ä [ x ] ".toList = .error ⟨.unexpected 'x' .bracketBody, 6⟩ ∧
      (Text.trim " $.ä [ x ] ".toList)[6]? = some 'x' := by
  have hfails : Path.parse " $.ä [ x ] ".toList = .error ⟨.unexpected 'x' .bracketBody, 6⟩ := rfl
  exact ⟨hfails, ((Path.error_at_position hfails).1 'x' .bracketBody rfl).2⟩

end LosslessYaml
