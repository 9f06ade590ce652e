import LosslessYaml.Proofs.Reading.Bound

/-!
# Reading a part again, before another text

A name, a quoted scalar, a literal or a key that was read at one place is read again at any other
place where the same text stands, if what follows it is alike as far as the reader looks.  For names
and quotes that is one character.  A key is followed by its colon, so only the character after the
colon matters: it has to be the same, or a break.

Each statement has the reader after the part as a skip over the text of the part, so that the places
that follow are known.
-/

namespace LosslessYaml.Reader

open Text Lookahead

/-! ## Places in a known text -/

theorem skip_skip (r : Reader) (m n : Nat) : (r.skip m).skip n = r.skip (m + n) := by
  simp [skip, List.drop_drop, List.take_add, Text.columnAfter_append]

theorem skip_zero (r : Reader) : r.skip 0 = r := by
  simp [skip, columnAfter]

theorem rest_skip {r : Reader} {text y : Text} (h : r.rest = text ++ y) :
    (r.skip text.length).rest = y := by
  simp [skip, h]

theorem column_skip {r : Reader} {text y : Text} (h : r.rest = text ++ y) :
    (r.skip text.length).column = columnAfter r.column text := by
  simp [skip, h]

theorem taken_eq {r : Reader} {text y : Text} (h : r.rest = text ++ y) :
    r.taken text.length = text := by
  simp [taken, h]

/-- Trivia is read up to the first character of another kind. -/
theorem trivia_eq {r : Reader} {lead y : Text} (h : r.rest = lead ++ y) (hlead : IsTrivia lead)
    (hy : triviaLength y = 0) : r.trivia = lead ∧ r.afterTrivia = r.skip lead.length := by
  have hlength : triviaLength r.rest = lead.length := by rw [h, hlead, hy, Nat.add_zero]
  exact ⟨by rw [trivia, hlength, taken_eq h], by rw [afterTrivia, hlength]⟩

/-- Where another character follows, the trivia that was read is trivia before any text. -/
theorem isTrivia_trivia {r : Reader} (h : r.afterTrivia.rest ≠ []) : IsTrivia r.trivia := by
  refine isTrivia_of_length h ?_
  have hle := triviaLength_le r.rest
  simp only [trivia, afterTrivia, taken, skip, List.take_append_drop, List.length_take]
  omega

theorem triviaLength_afterTrivia (r : Reader) : triviaLength r.afterTrivia.rest = 0 :=
  triviaLength_drop r.rest

theorem trivia_append (r : Reader) : r.trivia ++ r.afterTrivia.rest = r.rest := by
  simp [trivia, afterTrivia, taken, skip]

theorem afterBlanks_rest (r : Reader) : r.afterBlanks.rest = r.rest.dropWhile isBlank :=
  drop_length_takeWhile isBlank r.rest

theorem blanks_append (r : Reader) : r.blanks ++ r.afterBlanks.rest = r.rest := by
  simp [blanks, afterBlanks, taken, skip]

/-- A length that is found in the rest of a text cuts it in two. -/
private theorem cut {r : Reader} {n : Nat} (h : n ≤ r.rest.length) :
    r.taken n ++ (r.skip n).rest = r.rest ∧ (r.taken n).length = n := by
  constructor
  · simp [taken, skip]
  · simp only [taken, List.length_take]
    omega

private theorem blankLength_blanks (r : Reader) :
    blankLength (r.blanks ++ r.afterBlanks.rest) = r.blanks.length := by
  have hle : blankLength r.rest ≤ r.rest.length := (List.takeWhile_sublist _).length_le
  rw [blanks_append]
  exact (cut hle).2.symm

/-- Blanks are read up to the same character. -/
theorem blanks_eq {r r' : Reader} {y : Text} (h : r'.rest = r.blanks ++ y)
    (hhead : r.afterBlanks.rest.head? = y.head?) :
    r'.blanks = r.blanks ∧ r'.afterBlanks = r'.skip r.blanks.length := by
  have hlength : blankLength r'.rest = r.blanks.length := by
    rw [h]
    exact blankLength_append (blankLength_blanks r) hhead
  exact ⟨by rw [blanks, hlength, taken_eq h], by rw [afterBlanks, hlength]⟩

/-! ## Names -/

/-- A name is as long again when the same character follows it. -/
private theorem nameLength_again {r r' : Reader} {name y : Text}
    (hname : r.taken (nameLength r.rest) = name) (hrest : r'.rest = name ++ y)
    (hhead : (r.skip (nameLength r.rest)).rest.head? = y.head?) :
    nameLength r'.rest = name.length ∧ nameLength r.rest = name.length := by
  obtain ⟨hsplit, hlength⟩ := cut (nameLength_le r.rest)
  rw [hname] at hsplit hlength
  refine ⟨?_, hlength.symm⟩
  rw [hrest]
  refine nameLength_append ?_ hhead
  rw [hsplit, hlength]

theorem anchorName_again {r after r' : Reader} {name y : Text}
    (h : r.anchorName = .ok (name, after)) (hrest : r'.rest = '&' :: (name ++ y))
    (hhead : after.rest.head? = y.head?) :
    r'.anchorName = .ok (name, r'.skip ('&' :: name).length) := by
  simp only [anchorName] at h
  split at h
  next => simp [fail] at h
  next hpos =>
    simp only [Except.ok.injEq, Prod.mk.injEq] at h
    obtain ⟨hname, rfl⟩ := h
    have hbody : (r'.skip 1).rest = name ++ y := @rest_skip r' ['&'] _ hrest
    obtain ⟨hagain, hlength⟩ := nameLength_again hname hbody hhead
    rw [hlength] at hpos
    simp only [anchorName, hagain]
    rw [if_neg hpos, taken_eq hbody, skip_skip, List.length_cons, Nat.add_comm]

theorem aliasNode_again {lead lead' y : Text} {r r' : Reader} {name : Text}
    (hname : (r.aliasNode lead).1 = .aliasNode { lead, name })
    (hrest : r'.rest = '*' :: (name ++ y)) (hhead : (r.aliasNode lead).2.rest.head? = y.head?) :
    r'.aliasNode lead' = (.aliasNode { lead := lead', name }, r'.skip ('*' :: name).length) := by
  simp only [aliasNode, Block.aliasNode.injEq, Alias.mk.injEq, true_and] at hname
  have hbody : (r'.skip 1).rest = name ++ y := @rest_skip r' ['*'] _ hrest
  obtain ⟨hagain, -⟩ := nameLength_again hname hbody hhead
  simp only [aliasNode, hagain]
  rw [taken_eq hbody, skip_skip, List.length_cons, Nat.add_comm]

/-! ## Scalars -/

/-- What a quoted scalar was read from. -/
theorem quoted_eq_ok {quote : Char} {lead : Text} {r after : Reader} {scalar : Scalar}
    (h : r.quoted quote lead = .ok (scalar, after)) :
    ∃ text,
      scalar = { lead, style := if quote == '"' then .doubleQuoted else .singleQuoted, text } ∧
      (r.skip 1).rest = text ++ quote :: after.rest ∧
      quotedLength false quote (text ++ quote :: after.rest) = some text.length := by
  simp only [quoted] at h
  split at h
  next => simp [fail] at h
  next n hlength =>
    simp only [Except.ok.injEq, Prod.mk.injEq] at h
    obtain ⟨rfl, rfl⟩ := h
    obtain ⟨tail, htail⟩ := drop_quotedLength hlength
    have hle : n ≤ (r.skip 1).rest.length := by
      refine Classical.byContradiction fun hlt => ?_
      rw [List.drop_eq_nil_of_le (by omega)] at htail
      simp at htail
    obtain ⟨hsplit, htaken⟩ := cut hle
    have hafter : ((r.skip 1).skip (n + 1)).rest = tail := by
      show (r.skip 1).rest.drop (n + 1) = tail
      rw [← List.drop_drop, htail]
      rfl
    rw [show ((r.skip 1).skip n).rest = quote :: tail from htail, ← hafter] at hsplit
    exact ⟨_, rfl, hsplit.symm, by rw [hsplit, htaken, hlength]⟩

theorem printBody_quoted {quote : Char} (hquote : quote = '"' ∨ quote = '\'')
    (lead text : Text) :
    ({ lead, style := if quote == '"' then .doubleQuoted else .singleQuoted, text } :
      Scalar).printBody = quote :: (text ++ [quote]) := by
  rcases hquote with rfl | rfl <;> rfl

theorem quoted_again {quote : Char} (hquote : quote = '"' ∨ quote = '\'') {lead y : Text}
    {r after r' : Reader} {scalar : Scalar} (h : r.quoted quote lead = .ok (scalar, after))
    (lead' : Text) (hrest : r'.rest = scalar.printBody ++ y)
    (hhead : after.rest.head? = y.head?) :
    r'.quoted quote lead' =
      .ok ({ scalar with lead := lead' }, r'.skip scalar.printBody.length) := by
  obtain ⟨text, rfl, -, hlength⟩ := quoted_eq_ok h
  rw [printBody_quoted hquote] at hrest ⊢
  have hbody : (r'.skip 1).rest = text ++ quote :: y := by
    refine @rest_skip r' [quote] _ ?_
    simpa using hrest
  have hagain : quotedLength false quote (r'.skip 1).rest = some text.length := by
    rw [hbody, ← quotedLength_append hquote hhead false text hlength, hlength]
  simp only [quoted, hagain]
  rw [taken_eq hbody, skip_skip]
  simp only [List.length_cons, List.length_append, List.length_nil]
  rw [Nat.add_comm 1]

theorem literal_again {style : Style} {floor : Nat} {text y : Text} {c : Char} {r' : Reader}
    (lead' : Text) (hrest : r'.rest = c :: (text ++ y))
    (hlength : literalLength floor (text ++ y) = text.length) :
    r'.literal style floor lead' =
      (.scalar { lead := lead', style, text }, r'.skip (c :: text).length) := by
  have hbody : (r'.skip 1).rest = text ++ y := @rest_skip r' [c] _ hrest
  simp only [literal, hbody, hlength]
  rw [taken_eq hbody, skip_skip, List.length_cons, Nat.add_comm]

/-! ## Keys -/

/-- A plain key ends before its colon, so the colon is a stop. -/
private theorem colon_stops {stop : Char → Text → Bool} {loose : Char → Bool} {blanks x : Text}
    (hblank : ∀ c ∈ blanks, isBlank c = true) (hcolon : loose ':' = false)
    (hstop : ∀ c rest, isBlank c = true → rest.head? ≠ some '#' → stop c rest = false)
    (h : runLength stop loose (blanks ++ ':' :: x) = 0) : stop ':' x = true := by
  induction blanks with
  | nil =>
      simp only [List.nil_append, runLength, hcolon] at h
      grind
  | cons c blanks ih =>
      have hnext : (blanks ++ ':' :: x).head? ≠ some '#' := by
        cases blanks with
        | nil => simp
        | cons d blanks =>
            have hd := hblank d (by simp)
            rintro h
            simp only [List.cons_append, List.head?_cons, Option.some.injEq] at h
            simp [h, isBlank] at hd
      have hc := hstop c _ (hblank c (by simp)) hnext
      refine ih (fun d hd => hblank d (by simp [hd])) ?_
      simp only [List.cons_append, runLength, hc] at h
      grind

/-- A plain key is as long again when its colon is a stop again. -/
private theorem runLength_key_again {stop : Char → Text → Bool} {loose : Char → Bool}
    (hcolon : loose ':' = false)
    (hstop : ∀ c rest, isBlank c = true → rest.head? ≠ some '#' → stop c rest = false)
    (hhead : ∀ c x y, x.head? = y.head? → stop c x = stop c y) {text blanks x y : Text}
    (hblank : ∀ c ∈ blanks, isBlank c = true)
    (h : runLength stop loose (text ++ (blanks ++ ':' :: x)) = text.length)
    (hnext : stop ':' x = true → stop ':' y = true) :
    runLength stop loose (text ++ (blanks ++ ':' :: y)) = text.length := by
  have hx := colon_stops hblank hcolon hstop (runLength_eq_zero_of_append h)
  rw [← List.append_assoc, ← runLength_append_cons hhead hx (hnext hx), List.append_assoc, h]

private theorem plainKeyLength_again {text blanks x y : Text}
    (hblank : ∀ c ∈ blanks, isBlank c = true)
    (h : plainKeyLength (text ++ (blanks ++ ':' :: x)) = text.length)
    (hnext : x.head? = y.head? ∨ atBreak y = true) :
    plainKeyLength (text ++ (blanks ++ ':' :: y)) = text.length ∧ atBreak x = true := by
  have hstop : ∀ c (rest : Text), isBlank c = true → rest.head? ≠ some '#' →
      (c == '\n' || (c == ':' && atBreak rest)) = false := by
    intro c rest hc _
    simp only [isBlank, Bool.or_eq_true, beq_iff_eq] at hc
    rcases hc with rfl | rfl <;> rfl
  constructor
  · refine runLength_key_again (by decide) hstop ?_ hblank h ?_
    · intro c x y hhead
      rw [atBreak_congr hhead]
    · rcases hnext with hhead | hy
      · simp [atBreak_congr hhead]
      · simp [hy]
  · simpa using colon_stops hblank (by decide) hstop (runLength_eq_zero_of_append h)

private theorem plainFlowLength_again {text blanks x y : Text}
    (hblank : ∀ c ∈ blanks, isBlank c = true)
    (h : plainFlowLength (text ++ (blanks ++ ':' :: x)) = text.length)
    (hnext : x.head? = y.head? ∨ atBreak y = true) :
    plainFlowLength (text ++ (blanks ++ ':' :: y)) = text.length := by
  refine runLength_key_again (by decide) ?_ ?_ hblank h ?_
  · intro c rest hc hhash
    simp only [isBlank, Bool.or_eq_true, beq_iff_eq] at hc
    rcases hc with rfl | rfl <;> simp [isFlowIndicator, atComment, isBlank, hhash]
  · intro c x y hhead
    simp only [atBreak_congr hhead, atFlowEnd_congr hhead, atComment, hhead]
  · rcases hnext with hhead | hy
    · simp [atBreak_congr hhead, atFlowEnd_congr hhead, isFlowIndicator, atComment, isBlank]
    · simp [hy]

/-- A key that is read from after its anchor is read again, with its colon after it. -/
def KeyAgain (bare : Reader → Except Failure (Scalar × Reader)) : Prop :=
  ∀ {r after r' : Reader} {key : Scalar} {blanks x y : Text}, bare r = .ok (key, after) →
    after.rest = blanks ++ ':' :: x → (∀ c ∈ blanks, isBlank c = true) →
    (x.head? = y.head? ∨ atBreak y = true) → r'.rest = key.printBody ++ (blanks ++ ':' :: y) →
    bare r' = .ok (key, r'.skip key.printBody.length)

/-- A key is quoted, or plain and as long as `length` finds it. -/
private theorem keyAgain_of {bare : Reader → Except Failure (Scalar × Reader)}
    {length : Text → Nat} {special : Char → Bool}
    (hquoted : ∀ {r : Reader} {quote : Char} {tail : Text}, quote = '"' ∨ quote = '\'' →
      r.rest = quote :: tail → bare r = r.quoted quote [])
    (hplain : ∀ {r : Reader}, (∀ c ∈ r.rest.head?, special c = false) →
      bare r = r.plainKey (length r.rest))
    (hcases : ∀ {r after : Reader} {key : Scalar}, bare r = .ok (key, after) →
      (∃ quote tail, (quote = '"' ∨ quote = '\'') ∧ r.rest = quote :: tail) ∨
        ∀ c ∈ r.rest.head?, special c = false)
    (hle : ∀ text, length text ≤ text.length)
    (hagain : ∀ {text blanks x y : Text}, (∀ c ∈ blanks, isBlank c = true) →
      length (text ++ (blanks ++ ':' :: x)) = text.length →
      (x.head? = y.head? ∨ atBreak y = true) →
      length (text ++ (blanks ++ ':' :: y)) = text.length) : KeyAgain bare := by
  intro r after r' key blanks x y h hafter hblank hnext hrest
  rcases hcases h with ⟨quote, tail, hquote, hopen⟩ | hspecial
  · rw [hquoted hquote hopen] at h
    have hhead : after.rest.head? = (blanks ++ ':' :: y).head? := by
      rw [hafter]
      exact head?_append_cons blanks x y ':'
    have hread := quoted_again hquote h [] hrest hhead
    obtain ⟨text, rfl, -, -⟩ := quoted_eq_ok h
    rw [printBody_quoted hquote, List.cons_append] at hrest
    rw [hquoted hquote hrest]
    exact hread
  · rw [hplain hspecial, plainKey] at h
    split at h
    next => simp [fail] at h
    next hpos =>
      simp only [Except.ok.injEq, Prod.mk.injEq] at h
      obtain ⟨hkey, rfl⟩ := h
      obtain ⟨hsplit, hlength⟩ := cut (hle r.rest)
      subst hkey
      generalize r.taken (length r.rest) = text at *
      rw [hafter] at hsplit
      have hsame := hagain hblank (by rw [hsplit, ← hlength]) hnext
      have htext : text ≠ [] := by
        rintro rfl
        simp [← hlength] at hpos
      replace hrest : r'.rest = text ++ (blanks ++ ':' :: y) := hrest
      have hspecial' : ∀ c ∈ r'.rest.head?, special c = false := by
        obtain ⟨d, text, rfl⟩ := List.exists_cons_of_ne_nil htext
        rw [← hsplit] at hspecial
        rw [hrest]
        exact hspecial
      have hpos' : (text.length == 0) = false := by simpa using htext
      rw [hplain hspecial', hrest, hsame, plainKey, hpos']
      simp only [Bool.false_eq_true, if_false, taken_eq hrest]
      rfl

theorem bareBlockKey_again : KeyAgain bareBlockKey := by
  refine @keyAgain_of _ plainKeyLength (fun c => c == '"' || c == '\'') ?_ ?_ ?_
    plainKeyLength_le fun hblank h hnext => (plainKeyLength_again hblank h hnext).1
  · intro r quote tail hquote hopen
    rcases hquote with rfl | rfl <;> simp only [bareBlockKey, hopen]
  · intro r hspecial
    unfold bareBlockKey
    split
    next hopen => simp [hopen] at hspecial
    next hopen => simp [hopen] at hspecial
    next => rfl
  · intro r after key h
    unfold bareBlockKey at h
    split at h
    next tail hopen => exact .inl ⟨_, tail, .inl rfl, hopen⟩
    next tail hopen => exact .inl ⟨_, tail, .inr rfl, hopen⟩
    next hdouble hsingle =>
      refine .inr fun c hc => ?_
      obtain ⟨tail, hopen⟩ := List.head?_eq_some_iff.mp hc
      by_cases hq : c = '"' ∨ c = '\''
      · rcases hq with rfl | rfl
        · exact (hdouble _ hopen).elim
        · exact (hsingle _ hopen).elim
      · simpa [not_or] using hq

theorem bareFlowKey_again : KeyAgain bareFlowKey := by
  refine @keyAgain_of _ plainFlowLength
    (fun c => c == '"' || c == '\'' || c == '[' || c == '\x7b') ?_ ?_ ?_ (runLength_le _ _)
    plainFlowLength_again
  · intro r quote tail hquote hopen
    rcases hquote with rfl | rfl <;> simp only [bareFlowKey, hopen]
  · intro r hspecial
    unfold bareFlowKey
    split
    next hopen => simp [hopen] at hspecial
    next hopen => simp [hopen] at hspecial
    next hopen => simp [hopen] at hspecial
    next hopen => simp [hopen] at hspecial
    next => rfl
  · intro r after key h
    unfold bareFlowKey at h
    split at h
    next tail hopen => exact .inl ⟨_, tail, .inl rfl, hopen⟩
    next tail hopen => exact .inl ⟨_, tail, .inr rfl, hopen⟩
    next => simp [fail] at h
    next => simp [fail] at h
    next hdouble hsingle hbracket hbrace =>
      refine .inr fun c hc => ?_
      obtain ⟨tail, hopen⟩ := List.head?_eq_some_iff.mp hc
      have hne : ∀ d, (∀ tail, r.rest = d :: tail → False) → (c == d) = false := by
        intro d hd
        rw [beq_eq_false_iff_ne]
        rintro rfl
        exact hd tail hopen
      simp only [hne _ hdouble, hne _ hsingle, hne _ hbracket, hne _ hbrace, Bool.or_self]

private theorem keyAnchor_again {r middle r' : Reader} {anchor : Option Anchor} {y : Text}
    (h : r.keyAnchor = .ok (anchor, middle)) (hrest : r'.rest = Anchor.printOption anchor ++ y)
    (hhead : middle.rest.head? = y.head?) :
    r'.keyAnchor = .ok (anchor, r'.skip (Anchor.printOption anchor).length) := by
  unfold keyAnchor at h
  split at h
  next hamp =>
    obtain ⟨⟨name, after⟩, hname, h⟩ := bind_eq_ok.mp h
    cases h
    have hopen : r'.rest = '&' :: (name ++ (after.blanks ++ y)) := by
      simpa [Anchor.printOption, Anchor.print] using hrest
    have hblanks : after.rest.head? = (after.blanks ++ y).head? := by
      rw [← blanks_append after, List.head?_append, List.head?_append, hhead]
    have hread := anchorName_again hname hopen hblanks
    obtain ⟨hagain, hskip⟩ := @blanks_eq after (r'.skip ('&' :: name).length) y
      (rest_skip (by rw [hopen]; rfl)) hhead
    unfold keyAnchor
    rw [if_pos (by simp [hopen])]
    refine bind_eq_ok.mpr ⟨_, hread, ?_⟩
    show Except.ok (some (Anchor.mk name (r'.skip ('&' :: name).length).blanks),
      (r'.skip ('&' :: name).length).afterBlanks) = _
    rw [hagain, hskip, skip_skip]
    simp only [Anchor.printOption, Anchor.print, List.length_append]
  next hamp =>
    cases h
    have hsame : r'.rest = y := hrest
    unfold keyAnchor
    rw [if_neg (by rwa [hsame, ← hhead]), Anchor.printOption, List.length_nil, skip_zero]

theorem isBlank_of_mem_blanks {r : Reader} : ∀ c ∈ r.blanks, isBlank c = true :=
  (takeWhile_append_length (blankLength_blanks r)).1

/-- What a key was read from: its anchor, and the rest of it before the colon. -/
private theorem keyWith_eq_ok {bare : Reader → Except Failure (Scalar × Reader)}
    (hkeeps : ∀ {r after : Reader} {key : Scalar}, bare r = .ok (key, after) →
      key.lead = [] ∧ Keeps r key.printBody after)
    {r after : Reader} {key : Scalar} (h : keyWith bare r = .ok (key, after))
    (hdropped : after.dropped = r.dropped) :
    ∃ middle key₀, r.keyAnchor = .ok (key.anchor, middle) ∧ bare middle = .ok (key₀, after) ∧
      key = { key₀ with anchor := key.anchor } ∧
      key.print = Anchor.printOption key.anchor ++ key₀.printBody ∧
      middle.rest = key₀.printBody ++ after.rest := by
  unfold keyWith at h
  obtain ⟨⟨anchor, middle⟩, hanchor, h⟩ := bind_eq_ok.mp h
  obtain ⟨⟨key₀, last⟩, hkey, h⟩ := bind_eq_ok.mp h
  cases h
  obtain ⟨hlead, hbody⟩ := hkeeps hkey
  refine ⟨middle, key₀, hanchor, hkey, rfl, ?_, ?_⟩
  · simp [Scalar.print, Scalar.printBody, hlead]
  · exact (hbody.rest_eq ((keyAnchor_keeps hanchor).dropped_split hbody hdropped).2).1

theorem keyWith_again {bare : Reader → Except Failure (Scalar × Reader)} (hbare : KeyAgain bare)
    (hkeeps : ∀ {r after : Reader} {key : Scalar}, bare r = .ok (key, after) →
      key.lead = [] ∧ Keeps r key.printBody after)
    {r after r' : Reader} {key : Scalar} {x y : Text} (h : keyWith bare r = .ok (key, after))
    (hdropped : after.dropped = r.dropped) (hcolon : after.afterBlanks.rest = ':' :: x)
    (hnext : x.head? = y.head? ∨ atBreak y = true)
    (hrest : r'.rest = key.print ++ (after.blanks ++ ':' :: y)) :
    keyWith bare r' = .ok (key, r'.skip key.print.length) := by
  obtain ⟨middle, key₀, hanchor, hkey, hsame, hprint, hmiddle⟩ := keyWith_eq_ok hkeeps h hdropped
  have hafter : after.rest = after.blanks ++ ':' :: x := by rw [← hcolon, blanks_append]
  rw [hprint, List.append_assoc] at hrest
  have hread := keyAnchor_again hanchor hrest (by
    rw [hmiddle, hafter, ← List.append_assoc, ← List.append_assoc]
    exact head?_append_cons _ x y ':')
  have hagain := hbare hkey hafter isBlank_of_mem_blanks hnext (rest_skip hrest)
  refine bind_eq_ok.mpr ⟨_, hread, bind_eq_ok.mpr ⟨_, hagain, ?_⟩⟩
  show Except.ok ({ key₀ with anchor := key.anchor }, _) = _
  rw [← hsame, skip_skip, hprint, List.length_append]

/-- Whether a key starts here is asked of what follows its anchor. -/
theorem atKey_eq_atBareKey {r middle : Reader} {anchor : Option Anchor}
    (h : r.keyAnchor = .ok (anchor, middle)) : atKey r.rest = atBareKey middle.rest := by
  unfold keyAnchor at h
  split at h
  next hamp =>
    obtain ⟨tail, hrest⟩ := List.head?_eq_some_iff.mp (eq_of_beq hamp)
    obtain ⟨⟨name, after⟩, hname, h⟩ := bind_eq_ok.mp h
    cases h
    have hafter : after.rest = tail.drop (nameLength tail) := by
      simp only [anchorName] at hname
      split at hname
      next => simp [fail] at hname
      next =>
        cases hname
        simp [skip, hrest]
    rw [hrest, atKey, afterBlanks_rest, hafter]
  next hamp =>
    cases h
    cases hrest : r.rest with
    | nil => rfl
    | cons c tail =>
        refine atKey_cons ?_ tail
        rintro rfl
        simp [hrest] at hamp

/-- A quoted key with its colon is found again. -/
private theorem atBareKey_quoted_again {quote : Char} (hquote : quote = '"' ∨ quote = '\'')
    {text blanks x y : Text} (hblank : ∀ c ∈ blanks, isBlank c = true)
    (hlength : quotedLength false quote (text ++ quote :: (blanks ++ ':' :: x)) = some text.length)
    (h : atBareKey (quote :: (text ++ quote :: (blanks ++ ':' :: x))) = true)
    (hnext : x.head? = y.head? ∨ atBreak y = true) :
    atBreak x = true ∧ atBareKey (quote :: (text ++ quote :: (blanks ++ ':' :: y))) = true := by
  have hcolon : ∀ z : Text, ((text ++ quote :: (blanks ++ ':' :: z)).drop
      (text.length + 1)).dropWhile isBlank = ':' :: z := by
    intro z
    have hdrop : (text ++ quote :: (blanks ++ ':' :: z)).drop (text.length + 1) =
        blanks ++ ':' :: z := by
      rw [← List.drop_drop, List.drop_left]
      rfl
    rw [hdrop, List.dropWhile_append_of_pos hblank]
    rfl
  have hopen : (quote == '"' || quote == '\'') = true := by
    rcases hquote with rfl | rfl <;> rfl
  have hsame := quotedLength_append hquote (head?_append_cons blanks x y ':') true text hlength
  simp only [atBareKey, hopen, if_true] at h ⊢
  rw [← hsame]
  cases honeLine : quotedLength true quote (text ++ quote :: (blanks ++ ':' :: x)) with
  | none => simp [honeLine] at h
  | some n =>
      have hn : text.length = n := by
        have := quotedLength_of_oneLine honeLine
        rw [hlength] at this
        simpa using this
      subst hn
      simp only [honeLine, hcolon, atColon] at h ⊢
      refine ⟨h, ?_⟩
      rcases hnext with hhead | hy
      · rwa [← atBreak_congr hhead]
      · exact hy

/-- A key and its colon, from after the anchor, are found again. -/
private theorem atBareKey_again {r after : Reader} {key : Scalar} {blanks x y : Text}
    (hkey : r.bareBlockKey = .ok (key, after)) (hafter : after.rest = blanks ++ ':' :: x)
    (hblank : ∀ c ∈ blanks, isBlank c = true) (hrest : r.rest = key.printBody ++ after.rest)
    (h : atBareKey r.rest = true) (hnext : x.head? = y.head? ∨ atBreak y = true) :
    atBreak x = true ∧ atBareKey (key.printBody ++ (blanks ++ ':' :: y)) = true := by
  unfold bareBlockKey at hkey
  have hquoted : ∀ quote, quote = '"' ∨ quote = '\'' → r.quoted quote [] = .ok (key, after) →
      atBreak x = true ∧ atBareKey (key.printBody ++ (blanks ++ ':' :: y)) = true := by
    intro quote hquote hkey
    obtain ⟨text, rfl, -, hlength⟩ := quoted_eq_ok hkey
    rw [hrest] at h
    rw [printBody_quoted hquote] at h ⊢
    rw [hafter] at h hlength
    simp only [List.cons_append, List.append_assoc, List.nil_append] at h ⊢
    exact atBareKey_quoted_again hquote hblank hlength h hnext
  split at hkey
  next => exact hquoted '"' (.inl rfl) hkey
  next => exact hquoted '\'' (.inr rfl) hkey
  next hdouble hsingle =>
    unfold plainKey at hkey
    split at hkey
    next => simp [fail] at hkey
    next hpos =>
      simp only [Except.ok.injEq, Prod.mk.injEq] at hkey
      obtain ⟨rfl, -⟩ := hkey
      obtain ⟨-, hlength⟩ := cut (plainKeyLength_le r.rest)
      replace hrest : r.rest = r.taken (plainKeyLength r.rest) ++ (blanks ++ ':' :: x) := by
        rw [← hafter]
        exact hrest
      show atBreak x = true ∧
        atBareKey (r.taken (plainKeyLength r.rest) ++ (blanks ++ ':' :: y)) = true
      cases htext : r.taken (plainKeyLength r.rest) with
      | nil =>
          rw [htext, List.length_nil] at hlength
          simp [← hlength] at hpos
      | cons c text =>
          rw [htext] at hrest hlength
          rw [hrest] at h hlength
          obtain ⟨-, hx⟩ := plainKeyLength_again hblank hlength.symm hnext
          have hy : atBreak y = true := by
            rcases hnext with hhead | hy
            · rwa [← atBreak_congr hhead]
            · exact hy
          refine ⟨hx, ?_⟩
          rw [List.cons_append, ← List.append_assoc] at h ⊢
          rwa [← atBareKey_append ?_ ?_ (.inr ⟨rfl, hx, hy⟩)]
          · rintro rfl
            exact hdouble _ hrest
          · rintro rfl
            exact hsingle _ hrest

/-- A key of a block mapping is read again before its colon, and found to be one again. -/
theorem blockKey_again {r afterKey r' : Reader} {key : Scalar} {x y : Text}
    (hstart : atKey r.rest = true) (hkey : r.blockKey = .ok (key, afterKey))
    (hdropped : afterKey.dropped = r.dropped) (hcolon : afterKey.afterBlanks.rest = ':' :: x)
    (hnext : x.head? = y.head? ∨ atBreak y = true)
    (hrest : r'.rest = key.print ++ (afterKey.blanks ++ ':' :: y)) :
    atBreak x = true ∧ atKey r'.rest = true ∧
      r'.blockKey = .ok (key, r'.skip key.print.length) := by
  have hread := keyWith_again bareBlockKey_again bareBlockKey_keeps hkey hdropped hcolon hnext hrest
  obtain ⟨middle, key₀, hanchor, hbare, -, hprint, hmiddle⟩ :=
    keyWith_eq_ok bareBlockKey_keeps hkey hdropped
  have hafter : afterKey.rest = afterKey.blanks ++ ':' :: x := by rw [← hcolon, blanks_append]
  rw [atKey_eq_atBareKey hanchor] at hstart
  obtain ⟨hx, hagain⟩ :=
    atBareKey_again hbare hafter isBlank_of_mem_blanks hmiddle hstart hnext
  refine ⟨hx, ?_, hread⟩
  rw [hprint, List.append_assoc] at hrest
  have hanchor' := keyAnchor_again hanchor hrest (by
    rw [hmiddle, hafter, ← List.append_assoc, ← List.append_assoc]
    exact head?_append_cons _ x y ':')
  rw [atKey_eq_atBareKey hanchor', rest_skip hrest]
  exact hagain

theorem flowKey_again {r afterKey r' : Reader} {key : Scalar} {x y : Text}
    (hkey : r.flowKey = .ok (key, afterKey)) (hdropped : afterKey.dropped = r.dropped)
    (hcolon : afterKey.afterBlanks.rest = ':' :: x)
    (hnext : x.head? = y.head? ∨ atBreak y = true)
    (hrest : r'.rest = key.print ++ (afterKey.blanks ++ ':' :: y)) :
    r'.flowKey = .ok (key, r'.skip key.print.length) :=
  keyWith_again bareFlowKey_again bareFlowKey_keeps hkey hdropped hcolon hnext hrest

/-- The place after the colon of a key that was read again. -/
theorem afterColon_again {afterKey r' : Reader} {key x y : Text}
    (hcolon : afterKey.afterBlanks.rest = ':' :: x)
    (hrest : r'.rest = key ++ (afterKey.blanks ++ ':' :: y)) :
    (r'.skip key.length).blanks = afterKey.blanks ∧
      (r'.skip key.length).afterBlanks.rest = ':' :: y ∧
      (r'.skip key.length).afterBlanks.skip 1 =
        r'.skip (key ++ afterKey.blanks ++ [':']).length := by
  obtain ⟨hblanks, hskip⟩ := @blanks_eq afterKey (r'.skip key.length) (':' :: y)
    (rest_skip hrest) (by rw [hcolon]; rfl)
  refine ⟨hblanks, ?_, ?_⟩
  · rw [hskip]
    exact rest_skip (rest_skip hrest)
  · rw [hskip, skip_skip, skip_skip, List.length_append, List.length_append]
    rfl

end LosslessYaml.Reader
