import LosslessYaml.Proofs.Reading.Again
import LosslessYaml.Proofs.Reading.Failures

/-!
# Keys are read where they are seen

Whether a mapping starts at a place is decided by looking ahead for a key and its colon, and only
then is the key read.  The two go over the same text by different rules: looking ahead stays on one
line and stops at comments, reading does neither and leaves out the blanks before the colon.  Where
a key was seen, reading it ends at the colon that was seen, or fails for a reason of its own.

A colon can be reported missing behind a key of a block mapping only.  That no other failure says so
is noted here for each function that reads a part of a node.

Main statement: `blockKey_of_atKey`.
-/

namespace LosslessYaml.Reader

open Text Lookahead

/-- A key that starts with no quote ends at its colon. -/
theorem plainKeyCloses_of_atBareKey {text : Text} (h : atBareKey text = true)
    (hdouble : text.head? ≠ some '"') (hsingle : text.head? ≠ some '\'') :
    plainKeyCloses text = true := by
  cases text with
  | nil => cases h
  | cons c rest =>
      have hquote : (c == '"' || c == '\'') = false := by
        simpa using And.intro hdouble hsingle
      rw [atBareKey, if_neg (by simp [hquote])] at h
      split at h
      next => cases h
      split at h
      next => cases h
      split at h
      next => cases h
      next => exact h

theorem bareBlockKey_quoted {quote : Char} (hquote : quote = '"' ∨ quote = '\'')
    {r : Reader} (hhead : r.rest.head? = some quote) : r.bareBlockKey = r.quoted quote [] := by
  obtain ⟨tail, htail⟩ := List.head?_eq_some_iff.mp hhead
  obtain rfl | rfl := hquote <;> simp only [bareBlockKey, htail]

theorem bareBlockKey_plain {r : Reader} (hdouble : r.rest.head? ≠ some '"')
    (hsingle : r.rest.head? ≠ some '\'') : r.bareBlockKey = r.plainKey (plainKeyLength r.rest) := by
  unfold bareBlockKey
  split
  next hrest => simp [hrest] at hdouble
  next hrest => simp [hrest] at hsingle
  next => rfl

theorem bareFlowKey_quoted {quote : Char} (hquote : quote = '"' ∨ quote = '\'')
    {r : Reader} (hhead : r.rest.head? = some quote) : r.bareFlowKey = r.quoted quote [] := by
  obtain ⟨tail, htail⟩ := List.head?_eq_some_iff.mp hhead
  obtain rfl | rfl := hquote <;> simp only [bareFlowKey, htail]

theorem bareFlowKey_bracket {bracket : Char} (hbracket : bracket = '[' ∨ bracket = '\x7b')
    {r : Reader} (hhead : r.rest.head? = some bracket) : r.bareFlowKey = r.fail .complexKey := by
  obtain ⟨tail, htail⟩ := List.head?_eq_some_iff.mp hhead
  obtain rfl | rfl := hbracket <;> simp only [bareFlowKey, htail]

theorem bareFlowKey_plain {r : Reader} (hdouble : r.rest.head? ≠ some '"')
    (hsingle : r.rest.head? ≠ some '\'') (hbracket : r.rest.head? ≠ some '[')
    (hbrace : r.rest.head? ≠ some '\x7b') :
    r.bareFlowKey = r.plainKey (plainFlowLength r.rest) := by
  unfold bareFlowKey
  split
  next hrest => simp [hrest] at hdouble
  next hrest => simp [hrest] at hsingle
  next hrest => simp [hrest] at hbracket
  next hrest => simp [hrest] at hbrace
  next => rfl

theorem eq_colon_of_atColon {text : Text} (h : atColon text = true) :
    ∃ tail, text = ':' :: tail ∧ atBreak tail = true := by
  unfold atColon at h
  split at h
  next tail => exact ⟨tail, rfl, h⟩
  next => cases h

/-- A plain key that closes is read up to the blanks before its colon. -/
theorem atColon_plainKeyLength {text : Text} (h : plainKeyCloses text = true) :
    atColon ((text.drop (plainKeyLength text)).dropWhile isBlank) = true := by
  induction text with
  | nil => cases h
  | cons c rest ih =>
      rw [plainKeyCloses] at h
      split at h
      next => cases h
      next hline =>
      split at h
      next hcolon =>
        rw [Bool.and_eq_true, beq_iff_eq] at hcolon
        obtain ⟨rfl, hbreak⟩ := hcolon
        simp [plainKeyLength, runLength, hbreak, isBlank, atColon]
      next hcolon =>
      split at h
      next => cases h
      next =>
        have hlater := ih h
        unfold plainKeyLength at hlater ⊢
        rw [runLength, if_neg (by rw [Bool.or_eq_true]; exact not_or.mpr ⟨hline, hcolon⟩)]
        cases hlength : runLength _ isBlank rest with
        | zero =>
            rw [hlength] at hlater
            cases hblank : isBlank c <;> simpa [hblank] using hlater
        | succ n =>
            rw [hlength] at hlater
            exact hlater

/-- A quoted key that closes on its line, with a colon behind it, is read up to the colon. -/
theorem quoted_of_atBareKey {quote : Char} {tail : Text} {r : Reader}
    (hquote : quote = '"' ∨ quote = '\'') (hrest : r.rest = quote :: tail)
    (h : atBareKey r.rest = true) :
    ∃ scalar after, r.quoted quote [] = .ok (scalar, after) ∧
      atColon after.afterBlanks.rest = true := by
  rw [hrest, atBareKey, if_pos (by rcases hquote with rfl | rfl <;> rfl)] at h
  cases hlength : quotedLength true quote tail with
  | none => simp [hlength] at h
  | some n =>
      have hbody : (r.skip 1).rest = tail := by simp [skip, hrest]
      have hread : quotedLength false quote (r.skip 1).rest = some n := by
        rw [hbody]
        exact quotedLength_of_oneLine hlength
      refine ⟨_, (r.skip 1).skip (n + 1), by simp only [quoted, hread]; rfl, ?_⟩
      rw [afterBlanks_rest, skip, hbody]
      simpa only [hlength] using h

/-- A key without an anchor, where one was seen, is empty or read up to its colon. -/
theorem bareBlockKey_of_atBareKey {r : Reader} (h : atBareKey r.rest = true) :
    r.bareBlockKey = r.fail .emptyKey ∨
      ∃ key after, r.bareBlockKey = .ok (key, after) ∧ atColon after.afterBlanks.rest = true := by
  by_cases hdouble : r.rest.head? = some '"'
  · obtain ⟨tail, hrest⟩ := List.head?_eq_some_iff.mp hdouble
    rw [bareBlockKey_quoted (.inl rfl) hdouble]
    exact .inr (quoted_of_atBareKey (.inl rfl) hrest h)
  by_cases hsingle : r.rest.head? = some '\''
  · obtain ⟨tail, hrest⟩ := List.head?_eq_some_iff.mp hsingle
    rw [bareBlockKey_quoted (.inr rfl) hsingle]
    exact .inr (quoted_of_atBareKey (.inr rfl) hrest h)
  have hcolon := atColon_plainKeyLength (plainKeyCloses_of_atBareKey h hdouble hsingle)
  rw [bareBlockKey_plain hdouble hsingle, plainKey]
  split
  · exact .inl rfl
  · refine .inr ⟨_, _, rfl, ?_⟩
    rw [afterBlanks_rest]
    exact hcolon

theorem anchorName_cause {r : Reader} {failure : Failure} (h : r.anchorName = .error failure) :
    failure.cause = .namelessAnchor := by
  simp only [anchorName] at h
  split at h
  next => cases h; rfl
  next => cases h

theorem keyAnchor_cause {r : Reader} {failure : Failure} (h : r.keyAnchor = .error failure) :
    failure.cause = .namelessAnchor := by
  unfold keyAnchor at h
  split at h
  next =>
    obtain h | ⟨_, -, hok⟩ := bind_eq_error.mp h
    · exact anchorName_cause h
    · cases hok
  next => cases h

/-- Where a key was seen, it is read up to the colon behind it, unless it is empty or its anchor has
no name. -/
theorem blockKey_of_atKey {r : Reader} (h : atKey r.rest = true) :
    (∃ failure, r.blockKey = .error failure ∧
      (failure.cause = .emptyKey ∨ failure.cause = .namelessAnchor)) ∨
    ∃ key after, r.blockKey = .ok (key, after) ∧ atColon after.afterBlanks.rest = true := by
  unfold blockKey keyWith
  cases hanchor : r.keyAnchor with
  | error failure =>
      refine .inl ⟨failure, rfl, .inr ?_⟩
      exact keyAnchor_cause hanchor
  | ok found =>
      obtain ⟨anchor, middle⟩ := found
      rw [atKey_eq_atBareKey hanchor] at h
      rcases bareBlockKey_of_atBareKey h with hempty | ⟨key, after, hkey, hcolon⟩
      · refine .inl ⟨⟨.emptyKey, middle.rest⟩, ?_, .inl rfl⟩
        simp only [bind, Except.bind, hempty, fail]
      · refine .inr ⟨{ key with anchor }, after, ?_, hcolon⟩
        simp only [bind, Except.bind, hkey]

/-! ## No colon is missing -/

/-- The result is not a failure that reports the colon of a block mapping missing. -/
def FindsColon {α : Type} (result : Except Failure α) : Prop :=
  ∀ failure, result = .error failure → failure.cause ≠ .missingColon

section

variable {α β : Type} {r : Reader}

theorem findsColon_ok (a : α) : FindsColon (.ok a) := by
  intro failure h
  cases h

theorem findsColon_fail {cause : Cause} (hcause : cause ≠ .missingColon) :
    FindsColon (r.fail cause : Except Failure α) := by
  intro failure h
  obtain rfl := Except.error.inj h
  exact hcause

theorem FindsColon.bind {x : Except Failure α} {f : α → Except Failure β} (hx : FindsColon x)
    (hf : ∀ a, FindsColon (f a)) : FindsColon (x >>= f) := by
  intro failure h
  obtain h | ⟨a, -, h⟩ := bind_eq_error.mp h
  · exact hx failure h
  · exact hf a failure h

theorem anchorName_findsColon (r : Reader) : FindsColon r.anchorName := by
  intro failure h
  rw [anchorName_cause h]
  decide

theorem attach_findsColon {lead : Text} {anchor : Anchor} {node : Block × Reader} :
    FindsColon (r.attach lead anchor node) := by
  obtain ⟨block, last⟩ := node
  simp only [attach]
  split
  · exact findsColon_fail (by decide)
  · exact findsColon_ok _

theorem quoted_findsColon (quote : Char) (lead : Text) : FindsColon (r.quoted quote lead) := by
  unfold quoted
  dsimp only
  split
  · refine findsColon_fail ?_
    split <;> decide
  · exact findsColon_ok _

theorem plainKey_findsColon (n : Nat) : FindsColon (r.plainKey n) := by
  unfold plainKey
  split
  · exact findsColon_fail (by decide)
  · exact findsColon_ok _

theorem flowKey_findsColon (r : Reader) : FindsColon r.flowKey := by
  have hanchor : FindsColon r.keyAnchor := by
    intro failure h
    rw [keyAnchor_cause h]
    decide
  refine hanchor.bind ?_
  rintro ⟨anchor, middle⟩
  refine FindsColon.bind ?_ fun key => findsColon_ok _
  unfold bareFlowKey
  split
  · exact quoted_findsColon _ _
  · exact quoted_findsColon _ _
  · exact findsColon_fail (by decide)
  · exact findsColon_fail (by decide)
  · exact plainKey_findsColon _

theorem flowColon_findsColon (r : Reader) : FindsColon r.flowColon := by
  unfold flowColon
  split
  · exact findsColon_ok _
  all_goals exact findsColon_fail (by decide)

theorem separator_findsColon (closing : Char) : FindsColon (r.separator closing) := by
  unfold separator
  split
  · split
    · exact findsColon_ok _
    split
    · exact findsColon_ok _
    · exact findsColon_fail (by simp)
  · exact findsColon_fail (by simp)

theorem ending_findsColon (r : Reader) : FindsColon r.ending := by
  unfold ending
  dsimp only
  split
  · exact findsColon_ok _
  split
  · exact findsColon_ok _
  split
  · exact findsColon_ok _
  · exact findsColon_fail (by decide)

theorem blockKey_findsColon (h : atKey r.rest = true) : FindsColon r.blockKey := by
  intro failure hfailure
  rcases blockKey_of_atKey h with ⟨other, hother, hcause⟩ | ⟨key, after, hkey, -⟩
  · obtain rfl := Except.error.inj (hfailure.symm.trans hother)
    rcases hcause with hcause | hcause <;> simp [hcause]
  · cases hfailure.symm.trans hkey

end

end LosslessYaml.Reader
