import LosslessYaml.Proofs.Reading.Bound
import Mathlib.Data.List.Basic

/-!
# Where a failure points

A failure carries what remained of the source where it arose.  That is always an end of the source,
and it starts with the character that the cause speaks of, although some failures are found far
behind that character: a bracket that is never closed is found missing at the end of the source, and
an anchor before an alias only after the alias was read.

`Cause.Fits` says what a cause promises about the text at its place.  The rest follows the calls of
the reader.  Each function fails at its own place, or where a function fails that it calls, and the
place of that one is behind its own.  The bound on nested calls is carried along, since meeting it
would be a failure that no source deserves.

Main statement: `Stream.error_denotes_place`.
-/

namespace LosslessYaml

open Lookahead

/-! ## What a cause promises -/

/-- What the text is like at the place where a cause is reported.  The bound on nested calls is
never a cause. -/
def Cause.Fits (rest : Text) : Cause → Prop
  | .tag => rest.head? = some '!'
  | .complexKey => rest.head? = some '?' ∨ rest.head? = some '[' ∨ rest.head? = some '\x7b'
  | .sequenceOnKeyLine => rest.head? = some '-'
  | .mappingOnKeyLine => atKey rest = true
  | .namelessAnchor => rest.head? = some '&' ∧ nameLength rest.tail = 0
  | .anchoredAlias => rest.head? = some '&'
  | .emptyKey => plainKeyLength rest = 0 ∨ plainFlowLength rest = 0
  | .missingColon => rest.head? ≠ some ':'
  | .missingFlowColon =>
    rest.head? ≠ some ':' ∧ rest.head? ≠ some ',' ∧ rest.head? ≠ some '\x7d'
  | .keyWithoutValue => rest.head? = some ',' ∨ rest.head? = some '\x7d'
  | .pairInSequence => rest.head? = some ':'
  | .missingSeparator closing =>
    triviaLength rest = 0 ∧ rest.head? ≠ some ',' ∧ rest.head? ≠ some closing
  | .endInsideFlow => rest = []
  | .unclosedMapping => rest.head? = some '\x7b'
  | .unclosedSequence => rest.head? = some '['
  | .unclosedDoubleQuote => rest.head? = some '"' ∧ quotedLength false '"' rest.tail = none
  | .unclosedSingleQuote => rest.head? = some '\'' ∧ quotedLength false '\'' rest.tail = none
  | .contentAfterRoot => ∃ c, rest.head? = some c ∧ c ∉ [' ', '\t', '\r', '\n', '#']
  | .tooDeep => False

namespace Reader

/-- The failure arose at this place or behind it, and the text there fits its cause. -/
structure Blames (r : Reader) (failure : Failure) : Prop where
  suffix : failure.rest <:+ r.rest
  fits : failure.cause.Fits failure.rest

namespace Blames

variable {r after : Reader} {failure : Failure}

theorem here {α : Type} {cause : Cause} (h : r.fail cause = (.error failure : Except Failure α))
    (hfits : cause.Fits r.rest) : Blames r failure := by
  obtain rfl := Except.error.inj h
  exact ⟨List.suffix_rfl, hfits⟩

/-- What arose behind a later place arose behind an earlier one. -/
theorem behind {text : Text} (hkeeps : Keeps r text after) (h : Blames after failure) :
    Blames r failure := by
  obtain ⟨read, -, hrest, -⟩ := hkeeps
  refine ⟨h.suffix.trans ?_, h.fits⟩
  rw [hrest]
  exact List.suffix_append _ _

end Blames

theorem bind_eq_error {ε α β : Type} {x : Except ε α} {f : α → Except ε β} {e : ε} :
    (x >>= f) = .error e ↔ x = .error e ∨ ∃ a, x = .ok a ∧ f a = .error e := by
  cases x with
  | error e => simp [bind, Except.bind]
  | ok a => simp [bind, Except.bind]

/-! ## Anchors, scalars and keys -/

variable {r : Reader} {failure : Failure}

theorem anchorName_blames (hopen : r.rest.head? = some '&')
    (h : r.anchorName = .error failure) : Blames r failure := by
  simp only [anchorName] at h
  split at h
  next hnone =>
    apply Blames.here h
    have htail : (r.skip 1).rest = r.rest.tail := List.drop_one
    rw [htail] at hnone
    exact ⟨hopen, by simpa using hnone⟩
  next => cases h

theorem attach_blames {lead : Text} {anchor : Anchor} {node : Block × Reader}
    (hopen : r.rest.head? = some '&') (h : attach lead anchor r node = .error failure) :
    Blames r failure := by
  simp only [attach] at h
  split at h
  next => exact .here h hopen
  next => cases h

theorem quoted_blames {quote : Char} {lead : Text} (hquote : quote = '"' ∨ quote = '\'')
    (hopen : r.rest.head? = some quote) (h : r.quoted quote lead = .error failure) :
    Blames r failure := by
  simp only [quoted] at h
  split at h
  next hnone =>
    apply Blames.here h
    have htail : (r.skip 1).rest = r.rest.tail := List.drop_one
    rw [htail] at hnone
    obtain rfl | rfl := hquote
    · exact ⟨hopen, hnone⟩
    · exact ⟨hopen, hnone⟩
  next => cases h

theorem keyAnchor_blames (h : r.keyAnchor = .error failure) : Blames r failure := by
  unfold keyAnchor at h
  split at h
  next hamp =>
    obtain h | ⟨_, -, hok⟩ := bind_eq_error.mp h
    · exact anchorName_blames (eq_of_beq hamp) h
    · cases hok
  next => cases h

theorem plainKey_blames {n : Nat} (hn : n = plainKeyLength r.rest ∨ n = plainFlowLength r.rest)
    (h : r.plainKey n = .error failure) : Blames r failure := by
  unfold plainKey at h
  split at h
  next hzero =>
    have hzero : n = 0 := eq_of_beq hzero
    exact .here h (hn.imp (fun hn => hn.symm.trans hzero) fun hn => hn.symm.trans hzero)
  next => cases h

theorem bareBlockKey_blames (h : r.bareBlockKey = .error failure) : Blames r failure := by
  unfold bareBlockKey at h
  split at h
  next hopen => exact quoted_blames (.inl rfl) (by rw [hopen]; rfl) h
  next hopen => exact quoted_blames (.inr rfl) (by rw [hopen]; rfl) h
  next => exact plainKey_blames (.inl rfl) h

theorem bareFlowKey_blames (h : r.bareFlowKey = .error failure) : Blames r failure := by
  unfold bareFlowKey at h
  split at h
  next hopen => exact quoted_blames (.inl rfl) (by rw [hopen]; rfl) h
  next hopen => exact quoted_blames (.inr rfl) (by rw [hopen]; rfl) h
  next hopen => exact .here h (.inr (.inl (by rw [hopen]; rfl)))
  next hopen => exact .here h (.inr (.inr (by rw [hopen]; rfl)))
  next => exact plainKey_blames (.inr rfl) h

/-- A key fails in its anchor, or from after the anchor on. -/
theorem keyWith_blames {bare : Reader → Except Failure (Scalar × Reader)}
    (hbare : ∀ {r failure}, bare r = .error failure → Blames r failure)
    (h : keyWith bare r = .error failure) : Blames r failure := by
  unfold keyWith at h
  obtain h | ⟨⟨anchor, after⟩, hanchor, h⟩ := bind_eq_error.mp h
  · exact keyAnchor_blames h
  · obtain h | ⟨_, -, hok⟩ := bind_eq_error.mp h
    · exact (hbare h).behind (keyAnchor_keeps hanchor)
    · cases hok

theorem flowColon_blames (h : r.flowColon = .error failure) : Blames r failure := by
  unfold flowColon at h
  split at h
  next => cases h
  next hopen => exact .here h (.inl (by rw [hopen]; rfl))
  next hopen => exact .here h (.inr (by rw [hopen]; rfl))
  next hcolon hcomma hbrace =>
    have hother : ∀ c, (∀ tail, r.rest = c :: tail → False) → r.rest.head? ≠ some c := by
      intro c hno hhead
      obtain ⟨tail, hrest⟩ := List.head?_eq_some_iff.mp hhead
      exact hno tail hrest
    exact .here h ⟨hother _ hcolon, hother _ hcomma, hother _ hbrace⟩

theorem separator_blames {closing : Char} (h : r.separator closing = .error failure) :
    Blames r failure := by
  have htrivia : triviaLength r.afterTrivia.rest = 0 := triviaLength_drop r.rest
  unfold separator at h
  split at h
  next c tail hopen =>
    split at h
    next => cases h
    next hcomma =>
      split at h
      next => cases h
      next hclosing =>
        refine Blames.behind (.trivia r) (.here h ⟨htrivia, ?_, ?_⟩)
        · simpa [hopen] using hcomma
        · simpa [hopen] using hclosing
  next hopen =>
    exact Blames.behind (.trivia r) (.here h ⟨htrivia, by simp [hopen], by simp [hopen]⟩)

/-! ## Nodes in flow context

A call needs four units of the bound for each character that remains, and a few more.  It passes
one unit less on, and either reads a character first or needs one unit less than it was given. -/

mutual

theorem flowContent_blames (fuel : Nat) {lead : Text} {r : Reader} {failure : Failure}
    (hfuel : 4 * r.rest.length + 1 ≤ fuel) (h : flowContent fuel lead r = .error failure) :
    Blames r failure := by
  match fuel with
  | 0 => omega
  | fuel + 1 =>
    unfold flowContent at h
    split at h
    next hopen => exact .here h hopen
    next tail hopen =>
      have hread := (Keeps.head hopen).length_le
      rw [List.length_singleton] at hread
      obtain h | ⟨_, -, hok⟩ := bind_eq_error.mp h
      · exact flowEntries_blames fuel (by omega) (by rw [hopen]; rfl) (.head hopen) h
      · cases hok
    next tail hopen =>
      have hread := (Keeps.head hopen).length_le
      rw [List.length_singleton] at hread
      obtain h | ⟨_, -, hok⟩ := bind_eq_error.mp h
      · exact flowItems_blames fuel (by omega) (by rw [hopen]; rfl) (.head hopen) h
      · cases hok
    next tail hopen =>
      obtain h | ⟨_, -, hok⟩ := bind_eq_error.mp h
      · exact quoted_blames (.inl rfl) (by rw [hopen]; rfl) h
      · cases hok
    next tail hopen =>
      obtain h | ⟨_, -, hok⟩ := bind_eq_error.mp h
      · exact quoted_blames (.inr rfl) (by rw [hopen]; rfl) h
      · cases hok
    next => cases h
    next tail hopen => exact .here h (by rw [hopen]; rfl)
    next tail hopen =>
      have hamp : r.rest.head? = some '&' := by rw [hopen]; rfl
      obtain h | ⟨⟨name, after⟩, hname, h⟩ := bind_eq_error.mp h
      · exact anchorName_blames hamp h
      · dsimp only at h
        split at h
        next => cases h
        next =>
          have hkeeps := (anchorName_keeps hopen hname).trans (.trivia after)
          have hread := hkeeps.length_le
          simp only [List.length_append, List.length_cons] at hread
          obtain h | ⟨node, -, h⟩ := bind_eq_error.mp h
          · exact (flowContent_blames fuel (by omega) h).behind hkeeps
          · exact attach_blames hamp h
    all_goals cases h

/-- The entries are those of a mapping that starts at `start`, which is to blame if it is never
closed. -/
theorem flowEntries_blames (fuel : Nat) {start r : Reader} {text : Text} {failure : Failure}
    (hfuel : 4 * r.rest.length + 1 ≤ fuel) (hopen : start.rest.head? = some '\x7b')
    (hkeeps : Keeps start text r) (h : flowEntries fuel start r = .error failure) :
    Blames start failure := by
  match fuel with
  | 0 => omega
  | fuel + 1 =>
    unfold flowEntries at h
    split at h
    next => exact .here h hopen
    next => cases h
    next =>
      have hentry := hkeeps.trans (.trivia r)
      obtain h | ⟨⟨key, afterKey⟩, hkey, h⟩ := bind_eq_error.mp h
      · exact (keyWith_blames bareFlowKey_blames h).behind hentry
      have hcolonAt := (hentry.trans (flowKey_keeps hkey)).trans (.blanks afterKey)
      obtain h | ⟨afterColon, hcolon, h⟩ := bind_eq_error.mp h
      · exact (flowColon_blames h).behind hcolonAt
      obtain ⟨⟨colonTail, hcolonTail⟩, rfl⟩ := flowColon_eq_ok hcolon
      -- the colon is read, so that what follows is shorter
      have hshorter := afterColon_length ((Keeps.trivia r).trans (flowKey_keeps hkey)) hcolonTail
      have hvalueAt := (hcolonAt.trans (.head hcolonTail)).trans (.trivia _)
      have htrivia := afterTrivia_length_le (afterKey.afterBlanks.skip 1)
      obtain h | ⟨⟨value, afterValue⟩, hvalue, h⟩ := bind_eq_error.mp h
      · exact (flowContent_blames fuel (by omega) h).behind hvalueAt
      have hread := (flowContent_rules fuel hvalue).keeps.2
      obtain h | ⟨⟨comma, next⟩, hcomma, h⟩ := bind_eq_error.mp h
      · exact (separator_blames h).behind (hvalueAt.trans hread)
      have hnext := hread.trans (separator_keeps hcomma)
      have hnextLength := hnext.length_le
      obtain h | ⟨_, -, hok⟩ := bind_eq_error.mp h
      · exact flowEntries_blames fuel (by omega) hopen (hvalueAt.trans hnext) h
      · cases hok

/-- The items are those of a sequence that starts at `start`, which is to blame if it is never
closed. -/
theorem flowItems_blames (fuel : Nat) {start r : Reader} {text : Text} {failure : Failure}
    (hfuel : 4 * r.rest.length + 2 ≤ fuel) (hopen : start.rest.head? = some '[')
    (hkeeps : Keeps start text r) (h : flowItems fuel start r = .error failure) :
    Blames start failure := by
  match fuel with
  | 0 => omega
  | fuel + 1 =>
    unfold flowItems at h
    split at h
    next => exact .here h hopen
    next => cases h
    next hnil hbracket =>
      have hitem := hkeeps.trans (.trivia r)
      have htrivia := afterTrivia_length_le r
      obtain h | ⟨⟨value, afterValue⟩, hvalue, h⟩ := bind_eq_error.mp h
      · exact (flowContent_blames fuel (by omega) h).behind hitem
      have hread := (flowContent_rules fuel hvalue).keeps.2
      have hafter := hitem.trans hread
      dsimp only at h
      split at h
      next hpair =>
        exact Blames.behind (hafter.trans (.trivia afterValue)) (.here h (eq_of_beq hpair))
      next =>
        obtain h | ⟨⟨comma, next⟩, hcomma, h⟩ := bind_eq_error.mp h
        · exact (separator_blames h).behind hafter
        obtain ⟨c, tail, hrest⟩ := List.exists_cons_of_ne_nil hnil
        have hshorter := separator_length hrest (fun hc => hbracket tail (hc ▸ hrest)) hread hcomma
        obtain h | ⟨_, -, hok⟩ := bind_eq_error.mp h
        · exact flowItems_blames fuel (by omega) hopen (hafter.trans (separator_keeps hcomma)) h
        · cases hok

end

/-! ## Nodes in block context -/

mutual

theorem block_blames (fuel : Nat) {floor : Nat} {place : Place} {r : Reader} {failure : Failure}
    (hfuel : 4 * r.rest.length + 3 ≤ fuel) (h : block fuel floor place r = .error failure) :
    Blames r failure := by
  match fuel with
  | 0 => omega
  | fuel + 1 =>
    unfold block at h
    dsimp only at h
    split at h
    next => cases h
    next =>
      have htrivia := afterTrivia_length_le r
      exact (blockContent_blames fuel (by omega) h).behind (.trivia r)

theorem blockContent_blames (fuel : Nat) {floor : Nat} {place : Place} {sameLine : Bool}
    {lead : Text} {r : Reader} {failure : Failure} (hfuel : 4 * r.rest.length + 2 ≤ fuel)
    (h : blockContent fuel floor place sameLine lead r = .error failure) : Blames r failure := by
  match fuel with
  | 0 => omega
  | fuel + 1 =>
    unfold blockContent at h
    dsimp only at h
    split at h
    next hopen => exact anchored_blames fuel (by omega) hopen h
    next => cases h
    next hopen =>
      obtain ⟨tail, hrest⟩ := describes_of_opening hopen
      exact .here h (by rw [hrest]; rfl)
    next hopen =>
      obtain ⟨tail, hrest, -⟩ := describes_of_opening hopen
      exact .here h (.inl (by rw [hrest]; rfl))
    next => exact flowContent_blames fuel (by omega) h
    next => cases h
    next => cases h
    next quote hopen =>
      obtain ⟨hquote, ⟨tail, hrest⟩, -⟩ := describes_of_opening hopen
      obtain h | ⟨_, -, hok⟩ := bind_eq_error.mp h
      · exact quoted_blames hquote (by rw [hrest]; rfl) h
      · cases hok
    next hopen =>
      have hdash : atDash r.rest = true := describes_of_opening hopen
      split at h
      next =>
        obtain ⟨tail, hrest⟩ := eq_dash_of_atDash hdash
        exact .here h (by rw [hrest]; rfl)
      next =>
        obtain h | ⟨_, -, hok⟩ := bind_eq_error.mp h
        · exact blockItems_blames fuel (by omega) hdash h
        · cases hok
    next hopen =>
      have hkey : atKey r.rest = true := describes_of_opening hopen
      split at h
      next => exact .here h hkey
      next =>
        obtain h | ⟨_, -, hok⟩ := bind_eq_error.mp h
        · exact blockEntries_blames fuel (by omega) h
        · cases hok
    next => cases h

theorem anchored_blames (fuel : Nat) {floor : Nat} {place : Place} {lead : Text} {r : Reader}
    {failure : Failure} (hfuel : 4 * r.rest.length + 1 ≤ fuel) (hopen : opening r.rest = .anchor)
    (h : anchored fuel floor place lead r = .error failure) : Blames r failure := by
  match fuel with
  | 0 => omega
  | fuel + 1 =>
    obtain ⟨⟨tail, hrest⟩, -⟩ := describes_of_opening hopen
    have hamp : r.rest.head? = some '&' := by rw [hrest]; rfl
    unfold anchored at h
    obtain h | ⟨⟨name, after⟩, hname, h⟩ := bind_eq_error.mp h
    · exact anchorName_blames hamp h
    · dsimp only at h
      split at h
      next => cases h
      next =>
        have hkeeps := (anchorName_keeps hrest hname).trans (.trivia after)
        have hread := hkeeps.length_le
        simp only [List.length_append, List.length_cons] at hread
        obtain h | ⟨node, -, h⟩ := bind_eq_error.mp h
        · exact (blockContent_blames fuel (by omega) h).behind hkeeps
        · exact attach_blames hamp h

theorem blockEntries_blames (fuel : Nat) {lead : Text} {r : Reader} {failure : Failure}
    (hfuel : 4 * r.rest.length + 1 ≤ fuel) (h : blockEntries fuel lead r = .error failure) :
    Blames r failure := by
  match fuel with
  | 0 => omega
  | fuel + 1 =>
    unfold blockEntries at h
    obtain h | ⟨⟨key, afterKey⟩, hkey, h⟩ := bind_eq_error.mp h
    · exact keyWith_blames bareBlockKey_blames h
    have hcolonAt := (blockKey_keeps hkey).trans (.blanks afterKey)
    dsimp only at h
    split at h
    next hcolon => exact Blames.behind hcolonAt (.here h (by simpa [Cause.Fits] using hcolon))
    next hcolon =>
      obtain ⟨colonTail, hcolonTail⟩ : ∃ tail, afterKey.afterBlanks.rest = ':' :: tail :=
        List.head?_eq_some_iff.mp (by simpa using hcolon)
      have hvalueAt := blockEntry_keeps hkey hcolonTail
      have hshorter := afterColon_length (blockKey_keeps hkey) hcolonTail
      obtain h | ⟨⟨value, after⟩, hvalue, h⟩ := bind_eq_error.mp h
      · exact (block_blames fuel (by omega) h).behind hvalueAt
      have hnext := (block_rules fuel hvalue).keeps.trans (.trivia after)
      have hnextLength := hnext.length_le
      dsimp only at h
      split at h
      next =>
        obtain h | ⟨_, -, hok⟩ := bind_eq_error.mp h
        · exact (blockEntries_blames fuel (by omega) h).behind (hvalueAt.trans hnext)
        · cases hok
      next => cases h

theorem blockItems_blames (fuel : Nat) {lead : Text} {r : Reader} {failure : Failure}
    (hfuel : 4 * r.rest.length + 1 ≤ fuel) (hstart : atDash r.rest = true)
    (h : blockItems fuel lead r = .error failure) : Blames r failure := by
  match fuel with
  | 0 => omega
  | fuel + 1 =>
    obtain ⟨tail, hrest⟩ := eq_dash_of_atDash hstart
    have hdash := Keeps.head hrest
    have hshorter := hdash.length_le
    rw [List.length_singleton] at hshorter
    unfold blockItems at h
    obtain h | ⟨⟨value, after⟩, hvalue, h⟩ := bind_eq_error.mp h
    · exact (block_blames fuel (by omega) h).behind hdash
    have hnext := (block_rules fuel hvalue).keeps.trans (.trivia after)
    have hnextLength := hnext.length_le
    dsimp only at h
    split at h
    next hfollows =>
      simp only [Bool.and_eq_true] at hfollows
      obtain h | ⟨_, -, hok⟩ := bind_eq_error.mp h
      · exact (blockItems_blames fuel (by omega) hfollows.2 h).behind (hdash.trans hnext)
      · cases hok
    next => cases h

end

/-! ## Documents and streams -/

/-- What is left over after a root is neither white space nor a comment. -/
theorem contentAfterRoot_fits {rest : Text} (hne : rest ≠ []) (htrivia : triviaLength rest = 0) :
    Cause.contentAfterRoot.Fits rest := by
  obtain ⟨c, tail, rfl⟩ := List.exists_cons_of_ne_nil hne
  refine ⟨c, rfl, ?_⟩
  intro hmem
  simp only [List.mem_cons, List.not_mem_nil, or_false] at hmem
  rcases hmem with rfl | rfl | rfl | rfl | rfl <;>
    simp [triviaLength, triviaFrom, Text.isTrailing] at htrivia

theorem ending_blames (h : r.ending = .error failure) : Blames r failure := by
  unfold ending at h
  dsimp only at h
  split at h
  next => cases h
  next hmore =>
    split at h
    next => cases h
    split at h
    next => cases h
    next =>
      refine Blames.behind (.trivia r) (.here h ?_)
      exact contentAfterRoot_fits (by simpa using hmore) (triviaLength_drop r.rest)

theorem document_blames {fuel : Nat} {lead : Text} (hfuel : 4 * r.rest.length + 3 ≤ fuel)
    (h : document fuel lead r = .error failure) : Blames r failure := by
  have hdashes := afterDashes_keeps r
  have hlength := hdashes.length_le
  unfold document at h
  obtain h | ⟨⟨root, afterRoot⟩, hroot, h⟩ := bind_eq_error.mp h
  · exact (block_blames fuel (r := r.afterDashes) (by omega) h).behind hdashes
  · have hread := hdashes.trans (block_rules fuel (r := r.afterDashes) hroot).keeps
    obtain h | ⟨_, -, hok⟩ := bind_eq_error.mp h
    · exact (ending_blames h).behind hread
    · cases hok

theorem moreDocuments_blames (fuel : Nat) {r : Reader} {failure : Failure}
    (hfuel : 4 * r.rest.length + 4 ≤ fuel) (h : moreDocuments fuel r = .error failure) :
    Blames r failure := by
  induction fuel generalizing r with
  | zero => omega
  | succ fuel ih =>
      have hpreamble := preamble_keeps r
      have hlength := hpreamble.length_le
      unfold moreDocuments at h
      split at h
      next => cases h
      next hmore =>
        obtain h | ⟨⟨document, after⟩, hdocument, h⟩ := bind_eq_error.mp h
        · exact (document_blames (by omega) h).behind hpreamble
        have hrules := document_rules hdocument
        have hshorter := document_length hrules (preamble_start r) (by simpa using hmore)
        obtain ⟨text, -, hread⟩ := hrules.keeps
        obtain h | ⟨_, -, hok⟩ := bind_eq_error.mp h
        · exact (ih (by omega) h).behind (hpreamble.trans hread)
        · cases hok

theorem stream_blames {fuel : Nat} {mark : Text} (hfuel : 4 * r.rest.length + 4 ≤ fuel)
    (h : stream fuel mark r = .error failure) : Blames r failure := by
  have hpreamble := preamble_keeps r
  have hlength := hpreamble.length_le
  unfold stream at h
  dsimp only at h
  split at h
  next => cases h
  next hmore =>
    obtain h | ⟨⟨first, after⟩, hfirst, h⟩ := bind_eq_error.mp h
    · exact (document_blames (by omega) h).behind hpreamble
    have hrules := document_rules hfirst
    have hshorter := document_length hrules (preamble_start r) (by simpa using hmore)
    obtain ⟨text, -, hread⟩ := hrules.keeps
    dsimp only at h
    obtain h | ⟨_, -, hok⟩ := bind_eq_error.mp h
    · exact (moreDocuments_blames fuel (by omega) h).behind (hpreamble.trans hread)
    · cases hok

end Reader

/-! ## Lines and columns -/

namespace Location

/-- The location is that of the place behind the text: its line is one more than the line breaks
before the place, and its column one more than the characters since the start of the line. -/
def Denotes (location : Location) (before : Text) : Prop :=
  ∃ earlier line, before = earlier ++ line ∧ (earlier = [] ∨ earlier.getLast? = some '\n') ∧
    '\n' ∉ line ∧ location.line = earlier.count '\n' + 1 ∧ location.column = line.length + 1

/-- A text without a line break is added to the line that it follows. -/
theorem takeWhile_reverse_append {more : Text} (h : '\n' ∉ more) (before : Text) :
    (before ++ more).reverse.takeWhile (· != '\n') =
      more.reverse ++ before.reverse.takeWhile (· != '\n') := by
  rw [List.reverse_append, List.takeWhile_append_of_pos]
  intro c hc
  have hne : c ≠ '\n' := by rintro rfl; exact h (by simpa using hc)
  simpa using hne

theorem denotes_after (before : Text) : (after before).Denotes before := by
  have hsplit := List.takeWhile_append_dropWhile (p := (· != '\n')) (l := before.reverse)
  generalize hline : before.reverse.takeWhile (· != '\n') = line at hsplit
  generalize hearlier : before.reverse.dropWhile (· != '\n') = earlier at hsplit
  have hbefore : before = earlier.reverse ++ line.reverse := by
    rw [← List.reverse_append, hsplit, List.reverse_reverse]
  have hnoBreak : '\n' ∉ line := by
    intro hmem
    have hall := List.all_eq_true.mp (List.all_takeWhile (p := (· != '\n')) (l := before.reverse))
    exact absurd (hall _ (hline ▸ hmem)) (by decide)
  refine ⟨earlier.reverse, line.reverse, hbefore, ?_, by simpa using hnoBreak, ?_, ?_⟩
  · cases earlier with
    | nil => exact .inl rfl
    | cons c more =>
        have hc := List.head?_dropWhile_not (· != '\n') before.reverse
        rw [hearlier] at hc
        exact .inr (by simpa using hc)
  · have hcount : line.reverse.count '\n' = 0 := List.count_eq_zero.mpr (by simpa using hnoBreak)
    calc (after before).line = before.count '\n' + 1 := rfl
      _ = earlier.reverse.count '\n' + 1 := by rw [hbefore, List.count_append, hcount]
  · calc (after before).column = line.length + 1 := by rw [after, hline]
      _ = line.reverse.length + 1 := by rw [List.length_reverse]

theorem Denotes.eq_after {location : Location} {before : Text} (h : location.Denotes before) :
    location = after before := by
  obtain ⟨earlier, line, rfl, hend, hnoBreak, hline, hcolumn⟩ := h
  have hcount : line.count '\n' = 0 := List.count_eq_zero.mpr hnoBreak
  have hshort : (earlier ++ line).reverse.takeWhile (· != '\n') = line.reverse := by
    rw [takeWhile_reverse_append hnoBreak]
    obtain rfl | hend := hend
    · simp
    · obtain ⟨front, rfl⟩ := List.getLast?_eq_some_iff.mp hend
      simp
  cases location
  simp only [after, mk.injEq, hshort, List.length_reverse, List.count_append, hcount]
  exact ⟨hline, hcolumn⟩

/-- A longer text has another location. -/
theorem eq_nil_of_after_append {before more : Text} (h : after (before ++ more) = after before) :
    more = [] := by
  have hlines : (before ++ more).count '\n' + 1 = before.count '\n' + 1 := congrArg line h
  have hnoBreak : '\n' ∉ more := by
    rw [← List.count_eq_zero]
    rw [List.count_append] at hlines
    omega
  have hcolumns := congrArg column h
  simp only [after, takeWhile_reverse_append hnoBreak, List.length_append, List.length_reverse]
    at hcolumns
  exact List.eq_nil_of_length_eq_zero (by omega)

/-- No two places of one text have the same location. -/
theorem Denotes.unique {location : Location} {before rest other more : Text}
    (h : location.Denotes before) (hother : location.Denotes other)
    (hsame : other ++ more = before ++ rest) : other = before := by
  have heq : after other = after before := hother.eq_after.symm.trans h.eq_after
  have hprefix : before <+: other ++ more := hsame ▸ List.prefix_append before rest
  rcases List.prefix_or_prefix_of_prefix hprefix (List.prefix_append other more) with
    ⟨gap, rfl⟩ | ⟨gap, rfl⟩
  · simp [eq_nil_of_after_append heq]
  · simp [eq_nil_of_after_append heq.symm]

end Location

/-- A failure is located at the place that it arose at. -/
theorem Failure.locate_denotes {body before : Text} {failure : Failure}
    (h : before ++ failure.rest = body) : (failure.locate body).location.Denotes before := by
  have htake : body.take (body.length - failure.rest.length) = before := by
    rw [← h, List.length_append, Nat.add_sub_cancel, List.take_left]
  rw [Failure.locate, htake]
  exact Location.denotes_after before

/-- Where a source cannot be read, the reported location is that of exactly one place of it, with
the byte order mark left out of the count, and the text at that place fits the reported cause. -/
theorem Stream.error_denotes_place {source : Text} {error : ParseError}
    (h : Stream.parse source = .error error) :
    ∃ before rest, (splitMark source).1 ++ (before ++ rest) = source ∧
      error.location.Denotes before ∧ error.cause.Fits rest ∧
      ∀ other more, other ++ more = before ++ rest → error.location.Denotes other →
        other = before := by
  have hread : Stream.read source = .error error := by
    cases hread : Stream.read source with
    | error other => simpa [Stream.parse, hread, Except.map] using h
    | ok parsed => simp [Stream.parse, hread, Except.map] at h
  simp only [Stream.read] at hread
  split at hread
  next => cases hread
  next failure hfailure =>
    obtain rfl := Except.error.inj hread
    obtain ⟨⟨before, hbefore⟩, hfits⟩ := Reader.stream_blames (Nat.le_refl _) hfailure
    have hdenotes := Failure.locate_denotes hbefore
    refine ⟨before, failure.rest, ?_, hdenotes, hfits, ?_⟩
    · rw [hbefore]
      exact splitMark_append source
    · intro other more hsame hother
      exact hdenotes.unique hother hsame

/-- Behind a byte order mark and letters of two bytes, a pair in a sequence is found at its
colon. -/
theorem Stream.error_denotes_place_pair :
    ∃ error before rest, Stream.parse "\ufeffä: [ö,\n  ü : 1]\n".toList = .error error ∧
      error = ⟨⟨2, 5⟩, .pairInSequence⟩ ∧ before ++ rest = "ä: [ö,\n  ü : 1]\n".toList ∧
      error.location.Denotes before ∧ rest.head? = some ':' := by
  have hfails : (Stream.parse "\ufeffä: [ö,\n  ü : 1]\n".toList).map (fun _ => ()) =
      .error ⟨⟨2, 5⟩, .pairInSequence⟩ := by decide +kernel
  generalize hparse : Stream.parse _ = result at hfails ⊢
  cases result with
  | ok stream => cases hfails
  | error error =>
      obtain rfl : error = ⟨⟨2, 5⟩, .pairInSequence⟩ := Except.error.inj hfails
      obtain ⟨before, rest, hsource, hdenotes, hfits, -⟩ := Stream.error_denotes_place hparse
      exact ⟨_, before, rest, rfl, rfl, List.append_cancel_left hsource, hdenotes, hfits⟩

end LosslessYaml
