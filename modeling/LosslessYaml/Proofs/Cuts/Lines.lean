import LosslessYaml.Proofs.Cuts.Scalars

/-!
# Scalars over several lines by positions

Literal, folded and plain scalars go on from line to line.  The loops here cut each line out of the
source, ask whether it belongs to the scalar, and stop at one that does not.  They go from line
break to line break, so every cut they make starts behind a line break and ends at one or at the end
of the source.
-/

namespace LosslessYaml

open Text Lookahead

/-! ## Lines of a text -/

namespace Text

/-- The bytes of the spaces that a line starts with. -/
def spaceBytes (line : Text) : Nat := size line - size (line.dropWhile (· == ' '))

theorem take_lineLength (text : Text) :
    text.take (lineLength text) = text.takeWhile (· != '\n') :=
  (List.prefix_iff_eq_take.mp (List.takeWhile_prefix _)).symm

theorem all_take_lineLength (text : Text) :
    (text.take (lineLength text)).all isWhitespace = isBlankLine text := by
  rw [take_lineLength]
  rfl

theorem spaceBytes_take_lineLength (text : Text) :
    spaceBytes (text.take (lineLength text)) = indentation text := by
  have hspaces : ∀ text : Text,
      ((text.takeWhile (· != '\n')).takeWhile (· == ' ')) = text.takeWhile (· == ' ') := by
    intro text
    induction text with
    | nil => rfl
    | cons c rest ih => by_cases hc : c = ' ' <;> by_cases hline : c = '\n' <;> simp_all
  have hsize : ∀ line : Text, size line =
      size (line.takeWhile (· == ' ')) + size (line.dropWhile (· == ' ')) := by
    intro line
    rw [← size_append, List.takeWhile_append_dropWhile]
  rw [spaceBytes, hsize, Nat.add_sub_cancel,
    size_takeWhile (fun c hc => hc.beq ' ' (by decide)), take_lineLength, hspaces]
  rfl

theorem drop_lineLength (text : Text) :
    text.drop (lineLength text) = [] ∨ ∃ tail, text.drop (lineLength text) = '\n' :: tail := by
  induction text with
  | nil => exact .inl rfl
  | cons c rest ih =>
      by_cases hc : c = '\n'
      · subst hc
        exact .inr ⟨rest, rfl⟩
      · rw [lineLength_cons hc, List.drop_succ_cons]
        exact ih

end Text

/-- Nothing is asked about a scalar over several lines on the way to the next line break. -/
theorem Lookahead.extendLines_drop {next : Text → Option (Nat × Bool)} {text : Text} {k : Nat}
    (hk : k ≤ text.length) (hline : '\n' ∉ text.take k) (reached offset : Nat) :
    extendLines next reached (offset + k) (text.drop k) = extendLines next reached offset text := by
  have hwalk := @extendLines_of_notMem next _ hline reached offset (text.drop k)
  rwa [List.take_append_drop, List.length_take, Nat.min_eq_left hk, eq_comm] at hwalk

theorem Lookahead.extendLines_lineLength (next : Text → Option (Nat × Bool))
    (reached offset : Nat) (text : Text) :
    extendLines next reached (offset + lineLength text) (text.drop (lineLength text)) =
      extendLines next reached offset text :=
  extendLines_drop (List.takeWhile_sublist _).length_le (newline_notMem_takeWhile rfl text) _ _

namespace ByteSource

open Reader

variable {source : Text} {r : Reader}

/-- The line that starts at a position, and the position of its end. -/
def lineAt (s : ByteSource) (start : Nat) : Checked (Text × Nat) := do
  let stop ← s.lineEnd start
  let line ← s.slice start stop
  return (line, stop)

theorem lineAt_position (h : Stands source r) :
    (ofText source).lineAt (position source r) =
      .ok (r.taken (lineLength r.rest), position source (r.skip (lineLength r.rest))) := by
  rw [lineAt, lineEnd_position h, ok_bind, slice_position h]
  rfl

theorem position_lt_length (h : Stands source r) :
    position source r < (ofText source).length ↔ r.rest ≠ [] := by
  rw [length_ofText h]
  cases hrest : r.rest with
  | nil => simp
  | cons c tail =>
      have hsize := c.utf8Size_pos
      rw [size_cons]
      exact ⟨fun _ => List.cons_ne_nil _ _, fun _ => by omega⟩

/-- A line starts behind a line break. -/
theorem position_lineStart {n : Nat} {tail : Text} (h : Stands source r)
    (hrest : (r.skip n).rest = '\n' :: tail) :
    position source (r.skip n) + 1 = position source (r.skip (n + 1)) ∧
      (r.skip (n + 1)).rest = tail ∧ (r.skip (n + 1)).column = 0 := by
  rw [← skip_skip, position_skip_one (h.skip n) hrest (by decide)]
  refine ⟨rfl, ?_, ?_⟩
  · rw [skip, hrest]
    rfl
  · rw [skip, hrest]
    rfl

/-! ## Literal and folded scalars -/

/-- How far a literal or folded scalar goes on, from a line break or the end of the source. -/
def literalLines (s : ByteSource) (floor : Nat) : Nat → Nat → Nat → Checked Nat
  | 0, _, _ => .error .endless
  | turns + 1, reached, cursor =>
    if cursor < s.length then do
      let (line, stop) ← s.lineAt (cursor + 1)
      if line.all isWhitespace then literalLines s floor turns reached stop
      else if spaceBytes line < floor then return reached
      else do
        let mark ← s.atDocumentMark (cursor + 1)
        if mark then return reached else literalLines s floor turns stop stop
    else return reached

theorem literalLines_position {floor turns reached n : Nat} (h : Stands source r)
    (hbreak : (r.skip n).rest = [] ∨ ∃ tail, (r.skip n).rest = '\n' :: tail)
    (hturns : (r.skip n).rest.length < turns) :
    (ofText source).literalLines floor turns (position source (r.skip reached))
        (position source (r.skip n)) =
      .ok (position source
        (r.skip (extendLines (literalLine floor) reached n (r.skip n).rest))) := by
  induction turns generalizing reached n with
  | zero => omega
  | succ turns ih =>
      rcases hbreak with hend | ⟨tail, hrest⟩
      · have hlast : ¬ position source (r.skip n) < (ofText source).length := by
          rw [position_lt_length (h.skip n), hend]
          exact fun hne => hne rfl
        rw [literalLines, if_neg hlast, hend]
        rfl
      · obtain ⟨hstart, htail, hcolumn⟩ := position_lineStart h hrest
        have hline := h.skip (n + 1)
        have hmore : position source (r.skip n) < (ofText source).length := by
          rw [position_lt_length (h.skip n), hrest]
          exact List.cons_ne_nil _ _
        -- the loop goes on at the end of the line, whatever the scalar reaches by then
        have hlater : ∀ reached, (ofText source).literalLines floor turns
            (position source (r.skip reached))
            (position source (r.skip (n + 1 + lineLength tail))) =
            .ok (position source
              (r.skip (extendLines (literalLine floor) reached (n + 1) tail))) := by
          intro reached
          have hdrop : (r.skip (n + 1 + lineLength tail)).rest = tail.drop (lineLength tail) := by
            rw [← skip_skip, ← htail]
            rfl
          have hshorter : (r.skip (n + 1 + lineLength tail)).rest.length < turns := by
            rw [hrest, List.length_cons] at hturns
            rw [hdrop, List.length_drop]
            omega
          rw [ih (by rw [hdrop]; exact drop_lineLength tail) hshorter, hdrop,
            extendLines_lineLength]
        rw [literalLines, if_pos hmore, hstart, lineAt_position hline, ok_bind]
        dsimp only
        rw [taken, all_take_lineLength, spaceBytes_take_lineLength, htail, skip_skip, hlater,
          hlater, hrest, extendLines_newline, literalLine, atDocumentMark_position hline, ok_bind,
          Reader.atDocumentMark, htail, hcolumn]
        split
        next => rfl
        next =>
          rw [Bool.or_assoc]
          by_cases hindent : indentation tail < floor
          · rw [if_pos hindent, decide_eq_true hindent]
            rfl
          · rw [if_neg hindent, decide_eq_false hindent]
            cases atDashes tail || atDots tail <;> rfl

/-- Reads a literal or folded scalar. -/
def literal (s : ByteSource) (style : Style) (floor : Nat) (lead : Text) (position : Nat) :
    Checked (Block × Nat) := do
  let first ← s.lineEnd (position + 1)
  let stop ← s.literalLines floor (s.length + 1) first first
  let text ← s.slice (position + 1) stop
  return (.scalar { lead, style, text }, stop)

theorem literal_position {style : Style} {floor : Nat} {lead tail : Text} {c : Char}
    (h : Stands source r) (hrest : r.rest = c :: tail) (hc : c.toNat < 128) :
    (ofText source).literal style floor lead (position source r) =
      located source (positioned source) (.ok (r.literal style floor lead)) := by
  have hbody := h.skip 1
  have hfirst := hbody.skip (lineLength (r.skip 1).rest)
  have hlength : extendLines (literalLine floor) (lineLength (r.skip 1).rest)
      (lineLength (r.skip 1).rest) ((r.skip 1).skip (lineLength (r.skip 1).rest)).rest =
      literalLength floor (r.skip 1).rest := by
    have hwalk := extendLines_lineLength (literalLine floor) (lineLength (r.skip 1).rest) 0
      (r.skip 1).rest
    rwa [Nat.zero_add] at hwalk
  rw [literal, ← position_skip_one h hrest hc, lineEnd_position hbody, ok_bind,
    literalLines_position hbody (drop_lineLength _) (length_rest_lt hfirst), ok_bind,
    slice_position hbody, hlength]
  rfl

/-! ## Plain scalars -/

/-- The first line from a position on that is not blank, or the last line, and where it starts. -/
def visibleLine (s : ByteSource) : Nat → Nat → Checked (Text × Nat)
  | 0, _ => .error .endless
  | turns + 1, start => do
    let (line, stop) ← s.lineAt start
    if line.all isWhitespace && stop < s.length then visibleLine s turns (stop + 1)
    else return (line, start)

/-- Where the text starts of a line that continues a plain scalar, if the line does. -/
def continuation (s : ByteSource) (floor : Nat) (line : Text) (start : Nat) :
    Checked (Option Nat) :=
  let first := start + spaceBytes line
  if line.all isWhitespace || spaceBytes line < floor || (s.view first).head? == some '#' then
    .ok none
  else do
    let mark ← s.atDocumentMark start
    return if mark || atKey (s.view first) then none else some first

/-- How far a plain scalar goes on over the next lines. -/
def plainLines (s : ByteSource) (floor : Nat) : Nat → Nat → Checked Nat
  | 0, _ => .error .endless
  | turns + 1, reached =>
    let stop := reached + ((s.view reached).takeWhile isTrailing).length
    if (s.view stop).head? == some '\n' then do
      let (line, start) ← s.visibleLine (s.length + 1) (stop + 1)
      let first? ← s.continuation floor line start
      match first? with
      | none => return reached
      | some first =>
        let last ← s.runEnd lineStop isTrailing first
        plainLines s floor turns last
    else return reached

/-- Reads a plain scalar. -/
def plain (s : ByteSource) (floor : Nat) (lead : Text) (start : Nat) : Checked (Block × Nat) := do
  let first ← s.runEnd lineStop isTrailing start
  let stop ← s.plainLines floor (s.length + 1) first
  let text ← s.slice start stop
  return (.scalar { lead, text }, stop)

/-- Between two line breaks there is nothing but blank lines where the search for a line that is not
blank goes from the one to the other. -/
theorem visibleLine_position {turns n : Nat} {tail : Text} (h : Stands source r)
    (hrest : (r.skip n).rest = '\n' :: tail) (hturns : (r.skip n).rest.length < turns) :
    ∃ m line, n ≤ m ∧ (r.skip m).rest = '\n' :: line ∧
      (ofText source).visibleLine turns (position source (r.skip (n + 1))) =
        .ok (line.take (lineLength line), position source (r.skip (m + 1))) ∧
      (isBlankLine line = true → '\n' ∉ line) ∧
      ∀ next reached, extendLines next reached n (r.skip n).rest =
        extendLines next reached m (r.skip m).rest := by
  induction turns generalizing n tail with
  | zero => omega
  | succ turns ih =>
      obtain ⟨-, htail, -⟩ := position_lineStart h hrest
      have hline := h.skip (n + 1)
      have hdrop : (r.skip (n + 1 + lineLength tail)).rest = tail.drop (lineLength tail) := by
        rw [← skip_skip, ← htail]
        rfl
      rw [visibleLine, lineAt_position hline, ok_bind]
      dsimp only
      rw [taken, all_take_lineLength, htail, skip_skip]
      by_cases hgo : isBlankLine tail = true ∧
          position source (r.skip (n + 1 + lineLength tail)) < (ofText source).length
      · have hnonempty := (position_lt_length (h.skip _)).mp hgo.2
        rw [hdrop] at hnonempty
        obtain ⟨later, hlater⟩ := (drop_lineLength tail).resolve_left hnonempty
        have hbreak : (r.skip (n + 1 + lineLength tail)).rest = '\n' :: later := hdrop.trans hlater
        obtain ⟨hstart, -, -⟩ := position_lineStart h hbreak
        have hshorter : (r.skip (n + 1 + lineLength tail)).rest.length < turns := by
          rw [hrest, List.length_cons] at hturns
          rw [hdrop, List.length_drop]
          omega
        obtain ⟨m, line, hm, hmrest, hfound, hblank, hsame⟩ := ih hbreak hshorter
        refine ⟨m, line, by omega, hmrest, ?_, hblank, ?_⟩
        · rw [if_pos (by simpa using hgo), hstart]
          exact hfound
        · intro next reached
          rw [← hsame next reached, hrest, extendLines_newline, if_pos hgo.1, hdrop,
            extendLines_lineLength]
      · refine ⟨n, tail, Nat.le_refl _, hrest, ?_, ?_, fun _ _ => rfl⟩
        · rw [if_neg (by simpa using hgo)]
          rfl
        · intro hblank hmem
          have hend : tail.drop (lineLength tail) = [] := by
            by_contra hne
            exact hgo ⟨hblank, (position_lt_length (h.skip _)).mpr (by rwa [hdrop])⟩
          have hwhole := List.take_append_drop (lineLength tail) tail
          rw [hend, List.append_nil] at hwhole
          rw [← hwhole] at hmem
          exact newline_notMem_takeWhile rfl _ hmem

/-- How far a plain scalar reaches that is known to reach `n`. -/
def plainReach (floor n : Nat) (text : Text) : Nat :=
  if lineEnds (text.drop n) then extendLines (plainLine floor) n n (text.drop n) else n

theorem plainReach_first (floor : Nat) (text : Text) :
    plainReach floor (plainLineLength text) text = plainBlockLength floor text := by
  have hwalk := @extendLines_drop (plainLine floor) text (plainLineLength text)
    (runLength_le _ _ _) (notMem_run _ (by simp) _) (plainLineLength text) 0
  rw [Nat.zero_add] at hwalk
  rw [plainReach, hwalk]
  rfl

theorem plainReach_last {floor n : Nat} {text : Text}
    (h : ((text.drop n).dropWhile isTrailing).head? ≠ some '\n') : plainReach floor n text = n := by
  rw [plainReach, lineEnds]
  cases hrest : (text.drop n).dropWhile isTrailing with
  | nil =>
      have hblank := List.takeWhile_append_dropWhile (p := isTrailing) (l := text.drop n)
      rw [hrest, List.append_nil] at hblank
      have hline : '\n' ∉ text.drop n := by
        rw [← hblank]
        intro hmem
        exact absurd (List.mem_takeWhile_imp hmem) (by decide)
      have hwalk := @extendLines_of_notMem (plainLine floor) _ hline n n []
      rw [List.append_nil] at hwalk
      rw [hwalk]
      exact ite_self n
  | cons c rest =>
      refine if_neg ?_
      intro hc
      exact h (by rw [hrest, eq_of_beq hc]; rfl)

theorem plainReach_break {floor n : Nat} {text tail : Text}
    (h : (text.drop n).dropWhile isTrailing = '\n' :: tail) :
    plainReach floor n text = extendLines (plainLine floor) n
      (n + ((text.drop n).takeWhile isTrailing).length) ('\n' :: tail) := by
  have hline : '\n' ∉ (text.drop n).takeWhile isTrailing := by
    intro hmem
    exact absurd (List.mem_takeWhile_imp hmem) (by decide)
  rw [← extendLines_of_notMem hline, ← h, List.takeWhile_append_dropWhile, plainReach, lineEnds, h]
  rfl

/-- Whether a line ends a plain scalar before it. -/
def endsPlain (floor : Nat) (line : Text) : Bool :=
  isBlankLine line || indentation line < floor ||
    (line.drop (indentation line)).head? == some '#' ||
    (atDashes line || atDots line || atKey (line.drop (indentation line)))

/-- The first line that is not blank ends a plain scalar, or the scalar reaches the end of its own
part of that line and maybe more. -/
theorem extendLines_plainLine {floor m : Nat} {text line : Text} (n : Nat)
    (hblank : isBlankLine line = true → '\n' ∉ line) (hline : text.drop (m + 1) = line) :
    extendLines (plainLine floor) n m ('\n' :: line) =
      if endsPlain floor line then n
      else plainReach floor
        (m + 1 + (indentation line + plainLineLength (line.drop (indentation line)))) text := by
  rw [extendLines_newline]
  by_cases hempty : isBlankLine line = true
  · have hnone := @extendLines_of_notMem (plainLine floor) _ (hblank hempty) n (m + 1) []
    rw [List.append_nil] at hnone
    rw [if_pos hempty, hnone, endsPlain, hempty]
    rfl
  by_cases hstop : endsPlain floor line = true
  · have hnone : plainLine floor line = none :=
      if_pos (by simpa [endsPlain, hempty, Bool.or_assoc] using hstop)
    rw [if_neg hempty, if_pos hstop, hnone]
  · have hsome : plainLine floor line =
        some (indentation line + plainLineLength (line.drop (indentation line)),
          lineEnds ((line.drop (indentation line)).drop
            (plainLineLength (line.drop (indentation line))))) :=
      if_neg (by simpa [endsPlain, hempty, Bool.or_assoc] using hstop)
    obtain ⟨hle, hsame, -⟩ := plainLine_eq_some hsome
    rw [List.drop_drop] at hsome
    have hrest : ∀ k, text.drop (m + 1 + k) = line.drop k := by
      intro k
      rw [← hline, List.drop_drop]
    rw [if_neg hempty, if_neg hstop, hsome, plainReach, hrest, extendLines_drop hle hsame]
    cases lineEnds (line.drop
      (indentation line + plainLineLength (line.drop (indentation line)))) <;> rfl

theorem continuation_position {floor : Nat} (h : Stands source r) (hcolumn : r.column = 0) :
    (ofText source).continuation floor (r.rest.take (lineLength r.rest)) (position source r) =
      .ok (if endsPlain floor r.rest then none
        else some (position source (r.skip (indentation r.rest)))) := by
  have hbody := h.skip (indentation r.rest)
  have hrest : (r.skip (indentation r.rest)).rest = r.rest.drop (indentation r.rest) := rfl
  have hfirst : position source r + indentation r.rest =
      position source (r.skip (indentation r.rest)) :=
    (position_skip_takeWhile (fun c hc => hc.beq ' ' (by decide)) h).symm
  rw [continuation, all_take_lineLength, spaceBytes_take_lineLength, hfirst, view_position hbody,
    hrest, head?_octets (by decide), atDocumentMark_position h, ok_bind, atKey_octets,
    Reader.atDocumentMark, hcolumn, endsPlain]
  cases isBlankLine r.rest || decide (indentation r.rest < floor) ||
    (r.rest.drop (indentation r.rest)).head? == some '#' <;> rfl

theorem plainLines_position {floor turns n : Nat} (h : Stands source r)
    (hturns : (r.skip n).rest.length < turns) :
    (ofText source).plainLines floor turns (position source (r.skip n)) =
      .ok (position source (r.skip (plainReach floor n r.rest))) := by
  induction turns generalizing n with
  | zero => omega
  | succ turns ih =>
      have hreached := h.skip n
      -- the blanks behind what the scalar reaches
      obtain ⟨k, hk⟩ : ∃ k, k = ((r.skip n).rest.takeWhile isTrailing).length := ⟨_, rfl⟩
      have hstop : position source (r.skip n) + k = position source (r.skip (n + k)) := by
        rw [← skip_skip, hk, position_skip_takeWhile isTrailing_wide hreached]
      have hdrop : (r.skip (n + k)).rest = (r.skip n).rest.dropWhile isTrailing := by
        rw [← skip_skip, hk]
        exact drop_length_takeWhile _ _
      rw [plainLines, view_position hreached, takeWhile_octets isTrailing_wide, ← hk, hstop]
      dsimp only
      rw [view_position (h.skip _), head?_octets (by decide)]
      split
      next hhead =>
        obtain ⟨tail, htail⟩ := List.head?_eq_some_iff.mp (eq_of_beq hhead)
        obtain ⟨hstart, -, -⟩ := position_lineStart h htail
        obtain ⟨m, line, hm, hmrest, hfound, hblank, hsame⟩ :=
          visibleLine_position h htail (length_rest_lt (h.skip _))
        obtain ⟨-, hline, hcolumn⟩ := position_lineStart h hmrest
        have hvisible := h.skip (m + 1)
        have hreach : plainReach floor n r.rest =
            extendLines (plainLine floor) n m ('\n' :: line) := by
          rw [plainReach_break (hdrop.symm.trans htail), ← hmrest, ← hsame, ← htail, hk]
          rfl
        have hcontinues := @continuation_position source _ floor hvisible hcolumn
        rw [hline] at hcontinues
        rw [hstart, hfound, ok_bind]
        dsimp only
        rw [hcontinues, ok_bind, hreach, extendLines_plainLine n hblank hline]
        by_cases hends : endsPlain floor line = true
        · rw [if_pos hends, if_pos hends]
          rfl
        · have hbody : ((r.skip (m + 1)).skip (indentation line)).rest =
              line.drop (indentation line) := by
            rw [← hline]
            rfl
          have hshorter : (r.skip (m + 1 + (indentation line +
              plainLineLength (line.drop (indentation line))))).rest.length < turns := by
            have hlength := congrArg List.length hmrest
            rw [skip_length, List.length_cons] at hlength
            rw [skip_length] at hturns ⊢
            omega
          rw [if_neg hends, if_neg hends]
          dsimp only
          rw [runEnd_position lineStop_narrow (hvisible.skip _), ok_bind, hbody, skip_skip,
            skip_skip]
          exact ih hshorter
      next hhead =>
        rw [plainReach_last]
        · rfl
        · show ((r.skip n).rest.dropWhile isTrailing).head? ≠ _
          rw [← hdrop]
          simpa using hhead

theorem plain_position {floor : Nat} {lead : Text} (h : Stands source r) :
    (ofText source).plain floor lead (position source r) =
      located source (positioned source) (.ok (r.plain (plainBlockLength floor r.rest) lead)) := by
  have hfirst : (ofText source).runEnd lineStop isTrailing (position source r) =
      .ok (position source (r.skip (plainLineLength r.rest))) := runEnd_position lineStop_narrow h
  rw [plain, hfirst, ok_bind, plainLines_position h (length_rest_lt (h.skip _)), ok_bind,
    plainReach_first, slice_position h]
  rfl

end ByteSource

end LosslessYaml
