import LosslessYaml.Proofs.LineEnds.Reading
import LosslessYaml.Proofs.Reading.Ahead

/-!
# Where two readers part

A double-quoted key with an escaped line break is a key before a line feed and none before a
carriage return.  Two readers that come to such a place part there, and one of them is stuck: what
follows can neither go on with a collection around the node that it reads, nor end the document.  So
at most one of the two texts is read to its end.

The second reader takes the key for a quoted scalar, and is stuck before the colon.  Or the first
reader ends a plain scalar before the key, which is nested too deep to belong to any collection.
-/

namespace LosslessYaml.Reader

open Text Lookahead

/-- What follows neither goes on with a collection around a node whose nested content starts at
column `floor`, nor ends the document. -/
structure Stuck (floor : Nat) (r : Reader) : Prop where
  rest : r.afterTrivia.rest ≠ []
  mark : (atDots r.afterTrivia.rest || atDashes r.afterTrivia.rest) = false
  nested : '\n' ∈ r.trivia → floor ≤ r.afterTrivia.column ∨
    (atKey r.afterTrivia.rest = false ∧ atDash r.afterTrivia.rest = false)

variable {floor : Nat} {r r' : Reader}

/-! ## What a stuck reader cannot do -/

theorem Stuck.mono {less : Nat} (h : Stuck floor r) (hle : less ≤ floor) : Stuck less r :=
  ⟨h.rest, h.mark, fun hline => (h.nested hline).imp_left (Nat.le_trans hle)⟩

theorem Stuck.dropping (h : Stuck floor r) (dropped : List Anchor) :
    Stuck floor { r with dropped } :=
  ⟨h.rest, h.mark, h.nested⟩

/-- No entry of a mapping around the node follows. -/
theorem Stuck.not_entry {column : Nat} (h : Stuck floor r) (hcolumn : column < floor) :
    (r.trivia.contains '\n' && r.afterTrivia.column == column && !r.afterTrivia.atDocumentMark &&
      atKey r.afterTrivia.rest) = false := by
  rw [Bool.eq_false_iff]
  intro hentry
  simp only [Bool.and_eq_true, List.contains_iff_mem, beq_iff_eq] at hentry
  obtain ⟨⟨⟨hline, heq⟩, -⟩, hkey⟩ := hentry
  obtain hle | ⟨hno, -⟩ := h.nested hline
  · omega
  · rw [hkey] at hno
    cases hno

/-- No item of a sequence around the node follows. -/
theorem Stuck.not_item {column : Nat} (h : Stuck floor r) (hcolumn : column < floor) :
    (r.trivia.contains '\n' && r.afterTrivia.column == column && atDash r.afterTrivia.rest) =
      false := by
  rw [Bool.eq_false_iff]
  intro hitem
  simp only [Bool.and_eq_true, List.contains_iff_mem, beq_iff_eq] at hitem
  obtain ⟨⟨hline, heq⟩, hdash⟩ := hitem
  obtain hle | ⟨-, hno⟩ := h.nested hline
  · omega
  · rw [hdash] at hno
    cases hno

/-- The document does not end. -/
theorem Stuck.ending_eq_error (h : Stuck floor r) : ∃ failure, r.ending = .error failure := by
  obtain ⟨hdots, hdashes⟩ := Bool.or_eq_false_iff.mp h.mark
  refine ⟨⟨.contentAfterRoot, r.afterTrivia.rest⟩, ?_⟩
  unfold ending
  dsimp only
  rw [if_neg (by simpa using h.rest), hdots, hdashes, Bool.and_false, if_neg (by simp),
    if_neg (by simp)]
  rfl

/-! ## Before the colon of a broken key -/

/-- Blanks are read as trivia up to the next character. -/
theorem trivia_blanks_eq {c : Char} {tail : Text} (hrest : r.rest.dropWhile isBlank = c :: tail)
    (hc : triviaLength (c :: tail) = 0) :
    '\n' ∉ r.trivia ∧ r.afterTrivia = r.skip (r.rest.takeWhile isBlank).length ∧
      r.afterTrivia.rest = c :: tail := by
  have hsplit : r.rest = r.rest.takeWhile isBlank ++ c :: tail := by
    rw [← hrest, List.takeWhile_append_dropWhile]
  have hblank : ∀ d ∈ r.rest.takeWhile isBlank, isBlank d = true :=
    fun d hd => List.all_eq_true.mp List.all_takeWhile d hd
  obtain ⟨htrivia, hafter⟩ := trivia_eq hsplit (isTrivia_of_blank hblank) hc
  refine ⟨?_, hafter, ?_⟩
  · rw [htrivia]
    intro hline
    exact absurd (hblank _ hline) (by decide)
  · rw [hafter]
    exact rest_skip hsplit

theorem stuck_of_atColon (h : atColon (r.rest.dropWhile isBlank) = true) : Stuck floor r := by
  obtain ⟨tail, htail⟩ : ∃ tail, r.rest.dropWhile isBlank = ':' :: tail := by
    unfold atColon at h
    split at h
    next tail heq => exact ⟨tail, heq⟩
    next => cases h
  obtain ⟨hline, -, hrest⟩ := trivia_blanks_eq htail rfl
  exact ⟨by simp [hrest], by rw [hrest]; rfl, fun h => absurd h hline⟩

/-- The second reader takes a broken key for a quoted scalar, and is stuck after it. -/
private theorem bareContent_stuck (fuel : Nat) {place : Place} {sameLine : Bool} {lead : Text}
    {found : Block × Reader} (h : Aligned r r') (hbroken : atBrokenBareKey r.rest = true)
    (hread : r'.blockContent fuel floor place sameLine (crlf lead) = .ok found) :
    Stuck floor found.2 := by
  obtain ⟨quote, rest, n, hquote, hrest, hlength, -, hcolon⟩ := eq_of_atBrokenBareKey hbroken
  have hhead : r.rest.head? = some quote := by rw [hrest, List.head?_cons]
  have hnewline : quote ≠ '\n' := by obtain rfl | rfl := hquote <;> decide
  have hanchor : quote ≠ '&' := by obtain rfl | rfl := hquote <;> decide
  have hopening : opening r'.rest = .quoted quote := by
    rw [hrest, ← atBrokenKey_cons hanchor] at hbroken
    have hkey := (atKey_of_atBrokenKey hbroken).2
    rw [crlf_cons hnewline] at hkey
    rw [h.rest, hrest, crlf_cons hnewline]
    obtain rfl | rfl := hquote <;> simp [opening, hkey]
  cases fuel with
  | zero => cases hread
  | succ fuel =>
      unfold blockContent at hread
      simp only [hopening] at hread
      obtain ⟨⟨scalar, after⟩, hquoted, hok⟩ := bind_eq_ok.mp hread
      cases hok
      -- The readers are in step up to the closing quote, and the colon follows it.
      have hbody : (r.skip 1).rest = rest := by simp [skip, hrest]
      have hfirst : r.quoted quote lead = .ok
          ({ lead, style := if quote == '"' then .doubleQuoted else .singleQuoted,
             text := (r.skip 1).taken n }, (r.skip 1).skip (n + 1)) := by
        simp only [quoted, hbody, quotedLength_of_oneLine hlength]
      have hagree := @quoted_agree r r' lead quote hquote h hhead
      rw [hfirst, hquoted] at hagree
      cases hagree with
      | ok hstep =>
          have hafter : after.rest = crlf ((r.skip 1).rest.drop (n + 1)) := hstep.2.rest
          apply stuck_of_atColon
          rw [hafter, hbody, dropWhile_crlf rfl rfl, atColon_crlf]
          exact hcolon

theorem attach_stuck {lead : Text} {anchor : Anchor} {start : Reader}
    {node found : Block × Reader} (h : Stuck floor node.2)
    (hattach : attach lead anchor start node = .ok found) : Stuck floor found.2 := by
  unfold attach at hattach
  split at hattach
  split at hattach
  next => cases hattach
  next =>
    cases hattach
    exact h.dropping _

private theorem anchorName_rest {tail : Text} {found : Text × Reader} (htail : r.rest = '&' :: tail)
    (hread : r.anchorName = .ok found) : found.2.rest = tail.drop (nameLength tail) := by
  simp only [anchorName] at hread
  split at hread
  next => cases hread
  next =>
    cases hread
    simp [skip, htail]

/-- After an anchor, with only blanks before a broken key. -/
private theorem anchored_stuck {fuel : Nat} {place : Place} {lead name : Text}
    {start : Reader} {found : Block × Reader} (h : Aligned r r')
    (hbroken : atBrokenBareKey (r.rest.dropWhile isBlank) = true)
    (hread : (if r'.afterTrivia.rest.isEmpty ||
        (r'.trivia.contains '\n' && !r'.afterTrivia.continues floor place) ||
        (!r'.trivia.contains '\n' && atFlowEnd r'.afterTrivia.rest) then
      .ok (.scalar { lead, anchor := some ⟨name, []⟩, text := [] }, r')
    else do
      let node ← blockContent fuel floor place (!r'.trivia.contains '\n') [] r'.afterTrivia
      attach lead ⟨name, r'.trivia⟩ start node) = .ok found) :
    Stuck floor found.2 := by
  obtain ⟨quote, rest, n, hquote, hrest, -⟩ := eq_of_atBrokenBareKey hbroken
  have hnewline : quote ≠ '\n' := by obtain rfl | rfl := hquote <;> decide
  have htrivia : triviaLength (quote :: rest) = 0 := by obtain rfl | rfl := hquote <;> rfl
  obtain ⟨hline, -, hnext⟩ := trivia_blanks_eq hrest htrivia
  have hline' : r'.trivia.contains '\n' = false := by
    rw [(Follows.aligned h).newLine]
    simpa using hline
  have hnext' : r'.afterTrivia.rest = quote :: crlf rest := by
    rw [h.afterTrivia.rest, hnext, crlf_cons hnewline]
  have hflow : atFlowEnd (quote :: crlf rest) = false := by obtain rfl | rfl := hquote <;> rfl
  rw [hline', hnext', hflow, if_neg (by simp)] at hread
  obtain ⟨node, hnode, hattach⟩ := bind_eq_ok.mp hread
  rw [hrest, ← hnext] at hbroken
  exact attach_stuck (@bareContent_stuck _ _ _ fuel _ _ [] _ h.afterTrivia hbroken hnode) hattach

/-- The second reader is stuck wherever it reads a node at a broken key. -/
theorem blockContent_stuck (fuel : Nat) {place : Place} {sameLine : Bool} {lead : Text}
    {found : Block × Reader} (h : Aligned r r') (hbroken : atBrokenKey r.rest = true)
    (hread : r'.blockContent fuel floor place sameLine (crlf lead) = .ok found) :
    Stuck floor found.2 := by
  by_cases hanchor : r.rest.head? = some '&'
  · obtain ⟨tail, htail⟩ := List.head?_eq_some_iff.mp hanchor
    have hkey := (atKey_of_atBrokenKey hbroken).2
    have hopening : opening r'.rest = .anchor := by
      rw [h.rest, htail, crlf_cons (by decide)]
      rw [htail, crlf_cons (by decide)] at hkey
      simp [opening, hkey]
    rw [htail] at hbroken
    change atBrokenBareKey ((tail.drop (nameLength tail)).dropWhile isBlank) = true at hbroken
    cases fuel with
    | zero => cases hread
    | succ fuel =>
        unfold blockContent at hread
        simp only [hopening] at hread
        cases fuel with
        | zero => cases hread
        | succ fuel =>
            obtain ⟨⟨name, after⟩, hname, hread⟩ := bind_eq_ok.mp hread
            have hagree := anchorName_agree h hanchor
            rw [hname] at hagree
            cases hfirst : r.anchorName with
            | error failure =>
                rw [hfirst] at hagree
                cases hagree
            | ok found₀ =>
                rw [hfirst] at hagree
                cases hagree with
                | ok hstep =>
                    have hafter : Aligned found₀.2 after := hstep.2
                    rw [← anchorName_rest htail hfirst] at hbroken
                    exact anchored_stuck hafter hbroken hread
  · obtain ⟨c, hc, -⟩ := head?_of_atBrokenKey hbroken
    obtain ⟨tail, htail⟩ := List.head?_eq_some_iff.mp hc
    have hne : c ≠ '&' := by
      rintro rfl
      exact hanchor hc
    rw [htail, atBrokenKey_cons hne, ← htail] at hbroken
    exact bareContent_stuck fuel h hbroken hread

/-- The second reader does not take a broken key for an entry, and is stuck before it. -/
theorem stuck_of_atBrokenKey {late : Bool} (h : Follows late r r')
    (hbroken : atBrokenKey r.afterTrivia.rest = true) :
    Stuck floor r' ∧ atKey r'.afterTrivia.rest = false := by
  obtain ⟨c, hhead, hc⟩ := head?_of_atBrokenKey hbroken
  obtain ⟨tail, htail⟩ := List.head?_eq_some_iff.mp hhead
  have hkey : atKey r'.afterTrivia.rest = false := by
    rw [h.afterTrivia.rest]
    exact (atKey_of_atBrokenKey hbroken).2
  have hrest : r'.afterTrivia.rest = c :: crlf tail := by
    rw [h.afterTrivia.rest, htail, crlf_cons (by obtain rfl | rfl | rfl := hc <;> decide)]
  refine ⟨⟨by simp [hrest], ?_, fun _ => .inr ⟨hkey, ?_⟩⟩, hkey⟩
  all_goals
    rw [hrest]
    obtain rfl | rfl | rfl := hc <;> rfl

/-! ## Before the line of a broken key -/

private theorem take_indentation (line : Text) :
    line.take (indentation line) = line.takeWhile (· == ' ') :=
  (List.prefix_iff_eq_take.mp (List.takeWhile_prefix _)).symm

private theorem eq_space_of_mem_take {line : Text} {c : Char}
    (hc : c ∈ line.take (indentation line)) : c = ' ' := by
  rw [take_indentation] at hc
  exact eq_of_beq (List.all_eq_true.mp List.all_takeWhile c hc)

private theorem indentation_le_columnAfter (line : Text) :
    indentation line ≤ columnAfter 0 (line.take (indentation line)) := by
  have hspaces : '\n' ∉ line.take (indentation line) := newline_notMem_takeWhile rfl line
  have hlong := le_columnAfter hspaces 0
  have hcount : (line.take (indentation line)).length = indentation line := by
    rw [take_indentation, indentation]
  omega

private theorem isBlankLine_gap {gap : Text} (h : ∀ c ∈ gap, isWhitespace c = true) (line : Text) :
    isBlankLine (gap ++ '\n' :: line) = true := by
  induction gap with
  | nil => rfl
  | cons c gap ih =>
      have hrest := ih fun d hd => h d (List.mem_cons_of_mem _ hd)
      have hc := h c List.mem_cons_self
      by_cases hline : c = '\n'
      · simp [isBlankLine, hline]
      · simpa [isBlankLine, hline, hc] using hrest

/-- A blank line starts no entry, no item and no mark. -/
private theorem blank_marks {text : Text} (h : isBlankLine text = true) :
    atKey text = false ∧ atDash text = false ∧ (atDots text || atDashes text) = false := by
  refine ⟨?_, ?_, ?_⟩
  · refine Bool.eq_false_iff.mpr fun hkey => ?_
    rw [isBlankLine_of_atKey hkey] at h
    cases h
  · refine Bool.eq_false_iff.mpr fun hdash => ?_
    obtain ⟨tail, rfl⟩ := eq_dash_of_atDash hdash
    simp [isBlankLine, isWhitespace] at h
  · refine Bool.or_eq_false_iff.mpr ⟨?_, ?_⟩
    · refine Bool.eq_false_iff.mpr fun hdots => ?_
      obtain ⟨tail, rfl⟩ := eq_dots_of_atDots hdots
      simp [isBlankLine, isWhitespace] at h
    · refine Bool.eq_false_iff.mpr fun hdashes => ?_
      obtain ⟨tail, rfl⟩ := eq_dashes_of_atDashes hdashes
      simp [isBlankLine, isWhitespace] at h

/-- The trivia after a gap of white space ends within the line that comes after it, or before, at
white space of another kind. -/
private theorem exists_trivia {line : Text}
    (hline : triviaLength (line.drop (indentation line)) = 0) {gap : Text}
    (hgap : ∀ c ∈ gap, isWhitespace c = true) :
    ∃ lead rest, gap ++ '\n' :: line = lead ++ rest ∧ IsTrivia lead ∧ triviaLength rest = 0 ∧
      (lead = gap ++ '\n' :: line.take (indentation line) ∧ rest = line.drop (indentation line) ∨
        rest ≠ [] ∧ isBlankLine rest = true) := by
  have hbreak : IsTrivia ['\n'] := by
    intro rest
    simp [triviaLength, triviaFrom, Nat.add_comm]
  induction gap with
  | nil =>
      have hspaces : IsTrivia (line.take (indentation line)) := by
        refine isTrivia_of_blank fun c hc => ?_
        rw [eq_space_of_mem_take hc]
        rfl
      refine ⟨'\n' :: line.take (indentation line), line.drop (indentation line), ?_,
        hbreak.append hspaces, hline, .inl ⟨rfl, rfl⟩⟩
      rw [List.nil_append, List.cons_append, List.take_append_drop]
  | cons c gap ih =>
      obtain ⟨lead, rest, hsplit, hlead, hrest, hend⟩ :=
        ih fun d hd => hgap d (List.mem_cons_of_mem _ hd)
      by_cases hc : c = '\n' ∨ isTrailing c = true
      · have hone : IsTrivia [c] := by
          obtain rfl | hc := hc
          · exact hbreak
          · intro rest
            have hline : c ≠ '\n' := by rintro rfl; simp [isTrailing] at hc
            have hcomment : c ≠ '#' := by rintro rfl; simp [isTrailing] at hc
            simp [triviaLength, triviaFrom, hline, hcomment, hc, Nat.add_comm]
        refine ⟨c :: lead, rest, by rw [List.cons_append, hsplit, List.cons_append],
          hone.append hlead, hrest, hend.imp_left ?_⟩
        rintro ⟨rfl, rfl⟩
        exact ⟨rfl, rfl⟩
      -- Other white space, such as a form feed, is no trivia but leaves the line blank.
      · refine ⟨[], c :: gap ++ '\n' :: line, rfl, .nil, ?_,
          .inr ⟨by simp, isBlankLine_gap hgap line⟩⟩
        rw [not_or] at hc
        have hcomment : c ≠ '#' := by
          rintro rfl
          exact absurd (hgap '#' List.mem_cons_self) (by decide)
        simp [triviaLength, triviaFrom, hc, hcomment]

/-- Only white space stands between the scalar and the broken key that ends it. -/
theorem plain_dropWhile {line : Text}
    (hends : lineEnds (r.rest.drop (plainLineLength r.rest)) = true)
    (hstop : stopLine? (plainLine floor) r.rest = some line)
    (hbroken : atBrokenKey (line.drop (indentation line)) = true) :
    (r.skip (plainBlockLength floor r.rest)).rest.dropWhile isWhitespace =
      line.drop (indentation line) := by
  obtain ⟨gap, hdrop, hgap⟩ := drop_plainBlockLength hends hstop
  obtain ⟨c, hhead, hc⟩ := head?_of_atBrokenKey hbroken
  obtain ⟨tail, hbody⟩ := List.head?_eq_some_iff.mp hhead
  have hwhite : ∀ d ∈ gap ++ '\n' :: line.take (indentation line), isWhitespace d = true := by
    intro d hd
    rw [List.mem_append, List.mem_cons] at hd
    obtain hd | rfl | hd := hd
    · exact hgap d hd
    · rfl
    · rw [eq_space_of_mem_take hd]
      rfl
  calc (r.skip (plainBlockLength floor r.rest)).rest.dropWhile isWhitespace
      = (gap ++ '\n' :: line.take (indentation line) ++ line.drop (indentation line)).dropWhile
          isWhitespace := by
        rw [List.append_assoc, List.cons_append, List.take_append_drop, ← hdrop]
        rfl
    _ = (line.drop (indentation line)).dropWhile isWhitespace :=
        List.dropWhile_append_of_pos hwhite
    _ = line.drop (indentation line) := by
        rw [hbody, List.dropWhile_cons_of_neg]
        obtain rfl | rfl | rfl := hc <;> decide

/-- The first reader is stuck after a plain scalar that ends before a broken key. -/
theorem plain_stuck {line : Text} (hends : lineEnds (r.rest.drop (plainLineLength r.rest)) = true)
    (hstop : stopLine? (plainLine floor) r.rest = some line) (hfloor : floor ≤ indentation line)
    (hbroken : atBrokenKey (line.drop (indentation line)) = true) :
    Stuck floor (r.skip (plainBlockLength floor r.rest)) := by
  obtain ⟨gap, hdrop, hgap⟩ := drop_plainBlockLength hends hstop
  obtain ⟨c, hhead, hc⟩ := head?_of_atBrokenKey hbroken
  obtain ⟨tail, hbody⟩ := List.head?_eq_some_iff.mp hhead
  have hzero : triviaLength (line.drop (indentation line)) = 0 := by
    rw [hbody]
    obtain rfl | rfl | rfl := hc <;> rfl
  obtain ⟨lead, rest, hsplit, hlead, hrest, hend⟩ := exists_trivia hzero hgap
  have hplace : (r.skip (plainBlockLength floor r.rest)).rest = lead ++ rest :=
    hdrop.trans hsplit
  generalize r.skip (plainBlockLength floor r.rest) = after at hplace ⊢
  obtain ⟨htrivia, hafter⟩ := trivia_eq hplace hlead hrest
  have hafterRest : after.afterTrivia.rest = rest := by rw [hafter]; exact rest_skip hplace
  obtain ⟨rfl, rfl⟩ | ⟨hne, hblank⟩ := hend
  -- The reader gets to the key, which is nested too deep for an entry of a mapping around it.
  · have hcolumn : indentation line ≤ after.afterTrivia.column := by
      rw [hafter, column_skip hplace, columnAfter_append]
      exact indentation_le_columnAfter line
    refine ⟨?_, ?_, fun _ => .inl (Nat.le_trans hfloor hcolumn)⟩
    · rw [hafterRest, hbody]
      simp
    · rw [hafterRest, hbody]
      obtain rfl | rfl | rfl := hc <;> rfl
  -- The reader stops on a blank line before the key.
  · obtain ⟨hkey, hdash, hmarks⟩ := blank_marks hblank
    rw [← hafterRest] at hne hkey hdash hmarks
    exact ⟨hne, hmarks, fun _ => .inr ⟨hkey, hdash⟩⟩

end LosslessYaml.Reader
