import LosslessYaml.Proofs.Reading.Inversion

/-!
# What may follow a node

Two texts that follow a node in block context can be told apart by a reader only further on than it
looks, if they share their trivia and then both end, or go on with lines that start alike and do not
belong to the node: they stand further to the left, or are marks of a document.  `Ahead` says so,
and the lemmas after it say which questions about the place after a node have the same answer.

In flow context it is enough that the same comma or bracket follows the same trivia.
-/

namespace LosslessYaml

open Text Lookahead

/-! ## Columns -/

namespace Text

/-- After a line break the column does not depend on what came before. -/
theorem columnAfter_of_mem {text : Text} (h : '\n' ∈ text) (column column' : Nat) :
    columnAfter column text = columnAfter column' text := by
  induction text generalizing column column' with
  | nil => simp at h
  | cons c text ih =>
      by_cases hc : c = '\n'
      · simp [columnAfter, hc]
      · have hmem : '\n' ∈ text := by
          rcases List.mem_cons.mp h with h | h
          · exact absurd h.symm hc
          · exact h
        exact ih hmem _ _

/-- Every character takes a column at least. -/
theorem le_columnAfter {text : Text} (h : '\n' ∉ text) (column : Nat) :
    column + text.length ≤ columnAfter column text := by
  induction text generalizing column with
  | nil => simp [columnAfter]
  | cons c text ih =>
      simp only [List.mem_cons, not_or] at h
      have hc : (c == '\n') = false := by simpa using Ne.symm h.1
      have hsize := c.utf8Size_pos
      have hle := ih h.2 (column + c.utf8Size)
      simp only [columnAfter, hc, Bool.false_eq_true, if_false, List.length_cons]
      omega

/-- A text with a line break is cut at its last one. -/
theorem exists_last_line {text : Text} (h : '\n' ∈ text) :
    ∃ start line, text = start ++ '\n' :: line ∧ '\n' ∉ line := by
  induction text with
  | nil => simp at h
  | cons c text ih =>
      by_cases hmem : '\n' ∈ text
      · obtain ⟨start, line, rfl, hline⟩ := ih hmem
        exact ⟨c :: start, line, rfl, hline⟩
      · rcases List.mem_cons.mp h with rfl | h
        · exact ⟨[], text, rfl, hmem⟩
        · exact absurd h hmem

theorem indentation_append_le {z : Text} (hz : z.head? ≠ some ' ') (line : Text) :
    indentation (line ++ z) ≤ line.length := by
  unfold indentation
  induction line with
  | nil =>
      cases z with
      | nil => simp
      | cons c z =>
          have hc : c ≠ ' ' := by simpa using hz
          simp [hc]
  | cons c line ih =>
      by_cases hc : c = ' '
      · simpa [hc] using ih
      · simp [hc]

theorem isBlankLine_append {line z : Text} (hline : '\n' ∉ line) (hz : isBlankLine z = false) :
    isBlankLine (line ++ z) = false := by
  unfold isBlankLine at hz ⊢
  rw [List.takeWhile_append_of_pos]
  · simp [List.all_append, hz]
  · intro c hc
    simp only [bne_iff_ne, ne_eq]
    rintro rfl
    exact hline hc

end Text

/-! ## Texts that start alike -/

/-- Two texts that start with the same character, and with the same mark if any. -/
structure Alike (x y : Text) : Prop where
  head : x.head? = y.head?
  dash : atDash x = atDash y
  dashes : atDashes x = atDashes y
  dots : atDots x = atDots y

namespace Alike

theorem refl (x : Text) : Alike x x := ⟨rfl, rfl, rfl, rfl⟩

/-- Texts that part after a character that is in no mark start alike. -/
theorem append {c : Char} (hdash : c ≠ '-') (hdot : c ≠ '.') (start x y : Text) :
    Alike (start ++ c :: x) (start ++ c :: y) :=
  ⟨head?_append_cons start x y c, atDash_append hdash start x y, atDashes_append hdash start x y,
    atDots_append hdot start x y⟩

/-- Texts that start with the same character start alike if it is in no mark. -/
theorem of_head {c : Char} (hdash : c ≠ '-') (hdot : c ≠ '.') {x y : Text}
    (hx : x.head? = some c) (hhead : x.head? = y.head?) : Alike x y := by
  obtain ⟨x, rfl⟩ := List.head?_eq_some_iff.mp hx
  obtain ⟨y, rfl⟩ := List.head?_eq_some_iff.mp (hhead ▸ hx)
  exact append hdash hdot [] x y

/-- Two dashes of sequence items start alike. -/
theorem of_atDash {x y : Text} (hx : atDash x = true) (hy : atDash y = true) : Alike x y := by
  obtain ⟨x, rfl, hx'⟩ := atDash_iff.mp hx
  obtain ⟨y, rfl, hy'⟩ := atDash_iff.mp hy
  have hdashes : ∀ z : Text, atBreak z = true → atDashes ('-' :: z) = false := by
    intro z hz
    unfold atDashes
    split
    next heq =>
      cases heq
      simp [atBreak] at hz
    next => rfl
  refine ⟨rfl, by rw [hx, hy], by rw [hdashes x hx', hdashes y hy'], by simp [atDots]⟩

/-- Two marks of one kind start alike. -/
theorem of_atDashes {x y : Text} (hx : atDashes ('-' :: '-' :: '-' :: x) = true)
    (hy : atDashes ('-' :: '-' :: '-' :: y) = true) :
    Alike ('-' :: '-' :: '-' :: x) ('-' :: '-' :: '-' :: y) :=
  ⟨rfl, rfl, by rw [hx, hy], rfl⟩

theorem of_atDots {x y : Text} (hx : atDots ('.' :: '.' :: '.' :: x) = true)
    (hy : atDots ('.' :: '.' :: '.' :: y) = true) :
    Alike ('.' :: '.' :: '.' :: x) ('.' :: '.' :: '.' :: y) :=
  ⟨rfl, rfl, rfl, by rw [hx, hy]⟩

end Alike

/-! ## Block context -/

/-- The texts follow a node whose lines start at column `floor` or later, and a reader that looks
ahead from the node sees the same in both. -/
inductive Ahead (floor : Nat) : Text → Text → Prop
  | ends {text : Text} (hend : triviaLength text = text.length) : Ahead floor text text
  | line {trivia x y : Text} (htrivia : IsTrivia trivia) (hline : '\n' ∈ trivia) (hne : x ≠ [])
      (hstart : triviaLength x = 0) (halike : Alike x y)
      (hvisible : isBlankLine x = false ∧ isBlankLine y = false)
      (hleft : columnAfter 0 trivia < floor ∧ atKey x = atKey y ∨
        columnAfter 0 trivia = 0 ∧ (atDashes x || atDots x) = true) :
      Ahead floor (trivia ++ x) (trivia ++ y)

namespace Ahead

theorem mono {floor floor' : Nat} (hle : floor ≤ floor') {x y : Text} (h : Ahead floor x y) :
    Ahead floor' x y := by
  cases h with
  | ends hend => exact .ends hend
  | line htrivia hline hne hstart halike hvisible hleft =>
      refine .line htrivia hline hne hstart halike hvisible ?_
      rcases hleft with ⟨hcolumn, hkey⟩ | hmark
      · exact .inl ⟨by omega, hkey⟩
      · exact .inr hmark

/-- Whatever stands before the two texts, it starts alike. -/
theorem alike {floor : Nat} {x y : Text} (h : Ahead floor x y) (text : Text) :
    Alike (text ++ x) (text ++ y) := by
  cases h with
  | ends => exact .refl _
  | line _ hline =>
      obtain ⟨start, line, rfl, -⟩ := exists_last_line hline
      simp only [List.append_assoc, List.cons_append]
      rw [← List.append_assoc, ← List.append_assoc]
      exact .append (by decide) (by decide) _ _ _

theorem head {floor : Nat} {x y : Text} (h : Ahead floor x y) : x.head? = y.head? :=
  (h.alike []).head

/-- A plain scalar is one before the other text, too. -/
theorem opening_plain {floor : Nat} {text x y : Text} (h : Ahead floor x y) (hne : text ≠ [])
    (hopen : opening (text ++ x) = .plain) : opening (text ++ y) = .plain := by
  cases h with
  | ends => exact hopen
  | line _ hline =>
      obtain ⟨start, line, rfl, -⟩ := exists_last_line hline
      simp only [List.append_assoc, List.cons_append] at hopen ⊢
      rw [← List.append_assoc] at hopen ⊢
      exact opening_append_line (by simp [hne]) hopen

/-- No colon follows a node on its line, so that a quoted scalar does not become a key. -/
theorem atColon_eq_false {floor : Nat} {x y : Text} (h : Ahead floor x y) :
    atColon (y.dropWhile isBlank) = false := by
  refine Bool.eq_false_iff.mpr fun hcolon => ?_
  obtain ⟨tail, htail⟩ : ∃ tail, y.dropWhile isBlank = ':' :: tail := by
    unfold atColon at hcolon
    split at hcolon
    next tail heq => exact ⟨tail, heq⟩
    next => simp at hcolon
  have hy : y = y.takeWhile isBlank ++ ':' :: tail := by
    rw [← htail, List.takeWhile_append_dropWhile]
  generalize hblanks : y.takeWhile isBlank = blanks at hy
  have hblank : ∀ c ∈ blanks, isBlank c = true := by
    rw [← hblanks]
    intro c hc
    exact List.all_eq_true.mp (List.all_takeWhile) c hc
  have hlength : triviaLength y = blanks.length := by
    rw [hy, isTrivia_of_blank hblank]
    simp [triviaLength, triviaFrom, isTrailing]
  cases h with
  | ends hend =>
      rw [hend, hy] at hlength
      simp at hlength
  | @line trivia x y htrivia hline hne hstart halike =>
      -- the trivia would be the blanks, but it holds a line break
      rw [htrivia, triviaLength_eq_zero_congr halike.head hstart, Nat.add_zero] at hlength
      have hsame : trivia = blanks := List.append_inj_left hy hlength
      have hbreak := hblank '\n' (hsame ▸ hline)
      simp [isBlank] at hbreak

/-- The line that follows a literal scalar does not belong to it. -/
private theorem literalLine_eq_none {floor : Nat} {line z : Text} (hlast : '\n' ∉ line)
    (hstart : triviaLength z = 0)
    (hleft : columnAfter 0 line < floor ∨
      columnAfter 0 line = 0 ∧ (atDashes z || atDots z) = true) :
    literalLine floor (line ++ z) = none := by
  have hle := le_columnAfter hlast 0
  have hspace : z.head? ≠ some ' ' := by
    intro h
    obtain ⟨tail, rfl⟩ := List.head?_eq_some_iff.mp h
    simp [triviaLength, triviaFrom, isTrailing] at hstart
  rcases hleft with hcolumn | ⟨hzero, hmark⟩
  · have hindent := indentation_append_le hspace line
    have : indentation (line ++ z) < floor := by omega
    simp [literalLine, this]
  · have hnil : line = [] := List.length_eq_zero_iff.mp (by omega)
    subst hnil
    simp only [List.nil_append, literalLine]
    rw [if_pos]
    simpa [Bool.or_assoc] using Or.inr (by simpa using hmark)

/-- A literal scalar ends before the other text, too. -/
theorem literalLength_eq {floor : Nat} {text x y : Text} (h : Ahead floor x y)
    (hlength : literalLength floor (text ++ x) = text.length) :
    literalLength floor (text ++ y) = text.length := by
  cases h with
  | ends => exact hlength
  | @line trivia x y htrivia hline hne hstart halike hvisible hleft =>
      obtain ⟨start, line, rfl, hlast⟩ := exists_last_line hline
      have hcolumn : columnAfter 0 (start ++ '\n' :: line) = columnAfter 0 line := by
        rw [columnAfter_append]
        rfl
      rw [hcolumn] at hleft
      have hx := literalLine_eq_none hlast hstart (hleft.imp_left And.left)
      have hy := literalLine_eq_none hlast (triviaLength_eq_zero_congr halike.head hstart)
        (by rw [← halike.dashes, ← halike.dots]; exact hleft.imp_left And.left)
      have hsame := literalLength_append (isBlankLine_append hlast hvisible.1)
        (isBlankLine_append hlast hvisible.2) hx hy (text ++ start)
      simp only [List.append_assoc, List.cons_append] at hlength hsame ⊢
      rw [← hsame, hlength]

/-! ## The places after a node

`r` is the place after the node in the one text, and `r'` in the other.  In the second one more
trivia may stand before what follows. -/

section Places

variable {floor : Nat} {r r' : Reader} {more y : Text}

/-- Both sources end, or both go on with lines that start alike. -/
theorem places (h : Ahead floor r.rest y) (hmore : IsTrivia more) (hrest : r'.rest = more ++ y) :
    (r.afterTrivia.rest = [] ∧ r'.afterTrivia.rest = []) ∨
    (r.trivia.contains '\n' = true ∧ r'.trivia.contains '\n' = true ∧ r.afterTrivia.rest ≠ [] ∧
      r'.afterTrivia.column = r.afterTrivia.column ∧
      Alike r.afterTrivia.rest r'.afterTrivia.rest ∧ y = r.trivia ++ r'.afterTrivia.rest ∧
      (r.afterTrivia.column < floor ∧ atKey r.afterTrivia.rest = atKey r'.afterTrivia.rest ∨
        r.afterTrivia.atDocumentMark = true)) := by
  generalize hx : r.rest = x at h
  cases h with
  | ends hend =>
      have hmoreEnd : triviaLength r'.rest = r'.rest.length := by
        rw [hrest, hmore, hend, List.length_append]
      left
      constructor
      · simp [Reader.afterTrivia, Reader.skip, hx, hend]
      · simp [Reader.afterTrivia, Reader.skip, hmoreEnd]
  | @line trivia x y htrivia hline hne hstart halike hvisible hleft =>
      obtain ⟨hr, hafter⟩ := Reader.trivia_eq hx htrivia hstart
      have hx' := Reader.rest_skip hx
      rw [← List.append_assoc] at hrest
      obtain ⟨hr', hafter'⟩ := Reader.trivia_eq hrest (hmore.append htrivia)
        (triviaLength_eq_zero_congr halike.head hstart)
      have hy' := Reader.rest_skip hrest
      have hcolumn : r.afterTrivia.column = columnAfter 0 trivia := by
        rw [hafter, Reader.column_skip hx, columnAfter_of_mem hline]
      have hcolumn' : r'.afterTrivia.column = columnAfter 0 trivia := by
        rw [hafter', Reader.column_skip hrest, columnAfter_append, columnAfter_of_mem hline]
      rw [← hafter] at hx'
      rw [← hafter'] at hy'
      right
      refine ⟨?_, ?_, ?_, ?_, ?_, ?_, ?_⟩
      · simpa [hr] using hline
      · simp [hr', hline]
      · rwa [hx']
      · rw [hcolumn, hcolumn']
      · rwa [hx', hy']
      · rw [hr, hy']
      · rcases hleft with ⟨hlt, hkey⟩ | ⟨hzero, hmark⟩
        · exact .inl ⟨by omega, by rw [hx', hy', hkey]⟩
        · exact .inr (by simp only [Reader.atDocumentMark, hcolumn, hzero, hx', hmark]; rfl)

theorem atDocumentMark_eq {r r' : Reader} (hcolumn : r'.column = r.column)
    (halike : Alike r.rest r'.rest) : r'.atDocumentMark = r.atDocumentMark := by
  simp only [Reader.atDocumentMark, hcolumn, halike.dashes, halike.dots]

theorem continues_eq {r r' : Reader} (hcolumn : r'.column = r.column)
    (halike : Alike r.rest r'.rest) (floor : Nat) (place : Place) :
    r'.continues floor place = r.continues floor place := by
  simp only [Reader.continues, atDocumentMark_eq hcolumn halike, hcolumn, halike.dash]

/-- Where something follows, it is at the same column in both texts. -/
theorem next (h : Ahead floor r.rest y) (hne : r.afterTrivia.rest ≠ []) (hmore : IsTrivia more)
    (hrest : r'.rest = more ++ y) :
    r'.afterTrivia.column = r.afterTrivia.column ∧ y = r.trivia ++ r'.afterTrivia.rest := by
  rcases h.places hmore hrest with ⟨hnil, -⟩ | ⟨-, -, -, hcolumn, -, htext, -⟩
  · exact absurd hnil hne
  · exact ⟨hcolumn, htext⟩

/-- Nothing that belongs to the place follows in both texts, or something does in both. -/
theorem stops_eq (h : Ahead floor r.rest y) (hmore : IsTrivia more) (hrest : r'.rest = more ++ y)
    (floor' : Nat) (place : Place) : r'.stops floor' place = r.stops floor' place := by
  rcases h.places hmore hrest with ⟨hend, hend'⟩ | ⟨hline, hline', hne, hcolumn, halike, -, -⟩
  · simp [Reader.stops, hend, hend']
  · have hne' : r'.afterTrivia.rest ≠ [] := by
      intro hnil
      have := halike.head
      rw [hnil] at this
      exact hne (by simpa using this)
    simp only [Reader.stops, hline, hline', continues_eq hcolumn halike,
      List.isEmpty_eq_false_iff.mpr hne, List.isEmpty_eq_false_iff.mpr hne']

/-- The mapping around the node goes on in both texts, or in none. -/
theorem entryFollows_eq (h : Ahead floor r.rest y) (hmore : IsTrivia more)
    (hrest : r'.rest = more ++ y) (column : Nat) :
    r'.entryFollows column = r.entryFollows column := by
  unfold Reader.entryFollows
  rcases h.places hmore hrest with ⟨hend, hend'⟩ | ⟨hline, hline', -, hcolumn, halike, -, hkey⟩
  · simp [hend, hend', atKey, atBareKey]
  · rw [hline, hline', hcolumn, atDocumentMark_eq hcolumn halike]
    rcases hkey with ⟨-, hkey⟩ | hmark
    · rw [hkey]
    · simp [hmark]

/-- The sequence around the node goes on in both texts, or in none. -/
theorem itemFollows_eq (h : Ahead floor r.rest y) (hmore : IsTrivia more)
    (hrest : r'.rest = more ++ y) (column : Nat) :
    r'.itemFollows column = r.itemFollows column := by
  unfold Reader.itemFollows
  rcases h.places hmore hrest with ⟨hend, hend'⟩ | ⟨hline, hline', -, hcolumn, halike, -, -⟩
  · simp [hend, hend', atDash]
  · rw [hline, hline', hcolumn, halike.dash]

end Places

end Ahead

/-! ## Flow context -/

/-- The same comma or closing bracket follows the same trivia in both texts. -/
inductive FlowAhead : Text → Text → Prop
  | intro {trivia x y : Text} {c : Char} (htrivia : IsTrivia trivia)
      (hend : atFlowEnd [c] = true) : FlowAhead (trivia ++ c :: x) (trivia ++ c :: y)

namespace FlowAhead

theorem head {x y : Text} (h : FlowAhead x y) : x.head? = y.head? := by
  cases h with
  | intro => exact head?_append_cons _ _ _ _

/-- Commas and closing brackets are no trivia. -/
theorem triviaLength_cons {c : Char} (hend : atFlowEnd [c] = true) (rest : Text) :
    triviaLength (c :: rest) = 0 := by
  simp only [atFlowEnd, Bool.or_eq_true, beq_iff_eq] at hend
  rcases hend with (rfl | rfl) | rfl <;> rfl

/-- After the trivia both texts are at the comma or the bracket. -/
theorem atFlowEnd_drop {x y : Text} (h : FlowAhead x y) :
    atFlowEnd (x.drop (triviaLength x)) = true ∧ atFlowEnd (y.drop (triviaLength y)) = true := by
  cases h with
  | @intro trivia x y c htrivia hend =>
      rw [htrivia, htrivia, triviaLength_cons hend, triviaLength_cons hend, Nat.add_zero,
        List.drop_left, List.drop_left]
      exact ⟨hend, hend⟩

end FlowAhead

end LosslessYaml
