import LosslessYaml.Bytes
import LosslessYaml.Proofs.LineEnds.Lookahead
import LosslessYaml.Proofs.Reading.Dispatch
import Mathlib.Data.List.DropRight

/-!
# Looking ahead in bytes

Everything that the reader looks ahead for is marked by characters of one byte.  So it can be looked
for byte by byte, without knowing where characters start.  This file takes the bytes of a text for
characters and asks the questions of `Lookahead` there: the answers are the same, and what is
counted in one is the bytes of what is counted in the other.  That holds even where a backslash
takes the next byte with it and leaves the rest of a character behind.
-/

namespace LosslessYaml

open Text Lookahead

namespace Text

/-! ## Bytes and characters -/

theorem toBytes_append (first second : Text) :
    toBytes (first ++ second) = toBytes first ++ toBytes second := List.flatMap_append

/-- The number of bytes of a text. -/
def size (text : Text) : Nat := text.toBytes.length

@[simp] theorem size_nil : size [] = 0 := rfl

@[simp] theorem size_cons (c : Char) (text : Text) : size (c :: text) = c.utf8Size + size text := by
  rw [size, toBytes, List.flatMap_cons, List.length_append, String.length_utf8EncodeChar]
  rfl

@[simp] theorem size_append (first second : Text) :
    size (first ++ second) = size first + size second := by
  rw [size, toBytes_append, List.length_append]
  rfl

theorem length_le_size (text : Text) : text.length ≤ size text := by
  induction text with
  | nil => exact Nat.le_refl _
  | cons c rest ih =>
      have hsize := c.utf8Size_pos
      rw [List.length_cons, size_cons]
      omega

/-- The bytes of a text, each taken for a character. -/
def octets (text : Text) : Text := text.toBytes.map Char.ofUInt8

@[simp] theorem octets_nil : octets [] = [] := rfl

@[simp] theorem length_octets (text : Text) : (octets text).length = size text := List.length_map _

@[simp] theorem isEmpty_octets (text : Text) : (octets text).isEmpty = text.isEmpty := by
  have hle := length_le_size text
  cases text with
  | nil => rfl
  | cons c rest =>
      rw [List.length_cons, ← length_octets] at hle
      rw [List.isEmpty_cons, List.isEmpty_eq_false_iff]
      exact List.ne_nil_of_length_pos (by omega)

theorem octets_append (first second : Text) :
    octets (first ++ second) = octets first ++ octets second := by
  rw [octets, toBytes_append, List.map_append]
  rfl

theorem drop_octets (text : Text) (n : Nat) :
    (octets text).drop (size (text.take n)) = octets (text.drop n) := by
  calc (octets text).drop (size (text.take n))
      = (octets (text.take n ++ text.drop n)).drop (size (text.take n)) := by
        rw [List.take_append_drop]
    _ = octets (text.drop n) := by
        rw [octets_append, ← length_octets, List.drop_left]

/-- A character that does not stand for itself in one byte, or one of its bytes. -/
def IsWide (c : Char) : Prop := 128 ≤ c.toNat

theorem IsWide.ne {c : Char} (h : IsWide c) (d : Char) (hd : d.toNat < 128) : c ≠ d := by
  rintro rfl
  exact absurd h (Nat.not_le.mpr hd)

theorem IsWide.beq {c : Char} (h : IsWide c) (d : Char) (hd : d.toNat < 128) :
    (c == d) = false :=
  beq_eq_false_iff_ne.mpr (h.ne d hd)

theorem isTrailing_wide (c : Char) (h : IsWide c) : isTrailing c = false := by
  simp [isTrailing, h.beq]

theorem isBlank_wide (c : Char) (h : IsWide c) : isBlank c = false := by
  simp [isBlank, h.beq]

/-- A character that is not wide is its own byte, and a wide one gives wide bytes. -/
theorem octets_cons (c : Char) (text : Text) :
    (c.utf8Size = 1 ∧ octets (c :: text) = c :: octets text) ∨
    IsWide c ∧ ∃ d more, octets (c :: text) = d :: (more ++ octets text) ∧
      c.utf8Size = more.length + 1 ∧ IsWide d ∧ ∀ x ∈ more, IsWide x := by
  have hcons : octets (c :: text) =
      (String.utf8EncodeChar c).map Char.ofUInt8 ++ octets text := by
    rw [octets, toBytes, List.flatMap_cons, List.map_append]
    rfl
  obtain ⟨first, more, hbytes, hcases⟩ := utf8EncodeChar_cases c
  have hsize : c.utf8Size = more.length + 1 := by
    rw [← String.length_utf8EncodeChar, hbytes, List.length_cons]
  rw [hbytes, List.map_cons, List.cons_append] at hcons
  rcases hcases with ⟨hsame, -, rfl⟩ | ⟨hwide, hfirst, hmore⟩
  · refine .inl ⟨hsize, ?_⟩
    have hc : Char.ofUInt8 first = c := Char.toNat_inj.mp hsame
    rw [hcons, hc]
    rfl
  · refine .inr ⟨hwide, Char.ofUInt8 first, more.map Char.ofUInt8, hcons, ?_, ?_, ?_⟩
    · rw [hsize, List.length_map]
    · show 128 ≤ first.toNat
      omega
    · intro x hx
      obtain ⟨b, hb, rfl⟩ := List.mem_map.mp hx
      exact (hmore b hb).1

theorem octets_narrow {c : Char} (hc : c.toNat < 128) (text : Text) :
    octets (c :: text) = c :: octets text := by
  rcases octets_cons c text with ⟨-, h⟩ | ⟨hwide, -⟩
  · exact h
  · exact absurd rfl (hwide.ne c hc)

theorem size_eq_length {text : Text} (h : ∀ c ∈ text, ¬ IsWide c) : size text = text.length := by
  induction text with
  | nil => rfl
  | cons c rest ih =>
      rw [List.forall_mem_cons] at h
      rcases octets_cons c rest with ⟨hsize, -⟩ | ⟨hwide, -⟩
      · rw [size_cons, hsize, ih h.2, List.length_cons]
        omega
      · exact absurd hwide h.1

/-! ## Runs -/

section

variable {p : Char → Bool} (hp : ∀ c, IsWide c → p c = false)

include hp

theorem takeWhile_octets (text : Text) : (octets text).takeWhile p = text.takeWhile p := by
  induction text with
  | nil => rfl
  | cons c rest ih =>
      rcases octets_cons c rest with ⟨-, h⟩ | ⟨hwide, d, more, h, -, hd, -⟩
      · rw [h, List.takeWhile_cons, List.takeWhile_cons, ih]
      · rw [h, List.takeWhile_cons, List.takeWhile_cons, hp d hd, hp c hwide]
        rfl

theorem dropWhile_octets (text : Text) : (octets text).dropWhile p = octets (text.dropWhile p) := by
  induction text with
  | nil => rfl
  | cons c rest ih =>
      rcases octets_cons c rest with ⟨-, h⟩ | ⟨hwide, d, more, h, -, hd, -⟩
      · rw [h, List.dropWhile_cons, List.dropWhile_cons, ih]
        split
        · rfl
        · exact h.symm
      · rw [h, List.dropWhile_cons, List.dropWhile_cons, hp d hd, hp c hwide]
        exact h.symm

theorem size_takeWhile (text : Text) : size (text.takeWhile p) = (text.takeWhile p).length := by
  apply size_eq_length
  intro c hc hwide
  have htrue := List.all_eq_true.mp List.all_takeWhile c hc
  rw [hp c hwide] at htrue
  cases htrue

end

/-- The length of what comes before the first character at which `stop` holds of it and of what
follows. -/
def span (stop : Char → Text → Bool) : Text → Nat
  | [] => 0
  | c :: rest => if stop c rest then 0 else span stop rest + 1

theorem rdropWhile_cons (p : Char → Bool) (c : Char) (text : Text) :
    (c :: text).rdropWhile p =
      if (text.rdropWhile p).isEmpty then if p c then [] else [c] else c :: text.rdropWhile p := by
  unfold List.rdropWhile
  rw [List.reverse_cons, List.dropWhile_append, List.isEmpty_reverse]
  split
  · rw [List.dropWhile_cons]
    split <;> rfl
  · rw [List.reverse_append]
    rfl

/-- A run without the loose characters at its end is the whole run, trimmed. -/
theorem runLength_eq_span (stop : Char → Text → Bool) (loose : Char → Bool) (text : Text) :
    runLength stop loose text = ((text.take (span stop text)).rdropWhile loose).length := by
  induction text with
  | nil => rfl
  | cons c rest ih =>
      rw [runLength, span]
      split
      · rfl
      · rw [List.take_succ_cons, rdropWhile_cons, ih]
        cases hrest : (rest.take (span stop rest)).rdropWhile loose with
        | nil => cases loose c <;> rfl
        | cons d more => rfl

theorem runLength_eq_span_of_tight (stop : Char → Text → Bool) (text : Text) :
    runLength stop (fun _ => false) text = span stop text := by
  induction text with
  | nil => rfl
  | cons c rest ih =>
      rw [runLength, span, ih]
      split
      · rfl
      · cases span stop rest <;> rfl

/-- Where a run stops is told by characters that are not wide. -/
structure StopsNarrow (stop : Char → Text → Bool) : Prop where
  wide : ∀ c rest, IsWide c → stop c rest = false
  octets : ∀ c rest, stop c (octets rest) = stop c rest

section

variable {stop : Char → Text → Bool} (h : StopsNarrow stop)

include h

theorem span_wide_append {more : Text} (hmore : ∀ x ∈ more, IsWide x) (text : Text) :
    span stop (more ++ text) = more.length + span stop text := by
  induction more with
  | nil => simp
  | cons c more ih =>
      rw [List.forall_mem_cons] at hmore
      rw [List.cons_append, span, h.wide c _ hmore.1, if_neg Bool.false_ne_true, ih hmore.2,
        List.length_cons]
      omega

/-- A run ends at the same place, whether characters or bytes are walked. -/
theorem span_octets (text : Text) :
    span stop (octets text) = size (text.take (span stop text)) := by
  induction text with
  | nil => rfl
  | cons c rest ih =>
      rcases octets_cons c rest with ⟨hsize, hview⟩ | ⟨hc, d, more, hview, hsize, hd, hmore⟩
      · rw [hview, span, span, h.octets]
        split
        · rfl
        · rw [List.take_succ_cons, size_cons, hsize, ih]
          omega
      · rw [hview, span, span, h.wide d _ hd, h.wide c _ hc, if_neg Bool.false_ne_true,
          if_neg Bool.false_ne_true, span_wide_append h hmore, ih, List.take_succ_cons, size_cons,
          hsize]
        omega

end

end Text

namespace Lookahead

/-! ## Single marks -/

theorem head?_octets {c : Char} (hc : c.toNat < 128) (text : Text) :
    ((octets text).head? == some c) = (text.head? == some c) := by
  cases text with
  | nil => rfl
  | cons d rest =>
      rcases octets_cons d rest with ⟨-, h⟩ | ⟨hwide, e, more, h, -, he, -⟩
      · rw [h]
        rfl
      · rw [h]
        simp [hwide.ne c hc, he.ne c hc]

theorem atBreak_octets (text : Text) : atBreak (octets text) = atBreak text := by
  cases text with
  | nil => rfl
  | cons c rest =>
      rcases octets_cons c rest with ⟨-, h⟩ | ⟨hwide, d, more, h, -, hd, -⟩
      · rw [h]
        rfl
      · rw [h]
        simp [atBreak, hwide.beq, hd.beq]

theorem atFlowEnd_octets (text : Text) : atFlowEnd (octets text) = atFlowEnd text := by
  cases text with
  | nil => rfl
  | cons c rest =>
      rcases octets_cons c rest with ⟨-, h⟩ | ⟨hwide, d, more, h, -, hd, -⟩
      · rw [h]
        rfl
      · rw [h]
        simp [atFlowEnd, hwide.beq, hd.beq]

/-- Whether the text starts with the marks, and may break behind them. -/
def atMarks : Text → Text → Bool
  | [], text => atBreak text
  | _ :: _, [] => false
  | mark :: marks, c :: rest => c == mark && atMarks marks rest

theorem atMarks_octets {marks : Text} (hmarks : ∀ c ∈ marks, c.toNat < 128) (text : Text) :
    atMarks marks (octets text) = atMarks marks text := by
  induction marks generalizing text with
  | nil => exact atBreak_octets text
  | cons mark marks ih =>
      rw [List.forall_mem_cons] at hmarks
      cases text with
      | nil => rfl
      | cons c rest =>
          rcases octets_cons c rest with ⟨-, h⟩ | ⟨hwide, d, more, h, -, hd, -⟩
          · rw [h, atMarks, atMarks, ih hmarks.2]
          · rw [h, atMarks, atMarks, hwide.beq mark hmarks.1, hd.beq mark hmarks.1]
            rfl

theorem atMarks_append (marks rest : Text) : atMarks marks (marks ++ rest) = atBreak rest := by
  induction marks with
  | nil => rfl
  | cons mark marks ih => rw [List.cons_append, atMarks, beq_self_eq_true, ih, Bool.true_and]

theorem atMarks_other {marks text : Text} (h : ∀ rest, text ≠ marks ++ rest) :
    atMarks marks text = false := by
  induction marks generalizing text with
  | nil => exact absurd rfl (h text)
  | cons mark marks ih =>
      cases text with
      | nil => rfl
      | cons c text =>
          by_cases hc : c = mark
          · subst hc
            have hrest : ∀ rest, text ≠ marks ++ rest := by
              intro rest hrest
              exact h rest (by rw [hrest, List.cons_append])
            rw [atMarks, ih hrest, Bool.and_false]
          · rw [atMarks, beq_eq_false_iff_ne.mpr hc, Bool.false_and]

theorem atColon_eq (text : Text) : atColon text = atMarks [':'] text := by
  unfold atColon
  split
  next rest => exact (atMarks_append [':'] rest).symm
  next hother => exact (atMarks_other hother).symm

theorem atDash_eq (text : Text) : atDash text = atMarks ['-'] text := by
  unfold atDash
  split
  next rest => exact (atMarks_append ['-'] rest).symm
  next hother => exact (atMarks_other hother).symm

theorem atDashes_eq (text : Text) : atDashes text = atMarks ['-', '-', '-'] text := by
  unfold atDashes
  split
  next rest => exact (atMarks_append ['-', '-', '-'] rest).symm
  next hother => exact (atMarks_other hother).symm

theorem atDots_eq (text : Text) : atDots text = atMarks ['.', '.', '.'] text := by
  unfold atDots
  split
  next rest => exact (atMarks_append ['.', '.', '.'] rest).symm
  next hother => exact (atMarks_other hother).symm

theorem atColon_octets (text : Text) : atColon (octets text) = atColon text := by
  rw [atColon_eq, atColon_eq, atMarks_octets (by simp)]

theorem atDash_octets (text : Text) : atDash (octets text) = atDash text := by
  rw [atDash_eq, atDash_eq, atMarks_octets (by simp)]

theorem atDashes_octets (text : Text) : atDashes (octets text) = atDashes text := by
  rw [atDashes_eq, atDashes_eq, atMarks_octets (by simp)]

theorem atDots_octets (text : Text) : atDots (octets text) = atDots text := by
  rw [atDots_eq, atDots_eq, atMarks_octets (by simp)]

/-! ## Quoted texts and keys -/

/-- The bytes that a backslash leaves of a character neither close a quoted text nor escape. -/
theorem quotedLength_wide_append {oneLine : Bool} {quote : Char} (hquote : quote.toNat < 128)
    {more : Text} (hmore : ∀ x ∈ more, IsWide x) (text : Text) :
    quotedLength oneLine quote (more ++ text) =
      (quotedLength oneLine quote text).map (more.length + ·) := by
  induction more with
  | nil => simp
  | cons c more ih =>
      rw [List.forall_mem_cons] at hmore
      have hc := hmore.1
      rw [List.cons_append, quotedLength_other (hc.ne quote hquote) (by simp [hc.beq])
        (by simp [hc.beq]), ih hmore.2, Option.map_map]
      congr 1
      funext n
      simp only [Function.comp_apply, List.length_cons]
      omega

/-- A quoted text closes at the same place, whether characters or bytes are walked. -/
theorem quotedLength_octets {oneLine : Bool} {quote : Char} (hquote : quote = '"' ∨ quote = '\'')
    (text : Text) :
    quotedLength oneLine quote (octets text) =
      (quotedLength oneLine quote text).map fun n => size (text.take n) := by
  have hnarrow : quote.toNat < 128 := by rcases hquote with rfl | rfl <;> decide
  have hbreak : quote ≠ '\n' := by rcases hquote with rfl | rfl <;> decide
  -- a character that neither closes nor escapes counts with all of its bytes
  have hother : ∀ {c : Char} {rest : Text}, c ≠ quote → (c == '\\' && quote == '"') = false →
      (oneLine && c == '\n') = false →
      quotedLength oneLine quote (octets (c :: rest)) =
        (quotedLength oneLine quote (octets rest)).map (c.utf8Size + ·) := by
    intro c rest hne hescape hline
    rcases octets_cons c rest with ⟨hsize, h⟩ | ⟨-, d, more, h, hsize, hd, hmore⟩
    · rw [h, quotedLength_other hne hescape hline, hsize]
      simp only [Nat.add_comm 1]
    · rw [h, ← List.cons_append, hsize,
        quotedLength_wide_append hnarrow (List.forall_mem_cons.mpr ⟨hd, hmore⟩), List.length_cons]
  fun_induction quotedLength oneLine quote text with
  | case1 => rfl
  | case2 c hc =>
      obtain rfl : c = quote := eq_of_beq hc
      rw [octets_narrow hnarrow]
      simp [quotedLength]
  | case3 c hc =>
      rcases octets_cons c [] with ⟨-, h⟩ | ⟨-, d, more, h, -, hd, hmore⟩
      · rw [h, octets_nil, quotedLength, if_neg hc]
        rfl
      · rw [h, ← List.cons_append,
          quotedLength_wide_append hnarrow (List.forall_mem_cons.mpr ⟨hd, hmore⟩)]
        rfl
  | case4 c d rest hline =>
      rw [Bool.and_eq_true, beq_iff_eq] at hline
      obtain ⟨rfl, rfl⟩ := hline
      rw [octets_narrow (by decide), quotedLength_newline hbreak]
      rfl
  | case5 c d rest hline hpair ih =>
      have hmark : c = '\\' ∨ c = '\'' := by grind
      have hc : c ≠ '\n' := by rcases hmark with rfl | rfl <;> decide
      have hsize : c.utf8Size = 1 := by rcases hmark with rfl | rfl <;> rfl
      have hcons : octets (c :: d :: rest) = c :: octets (d :: rest) :=
        octets_narrow (by rcases hmark with rfl | rfl <;> decide) _
      rcases octets_cons d rest with ⟨hd, h⟩ | ⟨hwide, e, more, h, hd, he, hmore⟩
      · rw [hcons, h, quotedLength_pair hc hpair, ih, Option.map_map, Option.map_map]
        congr 1
        funext n
        simp only [Function.comp_apply, List.take_succ_cons, size_cons, hsize, hd]
        omega
      · -- the backslash takes the first byte only, and the others are walked
        have hescape : ((c == '\\' && quote == '"') ||
            (c == '\'' && quote == '\'' && e == '\'')) = true := by
          rw [hwide.beq '\'' (by decide), Bool.and_false, Bool.or_false] at hpair
          rw [hpair, Bool.true_or]
        rw [hcons, h, quotedLength_pair hc hescape, quotedLength_wide_append hnarrow hmore, ih,
          Option.map_map, Option.map_map, Option.map_map]
        congr 1
        funext n
        simp only [Function.comp_apply, List.take_succ_cons, size_cons, hsize, hd]
        omega
  | case6 c d rest hline hpair hc =>
      obtain rfl : c = quote := eq_of_beq hc
      have hcons : octets (c :: d :: rest) = c :: octets (d :: rest) := octets_narrow hnarrow _
      rcases octets_cons d rest with ⟨-, h⟩ | ⟨-, e, more, h, -, he, -⟩
      · rw [hcons, h, quotedLength_close hbreak (by grind)]
        rfl
      · rw [hcons, h, quotedLength_close hbreak (by rw [he.beq '\'' (by decide), Bool.and_false])]
        rfl
  | case7 c d rest hline hpair hc ih =>
      rw [hother (by simpa using hc) (by grind) (by simpa using hline), ih, Option.map_map,
        Option.map_map]
      congr 1
      funext n
      simp

theorem plainKeyCloses_wide {c : Char} (hc : IsWide c) (rest : Text) :
    plainKeyCloses (c :: rest) = plainKeyCloses rest := by
  simp [plainKeyCloses, atComment, isBlank, hc.beq]

theorem plainKeyCloses_wide_append {more : Text} (hmore : ∀ x ∈ more, IsWide x) (text : Text) :
    plainKeyCloses (more ++ text) = plainKeyCloses text := by
  induction more with
  | nil => rfl
  | cons c more ih =>
      rw [List.forall_mem_cons] at hmore
      rw [List.cons_append, plainKeyCloses_wide hmore.1, ih hmore.2]

theorem plainKeyCloses_octets (text : Text) :
    plainKeyCloses (octets text) = plainKeyCloses text := by
  induction text with
  | nil => rfl
  | cons c rest ih =>
      rcases octets_cons c rest with ⟨-, h⟩ | ⟨hc, d, more, h, -, hd, hmore⟩
      · rw [h, plainKeyCloses, plainKeyCloses, atComment, atComment, atBreak_octets,
          head?_octets (by decide), ih]
      · rw [h, plainKeyCloses_wide hd, plainKeyCloses_wide_append hmore, ih, plainKeyCloses_wide hc]

theorem size_take_succ {text tail : Text} {n : Nat} {c : Char} (h : text.drop n = c :: tail) :
    size (text.take (n + 1)) = size (text.take n) + c.utf8Size := by
  rw [List.take_add, h, size_append]
  simp

theorem atBareKey_octets (text : Text) : atBareKey (octets text) = atBareKey text := by
  cases text with
  | nil => rfl
  | cons c rest =>
      have hdash := atDash_octets (c :: rest)
      have hcloses := plainKeyCloses_octets (c :: rest)
      rcases octets_cons c rest with ⟨-, h⟩ | ⟨hc, d, more, h, -, hd, -⟩
      · rw [h] at hdash hcloses ⊢
        by_cases hquote : (c == '"' || c == '\'') = true
        · have hmark : c = '"' ∨ c = '\'' := by simpa using hquote
          have hsize : c.utf8Size = 1 := by rcases hmark with rfl | rfl <;> rfl
          rw [atBareKey, atBareKey, if_pos hquote, if_pos hquote, quotedLength_octets hmark]
          cases hlength : quotedLength true c rest with
          | none => rfl
          | some n =>
              obtain ⟨tail, htail⟩ := drop_quotedLength hlength
              have hdrop : (octets rest).drop (size (rest.take n) + 1) =
                  octets (rest.drop (n + 1)) := by
                rw [← drop_octets, size_take_succ htail, hsize]
              show atColon (((octets rest).drop (size (rest.take n) + 1)).dropWhile isBlank) = _
              rw [hdrop, dropWhile_octets isBlank_wide, atColon_octets]
        · rw [atBareKey, atBareKey, if_neg hquote, if_neg hquote, hdash, hcloses, atBreak_octets]
      · rw [h] at hdash hcloses ⊢
        rw [atBareKey, atBareKey, hdash, hcloses]
        simp [hc.beq, hd.beq]

theorem nameLength_octets (text : Text) :
    nameLength (octets text) = size (text.take (nameLength text)) := by
  unfold nameLength
  rw [runLength_eq_span_of_tight, runLength_eq_span_of_tight]
  apply span_octets
  constructor
  · intro c rest hc
    simp [isFlowIndicator, hc.beq]
  · intro c rest
    rfl

/-- A key is seen in the bytes of a text where it is seen in the text. -/
theorem atKey_octets (text : Text) : atKey (octets text) = atKey text := by
  cases text with
  | nil => rfl
  | cons c rest =>
      by_cases hanchor : c = '&'
      · subst hanchor
        rw [octets_narrow (by decide)]
        show atBareKey (((octets rest).drop (nameLength (octets rest))).dropWhile isBlank) = _
        rw [nameLength_octets, drop_octets,
          dropWhile_octets isBlank_wide, atBareKey_octets]
        rfl
      · have hbare := atBareKey_octets (c :: rest)
        rcases octets_cons c rest with ⟨-, h⟩ | ⟨hc, d, more, h, -, hd, -⟩
        · rw [h] at hbare ⊢
          rwa [atKey_cons hanchor, atKey_cons hanchor]
        · rw [h] at hbare ⊢
          rwa [atKey_cons (hd.ne '&' (by decide)), atKey_cons hanchor]

/-! ## What a node starts with -/

theorem opening_octets (text : Text) : opening (octets text) = opening text := by
  cases text with
  | nil => rfl
  | cons c rest =>
      have hkey := atKey_octets (c :: rest)
      have hdash := atDash_octets (c :: rest)
      rcases octets_cons c rest with ⟨-, h⟩ | ⟨hc, d, more, h, -, hd, -⟩
      · rw [h] at hkey hdash ⊢
        simp only [opening, hkey, hdash, atBreak_octets]
      · rw [h] at hkey hdash ⊢
        simp only [opening, hkey, hdash]
        simp [hc.beq, hd.beq]

theorem flowOpening_octets (text : Text) : flowOpening (octets text) = flowOpening text := by
  cases text with
  | nil => rfl
  | cons c rest =>
      rcases octets_cons c rest with ⟨-, h⟩ | ⟨hc, d, more, h, -, hd, -⟩
      · rw [h]
        rfl
      · rw [h]
        simp [flowOpening, hc.beq, hd.beq]

end Lookahead

end LosslessYaml
