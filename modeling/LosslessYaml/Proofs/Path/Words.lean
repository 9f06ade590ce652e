import LosslessYaml.Proofs.Path.Language

/-!
# Indices and slices in words

The numbers of a path are signed words of 64 bits, and a sequence has at most as many items as an
unsigned word can count.  `Segment.selects` compares them as integers.  A machine compares words: it
takes the bits of a signed word for an unsigned one, negates them, and subtracts, each time modulo
`2 ^ 64`.  Such an operation *wraps* if its result has another value than in the integers.

This file has the comparison in words.  Its operations are checked: each one fails if it wraps.
Modulo `2 ^ 64` all of them are right, so an operation that does not fail has the right value, and
it fails only if no word has that value (`Word.checked_eq_ok_iff`).  Every number that comes up for
an index or a slice is a value of a word, also at the least signed word, whose negative is no signed
word any more.

Main statement: `Segment.selects_without_wrap`.
-/

namespace LosslessYaml

/-! ## Operations on words -/

/-- An operation on words that wraps. -/
inductive Wrap where
  /-- A signed word is taken for an unsigned one. -/
  | conversion (n : Int64)
  /-- The negative of a signed word is taken for an unsigned one. -/
  | negation (n : Int64)
  /-- An unsigned word is subtracted from another. -/
  | subtraction (a b : UInt64)
deriving Repr, DecidableEq

namespace Word

/-- The word that an operation results in, which is to have the given value. -/
def checked (word : UInt64) (value : Int) (wrap : Wrap) : Except Wrap UInt64 :=
  if (word.toNat : Int) = value then .ok word else .error wrap

/-- The bits of a signed word, without a sign. -/
def ofSigned (n : Int64) : Except Wrap UInt64 := checked n.toUInt64 n.toInt (.conversion n)

/-- The bits of the negative of a signed word, without a sign. -/
def negative (n : Int64) : Except Wrap UInt64 := checked (-n).toUInt64 (-n.toInt) (.negation n)

/-- The absolute value of a signed word. -/
def magnitude (n : Int64) : Except Wrap UInt64 := if n < 0 then negative n else ofSigned n

def subtract (a b : UInt64) : Except Wrap UInt64 :=
  checked (a - b) (a.toNat - b.toNat) (.subtraction a b)

/-- The difference of two words, if it is one. -/
def subtract? (a b : UInt64) : Except Wrap (Option UInt64) :=
  if a < b then .ok none else some <$> subtract a b

/-- The difference of two words, or zero if it would be below. -/
def subtractOrZero (a b : UInt64) : Except Wrap UInt64 := if a < b then .ok 0 else subtract a b

theorem size_eq : (UInt64.size : Int) = 18446744073709551616 := rfl

/-- A result that is right modulo `2 ^ 64` passes the check if any word does. -/
theorem checked_eq_ok_iff {word result : UInt64} {value : Int} {wrap : Wrap}
    (hword : (word.toNat : Int) = value % UInt64.size) :
    checked word value wrap = .ok result ↔ (result.toNat : Int) = value := by
  have hresult := result.toNat_lt
  rw [checked]
  split
  next hvalue =>
    rw [Except.ok.injEq, ← hvalue, Int.natCast_inj, UInt64.toNat_inj, eq_comm]
  next hvalue =>
    -- the value of a word is its own remainder
    refine iff_of_false nofun fun hright => hvalue ?_
    rw [hword, size_eq]
    omega

theorem toNat_toUInt64 (n : Int64) : (n.toUInt64.toNat : Int) = n.toInt % UInt64.size := by
  have hbits := n.toBitVec.isLt
  rw [← Int64.toNat_toBitVec, ← Int64.toInt_toBitVec, BitVec.toInt_eq_toNat_cond, size_eq]
  split <;> omega

theorem ofSigned_eq_ok_iff {n : Int64} {result : UInt64} :
    ofSigned n = .ok result ↔ (result.toNat : Int) = n.toInt :=
  checked_eq_ok_iff (toNat_toUInt64 n)

theorem negative_eq_ok_iff {n : Int64} {result : UInt64} :
    negative n = .ok result ↔ (result.toNat : Int) = -n.toInt := by
  refine checked_eq_ok_iff ?_
  -- in signed words the negative is already a remainder, if one around zero
  rw [toNat_toUInt64, Int64.toInt_neg]
  exact Int.bmod_emod

theorem subtract_eq_ok_iff {a b result : UInt64} :
    subtract a b = .ok result ↔ (result.toNat : Int) = a.toNat - b.toNat := by
  refine checked_eq_ok_iff ?_
  have hb := b.toNat_lt
  rw [UInt64.toNat_sub, size_eq]
  omega

example : ofSigned (-1) = .error (.conversion (-1)) := rfl

example : negative 1 = .error (.negation 1) := rfl

example : subtract 2 3 = .error (.subtraction 2 3) := rfl

/-! ### Results that are words -/

/-- An operation that fails only if no word has its value does not fail below `2 ^ 64`. -/
theorem exists_word {run : Except Wrap UInt64} {value : Int}
    (hrun : ∀ {result : UInt64}, run = .ok result ↔ (result.toNat : Int) = value)
    (hnonneg : 0 ≤ value) (hlt : value < UInt64.size) :
    ∃ word, run = .ok word ∧ (word.toNat : Int) = value := by
  have hvalue : (UInt64.ofNat value.toNat).toNat = value.toNat :=
    UInt64.toNat_ofNat_of_lt' (by omega)
  have hword : ((UInt64.ofNat value.toNat).toNat : Int) = value := by omega
  exact ⟨UInt64.ofNat value.toNat, hrun.mpr hword, hword⟩

theorem exists_ofSigned {n : Int64} (h : 0 ≤ n.toInt) :
    ∃ word, ofSigned n = .ok word ∧ word.toNat = n.toInt.toNat := by
  have hgreatest := n.toInt_lt
  obtain ⟨word, hof, hword⟩ := exists_word ofSigned_eq_ok_iff h (by rw [size_eq]; omega)
  exact ⟨word, hof, by omega⟩

/-- The least signed word has a magnitude too: its negative is `2 ^ 63`. -/
theorem exists_magnitude (n : Int64) :
    ∃ word, magnitude n = .ok word ∧ word.toNat = n.toInt.natAbs := by
  rw [magnitude]
  split
  next hneg =>
    have hneg : n.toInt < 0 := Int64.lt_iff_toInt_lt.mp hneg
    have hleast := n.le_toInt
    obtain ⟨word, hnegative, hword⟩ :=
      exists_word (negative_eq_ok_iff (n := n)) (by omega) (by rw [size_eq]; omega)
    exact ⟨word, hnegative, by omega⟩
  next hneg =>
    have hn : 0 ≤ n.toInt := Int.not_lt.mp fun h => hneg (Int64.lt_iff_toInt_lt.mpr h)
    obtain ⟨word, hof, hword⟩ := exists_ofSigned hn
    exact ⟨word, hof, by omega⟩

theorem exists_subtract {a b : UInt64} (h : b ≤ a) :
    ∃ word, subtract a b = .ok word ∧ word.toNat = a.toNat - b.toNat := by
  have hle := UInt64.le_iff_toNat_le.mp h
  have ha := a.toNat_lt
  obtain ⟨word, hsubtract, hword⟩ :=
    exists_word (subtract_eq_ok_iff (a := a) (b := b)) (by omega) (by rw [size_eq]; omega)
  exact ⟨word, hsubtract, by omega⟩

theorem exists_subtract? (a b : UInt64) :
    ∃ result, subtract? a b = .ok result ∧
      result.map UInt64.toNat = if b.toNat ≤ a.toNat then some (a.toNat - b.toNat) else none := by
  rw [subtract?]
  split
  next hlt =>
    rw [if_neg (Nat.not_le.mpr (UInt64.lt_iff_toNat_lt.mp hlt))]
    exact ⟨none, rfl, rfl⟩
  next hlt =>
    have hle := UInt64.not_lt.mp hlt
    obtain ⟨word, hsubtract, hword⟩ := exists_subtract hle
    rw [if_pos (UInt64.le_iff_toNat_le.mp hle), hsubtract, ← hword]
    exact ⟨some word, rfl, rfl⟩

theorem exists_subtractOrZero (a b : UInt64) :
    ∃ word, subtractOrZero a b = .ok word ∧ word.toNat = a.toNat - b.toNat := by
  rw [subtractOrZero]
  split
  next hlt =>
    have hzero := Nat.sub_eq_zero_of_le (Nat.le_of_lt (UInt64.lt_iff_toNat_lt.mp hlt))
    exact ⟨0, rfl, hzero.symm⟩
  next hlt => exact exists_subtract (UInt64.not_lt.mp hlt)

theorem toNat_min (a b : UInt64) : (min a b).toNat = min a.toNat b.toNat := by
  change (if a ≤ b then a else b).toNat = _
  split
  next hle => exact (Nat.min_eq_left (UInt64.le_iff_toNat_le.mp hle)).symm
  next hle =>
    exact (Nat.min_eq_right (Nat.le_of_not_le fun h => hle (UInt64.le_iff_toNat_le.mpr h))).symm

end Word

/-! ## Selection in words -/

namespace Segment

open Word

/-- The item that an index means in a sequence of the given length. -/
def resolveWord (n : Int64) (length : UInt64) : Except Wrap (Option UInt64) :=
  if 0 ≤ n then some <$> ofSigned n
  else do
    let size ← magnitude n
    subtract? length size

/-- The bound that an index means in a slice of a sequence of the given length. -/
def clampWord (n : Int64) (length : UInt64) : Except Wrap UInt64 :=
  if 0 ≤ n then (min · length) <$> ofSigned n
  else do
    let size ← magnitude n
    subtractOrZero length size

/-- Whether the segment selects an item of a sequence of the given length. -/
def selectsWord (segment : Segment) (index length : UInt64) : Except Wrap Bool :=
  match segment with
  | .wildcard => .ok true
  | .index n => do
    let item ← resolveWord n length
    return item == some index
  | .slice start stop => do
    let first ← start.elim (.ok 0) (clampWord · length)
    let past ← stop.elim (.ok length) (clampWord · length)
    return first ≤ index && index < past
  | _ => .ok false

theorem nonneg_iff {n : Int64} : 0 ≤ n ↔ 0 ≤ n.toInt := Int64.le_iff_toInt_le

theorem exists_resolveWord (n : Int64) (length : UInt64) :
    ∃ item, resolveWord n length = .ok item ∧
      item.map UInt64.toNat = resolve n length.toNat := by
  rw [resolveWord, resolve]
  by_cases hn : 0 ≤ n.toInt
  · obtain ⟨word, hof, hword⟩ := exists_ofSigned hn
    rw [if_pos (nonneg_iff.mpr hn), if_pos hn, hof, ← hword]
    exact ⟨some word, rfl, rfl⟩
  · obtain ⟨size, hmagnitude, hsize⟩ := exists_magnitude n
    obtain ⟨item, hsubtract, hitem⟩ := exists_subtract? length size
    rw [if_neg fun h => hn (nonneg_iff.mp h), if_neg hn, hmagnitude, ← hsize]
    exact ⟨item, hsubtract, hitem⟩

theorem exists_clampWord (n : Int64) (length : UInt64) :
    ∃ word, clampWord n length = .ok word ∧ word.toNat = clamp n length.toNat := by
  rw [clampWord, clamp]
  by_cases hn : 0 ≤ n.toInt
  · obtain ⟨word, hof, hword⟩ := exists_ofSigned hn
    rw [if_pos (nonneg_iff.mpr hn), if_pos hn, hof, ← hword]
    exact ⟨min word length, rfl, toNat_min word length⟩
  · obtain ⟨size, hmagnitude, hsize⟩ := exists_magnitude n
    obtain ⟨word, hsubtract, hword⟩ := exists_subtractOrZero length size
    rw [if_neg fun h => hn (nonneg_iff.mp h), if_neg hn, hmagnitude, ← hsize]
    exact ⟨word, hsubtract, hword⟩

/-- A bound of a slice that may be absent. -/
theorem exists_bound (bound : Option Int64) (absent length : UInt64) :
    ∃ word, bound.elim (.ok absent) (clampWord · length) = .ok word ∧
      word.toNat = bound.elim absent.toNat (clamp · length.toNat) := by
  cases bound with
  | none => exact ⟨absent, rfl, rfl⟩
  | some n => exact exists_clampWord n length

/-- Whether a segment selects an item is found in words as in the integers, and no operation wraps.
-/
theorem selectsWord_eq (segment : Segment) (index length : UInt64) :
    segment.selectsWord index length =
      .ok (segment.selects (.item index.toNat length.toNat)) := by
  cases segment with
  | wildcard => rfl
  | child name => rfl
  | anyOf names => rfl
  | descent => rfl
  | index n =>
      obtain ⟨item, hresolve, hitem⟩ := exists_resolveWord n length
      have hsame : item = some index ↔ resolve n length.toNat = some index.toNat := by
        rw [← hitem]
        cases item with
        | none => simp
        | some word => simp [UInt64.toNat_inj]
      rw [selectsWord, selects, hresolve]
      refine congrArg Except.ok ?_
      rw [Bool.eq_iff_iff, beq_iff_eq, beq_iff_eq, hsame]
  | slice start stop =>
      obtain ⟨first, hstart, hfirst⟩ := exists_bound start 0 length
      obtain ⟨past, hstop, hpast⟩ := exists_bound stop length length
      rw [UInt64.toNat_zero] at hfirst
      rw [selectsWord, selects, hstart, hstop, ← hfirst, ← hpast]
      rfl

/-! ## The items of an index and of a slice -/

/-- The first place of a slice, which may lie behind the end of the sequence. -/
def sliceStart (length : Nat) : Option Int64 → Int
  | none => 0
  | some a => if a.toInt < 0 then max 0 (length + a.toInt) else a.toInt

/-- The place behind the last one of a slice. -/
def sliceStop (length : Nat) : Option Int64 → Int
  | none => length
  | some b => if b.toInt < 0 then max 0 (length + b.toInt) else min b.toInt length

section Items

variable {i length : Nat}

theorem sliceStart_le_iff {start : Option Int64} :
    sliceStart length start ≤ i ↔ ∀ n ∈ start, place n length ≤ i := by
  cases start with
  | none => simp [sliceStart]
  | some n =>
      simp only [sliceStart, place, Option.mem_some_iff, forall_eq']
      split <;> omega

theorem lt_sliceStop_iff {stop : Option Int64} :
    i < sliceStop length stop ↔ i < length ∧ ∀ n ∈ stop, i < place n length := by
  cases stop with
  | none => simp [sliceStop]
  | some n =>
      simp only [sliceStop, place, Option.mem_some_iff, forall_eq']
      split <;> omega

theorem eq_place_iff {n : Int64} (h : i < length) :
    (i : Int) = place n length ↔ n.toInt = i ∨ n.toInt = i - length := by
  rw [place]
  split <;> omega

end Items

/-- Counting in words is exact.  In a sequence of any length that is a word, an index selects the
item at its place, counted from the start or from the end, and a slice selects the items between
its bounds.  Every segment selects the same items in words, where each conversion, negation and
subtraction is checked for a wrap. -/
theorem selects_without_wrap (index length : UInt64) (hindex : index < length) :
    (∀ n : Int64, (Segment.index n).selects (.item index.toNat length.toNat) = true ↔
      n.toInt = index.toNat ∨ n.toInt = index.toNat - length.toNat) ∧
    (∀ start stop : Option Int64,
      (slice start stop).selects (.item index.toNat length.toNat) = true ↔
        sliceStart length.toNat start ≤ index.toNat ∧
          index.toNat < sliceStop length.toNat stop) ∧
    ∀ segment : Segment, segment.selectsWord index length =
      .ok (segment.selects (.item index.toNat length.toNat)) := by
  have hplace : index.toNat < length.toNat := UInt64.lt_iff_toNat_lt.mp hindex
  refine ⟨fun n => ?_, fun start stop => ?_, fun segment => selectsWord_eq segment index length⟩
  · rw [selects, beq_iff_eq, resolve_eq_some_iff, eq_place_iff hplace]
  · rw [slice_selects_iff, sliceStart_le_iff, lt_sliceStop_iff]
    exact and_left_comm

/-- In the longest sequence whose length is a word, the least signed word is the index of the item
in the middle.  A slice that starts there has that item, and a slice that stops there has not. -/
theorem selects_without_wrap_least :
    let index : UInt64 := 9223372036854775807
    let length : UInt64 := 18446744073709551615
    index < length ∧
      (Segment.index Int64.minValue).selects (.item index.toNat length.toNat) = true ∧
      (slice (some Int64.minValue) (some (-1))).selects (.item index.toNat length.toNat) = true ∧
      ¬ (slice none (some Int64.minValue)).selects (.item index.toNat length.toNat) = true ∧
      (Segment.index Int64.minValue).selectsWord index length = .ok true := by
  intro index length
  have hindex : index < length := by decide
  obtain ⟨hindices, hslices, hwords⟩ := selects_without_wrap index length hindex
  have hleast : (Segment.index Int64.minValue).selects (.item index.toNat length.toNat) = true :=
    (hindices _).mpr (.inr rfl)
  refine ⟨hindex, hleast, (hslices _ _).mpr (by decide), fun h => ?_, ?_⟩
  · exact absurd ((hslices _ _).mp h) (by decide)
  · rw [hwords, hleast]

end Segment
end LosslessYaml
