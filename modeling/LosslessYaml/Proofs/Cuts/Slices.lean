import LosslessYaml.Proofs.Cuts.Octets
import LosslessYaml.Proofs.Reading.Again
import LosslessYaml.Proofs.Reading.Failures

/-!
# Cutting a source by positions

A source can also be read by positions, numbers of bytes counted from its start, with its bytes at
hand and no other notion of a place.  A part of the source is then cut out of it between two
positions, and such a cut can go wrong: the positions may be out of order, lie past the end or lie
within a character.  `ByteSource.slice` makes a cut only if nothing of this is the case.

This file has the cuts that are made on the way to the next node, and the equations that tell what
they come to where a reader `Stands` in the source.
-/

namespace LosslessYaml

open Text Lookahead

/-! ## Searching for line breaks -/

/-- The bytes before the first line break. -/
def Text.firstBreak? : Text → Option Nat
  | [] => none
  | c :: rest => if c == '\n' then some 0 else (firstBreak? rest).map (c.utf8Size + ·)

/-- The bytes before the last line break. -/
def Text.lastBreak? : Text → Option Nat
  | [] => none
  | c :: rest =>
    match lastBreak? rest with
    | some n => some (c.utf8Size + n)
    | none => if c == '\n' then some 0 else none

theorem Text.firstBreak?_eq (text : Text) (start : Nat) :
    ((firstBreak? text).map (start + ·)).getD (start + size text) =
      start + size (text.take (lineLength text)) := by
  induction text generalizing start with
  | nil => rfl
  | cons c rest ih =>
      rw [firstBreak?]
      split
      next hc => simp [eq_of_beq hc, lineLength_newline]
      next hc =>
        have hrest := ih (start + c.utf8Size)
        rw [lineLength_cons (by simpa using hc), List.take_succ_cons, size_cons, size_cons,
          Option.map_map, ← Nat.add_assoc, ← Nat.add_assoc, ← hrest]
        congr 2
        funext n
        simp only [Function.comp_apply]
        omega

/-- The last line break of a text is the one with none behind it. -/
theorem Text.lastBreak?_cases (text : Text) :
    (lastBreak? text = none ∧ '\n' ∉ text) ∨
    ∃ earlier line, text = earlier ++ '\n' :: line ∧ '\n' ∉ line ∧
      lastBreak? text = some (size earlier) := by
  induction text with
  | nil => exact .inl ⟨rfl, List.not_mem_nil⟩
  | cons c rest ih =>
      rw [lastBreak?]
      rcases ih with ⟨hnone, hline⟩ | ⟨earlier, line, rfl, hline, hsome⟩
      · rw [hnone]
        by_cases hc : c = '\n'
        · exact .inr ⟨[], rest, by rw [hc]; rfl, hline, by simp [hc]⟩
        · refine .inl ⟨by simp [hc], ?_⟩
          rw [List.mem_cons, not_or]
          exact ⟨Ne.symm hc, hline⟩
      · rw [hsome]
        exact .inr ⟨c :: earlier, line, rfl, hline, by simp⟩

theorem Text.lastBreak?_append {mark : Text} (hmark : '\n' ∉ mark) (text : Text) :
    lastBreak? (mark ++ text) = (lastBreak? text).map (size mark + ·) := by
  induction mark with
  | nil => simp
  | cons c mark ih =>
      rw [List.mem_cons, not_or] at hmark
      rw [List.cons_append, lastBreak?, ih hmark.2]
      cases lastBreak? text with
      | none => simp [Ne.symm hmark.1]
      | some n => simp [Nat.add_assoc]

theorem Text.columnAfter_of_notMem {text : Text} (h : '\n' ∉ text) (column : Nat) :
    columnAfter column text = column + size text := by
  induction text generalizing column with
  | nil => rfl
  | cons c rest ih =>
      rw [List.mem_cons, not_or] at h
      rw [columnAfter, if_neg (by simpa using Ne.symm h.1), ih h.2, size_cons, Nat.add_assoc]

/-! ## Cuts -/

/-- Why reading by positions halts before its end. -/
inductive Halt where
  /-- The source cannot be read. -/
  | error (error : ParseError)
  /-- A part was to be cut out between positions that are out of order, past the end or within a
  character. -/
  | cut (start stop : Nat)
  /-- A position past the end was looked at as if a byte were there. -/
  | index (position : Nat)
  /-- A loop took more turns than there are bytes. -/
  | endless

abbrev Checked := Except Halt

/-- A source as its bytes, and how many of them are the byte order mark. -/
structure ByteSource where
  bytes : Bytes
  mark : Nat

namespace ByteSource

/-- The bytes of a source. -/
def ofText (source : Text) : ByteSource := ⟨source.toBytes, size (splitMark source).1⟩

def length (s : ByteSource) : Nat := s.bytes.length

/-- The bytes from a position on, each taken for a character. -/
def view (s : ByteSource) (position : Nat) : Text := (s.bytes.drop position).map Char.ofUInt8

/-- Whether a character starts at the position, or the source ends there. -/
def isBoundary (s : ByteSource) (position : Nat) : Bool :=
  position == 0 || position == s.length || (s.bytes[position]?).any fun b => b < 128 || 192 ≤ b

/-- The text between two positions. -/
def slice (s : ByteSource) (start stop : Nat) : Checked Text :=
  if start ≤ stop && stop ≤ s.length && s.isBoundary start && s.isBoundary stop then
    match Bytes.toText? ((s.bytes.take stop).drop start) with
    | some text => .ok text
    | none => .error (.cut start stop)
  else .error (.cut start stop)

theorem isBoundary_ofText {source before rest : Text} (h : source = before ++ rest) :
    (ofText source).isBoundary (size before) = true := by
  have hbytes : (ofText source).bytes = before.toBytes ++ rest.toBytes := by
    rw [h, ofText, toBytes_append]
  have hget : (ofText source).bytes[size before]? = rest.toBytes[0]? := by
    rw [hbytes, size, List.getElem?_append_right (Nat.le_refl _), Nat.sub_self]
  cases rest with
  | nil =>
      have hend : size before = (ofText source).length := by
        rw [length, hbytes]
        simp [toBytes, size]
      simp [isBoundary, hend]
  | cons c rest =>
      have hfirst : ∃ b, (toBytes (c :: rest))[0]? = some b ∧ (b.toNat < 128 ∨ 192 ≤ b.toNat) := by
        rw [toBytes, List.flatMap_cons]
        obtain ⟨first, more, hc, hfirst⟩ := utf8EncodeChar_cases c
        rw [hc]
        refine ⟨first, rfl, ?_⟩
        rcases hfirst with ⟨hsame, hsmall, -⟩ | ⟨-, hlarge, -⟩
        · exact .inl (by omega)
        · exact .inr hlarge
      obtain ⟨b, hb, hrange⟩ := hfirst
      have hstart : (decide (b < 128) || decide (192 ≤ b)) = true := by
        rw [Bool.or_eq_true, decide_eq_true_eq, decide_eq_true_eq, UInt8.lt_iff_toNat_lt,
          UInt8.le_iff_toNat_le]
        exact hrange
      rw [isBoundary, hget, hb]
      simp only [Option.any_some, hstart, Bool.or_true]

/-- A part of the source is cut out between the bytes before it and the bytes before the rest. -/
theorem slice_ofText {source before text rest : Text} (h : source = before ++ (text ++ rest)) :
    (ofText source).slice (size before) (size before + size text) = .ok text := by
  have hstart := isBoundary_ofText h
  have hstop : (ofText source).isBoundary (size before + size text) = true := by
    rw [← size_append]
    exact isBoundary_ofText (by rw [h, List.append_assoc])
  have hbytes : (ofText source).bytes = before.toBytes ++ (text.toBytes ++ rest.toBytes) := by
    rw [h, ofText, toBytes_append, toBytes_append]
  have hlength : size before + size text ≤ (ofText source).length := by
    rw [length, hbytes, List.length_append, List.length_append, size, size]
    omega
  have hcut : ((ofText source).bytes.take (size before + size text)).drop (size before) =
      text.toBytes := by
    rw [hbytes, List.drop_take, Nat.add_sub_cancel_left, size, size, List.drop_left]
    exact List.take_left
  rw [slice, hstart, hstop, hcut, Bytes.toText?_toBytes]
  simp [hlength]

/-- A byte that starts a character stands behind whole characters. -/
theorem exists_append_of_getElem? {text : Text} {n : Nat} {b : UInt8}
    (hb : text.toBytes[n]? = some b) (hstart : b.toNat < 128 ∨ 192 ≤ b.toNat) :
    ∃ before after, text = before ++ after ∧ n = size before := by
  induction text generalizing n with
  | nil => cases hb
  | cons c rest ih =>
      obtain ⟨first, more, hc, hcases⟩ := utf8EncodeChar_cases c
      have hsize : c.utf8Size = more.length + 1 := by
        rw [← String.length_utf8EncodeChar, hc, List.length_cons]
      have hmore : ∀ x ∈ more, 128 ≤ x.toNat ∧ x.toNat < 192 := by
        rcases hcases with ⟨-, -, rfl⟩ | ⟨-, -, hmore⟩
        · intro x hx
          cases hx
        · exact hmore
      have hbytes : toBytes (c :: rest) = first :: (more ++ toBytes rest) := by
        rw [toBytes, List.flatMap_cons, hc]
        rfl
      cases n with
      | zero => exact ⟨[], c :: rest, rfl, rfl⟩
      | succ n =>
          rw [hbytes, List.getElem?_cons_succ] at hb
          by_cases hn : n < more.length
          · rw [List.getElem?_append_left hn] at hb
            have hinner := hmore b (List.mem_of_getElem? hb)
            omega
          · rw [List.getElem?_append_right (Nat.not_lt.mp hn)] at hb
            obtain ⟨before, after, rfl, hbefore⟩ := ih hb
            refine ⟨c :: before, after, rfl, ?_⟩
            rw [size_cons, hsize, ← hbefore]
            omega

theorem exists_append_of_isBoundary {source : Text} {n : Nat}
    (h : (ofText source).isBoundary n = true) :
    ∃ before after, source = before ++ after ∧ n = size before := by
  rw [isBoundary, Bool.or_eq_true, Bool.or_eq_true, beq_iff_eq, beq_iff_eq] at h
  rcases h with (rfl | rfl) | hbyte
  · exact ⟨[], source, rfl, rfl⟩
  · exact ⟨source, [], (List.append_nil _).symm, rfl⟩
  · obtain ⟨b, hb, hstart⟩ := (Option.any_eq_true _ _).mp hbyte
    rw [Bool.or_eq_true, decide_eq_true_eq, decide_eq_true_eq, UInt8.lt_iff_toNat_lt,
      UInt8.le_iff_toNat_le] at hstart
    exact exists_append_of_getElem? hb hstart

/-- A part can be cut out of a source exactly between the places behind whole characters. -/
theorem slice_eq_ok {source text : Text} {start stop : Nat} :
    (ofText source).slice start stop = .ok text ↔
      ∃ before after, source = before ++ (text ++ after) ∧ start = size before ∧
        stop = size before + size text := by
  constructor
  · intro h
    have hcut := h
    rw [slice] at hcut
    split at hcut
    next hcheck =>
      rw [Bool.and_eq_true, Bool.and_eq_true, Bool.and_eq_true, decide_eq_true_eq] at hcheck
      obtain ⟨before, after, hsource, rfl⟩ := exists_append_of_isBoundary hcheck.1.2
      obtain ⟨whole, rest, hwhole, rfl⟩ := exists_append_of_isBoundary hcheck.2
      have hprefix : before <+: whole := by
        rcases List.prefix_or_prefix_of_prefix ⟨after, hsource.symm⟩ ⟨rest, hwhole.symm⟩ with
          hprefix | ⟨extra, rfl⟩
        · exact hprefix
        · have hle := hcheck.1.1.1
          have hextra := length_le_size extra
          rw [size_append] at hle
          have hnil : extra = [] := List.length_eq_zero_iff.mp (by omega)
          exact ⟨[], by simp [hnil]⟩
      obtain ⟨part, rfl⟩ := hprefix
      rw [List.append_assoc] at hwhole
      rw [size_append, slice_ofText hwhole] at h
      obtain rfl := Except.ok.inj h
      exact ⟨before, rest, hwhole, rfl, size_append _ _⟩
    next => cases hcut
  · intro h
    obtain ⟨before, after, hsource, rfl, rfl⟩ := h
    exact slice_ofText hsource

example : (ofText "aé".toList).slice 0 2 = .error (.cut 0 2) := rfl

end ByteSource

/-! ## Readers and positions -/

namespace Reader

/-- The reader stands somewhere in the source, behind its byte order mark. -/
def Stands (source : Text) (r : Reader) : Prop :=
  ∃ before, (splitMark source).2 = before ++ r.rest ∧ r.column = columnAfter 0 before

/-- The bytes of the source before the place of the reader. -/
def position (source : Text) (r : Reader) : Nat := size source - size r.rest

variable {source : Text} {r after : Reader}

theorem stands_start (source : Text) : Stands source { rest := (splitMark source).2 } :=
  ⟨[], rfl, rfl⟩

theorem Stands.keeps {text : Text} (h : Stands source r) (hkeeps : Keeps r text after) :
    Stands source after := by
  obtain ⟨before, hbody, hcolumn⟩ := h
  obtain ⟨read, -, hrest, hafter, -⟩ := hkeeps
  refine ⟨before ++ read, ?_, ?_⟩
  · rw [hbody, hrest, List.append_assoc]
  · rw [hafter, hcolumn, columnAfter_append]

theorem Stands.skip (h : Stands source r) (n : Nat) : Stands source (r.skip n) :=
  h.keeps (.skip r n)

theorem Stands.afterTrivia (h : Stands source r) : Stands source r.afterTrivia := h.skip _

theorem Stands.afterBlanks (h : Stands source r) : Stands source r.afterBlanks := h.skip _

theorem source_eq {body : Text} (hbody : (splitMark source).2 = body ++ r.rest) :
    source = ((splitMark source).1 ++ body) ++ r.rest := by
  rw [List.append_assoc, ← hbody, splitMark_append]

theorem position_eq {body : Text} (hbody : (splitMark source).2 = body ++ r.rest) :
    position source r = size ((splitMark source).1 ++ body) := by
  have hsize := congrArg size (source_eq hbody)
  rw [size_append] at hsize
  rw [position, hsize, Nat.add_sub_cancel]

theorem Stands.append (h : Stands source r) :
    ∃ before, source = before ++ r.rest ∧ position source r = size before := by
  obtain ⟨body, hbody, -⟩ := h
  exact ⟨_, source_eq hbody, position_eq hbody⟩

theorem position_skip (h : Stands source r) (n : Nat) :
    position source (r.skip n) = position source r + size (r.taken n) := by
  obtain ⟨before, hsource, hposition⟩ := h.append
  have hsize : size source = size before + (size (r.taken n) + size (r.skip n).rest) := by
    rw [← size_append, taken, skip, List.take_append_drop, ← size_append, ← hsource]
  rw [hposition, position, hsize]
  omega

theorem position_skip_one {c : Char} {tail : Text} (h : Stands source r)
    (hrest : r.rest = c :: tail) (hc : c.toNat < 128) :
    position source (r.skip 1) = position source r + 1 := by
  have hsize : c.utf8Size = 1 := by
    rcases octets_cons c tail with ⟨hsize, -⟩ | ⟨hwide, -⟩
    · exact hsize
    · exact absurd rfl (hwide.ne c hc)
  rw [position_skip h, taken, hrest]
  simp [hsize]

theorem position_skip_takeWhile {p : Char → Bool} (hp : ∀ c, IsWide c → p c = false)
    (h : Stands source r) : position source (r.skip (r.rest.takeWhile p).length) =
      position source r + (r.rest.takeWhile p).length := by
  rw [position_skip h, taken, ← List.prefix_iff_eq_take.mp (List.takeWhile_prefix _),
    size_takeWhile hp]

end Reader

namespace ByteSource

open Reader

variable {source : Text} {r : Reader}

theorem view_position (h : Stands source r) :
    (ofText source).view (position source r) = octets r.rest := by
  obtain ⟨before, hsource, hposition⟩ := h.append
  have hbytes : (ofText source).bytes = before.toBytes ++ r.rest.toBytes := by
    rw [ofText, ← toBytes_append, ← hsource]
  rw [view, hposition, hbytes, size, List.drop_left]
  rfl

theorem length_ofText (h : Stands source r) :
    (ofText source).length = position source r + size r.rest := by
  obtain ⟨before, hsource, hposition⟩ := h.append
  calc (ofText source).length = size source := rfl
    _ = size before + size r.rest := by rw [← size_append, ← hsource]
    _ = position source r + size r.rest := by rw [hposition]

theorem position_le_length (h : Stands source r) :
    position source r ≤ (ofText source).length := by
  rw [length_ofText h]
  exact Nat.le_add_right _ _

theorem position_beq_length (h : Stands source r) :
    (position source r == (ofText source).length) = r.rest.isEmpty := by
  rw [length_ofText h]
  cases hrest : r.rest with
  | nil => simp
  | cons c tail =>
      have hsize := c.utf8Size_pos
      rw [size_cons, List.isEmpty_cons, beq_eq_false_iff_ne]
      omega

/-- What a reader takes is cut out between its places. -/
theorem slice_position (h : Stands source r) (n : Nat) :
    (ofText source).slice (position source r) (position source (r.skip n)) = .ok (r.taken n) := by
  obtain ⟨before, hsource, hposition⟩ := h.append
  have hsplit : source = before ++ (r.taken n ++ (r.skip n).rest) := by
    rw [taken, skip, List.take_append_drop, ← hsource]
  rw [position_skip h, hposition]
  exact slice_ofText hsplit

theorem slice_trivia (h : Stands source r) :
    (ofText source).slice (position source r) (position source r.afterTrivia) = .ok r.trivia :=
  slice_position h _

/-! ## Lines, columns and errors -/

/-- The position of the end of the line. -/
def lineEnd (s : ByteSource) (start : Nat) : Checked Nat := do
  let text ← s.slice start s.length
  return ((firstBreak? text).map (start + ·)).getD s.length

/-- The bytes between the start of the line and the position. -/
def column (s : ByteSource) (position : Nat) : Checked Nat := do
  let before ← s.slice 0 position
  return position - ((lastBreak? before).map (· + 1)).getD s.mark

/-- An error at the position. -/
def errorAt {α : Type} (s : ByteSource) (position : Nat) (cause : Cause) : Checked α := do
  let stop := min position s.length
  let before ← s.slice 0 stop
  let line ← s.slice (min (((lastBreak? before).map (· + 1)).getD s.mark) stop) stop
  .error (.error ⟨⟨before.count '\n' + 1, line.length + 1⟩, cause⟩)

theorem ok_bind {α β : Type} (a : α) (f : α → Checked β) : ((.ok a : Checked α) >>= f) = f a := rfl

theorem lineEnd_position (h : Stands source r) :
    (ofText source).lineEnd (position source r) =
      .ok (position source (r.skip (lineLength r.rest))) := by
  have hcut := slice_position h r.rest.length
  have hend : position source (r.skip r.rest.length) = (ofText source).length := by
    rw [position_skip h, taken, List.take_length, length_ofText h]
  rw [hend, taken, List.take_length] at hcut
  rw [lineEnd, hcut, ok_bind, length_ofText h, firstBreak?_eq, position_skip h]
  rfl

theorem newline_notMem_mark (source : Text) : '\n' ∉ (splitMark source).1 := by
  rcases splitMark_cases source with h | ⟨h, -⟩
  · simp [h]
  · simp [h]

theorem slice_before {body : Text} (hbody : (splitMark source).2 = body ++ r.rest) :
    (ofText source).slice 0 (position source r) = .ok ((splitMark source).1 ++ body) := by
  have hcut := @slice_ofText source [] ((splitMark source).1 ++ body) r.rest (source_eq hbody)
  rwa [size_nil, Nat.zero_add, ← position_eq hbody] at hcut

/-- The line of a place starts behind the last line break, or behind the byte order mark. -/
theorem exists_line (source body : Text) :
    ∃ earlier line, body = earlier ++ line ∧
      (earlier = [] ∨ earlier.getLast? = some '\n') ∧ '\n' ∉ line ∧
      ((lastBreak? ((splitMark source).1 ++ body)).map (· + 1)).getD (ofText source).mark =
        size ((splitMark source).1 ++ earlier) := by
  rw [lastBreak?_append (newline_notMem_mark source)]
  rcases lastBreak?_cases body with ⟨hnone, hline⟩ | ⟨earlier, line, rfl, hline, hsome⟩
  · refine ⟨[], body, rfl, .inl rfl, hline, ?_⟩
    rw [hnone, List.append_nil]
    rfl
  · refine ⟨earlier ++ ['\n'], line, by simp, .inr (by simp), hline, ?_⟩
    rw [hsome]
    show size (splitMark source).1 + size earlier + 1 = _
    rw [size_append, size_append, Nat.add_assoc]
    rfl

theorem columnAfter_earlier {earlier : Text} (h : earlier = [] ∨ earlier.getLast? = some '\n') :
    columnAfter 0 earlier = 0 := by
  rcases h with rfl | hlast
  · rfl
  · obtain ⟨front, rfl⟩ := List.getLast?_eq_some_iff.mp hlast
    rw [columnAfter_append]
    rfl

theorem column_position (h : Stands source r) :
    (ofText source).column (position source r) = .ok r.column := by
  obtain ⟨body, hbody, hcolumn⟩ := h
  obtain ⟨earlier, line, rfl, hearlier, hline, hstart⟩ := exists_line source body
  have hposition : position source r = size ((splitMark source).1 ++ earlier) + size line := by
    rw [position_eq hbody, ← List.append_assoc, size_append]
  rw [column, slice_before hbody, ok_bind, hstart, hposition, Nat.add_sub_cancel_left, hcolumn,
    columnAfter_append, columnAfter_earlier hearlier, columnAfter_of_notMem hline, Nat.zero_add]
  rfl

/-- An error at the place of a reader is the failure of that reader. -/
theorem errorAt_position {α : Type} (h : Stands source r) (cause : Cause) :
    ((ofText source).errorAt (position source r) cause : Checked α) =
      .error (.error (Failure.locate (splitMark source).2 ⟨cause, r.rest⟩)) := by
  have hmin : min (position source r) (ofText source).length = position source r :=
    Nat.min_eq_left (position_le_length h)
  obtain ⟨body, hbody, -⟩ := h
  obtain ⟨earlier, line, rfl, hearlier, hline, hstart⟩ := exists_line source body
  have hposition : position source r = size ((splitMark source).1 ++ earlier) + size line := by
    rw [position_eq hbody, ← List.append_assoc, size_append]
  have hlineCut : (ofText source).slice (size ((splitMark source).1 ++ earlier))
      (position source r) = .ok line := by
    rw [hposition]
    refine @slice_ofText _ _ _ r.rest ?_
    rw [List.append_assoc, ← List.append_assoc earlier, ← hbody, splitMark_append]
  have hcount : ((splitMark source).1 ++ (earlier ++ line)).count '\n' = earlier.count '\n' := by
    rw [List.count_append, List.count_append,
      List.count_eq_zero.mpr (newline_notMem_mark source), List.count_eq_zero.mpr hline]
    omega
  have hlocation : Failure.locate (splitMark source).2 ⟨cause, r.rest⟩ =
      ⟨⟨earlier.count '\n' + 1, line.length + 1⟩, cause⟩ := by
    have hdenotes : (⟨earlier.count '\n' + 1, line.length + 1⟩ : Location).Denotes
        (earlier ++ line) := ⟨earlier, line, rfl, hearlier, hline, rfl, rfl⟩
    have hlocate := (@Failure.locate_denotes _ _ ⟨cause, r.rest⟩ hbody.symm).eq_after
    rw [← hdenotes.eq_after] at hlocate
    exact congrArg (fun location => (⟨location, cause⟩ : ParseError)) hlocate
  have hle : min (size ((splitMark source).1 ++ earlier)) (position source r) =
      size ((splitMark source).1 ++ earlier) := by
    rw [hposition]
    exact Nat.min_eq_left (Nat.le_add_right _ _)
  simp only [errorAt, hmin, slice_before hbody, ok_bind, hstart, hle, hlineCut, hcount, hlocation]

end ByteSource

end LosslessYaml
