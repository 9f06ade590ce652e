import LosslessYaml.Proofs.Cuts.Octets
import LosslessYaml.Proofs.Trace.Order

/-!
# Reading makes progress and ends

The reader, its loops and its nested calls all move forward.  What the record of a reading shows is
put together here with two facts that it does not show.

A scalar over several lines is found by looking ahead, line by line.  `extendSteps` is the record of
that loop: each line that is looked at starts behind the one before it, and a line that belongs to
the scalar makes it longer.

The reader recurses on a bound, which it never meets if it is given four calls for each character
and four more.  With a larger bound the record is the same, event for event, so that the bound has
no part in what is read.

Main statement: `Stream.reading_advances`.
-/

namespace LosslessYaml

open Text Lookahead

/-! ## Counting bytes -/

namespace Reader

/-- The bytes that remain to be read. -/
def bytesLeft (r : Reader) : Nat := r.rest.toBytes.length

theorem bytesLeft_le {r after : Reader} (h : after.rest <:+ r.rest) :
    after.bytesLeft ≤ r.bytesLeft := by
  obtain ⟨read, hread⟩ := h
  calc after.bytesLeft ≤ size read + size after.rest := Nat.le_add_left _ _
    _ = size r.rest := by rw [← size_append, hread]

theorem Gains.bytesLeft_lt {r after : Reader} (h : r.Gains after) :
    after.bytesLeft < r.bytesLeft := by
  obtain ⟨c, read, hread⟩ := h
  have hpos := c.utf8Size_pos
  calc after.bytesLeft < c.utf8Size + (size read + size after.rest) := by
        show size after.rest < _
        omega
    _ = size r.rest := by rw [hread, size_cons, size_append]

end Reader

/-! ## Scalars over several lines -/

/-- A line that is looked at: how far the scalar reached before, where the line starts, and how far
the scalar reaches then. -/
structure LineStep where
  before : Nat
  line : Nat
  after : Nat

/-- The lines that are looked at by `extendLines`, up to the one that ends the scalar. -/
def extendSteps (next : Text → Option (Nat × Bool)) : Nat → Nat → Text → List LineStep
  | _, _, [] => []
  | reached, offset, c :: rest =>
    if c == '\n' then
      if isBlankLine rest then
        ⟨reached, offset + 1, reached⟩ :: extendSteps next reached (offset + 1) rest
      else
        match next rest with
        | none => []
        | some (n, true) =>
          ⟨reached, offset + 1, offset + 1 + n⟩ ::
            extendSteps next (offset + 1 + n) (offset + 1) rest
        | some (n, false) => [⟨reached, offset + 1, offset + 1 + n⟩]
    else extendSteps next reached (offset + 1) rest

/-- How far a scalar reaches after all of its lines. -/
def lastReached (start : Nat) (steps : List LineStep) : Nat :=
  steps.foldl (fun _ step => step.after) start

theorem lastReached_cons (start : Nat) (step : LineStep) (steps : List LineStep) :
    lastReached start (step :: steps) = lastReached step.after steps := rfl

theorem lastReached_extendSteps (next : Text → Option (Nat × Bool)) (reached offset : Nat)
    (text : Text) :
    lastReached reached (extendSteps next reached offset text) =
      extendLines next reached offset text := by
  induction text generalizing reached offset with
  | nil => rfl
  | cons c rest ih =>
      rw [extendSteps, extendLines]
      split
      · split
        · rw [lastReached_cons, ih]
        · rcases next rest with _ | ⟨n, _ | _⟩
          · rfl
          · rfl
          · exact ih (offset + 1 + n) (offset + 1)
      · exact ih reached (offset + 1)

/-- The lines that are looked at start one behind the other, within a text of the given length, and
a line that belongs to the scalar makes it longer. -/
structure LineSteps.Advance (length : Nat) (steps : List LineStep) : Prop where
  within : ∀ step ∈ steps, step.line ≤ length
  longer : ∀ step ∈ steps, step.before < step.line ∧
    (step.after = step.before ∨ step.line ≤ step.after)
  ordered : steps.Pairwise fun step later => step.line < later.line ∧ step.after ≤ later.before

/-- The invariant is that the scalar reaches no farther than the end of the line that is walked. -/
theorem extendSteps_advance {next : Text → Option (Nat × Bool)}
    (hnext : ∀ line n goesOn, next line = some (n, goesOn) → n ≤ lineLength line)
    {reached offset : Nat} {text : Text} (h : reached ≤ offset + lineLength text) :
    LineSteps.Advance (offset + text.length) (extendSteps next reached offset text) ∧
      ∀ step ∈ extendSteps next reached offset text,
        reached ≤ step.before ∧ offset < step.line := by
  induction text generalizing reached offset with
  | nil => exact ⟨⟨by simp [extendSteps], by simp [extendSteps], .nil⟩, by simp [extendSteps]⟩
  | cons c rest ih =>
      have hlater : ∀ {reached' : Nat}, reached' ≤ offset + 1 + lineLength rest →
          LineSteps.Advance (offset + (c :: rest).length)
            (extendSteps next reached' (offset + 1) rest) ∧
          ∀ step ∈ extendSteps next reached' (offset + 1) rest,
            reached' ≤ step.before ∧ offset + 1 < step.line := by
        intro reached' hreached
        have hlength : offset + (c :: rest).length = offset + 1 + rest.length := by
          rw [List.length_cons]
          omega
        rw [hlength]
        exact ih hreached
      -- a line is looked at, and the rest of the steps follow it
      have hline : ∀ {after : Nat} {steps : List LineStep}, reached ≤ offset →
          (after = reached ∨ offset + 1 ≤ after) →
          LineSteps.Advance (offset + (c :: rest).length) steps →
          (∀ step ∈ steps, after ≤ step.before ∧ offset + 1 < step.line) →
          LineSteps.Advance (offset + (c :: rest).length) (⟨reached, offset + 1, after⟩ :: steps) ∧
          ∀ step ∈ (⟨reached, offset + 1, after⟩ : LineStep) :: steps,
            reached ≤ step.before ∧ offset < step.line := by
        intro after steps hreached hafter hsteps hbehind
        refine ⟨⟨?_, ?_, ?_⟩, ?_⟩
        · refine List.forall_mem_cons.mpr ⟨?_, hsteps.within⟩
          rw [List.length_cons]
          show offset + 1 ≤ _
          omega
        · exact List.forall_mem_cons.mpr ⟨⟨Nat.lt_succ_of_le hreached, hafter⟩, hsteps.longer⟩
        · refine List.pairwise_cons.mpr ⟨?_, hsteps.ordered⟩
          intro step hstep
          exact ⟨(hbehind step hstep).2, (hbehind step hstep).1⟩
        · refine List.forall_mem_cons.mpr ⟨⟨Nat.le_refl _, Nat.lt_succ_self _⟩, ?_⟩
          intro step hstep
          have hstep := hbehind step hstep
          omega
      rw [extendSteps]
      split
      next hc =>
        have hreached : reached ≤ offset := by
          rwa [eq_of_beq hc, lineLength_newline] at h
        split
        next =>
          obtain ⟨hsteps, hbehind⟩ := hlater (Nat.le_add_right_of_le (Nat.le_succ_of_le hreached))
          exact hline hreached (.inl rfl) hsteps hbehind
        next =>
          split
          next => exact ⟨⟨by simp, by simp, .nil⟩, by simp⟩
          next n hfound =>
            have hn := hnext _ _ _ hfound
            obtain ⟨hsteps, hbehind⟩ := @hlater (offset + 1 + n) (by omega)
            exact hline hreached (.inr (by omega)) hsteps hbehind
          next n hfound =>
            exact hline hreached (.inr (by omega)) ⟨by simp, by simp, .nil⟩ (by simp)
      next hc =>
        have hc : c ≠ '\n' := by simpa using hc
        have hreached : reached ≤ offset + 1 + lineLength rest := by
          rw [lineLength_cons hc] at h
          omega
        obtain ⟨hsteps, hbehind⟩ := hlater hreached
        refine ⟨hsteps, ?_⟩
        intro step hstep
        have hstep := hbehind step hstep
        omega

theorem le_lineLength {n : Nat} {text : Text} (hle : n ≤ text.length)
    (hline : '\n' ∉ text.take n) : n ≤ lineLength text := by
  induction text generalizing n with
  | nil => simpa [lineLength] using hle
  | cons c rest ih =>
      cases n with
      | zero => exact Nat.zero_le _
      | succ n =>
          rw [List.take_succ_cons, List.mem_cons, not_or] at hline
          rw [lineLength_cons (Ne.symm hline.1)]
          exact Nat.succ_le_succ (ih (Nat.le_of_succ_le_succ hle) hline.2)

/-- The lines that are looked at to find the end of a literal or folded scalar. -/
def literalSteps (floor : Nat) (text : Text) : List LineStep :=
  extendSteps (literalLine floor) (lineLength text) 0 text

/-- The lines that are looked at to find the end of a plain scalar. -/
def plainSteps (floor : Nat) (text : Text) : List LineStep :=
  if lineEnds (text.drop (plainLineLength text)) then
    extendSteps (plainLine floor) (plainLineLength text) 0 text
  else []

theorem literalSteps_advance (floor : Nat) (text : Text) :
    lastReached (lineLength text) (literalSteps floor text) = literalLength floor text ∧
      LineSteps.Advance text.length (literalSteps floor text) := by
  refine ⟨lastReached_extendSteps _ _ _ _, ?_⟩
  have hnext : ∀ line n goesOn, literalLine floor line = some (n, goesOn) →
      n ≤ lineLength line := by
    intro line n goesOn h
    obtain ⟨hle, hline, -⟩ := literalLine_eq_some h
    exact le_lineLength hle hline
  have hsteps := (@extendSteps_advance _ hnext (lineLength text) 0 text (by omega)).1
  rwa [Nat.zero_add] at hsteps

theorem plainSteps_advance (floor : Nat) (text : Text) :
    lastReached (plainLineLength text) (plainSteps floor text) = plainBlockLength floor text ∧
      LineSteps.Advance text.length (plainSteps floor text) := by
  unfold plainSteps plainBlockLength
  dsimp only
  split
  next =>
    refine ⟨lastReached_extendSteps _ _ _ _, ?_⟩
    have hnext : ∀ line n goesOn, plainLine floor line = some (n, goesOn) →
        n ≤ lineLength line := by
      intro line n goesOn h
      obtain ⟨hle, hline, -⟩ := plainLine_eq_some h
      exact le_lineLength hle hline
    have hfirst : plainLineLength text ≤ lineLength text :=
      le_lineLength (runLength_le _ _ _) (notMem_run _ (by simp) _)
    have hsteps := (@extendSteps_advance _ hnext (plainLineLength text) 0 text (by omega)).1
    rwa [Nat.zero_add] at hsteps
  next => exact ⟨rfl, by simp, by simp, .nil⟩

/-! ## A larger bound changes nothing -/

namespace Traced

/-- The second reading is the first one, unless the first one met the bound on nested calls. -/
def Extends {α : Type} (x y : Traced α) : Prop :=
  (∃ rest, x.result = .error ⟨.tooDeep, rest⟩) ∨ y = x

section

variable {α β : Type} {x y z : Traced α}

theorem extends_refl (x : Traced α) : Extends x x := .inr rfl

theorem Extends.trans (hxy : Extends x y) (hyz : Extends y z) : Extends x z := by
  rcases hxy with hdeep | rfl
  · exact .inl hdeep
  · exact hyz

theorem Extends.preceded (h : Extends x y) (event : Event) :
    Extends (preceded event x) (Traced.preceded event y) := by
  rcases h with hdeep | rfl
  · exact .inl hdeep
  · exact extends_refl _

theorem Extends.followed (h : Extends x y) (event : α → Event) :
    Extends (followed event x) (Traced.followed event y) := by
  rcases h with hdeep | rfl
  · exact .inl hdeep
  · exact extends_refl _

theorem Extends.bind {f g : α → Traced β} (h : Extends x y) (hf : ∀ a, Extends (f a) (g a)) :
    Extends (x >>= f) (y >>= g) := by
  rcases h with ⟨rest, hdeep⟩ | rfl
  · refine .inl ⟨rest, ?_⟩
    rw [result_bind, hdeep]
    rfl
  · obtain ⟨events, result⟩ := y
    cases result with
    | error failure => exact extends_refl _
    | ok a =>
        rcases hf a with ⟨rest, hdeep⟩ | hsame
        · exact .inl ⟨rest, hdeep⟩
        · refine .inr ?_
          show Traced.mk (events ++ (g a).events) (g a).result = _
          rw [hsame]
          rfl

end

mutual

theorem flowContent_extends (fuel : Nat) (lead : Text) (r : Reader) :
    Extends (flowContent fuel lead r) (flowContent (fuel + 1) lead r) := by
  match fuel with
  | 0 => exact .inl ⟨r.rest, rfl⟩
  | fuel + 1 =>
    rw [flowContent, flowContent]
    refine Extends.preceded ?_ _
    cases flowOpening r.rest with
    | mapping =>
        exact (flowEntries_extends fuel r (r.skip 1)).bind fun _ => extends_refl _
    | sequence =>
        exact (flowItems_extends fuel r (r.skip 1)).bind fun _ => extends_refl _
    | anchor =>
        refine (extends_refl _).bind ?_
        rintro ⟨name, after⟩
        dsimp only
        split
        · exact extends_refl _
        · exact ((flowContent_extends fuel [] _).preceded _).bind fun _ => extends_refl _
    | _ => exact extends_refl _

theorem flowEntries_extends (fuel : Nat) (start r : Reader) :
    Extends (flowEntries fuel start r) (flowEntries (fuel + 1) start r) := by
  match fuel with
  | 0 => exact .inl ⟨r.rest, rfl⟩
  | fuel + 1 =>
    rw [flowEntries, flowEntries]
    refine Extends.preceded ?_ _
    split
    · exact extends_refl _
    split
    · exact extends_refl _
    refine (extends_refl _).bind ?_
    rintro ⟨key, afterKey⟩
    refine (extends_refl _).bind fun afterColon => ?_
    refine ((flowContent_extends fuel _ _).preceded _).bind ?_
    rintro ⟨value, afterValue⟩
    refine (extends_refl _).bind ?_
    rintro ⟨comma, next⟩
    exact ((flowEntries_extends fuel start next).preceded _).bind fun _ => extends_refl _

theorem flowItems_extends (fuel : Nat) (start r : Reader) :
    Extends (flowItems fuel start r) (flowItems (fuel + 1) start r) := by
  match fuel with
  | 0 => exact .inl ⟨r.rest, rfl⟩
  | fuel + 1 =>
    rw [flowItems, flowItems]
    refine Extends.preceded ?_ _
    split
    · exact extends_refl _
    split
    · exact extends_refl _
    refine ((flowContent_extends fuel _ _).preceded _).bind ?_
    rintro ⟨value, afterValue⟩
    dsimp only
    split
    · exact extends_refl _
    refine (extends_refl _).bind ?_
    rintro ⟨comma, next⟩
    exact ((flowItems_extends fuel start next).preceded _).bind fun _ => extends_refl _

end

mutual

theorem block_extends (fuel floor : Nat) (place : Place) (r : Reader) :
    Extends (block fuel floor place r) (block (fuel + 1) floor place r) := by
  match fuel with
  | 0 => exact .inl ⟨r.rest, rfl⟩
  | fuel + 1 =>
    rw [block, block]
    refine Extends.preceded ?_ _
    split
    · exact extends_refl _
    · exact blockContent_extends fuel floor place _ _ _

theorem blockContent_extends (fuel floor : Nat) (place : Place) (sameLine : Bool) (lead : Text)
    (r : Reader) : Extends (blockContent fuel floor place sameLine lead r)
      (blockContent (fuel + 1) floor place sameLine lead r) := by
  match fuel with
  | 0 => exact .inl ⟨r.rest, rfl⟩
  | fuel + 1 =>
    rw [blockContent, blockContent]
    refine Extends.preceded (Extends.followed ?_ _) _
    cases opening r.rest with
    | anchor => exact anchored_extends fuel floor place lead r
    | flow => exact flowContent_extends fuel lead r
    | item =>
        dsimp only
        split
        · exact extends_refl _
        · exact (blockItems_extends fuel [] r).bind fun _ => extends_refl _
    | key =>
        dsimp only
        split
        · exact extends_refl _
        · exact (blockEntries_extends fuel [] r).bind fun _ => extends_refl _
    | _ => exact extends_refl _

theorem anchored_extends (fuel floor : Nat) (place : Place) (lead : Text) (r : Reader) :
    Extends (anchored fuel floor place lead r) (anchored (fuel + 1) floor place lead r) := by
  match fuel with
  | 0 => exact .inl ⟨r.rest, rfl⟩
  | fuel + 1 =>
    rw [anchored, anchored]
    refine (extends_refl _).bind ?_
    rintro ⟨name, after⟩
    dsimp only
    split
    · exact extends_refl _
    · exact ((blockContent_extends fuel floor place _ [] _).preceded _).bind
        fun _ => extends_refl _

theorem blockEntries_extends (fuel : Nat) (lead : Text) (r : Reader) :
    Extends (blockEntries fuel lead r) (blockEntries (fuel + 1) lead r) := by
  match fuel with
  | 0 => exact .inl ⟨r.rest, rfl⟩
  | fuel + 1 =>
    rw [blockEntries, blockEntries]
    refine Extends.preceded ((extends_refl _).bind ?_) _
    rintro ⟨key, afterKey⟩
    dsimp only
    split
    · exact extends_refl _
    refine ((block_extends fuel _ _ _).preceded _).bind ?_
    rintro ⟨value, after⟩
    dsimp only
    split
    · exact ((blockEntries_extends fuel _ _).preceded _).bind fun _ => extends_refl _
    · exact extends_refl _

theorem blockItems_extends (fuel : Nat) (lead : Text) (r : Reader) :
    Extends (blockItems fuel lead r) (blockItems (fuel + 1) lead r) := by
  match fuel with
  | 0 => exact .inl ⟨r.rest, rfl⟩
  | fuel + 1 =>
    rw [blockItems, blockItems]
    refine ((block_extends fuel _ _ _).preceded _).bind ?_
    rintro ⟨value, after⟩
    dsimp only
    split
    · exact ((blockItems_extends fuel _ _).preceded _).bind fun _ => extends_refl _
    · exact extends_refl _

end

theorem document_extends (fuel : Nat) (lead : Text) (r : Reader) :
    Extends (document fuel lead r) (document (fuel + 1) lead r) :=
  (block_extends fuel 0 .root r.afterDashes).bind fun _ => extends_refl _

theorem moreDocuments_extends (fuel : Nat) (r : Reader) :
    Extends (moreDocuments fuel r) (moreDocuments (fuel + 1) r) := by
  induction fuel generalizing r with
  | zero => exact .inl ⟨r.rest, rfl⟩
  | succ fuel ih =>
      rw [moreDocuments, moreDocuments]
      refine Extends.preceded ?_ _
      split
      · exact extends_refl _
      refine (document_extends fuel _ _).bind ?_
      rintro ⟨first, after⟩
      exact ((ih after).preceded _).bind fun _ => extends_refl _

theorem stream_extends (fuel : Nat) (mark : Text) (r : Reader) :
    Extends (stream fuel mark r) (stream (fuel + 1) mark r) := by
  rw [stream, stream]
  refine Extends.preceded ?_ _
  split
  · exact extends_refl _
  refine (document_extends fuel _ _).bind ?_
  rintro ⟨first, after⟩
  exact ((moreDocuments_extends fuel after).preceded _).bind fun _ => extends_refl _

theorem stream_cause_ne_tooDeep {fuel : Nat} {mark : Text} {r : Reader} {failure : Failure}
    (hfuel : 4 * r.rest.length + 4 ≤ fuel) (h : (stream fuel mark r).result = .error failure) :
    failure.cause ≠ .tooDeep := by
  rw [stream_result] at h
  intro hdeep
  have hfits := (Reader.stream_blames hfuel h).fits
  rw [hdeep] at hfits
  exact hfits

/-- From four calls for each character and four more on, the bound has no part in the reading. -/
theorem stream_eq_of_le {fuel fuel' : Nat} {mark : Text} {r : Reader}
    (hfuel : 4 * r.rest.length + 4 ≤ fuel) (hle : fuel ≤ fuel') :
    stream fuel' mark r = stream fuel mark r := by
  have hextends : Extends (stream fuel mark r) (stream fuel' mark r) := by
    induction hle with
    | refl => exact extends_refl _
    | step _ ih => exact ih.trans (stream_extends _ mark r)
  rcases hextends with ⟨rest, hdeep⟩ | hsame
  · exact absurd rfl (stream_cause_ne_tooDeep hfuel hdeep)
  · exact hsame

end Traced

/-! ## Reading a source -/

/-- Reading a source makes progress at every turn and ends.  The reader never goes back.  A node in
block context takes at least a byte, and so does everything between a node and the nodes nested in
it, and between the turns of each loop.  Looking for the end of a scalar over several lines goes
from line to line.  The bound on nested calls is linear in the length of the source, is never met,
and leaves no trace. -/
theorem Stream.reading_advances (source : Text) :
    Stream.read source =
      ((Stream.traced source).result.map fun found => ⟨found.1, found.2.dropped⟩).mapError
        (Failure.locate (splitMark source).2) ∧
    (Stream.traced source).events.Pairwise
      (fun event later => later.place.bytesLeft ≤ event.place.bytesLeft) ∧
    (∀ start after, .content start after ∈ (Stream.traced source).events →
      after.bytesLeft < start.bytesLeft) ∧
    (∀ outer inner, .nested outer inner ∈ (Stream.traced source).events →
      inner.bytesLeft < outer.bytesLeft) ∧
    (∀ loop earlier later, .again loop earlier later ∈ (Stream.traced source).events →
      later.bytesLeft < earlier.bytesLeft) ∧
    (∀ floor text,
      lastReached (lineLength text) (literalSteps floor text) = literalLength floor text ∧
      LineSteps.Advance text.length (literalSteps floor text) ∧
      lastReached (plainLineLength text) (plainSteps floor text) = plainBlockLength floor text ∧
      LineSteps.Advance text.length (plainSteps floor text)) ∧
    (∀ fuel, 4 * (splitMark source).2.length + 4 ≤ fuel →
      Traced.stream fuel (splitMark source).1 { rest := (splitMark source).2 } =
        Stream.traced source) ∧
    ∀ error, Stream.read source = .error error → error.cause ≠ .tooDeep := by
  have horder := Stream.traced_orderly source
  have hsound : ∀ {r after : Reader}, r.Gains after → after.bytesLeft < r.bytesLeft :=
    fun h => h.bytesLeft_lt
  refine ⟨Stream.read_eq_traced source, ?_, ?_, ?_, ?_, ?_, ?_, ?_⟩
  · exact horder.ordered.imp fun h => Reader.bytesLeft_le h
  · intro start after h
    exact hsound (horder.sound _ h)
  · intro outer inner h
    exact hsound (horder.sound _ h)
  · intro loop earlier later h
    exact hsound (horder.sound _ h)
  · intro floor text
    have hliteral := literalSteps_advance floor text
    exact ⟨hliteral.1, hliteral.2, plainSteps_advance floor text⟩
  · intro fuel hfuel
    exact Traced.stream_eq_of_le (Nat.le_refl _) hfuel
  · intro error h
    rw [Stream.read_eq_traced] at h
    cases hresult : (Stream.traced source).result with
    | ok found =>
        rw [hresult] at h
        cases h
    | error failure =>
        rw [hresult] at h
        obtain rfl := Except.error.inj h
        exact Traced.stream_cause_ne_tooDeep (Nat.le_refl _) hresult

/-- A sequence in an item: the node, the value nested in it and the turn of the loop over its values
each take bytes, one letter taking two. -/
theorem Stream.reading_advances_item :
    ∃ item first second after : Reader,
      .content item after ∈ (Stream.traced "- [ä, b]\n".toList).events ∧
      .nested item first ∈ (Stream.traced "- [ä, b]\n".toList).events ∧
      .again .flowItems first second ∈ (Stream.traced "- [ä, b]\n".toList).events ∧
      after.bytesLeft < item.bytesLeft ∧ first.bytesLeft < item.bytesLeft ∧
      second.bytesLeft < first.bytesLeft := by
  have hcontent : .content ⟨"[ä, b]\n".toList, 2, []⟩ ⟨"\n".toList, 9, []⟩ ∈
      (Stream.traced "- [ä, b]\n".toList).events := by decide +kernel
  have hnested : .nested ⟨"[ä, b]\n".toList, 2, []⟩ ⟨"ä, b]\n".toList, 3, []⟩ ∈
      (Stream.traced "- [ä, b]\n".toList).events := by decide +kernel
  have hagain : .again .flowItems ⟨"ä, b]\n".toList, 3, []⟩ ⟨" b]\n".toList, 6, []⟩ ∈
      (Stream.traced "- [ä, b]\n".toList).events := by decide +kernel
  have h := Stream.reading_advances "- [ä, b]\n".toList
  exact ⟨_, _, _, _, hcontent, hnested, hagain, h.2.2.1 _ _ hcontent, h.2.2.2.1 _ _ hnested,
    h.2.2.2.2.1 _ _ _ hagain⟩

end LosslessYaml
