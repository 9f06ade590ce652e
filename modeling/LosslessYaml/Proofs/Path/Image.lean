import LosslessYaml.Path.Expression
import LosslessYaml.Proofs.Reading.Rules

/-!
# What an expression can stand for

Not every list of segments is written by an expression.  A descent stands for the gap between two
steps, so that a segment of another kind follows it at once; several keys between brackets are at
least two; and bounds of a slice that are the wrong way round are refused.  `Path.Expressible`
collects these conditions, and this file proves that every path that is read satisfies them.

The two grammars share the brackets, and what they read is put together from the same parts: a
step, or a descent and a step.  `Steps` says so, and each loop of a grammar is one induction on the
fuel that ends in `Steps`.

Main statement: `Path.expressible_of_parse`.
-/

namespace LosslessYaml

/-! ## Paths that can be written -/

/-- The conditions on a path that can be written as an expression.  Numbers have 64 bits by their
type. -/
structure Path.Expressible (path : Path) : Prop where
  /-- A descent is followed at once by a segment that is none. -/
  descents : ∀ before after, path.segments = before ++ .descent :: after →
    ∃ next rest, after = next :: rest ∧ next ≠ .descent
  /-- Several keys are at least two. -/
  names : ∀ names, .anyOf names ∈ path.segments → 2 ≤ names.length
  /-- Bounds that are not negative are not the wrong way round. -/
  slices : ∀ start stop, .slice (some start) (some stop) ∈ path.segments →
    ¬ (0 ≤ stop.toInt ∧ stop.toInt < start.toInt)
  /-- A path that starts anywhere starts with a step. -/
  relative : path.anchored = false → path.segments ≠ [] ∧ path.segments.head? ≠ some .descent

/-- A segment that is written between brackets: any but a descent. -/
def Segment.IsStep : Segment → Prop
  | .anyOf names => 2 ≤ names.length
  | .slice (some start) (some stop) => ¬ (0 ≤ stop.toInt ∧ stop.toInt < start.toInt)
  | .descent => False
  | _ => True

/-- Segments one after the other, each of them alone or after a descent. -/
inductive Steps : List Segment → Prop
  | nil : Steps []
  | step {segment : Segment} {segments : List Segment} (hstep : segment.IsStep)
      (hsegments : Steps segments) : Steps (segment :: segments)
  | descent {segment : Segment} {segments : List Segment} (hstep : segment.IsStep)
      (hsegments : Steps segments) : Steps (.descent :: segment :: segments)

theorem Segment.IsStep.ne_descent {segment : Segment} (h : segment.IsStep) :
    segment ≠ .descent := by
  rintro rfl
  exact h

namespace Steps

theorem append {segments more : List Segment} (h : Steps segments) (hmore : Steps more) :
    Steps (segments ++ more) := by
  induction h with
  | nil => exact hmore
  | step hstep _ ih => exact .step hstep ih
  | descent hstep _ ih => exact .descent hstep ih

/-- What the conditions say about the segments alone. -/
theorem conditions {segments : List Segment} (h : Steps segments) :
    (∀ before after, segments = before ++ .descent :: after →
      ∃ next rest, after = next :: rest ∧ next ≠ .descent) ∧
    ∀ segment ∈ segments, segment = .descent ∨ segment.IsStep := by
  induction h with
  | nil => exact ⟨by simp, by simp⟩
  | @step segment segments hstep _ ih =>
      refine ⟨?_, by simpa [hstep] using ih.2⟩
      intro before after hsplit
      cases before with
      | nil => exact absurd (List.cons.inj hsplit).1 hstep.ne_descent
      | cons _ before => exact ih.1 before after (List.cons.inj hsplit).2
  | @descent segment segments hstep _ ih =>
      refine ⟨?_, by simpa [hstep] using ih.2⟩
      intro before after hsplit
      match before with
      | [] => exact ⟨segment, segments, (List.cons.inj hsplit).2.symm, hstep.ne_descent⟩
      | [_] =>
        simp only [List.cons_append, List.nil_append, List.cons.injEq] at hsplit
        exact absurd hsplit.2.1 hstep.ne_descent
      | _ :: _ :: before =>
        simp only [List.cons_append, List.cons.injEq] at hsplit
        exact ih.1 before after hsplit.2.2

theorem of_conditions {segments : List Segment}
    (hdescents : ∀ before after, segments = before ++ .descent :: after →
      ∃ next rest, after = next :: rest ∧ next ≠ .descent)
    (hsteps : ∀ segment ∈ segments, segment = .descent ∨ segment.IsStep) : Steps segments := by
  match segments with
  | [] => exact .nil
  | segment :: segments =>
    have hlater : ∀ before after, segments = before ++ .descent :: after →
        ∃ next rest, after = next :: rest ∧ next ≠ .descent := by
      intro before after hsplit
      exact hdescents (segment :: before) after (by rw [hsplit]; rfl)
    rw [List.forall_mem_cons] at hsteps
    rcases hsteps.1 with rfl | hstep
    · obtain ⟨next, rest, rfl, hnext⟩ := hdescents [] segments rfl
      have hall := List.forall_mem_cons.mp hsteps.2
      refine .descent (hall.1.resolve_left hnext) (of_conditions ?_ hall.2)
      intro before after hsplit
      exact hlater (next :: before) after (by rw [hsplit]; rfl)
    · exact .step hstep (of_conditions hlater hsteps.2)

end Steps

theorem Path.Expressible.steps {path : Path} (h : path.Expressible) : Steps path.segments := by
  refine .of_conditions h.descents fun segment hsegment => ?_
  match segment with
  | .descent => exact .inl rfl
  | .anyOf names => exact .inr (h.names names hsegment)
  | .slice (some start) (some stop) => exact .inr (h.slices start stop hsegment)
  | .slice none _ | .slice (some _) none | .child _ | .index _ | .wildcard => exact .inr trivial

theorem Path.expressible_of_steps {anchored : Bool} {segments : List Segment}
    (h : Steps segments)
    (hrelative : anchored = false → segments ≠ [] ∧ segments.head? ≠ some .descent) :
    Path.Expressible ⟨anchored, segments⟩ where
  descents := h.conditions.1
  names names hnames := (h.conditions.2 _ hnames).resolve_left (by simp)
  slices start stop hslice := (h.conditions.2 _ hslice).resolve_left (by simp)
  relative := hrelative

/-! ## Brackets -/

namespace PathExpression

open Reader (bind_eq_ok)

/-- Where keys start with a quote there is at least one. -/
theorem keys_ne_nil {fuel : Nat} {c : Char} {body rest : Text} {names : List Text}
    (hquote : c = '"' ∨ c = '\'') (h : keys (fuel + 1) (c :: body) = .ok (names, rest)) :
    names ≠ [] := by
  have hstart : skipWhitespace (c :: body) = c :: body := by
    rcases hquote with rfl | rfl <;> rfl
  have hc : (c == '"' || c == '\'') = true := by simpa using hquote
  simp only [keys, hstart, hc, if_true] at h
  obtain ⟨⟨key, after⟩, -, h⟩ := bind_eq_ok.mp h
  dsimp only at h
  split at h
  · obtain ⟨⟨more, last⟩, -, h⟩ := bind_eq_ok.mp h
    cases h
    simp
  · cases h
    simp

theorem keysSegment_isStep {names : List Text} (hne : names ≠ []) : (keysSegment names).IsStep := by
  match names with
  | [] => exact absurd rfl hne
  | [_] => trivial
  | _ :: _ :: names => exact Nat.le_add_left 2 names.length

theorem slice_isStep {text rest : Text} {segment : Segment}
    (h : slice text = .ok (segment, rest)) : segment.IsStep := by
  unfold slice at h
  obtain ⟨⟨start, afterStart⟩, -, h⟩ := bind_eq_ok.mp h
  obtain ⟨afterColon, -, h⟩ := bind_eq_ok.mp h
  obtain ⟨⟨stop, afterStop⟩, -, h⟩ := bind_eq_ok.mp h
  obtain ⟨last, -, h⟩ := bind_eq_ok.mp h
  split at h
  next s e =>
    split at h
    next => simp at h
    next hreversed =>
      cases h
      intro hbounds
      apply hreversed
      simp only [isReversed, Bool.and_eq_true, decide_eq_true_eq]
      omega
  next hnone =>
    cases h
    match start, stop with
    | none, _ | some _, none => trivial
    | some s, some e => exact absurd rfl (hnone s e rfl)

/-- What stands between brackets is a step. -/
theorem bracket_isStep {text rest : Text} {segment : Segment}
    (h : bracket text = .ok (segment, rest)) : segment.IsStep := by
  unfold bracket at h
  obtain ⟨opened, -, h⟩ := bind_eq_ok.mp h
  dsimp only at h
  split at h
  next => simp at h
  next c after _ =>
    split at h
    next =>
      obtain ⟨last, -, h⟩ := bind_eq_ok.mp h
      cases h
      trivial
    split at h
    next hquote =>
      obtain ⟨⟨names, afterKeys⟩, hkeys, h⟩ := bind_eq_ok.mp h
      obtain ⟨last, -, h⟩ := bind_eq_ok.mp h
      cases h
      exact keysSegment_isStep (keys_ne_nil (by simpa using hquote) hkeys)
    split at h
    next =>
      split at h
      next => exact slice_isStep h
      next =>
        obtain ⟨⟨n, afterNumber⟩, -, h⟩ := bind_eq_ok.mp h
        obtain ⟨last, -, h⟩ := bind_eq_ok.mp h
        cases h
        trivial
    split at h
    next => exact slice_isStep h
    next => simp at h

/-! ## Dotted expressions -/

theorem afterDot_isStep {text rest : Text} {segment : Segment}
    (h : afterDot text = .ok (segment, rest)) : segment.IsStep := by
  unfold afterDot at h
  split at h
  next =>
    cases h
    trivial
  next =>
    obtain ⟨⟨found, last⟩, -, h⟩ := bind_eq_ok.mp h
    cases h
    trivial

/-- A dotted expression that goes on with a bracket goes on with a step. -/
theorem dotted_bracket {fuel : Nat} {rest : Text} {segments : List Segment}
    (h : dotted fuel ('[' :: rest) = .ok segments) :
    ∃ segment more after, segments = segment :: more ∧ segment.IsStep ∧
      dotted (fuel - 1) after = .ok more := by
  cases fuel with
  | zero => simp [dotted] at h
  | succ fuel =>
      simp only [dotted, show skipWhitespace ('[' :: rest) = '[' :: rest from rfl] at h
      obtain ⟨⟨segment, after⟩, hsegment, h⟩ := bind_eq_ok.mp h
      obtain ⟨more, hmore, h⟩ := bind_eq_ok.mp h
      cases h
      exact ⟨segment, more, after, rfl, bracket_isStep hsegment, hmore⟩

theorem dotted_steps (fuel : Nat) {text : Text} {segments : List Segment}
    (h : dotted fuel text = .ok segments) : Steps segments := by
  induction fuel using Nat.strongRecOn generalizing text segments with
  | ind fuel ih =>
    match fuel with
    | 0 => simp [dotted] at h
    | fuel + 1 =>
      unfold dotted at h
      split at h
      next =>
        cases h
        exact .nil
      next =>
        -- the descent and the bracket after it are read by two rounds of the loop
        obtain ⟨more, hmore, h⟩ := bind_eq_ok.mp h
        cases h
        obtain ⟨segment, others, after, rfl, hstep, hothers⟩ := dotted_bracket hmore
        exact .descent hstep (ih (fuel - 1) (by omega) hothers)
      next =>
        obtain ⟨⟨segment, after⟩, hsegment, h⟩ := bind_eq_ok.mp h
        obtain ⟨more, hmore, h⟩ := bind_eq_ok.mp h
        cases h
        exact .descent (afterDot_isStep hsegment) (ih fuel (by omega) hmore)
      next =>
        obtain ⟨⟨segment, after⟩, hsegment, h⟩ := bind_eq_ok.mp h
        obtain ⟨more, hmore, h⟩ := bind_eq_ok.mp h
        cases h
        exact .step (afterDot_isStep hsegment) (ih fuel (by omega) hmore)
      next =>
        obtain ⟨⟨segment, after⟩, hsegment, h⟩ := bind_eq_ok.mp h
        obtain ⟨more, hmore, h⟩ := bind_eq_ok.mp h
        cases h
        exact .step (bracket_isStep hsegment) (ih fuel (by omega) hmore)
      next => simp at h

/-! ## Slash expressions -/

theorem slashName_isStep {text rest : Text} {segment : Segment}
    (h : slashName text = .ok (segment, rest)) : segment.IsStep := by
  unfold slashName at h
  dsimp only at h
  split at h
  next => simp at h
  split at h
  next =>
    cases h
    trivial
  split at h
  next => simp at h
  next =>
    cases h
    trivial

theorem brackets_isStep (fuel : Nat) {text rest : Text} {segments : List Segment}
    (h : brackets fuel text = .ok (segments, rest)) : ∀ segment ∈ segments, segment.IsStep := by
  induction fuel generalizing text segments with
  | zero =>
      cases h
      simp
  | succ fuel ih =>
      unfold brackets at h
      split at h
      next =>
        obtain ⟨⟨segment, after⟩, hsegment, h⟩ := bind_eq_ok.mp h
        obtain ⟨⟨more, last⟩, hmore, h⟩ := bind_eq_ok.mp h
        cases h
        exact List.forall_mem_cons.mpr ⟨bracket_isStep hsegment, ih hmore⟩
      next =>
        cases h
        simp

/-- A step between slashes starts with a segment, and holds no descent. -/
theorem slashStep_isStep {text rest : Text} {segments : List Segment}
    (h : slashStep text = .ok (segments, rest)) :
    segments ≠ [] ∧ ∀ segment ∈ segments, segment.IsStep := by
  unfold slashStep at h
  split at h
  next => simp at h
  next c tail =>
    split at h
    next hbracket =>
      refine ⟨?_, brackets_isStep _ h⟩
      rintro rfl
      have hc : c = '[' := eq_of_beq hbracket
      simp only [hc, List.length_cons, brackets, List.head?_cons, beq_self_eq_true, if_true] at h
      obtain ⟨⟨segment, after⟩, -, h⟩ := bind_eq_ok.mp h
      obtain ⟨⟨more, last⟩, -, h⟩ := bind_eq_ok.mp h
      simp at h
    next =>
      -- a quoted key and a name differ in how the first segment is read only
      have hrest : ∀ {segment : Segment} {after : Text}, segment.IsStep →
          (brackets after.length after >>= fun found => Except.ok (segment :: found.1, found.2)) =
            .ok (segments, rest) →
          segments ≠ [] ∧ ∀ segment ∈ segments, segment.IsStep := by
        intro segment after hstep hafter
        obtain ⟨⟨more, last⟩, hmore, hafter⟩ := bind_eq_ok.mp hafter
        cases hafter
        exact ⟨by simp, List.forall_mem_cons.mpr ⟨hstep, brackets_isStep _ hmore⟩⟩
      dsimp only at h
      split at h
      next =>
        obtain ⟨⟨segment, after⟩, hsegment, h⟩ := bind_eq_ok.mp h
        refine hrest ?_ h
        cases hquoted : quotedKey (c :: tail) with
        | error => simp [hquoted, Except.map] at hsegment
        | ok found =>
            simp only [hquoted, Except.map, Except.ok.injEq, Prod.mk.injEq] at hsegment
            rw [← hsegment.1]
            trivial
      next =>
        obtain ⟨⟨segment, after⟩, hsegment, h⟩ := bind_eq_ok.mp h
        exact hrest (slashName_isStep hsegment) h

theorem steps_of_isStep {segments : List Segment} (h : ∀ segment ∈ segments, segment.IsStep) :
    Steps segments := by
  induction segments with
  | nil => exact .nil
  | cons segment segments ih =>
      rw [List.forall_mem_cons] at h
      exact .step h.1 (ih h.2)

/-- A slash expression starts with a step. -/
theorem slashed_steps (fuel : Nat) {text : Text} {segments : List Segment}
    (h : slashed fuel text = .ok segments) :
    ∃ segment more, segments = segment :: more ∧ segment.IsStep ∧ Steps more := by
  induction fuel generalizing text segments with
  | zero => simp [slashed] at h
  | succ fuel ih =>
      unfold slashed at h
      obtain ⟨⟨found, rest⟩, hfound, h⟩ := bind_eq_ok.mp h
      obtain ⟨hne, hsteps⟩ := slashStep_isStep hfound
      obtain ⟨segment, others, rfl⟩ := List.exists_cons_of_ne_nil hne
      rw [List.forall_mem_cons] at hsteps
      have hothers := steps_of_isStep hsteps.2
      dsimp only at h
      split at h
      next =>
        cases h
        exact ⟨segment, others, rfl, hsteps.1, hothers⟩
      next => simp at h
      next => simp at h
      next =>
        obtain ⟨more, hmore, h⟩ := bind_eq_ok.mp h
        cases h
        obtain ⟨next, last, rfl, hnext, hlast⟩ := ih hmore
        exact ⟨segment, _, rfl, hsteps.1, hothers.append (.descent hnext hlast)⟩
      next =>
        obtain ⟨more, hmore, h⟩ := bind_eq_ok.mp h
        cases h
        obtain ⟨next, last, rfl, hnext, hlast⟩ := ih hmore
        exact ⟨segment, _, rfl, hsteps.1, hothers.append (.step hnext hlast)⟩
      next => simp at h

theorem expressible_of_path {text : Text} {result : Path} (h : path text = .ok result) :
    result.Expressible := by
  unfold path at h
  split at h
  next => simp at h
  next =>
    obtain ⟨segments, hsegments, h⟩ := bind_eq_ok.mp h
    cases h
    exact Path.expressible_of_steps (dotted_steps _ hsegments) (by simp)
  next =>
    obtain ⟨segments, hsegments, h⟩ := bind_eq_ok.mp h
    cases h
    obtain ⟨segment, more, rfl, hstep, hmore⟩ := slashed_steps _ hsegments
    exact Path.expressible_of_steps (.descent hstep hmore) (by simp)
  next =>
    obtain ⟨segments, hsegments, h⟩ := bind_eq_ok.mp h
    cases h
    obtain ⟨segment, more, rfl, hstep, hmore⟩ := slashed_steps _ hsegments
    exact Path.expressible_of_steps (.step hstep hmore) (by simp)
  next =>
    obtain ⟨segments, hsegments, h⟩ := bind_eq_ok.mp h
    cases h
    obtain ⟨segment, more, rfl, hstep, hmore⟩ := slashed_steps _ hsegments
    exact Path.expressible_of_steps (.step hstep hmore) (by simp [hstep.ne_descent])

end PathExpression

/-- A path that an expression stands for can be written. -/
theorem Path.expressible_of_parse {expression : Text} {path : Path}
    (h : Path.parse expression = .ok path) : path.Expressible := by
  unfold Path.parse at h
  dsimp only at h
  cases hread : PathExpression.path (Text.trim expression) with
  | error failure =>
      rw [hread] at h
      cases h
  | ok found =>
      rw [hread] at h
      obtain rfl : found = path := Except.ok.inj h
      exact PathExpression.expressible_of_path hread

end LosslessYaml
