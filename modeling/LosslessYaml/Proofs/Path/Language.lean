import LosslessYaml.Proofs.Path.Rendering
import Mathlib.Data.List.DropRight

/-!
# The language of a path

A path is matched by a search: a descent tries every number of steps, and a path that starts
anywhere tries every start.  This file says without a search what the search finds.  A segment takes
a piece of the steps, which is a single step unless the segment is a descent, and a path selects a
position if the steps to it, or the last ones of them, can be cut into such pieces.

Both searches are the same question about the ends of a list (`any_drop_iff`).  So a descent in
front of an anchored path and a path that starts anywhere come to the same, and they are also
written alike: the one is the other with two slashes in front.

Main statements: `Path.selects_iff_cut` and `Selector.compile_slashes`.
-/

namespace LosslessYaml

open Text

/-! ## What a segment takes -/

namespace Segment

/-- The place in a sequence of the given length that a number stands for.  A negative number counts
from the end, and its place may lie before the start. -/
def place (n : Int64) (length : Nat) : Int := if n.toInt < 0 then length + n.toInt else n.toInt

/-- The single steps that a segment admits.  A descent is not about single steps. -/
inductive Admits : Segment → Step → Prop
  | wildcard (step : Step) : Admits .wildcard step
  | child (key : Text) : Admits (.child key) (.key key)
  | anyOf {names : List Text} {key : Text} (hkey : key ∈ names) : Admits (.anyOf names) (.key key)
  | index {n : Int64} {i length : Nat} (hplace : i = place n length) :
      Admits (.index n) (.item i length)
  | slice {start stop : Option Int64} {i length : Nat} (hlength : i < length)
      (hstart : ∀ n ∈ start, place n length ≤ i) (hstop : ∀ n ∈ stop, i < place n length) :
      Admits (.slice start stop) (.item i length)

/-- The pieces that a segment takes: a descent takes any, another segment a step that it admits. -/
inductive Takes : Segment → List Step → Prop
  | descent (piece : List Step) : Takes .descent piece
  | step {segment : Segment} {step : Step} (hstep : segment.Admits step) : Takes segment [step]

section Numbers

variable {n : Int64} {i length : Nat}

theorem resolve_eq_some_iff : resolve n length = some i ↔ (i : Int) = place n length := by
  simp only [resolve, place]
  split
  · simp only [Option.some.injEq]
    omega
  · split
    · simp only [Option.some.injEq]
      omega
    · simp only [reduceCtorEq, false_iff]
      omega

theorem clamp_le_iff (h : i < length) : clamp n length ≤ i ↔ place n length ≤ i := by
  simp only [clamp, place]
  split <;> omega

theorem lt_clamp_iff : i < clamp n length ↔ i < length ∧ i < place n length := by
  simp only [clamp, place]
  split <;> omega

end Numbers

/-- Bounds that are cut to the ends of the sequence select the same items as those that are not. -/
theorem slice_selects_iff {start stop : Option Int64} {i length : Nat} :
    (slice start stop).selects (.item i length) = true ↔
      i < length ∧ (∀ n ∈ start, place n length ≤ i) ∧ ∀ n ∈ stop, i < place n length := by
  have hstop : i < stop.elim length (clamp · length) ↔
      i < length ∧ ∀ n ∈ stop, i < place n length := by
    cases stop with
    | none => simp
    | some n => simpa using lt_clamp_iff
  have hstart : i < length →
      (start.elim 0 (clamp · length) ≤ i ↔ ∀ n ∈ start, place n length ≤ i) := by
    intro hlength
    cases start with
    | none => simp
    | some n => simpa using clamp_le_iff hlength
  simp only [selects, Bool.and_eq_true, decide_eq_true_eq, hstop]
  constructor
  · rintro ⟨hfrom, hlength, hto⟩
    exact ⟨hlength, (hstart hlength).mp hfrom, hto⟩
  · rintro ⟨hlength, hfrom, hto⟩
    exact ⟨(hstart hlength).mpr hfrom, hlength, hto⟩

theorem selects_iff_admits {segment : Segment} {step : Step} :
    segment.selects step = true ↔ segment.Admits step := by
  constructor
  · intro h
    cases segment with
    | wildcard => exact .wildcard step
    | descent => simp [selects] at h
    | child name =>
        cases step with
        | key key =>
            obtain rfl : name = key := by simpa [selects] using h
            exact .child name
        | item i length => simp [selects] at h
    | anyOf names =>
        cases step with
        | key key => exact .anyOf (by simpa [selects] using h)
        | item i length => simp [selects] at h
    | index n =>
        cases step with
        | key key => simp [selects] at h
        | item i length => exact .index (resolve_eq_some_iff.mp (by simpa [selects] using h))
    | slice start stop =>
        cases step with
        | key key => simp [selects] at h
        | item i length =>
            obtain ⟨hlength, hstart, hstop⟩ := slice_selects_iff.mp h
            exact .slice hlength hstart hstop
  · intro h
    cases h with
    | wildcard => rfl
    | child => simp [selects]
    | anyOf hkey => simpa [selects] using hkey
    | index hplace => simpa [selects] using resolve_eq_some_iff.mpr hplace
    | slice hlength hstart hstop => exact slice_selects_iff.mpr ⟨hlength, hstart, hstop⟩

end Segment

/-! ## Cuts -/

/-- The steps can be cut into consecutive pieces, one for each of the segments, which takes it. -/
def Cut (segments : List Segment) (steps : List Step) : Prop :=
  ∃ pieces : List (List Step), pieces.flatten = steps ∧ List.Forall₂ Segment.Takes segments pieces

namespace Cut

theorem nil_iff {steps : List Step} : Cut [] steps ↔ steps = [] := by
  constructor
  · rintro ⟨pieces, rfl, hpieces⟩
    cases hpieces
    rfl
  · rintro rfl
    exact ⟨[], rfl, .nil⟩

theorem cons_iff {segment : Segment} {segments : List Segment} {steps : List Step} :
    Cut (segment :: segments) steps ↔
      ∃ piece rest, steps = piece ++ rest ∧ segment.Takes piece ∧ Cut segments rest := by
  constructor
  · rintro ⟨pieces, rfl, hpieces⟩
    cases hpieces with
    | @cons _ piece _ pieces htakes hpieces =>
        exact ⟨piece, pieces.flatten, rfl, htakes, pieces, rfl, hpieces⟩
  · rintro ⟨piece, rest, rfl, htakes, pieces, rfl, hpieces⟩
    exact ⟨piece :: pieces, rfl, .cons htakes hpieces⟩

/-- Without a descent every segment takes one step. -/
theorem length_eq {segments : List Segment} {steps : List Step} (h : Cut segments steps)
    (hdescent : .descent ∉ segments) : steps.length = segments.length := by
  induction segments generalizing steps with
  | nil =>
      rw [nil_iff.mp h]
      rfl
  | cons segment segments ih =>
      obtain ⟨piece, rest, rfl, htakes, hrest⟩ := cons_iff.mp h
      rw [List.mem_cons, not_or] at hdescent
      have hlength := ih hrest hdescent.2
      cases htakes with
      | descent => exact absurd rfl hdescent.1
      | step => simp [hlength]

end Cut

/-! ## The search -/

/-- To try every number of steps is to ask for an end of the list. -/
theorem any_drop_iff {p : List Step → Bool} {steps : List Step} :
    ((List.range (steps.length + 1)).any fun n => p (steps.drop n)) = true ↔
      ∃ last, last <:+ steps ∧ p last = true := by
  rw [List.any_eq_true]
  constructor
  · rintro ⟨n, -, hn⟩
    exact ⟨steps.drop n, List.drop_suffix n steps, hn⟩
  · rintro ⟨last, ⟨front, rfl⟩, hlast⟩
    refine ⟨front.length, ?_, by rwa [List.drop_left]⟩
    rw [List.mem_range, List.length_append]
    omega

theorem matchAll_step_nil {segment : Segment} (h : segment ≠ .descent) (segments : List Segment) :
    matchAll (segment :: segments) [] = false := by
  cases segment with
  | descent => exact absurd rfl h
  | _ => rfl

theorem matchAll_step_cons {segment : Segment} (h : segment ≠ .descent) (segments : List Segment)
    (step : Step) (steps : List Step) :
    matchAll (segment :: segments) (step :: steps) =
      (segment.selects step && matchAll segments steps) := by
  cases segment with
  | descent => exact absurd rfl h
  | _ => rfl

/-- The search finds a cut exactly if there is one.  The recursion of the search goes through the
segments, and so does the cut. -/
theorem matchAll_iff_cut {segments : List Segment} {steps : List Step} :
    matchAll segments steps = true ↔ Cut segments steps := by
  induction segments generalizing steps with
  | nil => rw [Cut.nil_iff, ← List.isEmpty_iff]; rfl
  | cons segment segments ih =>
      rw [Cut.cons_iff]
      by_cases hdescent : segment = .descent
      · subst hdescent
        constructor
        · intro h
          obtain ⟨rest, ⟨piece, rfl⟩, hrest⟩ := any_drop_iff.mp h
          exact ⟨piece, rest, rfl, .descent piece, ih.mp hrest⟩
        · rintro ⟨piece, rest, rfl, -, hrest⟩
          exact any_drop_iff.mpr ⟨rest, List.suffix_append piece rest, ih.mpr hrest⟩
      cases steps with
      | nil =>
          -- nothing is left for a segment that needs a step
          rw [matchAll_step_nil hdescent]
          refine iff_of_false Bool.false_ne_true ?_
          rintro ⟨piece, rest, hsteps, htakes, -⟩
          cases htakes with
          | descent => exact hdescent rfl
          | step => simp at hsteps
      | cons step steps =>
          rw [matchAll_step_cons hdescent, Bool.and_eq_true, Segment.selects_iff_admits, ih]
          constructor
          · rintro ⟨hstep, hcut⟩
            exact ⟨[step], steps, rfl, .step hstep, hcut⟩
          · rintro ⟨piece, rest, hsteps, htakes, hrest⟩
            cases htakes with
            | descent => exact absurd rfl hdescent
            | step hstep =>
                obtain ⟨rfl, rfl⟩ := List.cons.inj hsteps
                exact ⟨hstep, hrest⟩

namespace Path

theorem selects_iff {path : Path} {steps : List Step} :
    path.selects steps = true ↔
      ∃ last, last <:+ steps ∧ (path.anchored = true → last = steps) ∧ Cut path.segments last := by
  rw [selects]
  split
  next hanchored =>
    rw [matchAll_iff_cut]
    constructor
    · intro hcut
      exact ⟨steps, List.suffix_refl steps, fun _ => rfl, hcut⟩
    · rintro ⟨last, -, hall, hcut⟩
      rwa [← hall hanchored]
  next hrelative =>
    rw [any_drop_iff]
    simp only [matchAll_iff_cut, hrelative, false_imp_iff, true_and, Bool.false_eq_true]

/-- A path selects a position exactly if the steps to it can be cut into pieces that its segments
take one by one.  If the path is not anchored, that is asked of the last steps only, however many;
without a descent these are as many as there are segments, and the answer depends on no other
step. -/
theorem selects_iff_cut (path : Path) (steps : List Step) :
    (path.selects steps = true ↔
      ∃ last, last <:+ steps ∧ (path.anchored = true → last = steps) ∧ Cut path.segments last) ∧
    (path.anchored = false → .descent ∉ path.segments →
      path.selects steps = path.selects (steps.rtake path.segments.length)) := by
  refine ⟨selects_iff, fun hrelative hdescent => ?_⟩
  rw [Bool.eq_iff_iff, selects_iff, selects_iff]
  simp only [hrelative, Bool.false_eq_true, false_imp_iff, true_and]
  constructor
  · rintro ⟨last, hlast, hcut⟩
    have htake : steps.rtake path.segments.length = last := by
      rw [List.rtake, ← hcut.length_eq hdescent]
      exact (List.suffix_iff_eq_drop.mp hlast).symm
    exact ⟨last, ⟨[], htake.symm⟩, hcut⟩
  · rintro ⟨last, hlast, hcut⟩
    exact ⟨last, hlast.trans (List.drop_suffix _ steps), hcut⟩

/-- The last item of `a` is selected below any steps, and steps above do not matter.  The second
path has two descents; the first one takes nothing here and the other one takes two steps. -/
theorem selects_iff_cut_lastItem :
    let path : Path := ⟨false, [.child ['a'], .index (-1)]⟩
    let deep : Path := ⟨true, [.descent, .child ['a'], .descent]⟩
    let steps : List Step := [.key ['x'], .item 0 1, .key ['a'], .item 2 3]
    .descent ∉ path.segments ∧
      path.selects steps = path.selects [.key ['a'], .item 2 3] ∧
      path.selects steps = true ∧
      deep.selects [.key ['a'], .item 2 3, .key ['x']] = true := by
  intro path deep steps
  have hdescent : .descent ∉ path.segments := by decide
  refine ⟨hdescent, (selects_iff_cut path steps).2 rfl hdescent, ?_, ?_⟩
  · refine (selects_iff_cut path steps).1.mpr
      ⟨[.key ['a'], .item 2 3], ⟨[.key ['x'], .item 0 1], rfl⟩, nofun, ?_⟩
    exact ⟨[[.key ['a']], [.item 2 3]], rfl,
      .cons (.step (.child _)) (.cons (.step (.index rfl)) .nil)⟩
  · refine (selects_iff_cut deep _).1.mpr ⟨_, List.suffix_refl _, fun _ => rfl, ?_⟩
    exact ⟨[[], [.key ['a']], [.item 2 3, .key ['x']]], rfl,
      .cons (.descent _) (.cons (.step (.child _)) (.cons (.descent _) .nil))⟩

end Path

/-! ## Paths that start anywhere -/

/-- A path that starts anywhere is the anchored one with a descent in front. -/
theorem Path.selects_descent (segments : List Segment) (steps : List Step) :
    Path.selects ⟨true, .descent :: segments⟩ steps = Path.selects ⟨false, segments⟩ steps := by
  rw [Path.selects, Path.selects, if_pos rfl, if_neg (by simp)]
  rfl

namespace PathExpression

/-- An expression that starts with neither a slash nor a dollar sign has slashes between its steps,
and starts anywhere. -/
theorem path_relative {text : Text} {result : Path} (hne : text ≠ [])
    (hslash : text.head? ≠ some '/') (hdollar : text.head? ≠ some '$') :
    path text = .ok result ↔
      ∃ segments, slashed (text.length + 1) text = .ok segments ∧ ⟨false, segments⟩ = result := by
  have hpath : path text =
      slashed (text.length + 1) text >>= fun segments => .ok ⟨false, segments⟩ := by
    unfold path
    split
    next => exact absurd rfl hne
    next => simp at hdollar
    next => simp at hslash
    next => simp at hslash
    next => rfl
  simp only [hpath, Reader.bind_eq_ok, Except.ok.injEq]

/-- Two slashes in front stand for a descent, and what follows is read as if they were not there. -/
theorem path_slashes {text : Text} {result : Path} :
    path ('/' :: '/' :: text) = .ok result ↔
      ∃ segments, slashed (text.length + 1) text = .ok segments ∧
        ⟨true, .descent :: segments⟩ = result := by
  simp only [path, Reader.bind_eq_ok, Except.ok.injEq]

theorem trim_after_slashes {text : Text} (htrim : trim text = text) :
    trim ('/' :: '/' :: text) = '/' :: '/' :: text := by
  refine trim_eq_self (by simp [isWhitespace]) fun c hc => ?_
  rw [List.getLast?_cons_cons, List.getLast?_cons] at hc
  cases hlast : text.getLast? with
  | none =>
      rw [hlast] at hc
      cases hc
      rfl
  | some d =>
      rw [hlast] at hc
      cases hc
      exact visibleEnd_of_trim htrim d hlast

end PathExpression

namespace Selector

open PathExpression

/-- A selector is compiled from an expression exactly if its path is read from it. -/
theorem compile_eq_ok_iff {expression : Text} {selector : Selector} :
    compile expression = .ok selector ↔
      PathExpression.path (trim expression) = .ok selector.path ∧
        selector.expression = expression := by
  unfold compile Path.parse
  dsimp only
  cases hread : PathExpression.path (trim expression) with
  | error failure =>
      constructor
      · intro h
        cases h
      · rintro ⟨h, -⟩
        cases h
  | ok path =>
      constructor
      · intro h
        cases h
        exact ⟨rfl, rfl⟩
      · rintro ⟨h, rfl⟩
        cases h
        rfl

/-- Two slashes in front of an expression that starts anywhere make no difference: one is compiled
exactly if the other is, and the two select the same positions. -/
theorem compile_slashes {expression : Text} (htrim : trim expression = expression)
    (hne : expression ≠ []) (hslash : expression.head? ≠ some '/')
    (hdollar : expression.head? ≠ some '$') :
    ((∃ anchored, compile ('/' :: '/' :: expression) = .ok anchored) ↔
      ∃ relative, compile expression = .ok relative) ∧
    ∀ anchored relative, compile ('/' :: '/' :: expression) = .ok anchored →
      compile expression = .ok relative →
      ∀ steps, anchored.path.selects steps = relative.path.selects steps := by
  have hanchored : ∀ {anchored}, compile ('/' :: '/' :: expression) = .ok anchored ↔
      (∃ segments, slashed (expression.length + 1) expression = .ok segments ∧
        ⟨true, .descent :: segments⟩ = anchored.path) ∧
      anchored.expression = '/' :: '/' :: expression := by
    intro anchored
    rw [compile_eq_ok_iff, trim_after_slashes htrim, path_slashes]
  have hrelative : ∀ {relative}, compile expression = .ok relative ↔
      (∃ segments, slashed (expression.length + 1) expression = .ok segments ∧
        ⟨false, segments⟩ = relative.path) ∧ relative.expression = expression := by
    intro relative
    rw [compile_eq_ok_iff, htrim, path_relative hne hslash hdollar]
  refine ⟨⟨?_, ?_⟩, ?_⟩
  · rintro ⟨anchored, hcompile⟩
    obtain ⟨⟨segments, hread, -⟩, -⟩ := hanchored.mp hcompile
    exact ⟨⟨_, _⟩, hrelative.mpr ⟨⟨segments, hread, rfl⟩, rfl⟩⟩
  · rintro ⟨relative, hcompile⟩
    obtain ⟨⟨segments, hread, -⟩, -⟩ := hrelative.mp hcompile
    exact ⟨⟨_, _⟩, hanchored.mpr ⟨⟨segments, hread, rfl⟩, rfl⟩⟩
  · intro anchored relative hfirst hsecond steps
    obtain ⟨⟨segments, hread, hpath⟩, -⟩ := hanchored.mp hfirst
    obtain ⟨⟨others, hagain, hother⟩, -⟩ := hrelative.mp hsecond
    obtain rfl : segments = others := Except.ok.inj (hread.symm.trans hagain)
    rw [← hpath, ← hother]
    exact Path.selects_descent segments steps

/-- Two different paths that select the same positions, with a negative index, a descent and a quoted
key in both. -/
theorem compile_slashes_quotedKey :
    ∃ anchored relative, compile "//a[-1]//'b/c'".toList = .ok anchored ∧
      compile "a[-1]//'b/c'".toList = .ok relative ∧ anchored.path ≠ relative.path ∧
      ∀ steps, anchored.path.selects steps = relative.path.selects steps := by
  let segments : List Segment := [.child ['a'], .index (-1), .descent, .child ['b', '/', 'c']]
  let anchored : Selector := ⟨"//a[-1]//'b/c'".toList, ⟨true, .descent :: segments⟩⟩
  let relative : Selector := ⟨"a[-1]//'b/c'".toList, ⟨false, segments⟩⟩
  have hanchored : compile anchored.expression = .ok anchored := by decide +kernel
  have hrelative : compile relative.expression = .ok relative := by decide +kernel
  refine ⟨anchored, relative, hanchored, hrelative, by decide, ?_⟩
  exact (compile_slashes (by decide +kernel) (by decide) (by decide) (by decide)).2
    anchored relative hanchored hrelative

end Selector

end LosslessYaml
