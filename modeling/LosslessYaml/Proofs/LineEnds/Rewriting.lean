import LosslessYaml.Proofs.LineEnds.Stream
import LosslessYaml.Proofs.ReadBack.Stream
import LosslessYaml.Proofs.Reading.Mark
import LosslessYaml.Proofs.Trace.Progress

/-!
# Changing values in lines that end in a carriage return

A change of values can be made in a text whose lines end in a line feed and the lines be converted
after it, or in the converted text.  The results are the same, and every line of the result ends in
a carriage return and a line feed.

Names in a path are compared with keys as these are written, so a path with a name that goes on over
lines is converted with the text.

Main statement: `ChangeValue.print_run_crlf`.
-/

namespace LosslessYaml

open Text Lookahead

/-! ## Sources -/

theorem splitMark_crlf (source : Text) :
    splitMark (crlf source) = (crlf (splitMark source).1, crlf (splitMark source).2) := by
  by_cases hmark : source.head? = some '\ufeff'
  · obtain ⟨tail, rfl⟩ := List.head?_eq_some_iff.mp hmark
    rw [crlf_cons (by decide)]
    rfl
  · have hmark' : (crlf source).head? ≠ some '\ufeff' := by
      rwa [ne_eq, ← beq_iff_eq, head?_crlf (by decide) (by decide), beq_iff_eq]
    rw [Stream.splitMark_of_head hmark, Stream.splitMark_of_head hmark']
    rfl

namespace Stream

/-- What a source is parsed as is what its record results in. -/
theorem parse_eq_ok_iff_traced {source : Text} {stream : Stream} :
    Stream.parse source = .ok stream ↔
      ∃ last, (Stream.traced source).result = .ok (stream, last) := by
  rw [Stream.parse_eq_ok_iff, Stream.traced, Traced.stream_result]
  constructor
  · rintro ⟨last, hnode⟩
    exact ⟨last, hnode.stream_eq _ (Nat.le_refl _)⟩
  · rintro ⟨last, hread⟩
    exact ⟨last, Reader.stream_rules hread⟩

/-- The two texts are read alike, or one of them is not read. -/
theorem traced_agreeOrStuck (source : Text) :
    AgreeOrStuck (fun _ => False) (Reader.InStep ConvertedStream) (Stream.traced source)
      (Stream.traced (crlf source)).result := by
  -- The first text is read with the bound of the second one, which is longer.
  have hlonger : readingFuel (splitMark source).2 ≤ readingFuel (crlf (splitMark source).2) := by
    have hlength := length_le_crlf (splitMark source).2
    rw [readingFuel, readingFuel]
    omega
  have hsame : Traced.stream (readingFuel (crlf (splitMark source).2)) (splitMark source).1
      { rest := (splitMark source).2 } = Stream.traced source :=
    Traced.stream_eq_of_le (Nat.le_refl _) hlonger
  rw [← hsame, Stream.traced, Traced.stream_result, splitMark_crlf]
  exact Reader.stream_agreeOrStuck _ _ ⟨rfl, rfl⟩

/-- What both texts are read as. -/
theorem parse_crlf (source : Text) :
    (KeysOnLines source →
      ((∃ stream', Stream.parse (crlf source) = .ok stream') ↔
        ∃ stream, Stream.parse source = .ok stream)) ∧
    ∀ {stream stream' : Stream}, Stream.parse source = .ok stream →
      Stream.parse (crlf source) = .ok stream' → ConvertedStream stream stream' := by
  simp only [parse_eq_ok_iff_traced]
  cases traced_agreeOrStuck source with
  | agree hagree =>
      refine ⟨fun _ => ?_, ?_⟩
      · have hiff := hagree.exists_ok_iff
        rw [Prod.exists, Prod.exists] at hiff
        exact hiff.symm
      · rintro stream stream' ⟨last, hok⟩ ⟨last', hok'⟩
        exact (hagree.related_of_ok hok hok').1
  | neither hfirst hsecond =>
      refine ⟨fun _ => ⟨?_, ?_⟩, ?_⟩
      · rintro ⟨stream', last', hok'⟩
        exact (hsecond _ hok').elim
      · rintro ⟨stream, last, hok⟩
        exact (hfirst _ hok).elim
      · rintro stream stream' ⟨last, hok⟩ -
        exact (hfirst _ hok).elim
  | parted hkey hstuck =>
      refine ⟨fun hkeys => ?_, ?_⟩
      · obtain ⟨event, hevent, hbroken⟩ := hkey
        rw [hkeys event hevent] at hbroken
        cases hbroken
      · rintro stream stream' ⟨last, hok⟩ ⟨last', hok'⟩
        exact (hstuck.elim (fun h => h _ hok) fun h => h _ hok').elim

end Stream

/-! ## Paths -/

/-- The names in a segment. -/
def Segment.names : Segment → List Text
  | .child name => [name]
  | .anyOf names => names
  | _ => []

/-- The names in a path. -/
def Path.names (path : Path) : List Text := path.segments.flatMap Segment.names

/-- A path whose names have no line breaks is its own conversion. -/
theorem Path.crlf_eq_self {path : Path} (h : ∀ name ∈ path.names, '\n' ∉ name) :
    path.crlf = path := by
  have hsegment : ∀ segment ∈ path.segments, segment.crlf = segment := by
    intro segment hsegment
    have hnames : ∀ name ∈ segment.names, '\n' ∉ name := fun name hname =>
      h name (List.mem_flatMap.mpr ⟨segment, hsegment, hname⟩)
    cases segment with
    | child name =>
        have hname := Text.crlf_eq_self (hnames name List.mem_cons_self)
        rw [Segment.crlf, hname]
    | anyOf names =>
        have hmap : names.map Text.crlf = names.map id :=
          List.map_congr_left fun name hname => Text.crlf_eq_self (hnames name hname)
        rw [Segment.crlf, hmap, List.map_id]
    | index _ | slice _ _ | wildcard | descent => rfl
  rw [Path.crlf, List.map_congr_left hsegment, List.map_id']

/-! ## Changes -/

namespace ChangeValue

/-- A change of values commutes with the conversion of line ends.  Both texts are read or neither
is, if no key of a block mapping that the reader finds goes on over a line break. -/
theorem print_run_crlf (source : Text) :
    (KeysOnLines source →
      ((∃ stream', Stream.parse (crlf source) = .ok stream') ↔
        ∃ stream, Stream.parse source = .ok stream)) ∧
    ∀ (stream stream' : Stream), Stream.parse source = .ok stream →
      Stream.parse (crlf source) = .ok stream' →
      ∀ (options : ChangeOptions) (recipe : ChangeValue), build options = .ok recipe →
        ((∀ name ∈ recipe.path.names, '\n' ∉ name) →
          (∀ value ∈ recipe.targets stream', value.print.getLast? ≠ some '\r') →
          (recipe.run stream').print = crlf (recipe.run stream).print) ∧
        ∀ (options' : ChangeOptions) (recipe' : ChangeValue), build options' = .ok recipe' →
          recipe'.path = recipe.path.crlf → recipe'.options.value = recipe.options.value →
          (∀ value ∈ recipe'.targets stream', value.print.getLast? ≠ some '\r') →
          (recipe'.run stream').print = crlf (recipe.run stream).print := by
  obtain ⟨hreads, hconverted⟩ := Stream.parse_crlf source
  refine ⟨hreads, fun stream stream' hparse hparse' options recipe hbuild => ?_⟩
  have hstream := hconverted hparse hparse'
  have hline := (sound_of_build hbuild).oneLine.1
  constructor
  · intro hnames htargets
    have hsame : Converts recipe recipe := ⟨(Path.crlf_eq_self hnames).symm, rfl, hline⟩
    exact (hsame.run hstream htargets).print
  · intro options' recipe' _ hpath hvalue htargets
    have hother : Converts recipe recipe' := ⟨hpath, hvalue, hline⟩
    exact (hother.run hstream htargets).print

/-- A literal scalar before the change takes the carriage return of its last line, and none is
lost.  That its text looks like a broken key does no harm.  Values that go on over lines are
replaced, and so is one whose key does. -/
theorem print_run_crlf_literal :
    ∃ source stream stream' outer inner inner',
      source = "a: |\n  \"x\\\n  y\": 1\nb: \x7b\"p\nq\": [1,\n 2]\x7d # c\n".toList ∧
      Stream.parse source = .ok stream ∧ Stream.parse (crlf source) = .ok stream' ∧
      ((∃ stream', Stream.parse (crlf source) = .ok stream') ↔
        ∃ stream, Stream.parse source = .ok stream) ∧
      build ⟨"b".toList, "y".toList⟩ = .ok outer ∧
      (outer.run stream').print = crlf (outer.run stream).print ∧
      (outer.run stream').print = "a: |\r\n  \"x\\\r\n  y\": 1\r\nb: y # c\r\n".toList ∧
      build ⟨"['p\nq']".toList, "y".toList⟩ = .ok inner ∧
      build ⟨"['p\r\nq']".toList, "y".toList⟩ = .ok inner' ∧
      (inner'.run stream').print = crlf (inner.run stream).print ∧
      (inner'.run stream').print =
        "a: |\r\n  \"x\\\r\n  y\": 1\r\nb: \x7b\"p\r\nq\": y\x7d # c\r\n".toList := by
  have hkeys : KeysOnLines
      "a: |\n  \"x\\\n  y\": 1\nb: \x7b\"p\nq\": [1,\n 2]\x7d # c\n".toList := by
    decide +kernel
  have hcheck : (match
      Stream.parse "a: |\n  \"x\\\n  y\": 1\nb: \x7b\"p\nq\": [1,\n 2]\x7d # c\n".toList,
      Stream.parse (crlf "a: |\n  \"x\\\n  y\": 1\nb: \x7b\"p\nq\": [1,\n 2]\x7d # c\n".toList),
      build ⟨"b".toList, "y".toList⟩, build ⟨"['p\nq']".toList, "y".toList⟩,
      build ⟨"['p\r\nq']".toList, "y".toList⟩ with
    | .ok _, .ok stream', .ok outer, .ok inner, .ok inner' =>
        decide ((∀ name ∈ outer.path.names, '\n' ∉ name) ∧
          (∀ value ∈ outer.targets stream', value.print.getLast? ≠ some '\r') ∧
          (outer.run stream').print = "a: |\r\n  \"x\\\r\n  y\": 1\r\nb: y # c\r\n".toList ∧
          inner'.path = inner.path.crlf ∧ inner'.options.value = inner.options.value ∧
          (∀ value ∈ inner'.targets stream', value.print.getLast? ≠ some '\r') ∧
          (inner'.run stream').print =
            "a: |\r\n  \"x\\\r\n  y\": 1\r\nb: \x7b\"p\r\nq\": y\x7d # c\r\n".toList)
    | _, _, _, _, _ => false) = true := by decide +kernel
  obtain ⟨hreads, hprint⟩ :=
    print_run_crlf "a: |\n  \"x\\\n  y\": 1\nb: \x7b\"p\nq\": [1,\n 2]\x7d # c\n".toList
  split at hcheck
  next stream stream' outer inner inner' hparse hparse' houter hinner hinner' =>
    obtain ⟨hnames, htargets, hresult, hpath, hvalue, htargets', hresult'⟩ :=
      of_decide_eq_true hcheck
    exact ⟨_, stream, stream', outer, inner, inner', rfl, hparse, hparse', hreads hkeys, houter,
      (hprint _ _ hparse hparse' _ _ houter).1 hnames htargets, hresult, hinner, hinner',
      (hprint _ _ hparse hparse' _ _ hinner).2 _ _ hinner' hpath hvalue htargets', hresult'⟩
  next => cases hcheck

/-- A name is compared with a key as it is written, so one that holds a line feed selects no key in
the converted text. -/
theorem print_run_crlf_brokenName :
    ∃ source stream stream' recipe,
      source = "\x7b\"a\nb\": 1\x7d\n".toList ∧ '\r' ∉ source ∧
      Stream.parse source = .ok stream ∧ Stream.parse (crlf source) = .ok stream' ∧
      build ⟨"['a\nb']".toList, "y".toList⟩ = .ok recipe ∧
      (recipe.run stream').print ≠ crlf (recipe.run stream).print := by
  have hcheck : (match Stream.parse "\x7b\"a\nb\": 1\x7d\n".toList,
      Stream.parse (crlf "\x7b\"a\nb\": 1\x7d\n".toList),
      build ⟨"['a\nb']".toList, "y".toList⟩ with
    | .ok stream, .ok stream', .ok recipe =>
        decide ((recipe.run stream').print ≠ crlf (recipe.run stream).print)
    | _, _, _ => false) = true := by decide +kernel
  split at hcheck
  next stream stream' recipe hparse hparse' hbuild =>
    exact ⟨_, stream, stream', recipe, rfl, by decide +kernel, hparse, hparse', hbuild,
      of_decide_eq_true hcheck⟩
  next => cases hcheck

end ChangeValue

end LosslessYaml
