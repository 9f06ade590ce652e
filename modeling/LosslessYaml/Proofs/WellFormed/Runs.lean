import LosslessYaml.Proofs.Recipe.Several
import LosslessYaml.Proofs.WellFormed.Reading

/-!
# Recipes keep trees well formed

A recipe replaces values and nothing else, so a collection holds what it held beside its values.
The new value is a plain scalar, which has to be fit for the inside of a flow collection; this is
what the check of a value establishes.

Main statement: `runAll_wellFormed`.
-/

namespace LosslessYaml

open Text

/-! ## Collections with other values -/

theorem Mapping.WellFormed.mapValues {β : Type} {inFlow : Bool} {m : Mapping β}
    (h : m.WellFormed inFlow) (value : Entry β → β) :
    Mapping.WellFormed inFlow
      { m with entries := m.entries.map fun entry => { entry with value := value entry } } where
  lead := h.lead
  anchor := h.anchor
  separates := by
    rw [List.map_map]
    exact h.separates
  entries := by
    rw [List.forall_mem_map]
    intro entry hentry
    obtain ⟨hlead, hkey, hcolon⟩ := h.entries entry hentry
    exact ⟨hlead, hkey, hcolon⟩

theorem Sequence.WellFormed.mapValues {β : Type} {inFlow : Bool} {q : Sequence β}
    (h : q.WellFormed inFlow) (value : Nat → Item β → β) :
    Sequence.WellFormed inFlow
      { q with items := q.items.mapIdx fun index item =>
        { item with value := value index item } } where
  lead := h.lead
  anchor := h.anchor
  separates := by
    have hcommas : (q.items.mapIdx fun index item =>
        { item with value := value index item }).map Item.comma = q.items.map Item.comma :=
      List.ext_getElem (by simp) (by simp)
    rw [hcommas]
    exact h.separates
  items := by
    intro item hitem
    obtain ⟨index, hindex, rfl⟩ := List.mem_mapIdx.mp hitem
    obtain ⟨hdash, hlead, hnil⟩ := h.items _ (List.getElem_mem hindex)
    exact ⟨hdash, hlead, hnil⟩

namespace ChangeValue

variable {recipe : ChangeValue} {inFlow : Bool} {value : Block}

theorem newValue_wellFormed (hsound : ValueProblem.Sound recipe.options.value)
    (h : value.WellFormed inFlow) : (recipe.newValue value).WellFormed inFlow := by
  have hlead : Trivia (newLead value) := by
    have hold : Trivia value.lead := by
      cases h with
      | scalar hscalar => exact hscalar.lead
      | aliasNode hlead => exact hlead
      | mapping hmapping => exact hmapping.lead
      | sequence hsequence => exact hsequence.lead
    rcases newLead_cases value with ⟨-, hlead⟩ | ⟨-, more, hlead, hmore⟩
    · rw [hlead]
      exact .of_blank (by simp [isBlank])
    · rw [hlead]
      refine hold.append (.of_blank fun c hc => ?_)
      rw [hmore c hc]
      rfl
  refine .scalar ⟨hlead, by simp, by simp, fun _ _ c hc => ⟨?_, hsound.flow c hc⟩⟩
  rintro rfl
  exact hsound.oneLine.1 hc

theorem settle_wellFormed (hsound : ValueProblem.Sound recipe.options.value)
    {address : List Step} (h : value.WellFormed inFlow)
    (hbelow : (recipe.descendBlock address value).WellFormed inFlow) :
    (recipe.settle address value).WellFormed inFlow := by
  rw [settle]
  split
  · split
    · exact h
    · exact newValue_wellFormed hsound h
  · exact hbelow

theorem descendBlock_wellFormed (hsound : ValueProblem.Sound recipe.options.value) {block : Block}
    (h : block.WellFormed inFlow) (address : List Step) :
    (recipe.descendBlock address block).WellFormed inFlow := by
  induction h generalizing address with
  | scalar hscalar =>
      rw [descendBlock_leaf rfl]
      exact .scalar hscalar
  | aliasNode hlead =>
      rw [descendBlock_leaf rfl]
      exact .aliasNode hlead
  | mapping hmapping hvalues ih =>
      rw [descendBlock_mapping]
      refine .mapping (hmapping.mapValues _) ?_
      rw [List.forall_mem_map]
      intro entry hentry
      exact settle_wellFormed hsound (hvalues entry hentry) (ih entry hentry _)
  | sequence hsequence hvalues ih =>
      rw [descendBlock_sequence]
      refine .sequence (hsequence.mapValues _) fun item hitem => ?_
      obtain ⟨index, hindex, rfl⟩ := List.mem_mapIdx.mp hitem
      exact ih _ (List.getElem_mem hindex) _

theorem run_wellFormed {stream : Stream} (hsound : ValueProblem.Sound recipe.options.value)
    (h : stream.WellFormed) : (recipe.run stream).WellFormed := by
  rw [run_eq, descend]
  exact {
    documents_ne_nil := by simpa using h.documents_ne_nil
    roots := by
      rw [List.forall_mem_map]
      intro document hdocument
      exact descendBlock_wellFormed hsound (h.roots document hdocument) []
    apart := (List.isChain_map _).mpr h.apart
    ended := by
      intro hsuffix last hlast
      rw [List.getLast?_map] at hlast
      obtain ⟨document, hdocument, rfl⟩ := Option.map_eq_some_iff.mp hlast
      exact h.ended hsuffix document hdocument
    first := by
      intro first hfirst
      rw [List.head?_map] at hfirst
      obtain ⟨document, hdocument, rfl⟩ := Option.map_eq_some_iff.mp hfirst
      exact h.first document hdocument
    leads := by
      rw [← List.map_tail, List.forall_mem_map]
      exact h.leads
    endings := by
      rw [List.forall_mem_map]
      exact h.endings
    suffix := h.suffix }

end ChangeValue

/-- What the recipes of a list keep one by one, the list keeps. -/
theorem runAll_keeps_wellFormed {recipes : List ChangeValue} {stream : Stream}
    (hsound : ∀ recipe ∈ recipes, ValueProblem.Sound recipe.options.value)
    (h : stream.WellFormed) : (runAll recipes stream).WellFormed := by
  induction recipes generalizing stream with
  | nil => exact h
  | cons recipe recipes ih =>
      rw [List.forall_mem_cons] at hsound
      exact ih hsound.2 (ChangeValue.run_wellFormed hsound.1 h)

/-- Every tree that was read is well formed, and it is so after any number of recipes that were
found to be sound. -/
theorem runAll_wellFormed {source : Text} {stream : Stream} {recipes : List ChangeValue}
    (hparse : Stream.parse source = .ok stream)
    (hbuild : ∀ recipe ∈ recipes, ∃ options, ChangeValue.build options = .ok recipe) :
    (runAll recipes stream).WellFormed := by
  refine runAll_keeps_wellFormed (fun recipe hrecipe => ?_) (Stream.wellFormed_of_parse hparse)
  obtain ⟨options, hoptions⟩ := hbuild recipe hrecipe
  exact ChangeValue.sound_of_build hoptions

/-- A stream with a directive, a comment, an anchored key and a collection in brackets, of which one
recipe replaces a part and the next one the whole. -/
theorem runAll_wellFormed_brackets :
    ∃ inner outer stream,
      ChangeValue.build ⟨"b".toList, "x".toList⟩ = .ok inner ∧
      ChangeValue.build ⟨"/a".toList, "y".toList⟩ = .ok outer ∧
      Stream.parse "%D\n---\na: {&k b: [1, 2], c: 3} # d\n".toList = .ok stream ∧
      (runAll [inner] stream).print = "%D\n---\na: {&k b: x, c: 3} # d\n".toList ∧
      (runAll [inner, outer] stream).print = "%D\n---\na: y # d\n".toList ∧
      (runAll [inner] stream).WellFormed ∧ (runAll [inner, outer] stream).WellFormed := by
  let inner : ChangeValue := ⟨⟨"b".toList, "x".toList⟩, ⟨false, [.child "b".toList]⟩⟩
  let outer : ChangeValue := ⟨⟨"/a".toList, "y".toList⟩, ⟨true, [.child "a".toList]⟩⟩
  have hinner : ChangeValue.build inner.options = .ok inner := by decide +kernel
  have houter : ChangeValue.build outer.options = .ok outer := by decide +kernel
  have hprint : (Stream.parse "%D\n---\na: {&k b: [1, 2], c: 3} # d\n".toList).toOption.map
      (fun stream => ((runAll [inner] stream).print, (runAll [inner, outer] stream).print)) =
      some ("%D\n---\na: {&k b: x, c: 3} # d\n".toList, "%D\n---\na: y # d\n".toList) := by
    decide +kernel
  cases hparse : Stream.parse "%D\n---\na: {&k b: [1, 2], c: 3} # d\n".toList with
  | error error =>
      rw [hparse] at hprint
      cases hprint
  | ok stream =>
      rw [hparse] at hprint
      obtain ⟨hfirst, hboth⟩ := Prod.mk.inj (Option.some.inj hprint)
      refine ⟨inner, outer, stream, hinner, houter, rfl, hfirst, hboth, ?_, ?_⟩
      · exact runAll_wellFormed hparse (by simpa using ⟨_, hinner⟩)
      · exact runAll_wellFormed hparse (by simpa using ⟨⟨_, hinner⟩, _, houter⟩)

end LosslessYaml
