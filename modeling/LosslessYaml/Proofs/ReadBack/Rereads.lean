import LosslessYaml.Reading.Reader

/-!
# Reading the same again

`Rereads` is the statement that is proved of every part of a tree: reading the changed text of the
part gives what the changed part says exactly if the part is legible, and then the reader is where
the text after the part starts.  Both directions are needed at once, since a part is read only after
the parts before it were read well.

The lemmas compose it along the rules of reading: a part that is read through another part, after a
step, or after another part.
-/

namespace LosslessYaml

/-- What reading at a place gives is the `same` exactly if it is `legible`, and the reader is then
at a `synced` place. -/
structure Rereads {α : Type} (reads : α → Reader → Prop) (same : α → Prop)
    (synced : Reader → Prop) (legible : Bool) : Prop where
  complete : legible = true → ∃ again last, reads again last ∧ same again
  sound : ∀ {again : α} {last : Reader}, reads again last → same again →
    legible = true ∧ synced last

/-- Where reading has one result, only that one needs to be looked at. -/
theorem Rereads.of_unique {α : Type} {reads : α → Reader → Prop} {same : α → Prop}
    {synced : Reader → Prop} {legible : Bool} {node : α} {last : Reader}
    (hreads : reads node last)
    (hunique : ∀ {again : α} {last' : Reader}, reads again last' → again = node ∧ last' = last)
    (hsame : same node ↔ legible = true) (hsynced : same node → synced last) :
    Rereads reads same synced legible where
  complete hlegible := ⟨node, last, hreads, hsame.mpr hlegible⟩
  sound hagain hdata := by
    obtain ⟨rfl, rfl⟩ := hunique hagain
    exact ⟨hsame.mp hdata, hsynced hdata⟩

theorem Rereads.weaken {α : Type} {reads : α → Reader → Prop} {same : α → Prop}
    {synced synced' : Reader → Prop} {legible : Bool} (h : Rereads reads same synced legible)
    (hsynced : ∀ {last}, synced last → synced' last) : Rereads reads same synced' legible where
  complete := h.complete
  sound hreads hsame := ⟨(h.sound hreads hsame).1, hsynced (h.sound hreads hsame).2⟩

/-- A part that is read through another one is reread if that one is. -/
theorem Rereads.transfer {α β : Type} {reads : α → Reader → Prop} {same : α → Prop}
    {synced : Reader → Prop} {legible : Bool} {reads' : β → Reader → Prop} {same' : β → Prop}
    {synced' : Reader → Prop} (h : Rereads reads same synced legible)
    (hcomplete : ∀ {again last}, reads again last → same again → synced last →
      ∃ again' last', reads' again' last' ∧ same' again')
    (hsound : ∀ {again' last'}, reads' again' last' → same' again' →
      ∃ again last, reads again last ∧ same again ∧ (synced last → synced' last')) :
    Rereads reads' same' synced' legible where
  complete hlegible := by
    obtain ⟨again, last, hreads, hsame⟩ := h.complete hlegible
    exact hcomplete hreads hsame (h.sound hreads hsame).2
  sound hreads hsame := by
    obtain ⟨again, last, hreads, hsame, hsynced⟩ := hsound hreads hsame
    obtain ⟨hlegible, hlast⟩ := h.sound hreads hsame
    exact ⟨hlegible, hsynced hlast⟩

/-- A part that is read after a step. -/
theorem Rereads.afterStep {α β : Type} {step : Except Failure (β × Reader)} {token : β}
    {next : Reader} {reads : Reader → α → Reader → Prop} {same : α → Prop}
    {synced : Reader → Prop} {legible : Bool} (h : Rereads (reads next) same synced legible)
    (hstep : step = .ok (token, next)) :
    Rereads (fun again last => ∃ token next, step = .ok (token, next) ∧ reads next again last)
      same synced legible := by
  refine h.transfer ?_ ?_
  · intro again last hagain hsame _
    exact ⟨again, last, ⟨token, next, hstep, hagain⟩, hsame⟩
  · rintro again last ⟨token', next', hstep', hagain⟩ hsame
    cases hstep.symm.trans hstep'
    exact ⟨again, last, hagain, hsame, id⟩

/-- Two parts that are read one after the other. -/
theorem Rereads.andThen {α β γ : Type} {reads : α → Reader → Prop} {same : α → Prop}
    {synced : Reader → Prop} {legible : Bool} {readsRest : Reader → β → Reader → Prop}
    {sameRest : β → Prop} {syncedRest : Reader → Prop} {legibleRest : Bool}
    {readsAll : γ → Reader → Prop} {sameAll : γ → Prop}
    (hfirst : Rereads reads same synced legible)
    (hrest : ∀ {middle}, synced middle →
      Rereads (readsRest middle) sameRest syncedRest legibleRest)
    (hjoin : ∀ {first middle rest last}, reads first middle → same first → synced middle →
      readsRest middle rest last → sameRest rest → ∃ all, readsAll all last ∧ sameAll all)
    (hsplit : ∀ {all last}, readsAll all last → sameAll all →
      ∃ first middle, reads first middle ∧ same first ∧
        (synced middle → ∃ rest, readsRest middle rest last ∧ sameRest rest)) :
    Rereads readsAll sameAll syncedRest (legible && legibleRest) where
  complete hlegible := by
    rw [Bool.and_eq_true] at hlegible
    obtain ⟨first, middle, hreads, hsame⟩ := hfirst.complete hlegible.1
    have hsynced := (hfirst.sound hreads hsame).2
    obtain ⟨rest, last, hreadsRest, hsameRest⟩ := (hrest hsynced).complete hlegible.2
    obtain ⟨all, hall⟩ := hjoin hreads hsame hsynced hreadsRest hsameRest
    exact ⟨all, last, hall⟩
  sound hreads hsame := by
    obtain ⟨first, middle, hreads, hsame, hmore⟩ := hsplit hreads hsame
    obtain ⟨hlegible, hsynced⟩ := hfirst.sound hreads hsame
    obtain ⟨rest, hreadsRest, hsameRest⟩ := hmore hsynced
    obtain ⟨hlegibleRest, hlast⟩ := (hrest hsynced).sound hreadsRest hsameRest
    exact ⟨by rw [hlegible, hlegibleRest]; rfl, hlast⟩

end LosslessYaml
