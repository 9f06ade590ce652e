import LosslessYaml.Proofs.ReadBack.Legible
import LosslessYaml.Proofs.ReadBack.Value
import LosslessYaml.Proofs.Recipe.TopDown

/-!
# How a changed node starts

A change of values leaves the start of every node alone: its lead, its anchor, its bracket, dash or
first key.  So the text of a changed node starts with the same character as before, and the lines of
block collections start alike.  Where a value itself is new, a break follows the colon before it.

These are the facts that a reader of the changed text relies on when it looks ahead.
-/

namespace LosslessYaml

open Text Lookahead

/-! ## New leads -/

namespace ChangeValue

theorem newLead_isTrivia {value : Block} (h : IsTrivia value.lead) : IsTrivia (newLead value) := by
  rcases newLead_cases value with ⟨-, hlead⟩ | ⟨-, more, hlead, hmore⟩
  · rw [hlead]
    exact isTrivia_of_blank (by simp [isBlank])
  · rw [hlead]
    refine h.append (isTrivia_of_blank fun c hc => ?_)
    rw [hmore c hc]
    rfl

end ChangeValue

/-! ## First characters -/

theorem head?_append_congr {x y : Text} (hhead : x.head? = y.head?) (start : Text) :
    (start ++ x).head? = (start ++ y).head? := by
  rw [List.head?_append, List.head?_append, hhead]

theorem printEntries_cons_append (entry : Entry Block) (entries : List (Entry Block)) (x : Text) :
    printEntries (entry :: entries) ++ x =
      entry.lead ++ (entry.key.print ++ (entry.beforeColon ++ ':' ::
        (entry.value.print ++ (printComma entry.comma ++ (printEntries entries ++ x))))) := by
  simp [printEntries]

theorem printItems_cons_append (item : Item Block) (items : List (Item Block)) (x : Text) :
    printItems (item :: items) ++ x =
      item.lead ++ (printDash item.dash ++
        (item.value.print ++ (printComma item.comma ++ (printItems items ++ x)))) := by
  simp [printItems]

namespace ChangeValue

variable {recipe : ChangeValue}

theorem PatchedBlock.lead_eq {block block' : Block} (h : PatchedBlock recipe block block') :
    block'.lead = block.lead := by
  cases h <;> rfl

theorem PatchedBlock.anchor_eq {block block' : Block} (h : PatchedBlock recipe block block') :
    block'.anchor = block.anchor := by
  cases h <;> rfl

/-- A changed entry has a changed value or a new one, and is otherwise the same. -/
theorem PatchedEntries.cons_inv {entry : Entry Block} {entries after : List (Entry Block)}
    (h : PatchedEntries recipe (entry :: entries) after) :
    ∃ value' entries', after = { entry with value := value' } :: entries' ∧
      (PatchedBlock recipe entry.value value' ∨ value' = recipe.newValue entry.value) ∧
      PatchedEntries recipe entries entries' := by
  cases h with
  | inside hvalue hentries => exact ⟨_, _, rfl, .inl hvalue, hentries⟩
  | replaced hentries => exact ⟨_, _, rfl, .inr rfl, hentries⟩

theorem PatchedItems.cons_inv {item : Item Block} {items after : List (Item Block)}
    (h : PatchedItems recipe (item :: items) after) :
    ∃ value' items', after = { item with value := value' } :: items' ∧
      PatchedBlock recipe item.value value' ∧ PatchedItems recipe items items' := by
  cases h with
  | inside hvalue hitems => exact ⟨_, _, rfl, hvalue, hitems⟩

/-- Changed entries start with the same character. -/
theorem PatchedEntries.head_eq {entries entries' : List (Entry Block)}
    (h : PatchedEntries recipe entries entries') {x y : Text} (hhead : x.head? = y.head?) :
    (printEntries entries ++ x).head? = (printEntries entries' ++ y).head? := by
  cases entries with
  | nil =>
      cases h
      exact hhead
  | cons entry entries =>
      obtain ⟨value', entries', rfl, -, -⟩ := h.cons_inv
      rw [printEntries_cons_append, printEntries_cons_append]
      exact head?_append_congr (head?_append_congr (head?_append_cons _ _ _ ':') _) _

mutual

/-- A changed node starts with the same character. -/
theorem PatchedBlock.head_eq {block block' : Block} (h : PatchedBlock recipe block block')
    {x y : Text} (hhead : x.head? = y.head?) :
    (Anchor.printOption block.anchor ++ (block.body ++ x)).head? =
      (Anchor.printOption block'.anchor ++ (block'.body ++ y)).head? := by
  rw [h.anchor_eq]
  refine head?_append_congr ?_ _
  match h with
  | .scalar s => exact head?_append_congr hhead _
  | .aliasNode a => exact head?_append_congr hhead _
  | .mapping hentries =>
    simp only [Block.body, List.append_assoc]
    exact head?_append_congr (hentries.head_eq (head?_append_congr hhead _)) _
  | .sequence hitems =>
    simp only [Block.body, List.append_assoc]
    exact head?_append_congr (hitems.head_eq (head?_append_congr hhead _)) _

theorem PatchedItems.head_eq {items items' : List (Item Block)}
    (h : PatchedItems recipe items items') {x y : Text} (hhead : x.head? = y.head?) :
    (printItems items ++ x).head? = (printItems items' ++ y).head? := by
  match h with
  | .nil => exact hhead
  | .inside hvalue hitems =>
    rw [printItems_cons_append, printItems_cons_append]
    refine head?_append_congr (head?_append_congr ?_ _) _
    simp only [Block.print_eq_append, List.append_assoc, hvalue.lead_eq]
    exact head?_append_congr (hvalue.head_eq (head?_append_congr (hitems.head_eq hhead) _)) _

end

theorem PatchedBlock.print_head_eq {block block' : Block} (h : PatchedBlock recipe block block')
    {x y : Text} (hhead : x.head? = y.head?) :
    (block.print ++ x).head? = (block'.print ++ y).head? := by
  simp only [Block.print_eq_append, List.append_assoc, h.lead_eq]
  exact head?_append_congr (h.head_eq hhead) _

theorem print_newValue (value : Block) :
    (recipe.newValue value).print = newLead value ++ recipe.options.value := by
  simp [newValue, Block.print, Scalar.print, Scalar.printBody, Anchor.printOption]

/-- After the colon of an entry comes the same character, or a break. -/
theorem colon_next {value value' : Block}
    (h : PatchedBlock recipe value value' ∨ value' = recipe.newValue value) {x y : Text}
    (hhead : x.head? = y.head?) :
    (value.print ++ x).head? = (value'.print ++ y).head? ∨ atBreak (value'.print ++ y) = true := by
  rcases h with h | rfl
  · exact .inl (h.print_head_eq hhead)
  · rw [print_newValue]
    rcases newLead_cases value with ⟨-, hlead⟩ | ⟨hne, more, hlead, -⟩
    · right
      rw [hlead]
      rfl
    · left
      obtain ⟨c, lead, hc⟩ := List.exists_cons_of_ne_nil hne
      rw [Block.print_eq_append, hlead, hc]
      rfl

end ChangeValue

/-! ## Lines of block collections -/

namespace Reader

open ChangeValue

variable {recipe : ChangeValue}

/-- The text after a value in a block mapping, where another entry follows. -/
theorem rest_of_more {middle last : Reader} {entries : List (Entry Block)}
    (hentries : BlockEntries middle.trivia middle.afterTrivia entries last)
    (hdropped : last.dropped = middle.dropped) :
    middle.rest = printEntries entries ++ last.rest := by
  obtain ⟨text, hprint, hkeeps⟩ := hentries.keeps
  rw [hprint, List.append_assoc, ← (hkeeps.rest_eq hdropped).1, trivia_append]

/-- A changed entry of a block mapping starts with the same key. -/
private theorem entry_start {r afterKey middle : Reader} {key : Scalar} {value value' : Block}
    {tail rest : Text} (hstart : atKey r.rest = true) (hkey : r.blockKey = .ok (key, afterKey))
    (hcolon : afterKey.afterBlanks.rest = ':' :: tail)
    (hvalue : BlockNode (r.column + 1) .mappingValue (afterKey.afterBlanks.skip 1) value middle)
    (hdropped : middle.dropped = r.dropped)
    (hchange : PatchedBlock recipe value value' ∨ value' = recipe.newValue value)
    (hhead : middle.rest.head? = rest.head?) :
    Alike r.rest (key.print ++ (afterKey.blanks ++ ':' :: (value'.print ++ rest))) ∧
      atKey (key.print ++ (afterKey.blanks ++ ':' :: (value'.print ++ rest))) = true := by
  obtain ⟨hkeyDropped, -, rfl, -⟩ :=
    entry_rest (blockKey_keeps hkey) hcolon hvalue.keeps hdropped
  have hrest : r.rest = key.print ++ (afterKey.blanks ++ ':' :: (value.print ++ middle.rest)) := by
    rw [((blockKey_keeps hkey).rest_eq hkeyDropped).1, ← hcolon, blanks_append]
  constructor
  · rw [hrest, ← List.append_assoc, ← List.append_assoc]
    exact .append (by decide) (by decide) _ _ _
  · let again : Reader :=
      { rest := key.print ++ (afterKey.blanks ++ ':' :: (value'.print ++ rest)) }
    exact (@blockKey_again r afterKey again _ _ _ hstart hkey hkeyDropped hcolon
      (colon_next hchange hhead) rfl).2.1

/-- Changed entries of a block mapping start with the same key. -/
theorem BlockEntries.start {lead : Text} {r last : Reader} {entries entries' : List (Entry Block)}
    (h : BlockEntries lead r entries last) (hdropped : last.dropped = r.dropped)
    (hpatch : PatchedEntries recipe entries entries') {y z : Text}
    (hhead : last.rest.head? = y.head?) (hz : printEntries entries' ++ y = lead ++ z) :
    Alike r.rest z ∧ atKey r.rest = true ∧ atKey z = true := by
  match h with
  | .last hstart hkey hcolon hvalue hnext =>
    obtain ⟨value', entries', rfl, hchange, hnil⟩ := hpatch.cons_inv
    cases hnil
    rw [printEntries_cons_append] at hz
    rw [← List.append_cancel_left hz]
    obtain ⟨halike, hkeyAgain⟩ := entry_start hstart hkey hcolon hvalue hdropped hchange hhead
    exact ⟨halike, hstart, hkeyAgain⟩
  | .more hstart hkey hcolon hvalue hnext hentries =>
    obtain ⟨value', entries', rfl, hchange, hmore⟩ := hpatch.cons_inv
    rw [printEntries_cons_append] at hz
    rw [← List.append_cancel_left hz]
    obtain ⟨hmiddle, hlast⟩ := moreEntries_dropped hkey hcolon hvalue hentries hdropped
    have hnextHead := hmore.head_eq hhead
    rw [← rest_of_more hentries hlast] at hnextHead
    obtain ⟨halike, hkeyAgain⟩ := entry_start hstart hkey hcolon hvalue hmiddle hchange hnextHead
    exact ⟨halike, hstart, hkeyAgain⟩

/-- The text after a value in a block sequence, where another item follows. -/
theorem rest_of_moreItems {middle last : Reader} {items : List (Item Block)}
    (hitems : BlockItems middle.trivia middle.afterTrivia items last)
    (hdropped : last.dropped = middle.dropped) :
    middle.rest = printItems items ++ last.rest := by
  obtain ⟨text, hprint, hkeeps⟩ := hitems.keeps
  rw [hprint, List.append_assoc, ← (hkeeps.rest_eq hdropped).1, trivia_append]

/-- A changed item of a block sequence starts with a dash. -/
private theorem item_start {r middle : Reader} {value value' : Block} {rest : Text}
    (hstart : atDash r.rest = true)
    (hvalue : BlockNode (r.column + 1) .sequenceItem (r.skip 1) value middle)
    (hdropped : middle.dropped = r.dropped) (hchange : PatchedBlock recipe value value')
    (hhead : middle.rest.head? = rest.head?) : atDash ('-' :: (value'.print ++ rest)) = true := by
  obtain ⟨tail, hrest, hbreak⟩ := atDash_iff.mp hstart
  have htail : tail = value.print ++ middle.rest := by
    rw [← (hvalue.keeps.rest_eq hdropped).1]
    simp [skip, hrest]
  rw [htail, atBreak_congr (hchange.print_head_eq hhead)] at hbreak
  exact hbreak

/-- Changed items of a block sequence start with a dash. -/
theorem BlockItems.start {lead : Text} {r last : Reader} {items items' : List (Item Block)}
    (h : BlockItems lead r items last) (hdropped : last.dropped = r.dropped)
    (hpatch : PatchedItems recipe items items') {y z : Text}
    (hhead : last.rest.head? = y.head?) (hz : printItems items' ++ y = lead ++ z) :
    atDash r.rest = true ∧ atDash z = true := by
  match h with
  | .last hstart hvalue hnext =>
    obtain ⟨value', items', rfl, hchange, hnil⟩ := hpatch.cons_inv
    cases hnil
    rw [printItems_cons_append] at hz
    rw [← List.append_cancel_left hz]
    exact ⟨hstart, item_start hstart hvalue hdropped hchange hhead⟩
  | .more hstart hvalue hnext hitems =>
    obtain ⟨value', items', rfl, hchange, hmore⟩ := hpatch.cons_inv
    rw [printItems_cons_append] at hz
    rw [← List.append_cancel_left hz]
    obtain ⟨hmiddle, hlast⟩ := moreItems_dropped hvalue hitems hdropped
    have hnextHead := hmore.head_eq hhead
    rw [← rest_of_moreItems hitems hlast] at hnextHead
    exact ⟨hstart, item_start hstart hvalue hmiddle hchange hnextHead⟩

/-! ## What follows a value -/

theorem column_afterTrivia {r : Reader} (h : r.trivia.contains '\n' = true) :
    r.afterTrivia.column = columnAfter 0 r.trivia := by
  rw [List.contains_iff_mem] at h
  exact columnAfter_of_mem h r.column 0

theorem BlockEntries.exists_text {lead : Text} {r last : Reader}
    {entries entries' : List (Entry Block)} (h : BlockEntries lead r entries last)
    (hpatch : PatchedEntries recipe entries entries') (y : Text) :
    ∃ z, printEntries entries' ++ y = lead ++ z := by
  cases h with
  | last | more =>
      obtain ⟨value', entries', rfl, -, -⟩ := hpatch.cons_inv
      exact ⟨_, printEntries_cons_append _ _ _⟩

theorem BlockItems.exists_text {lead : Text} {r last : Reader} {items items' : List (Item Block)}
    (h : BlockItems lead r items last) (hpatch : PatchedItems recipe items items') (y : Text) :
    ∃ z, printItems items' ++ y = lead ++ z := by
  cases h with
  | last | more =>
      obtain ⟨value', items', rfl, -, -⟩ := hpatch.cons_inv
      exact ⟨_, printItems_cons_append _ _ _⟩

/-- A dash starts no key. -/
theorem atKey_of_atDash {text : Text} (h : atDash text = true) : atKey text = false := by
  obtain ⟨tail, rfl⟩ := eq_dash_of_atDash h
  rw [atKey_cons (by decide)]
  simp [atBareKey, h]

/-- The next entry of a block mapping stands to the left of the values in it. -/
theorem ahead_of_more {column : Nat} {middle last : Reader} {entries entries' : List (Entry Block)}
    (hnext : middle.entryFollows column = true)
    (hentries : BlockEntries middle.trivia middle.afterTrivia entries last)
    (hdropped : last.dropped = middle.dropped)
    (hpatch : PatchedEntries recipe entries entries') {y : Text}
    (hhead : last.rest.head? = y.head?) :
    Ahead (column + 1) middle.rest (printEntries entries' ++ y) := by
  obtain ⟨z, hz⟩ := hentries.exists_text hpatch y
  obtain ⟨halike, hkey, hkey'⟩ := hentries.start hdropped hpatch hhead hz
  obtain ⟨hline, hcolumn, hne, -⟩ := entryFollows_inv hnext
  rw [hz, ← trivia_append middle]
  refine .line (isTrivia_trivia hne) (List.contains_iff_mem.mp hline) hne
    (triviaLength_afterTrivia middle) halike
    ⟨isBlankLine_of_atKey hkey, isBlankLine_of_atKey hkey'⟩ (.inl ⟨?_, by rw [hkey, hkey']⟩)
  rw [← column_afterTrivia hline, hcolumn]
  omega

/-- The next item of a block sequence stands to the left of the values in it. -/
theorem ahead_of_moreItems {column : Nat} {middle last : Reader} {items items' : List (Item Block)}
    (hnext : middle.itemFollows column = true)
    (hitems : BlockItems middle.trivia middle.afterTrivia items last)
    (hdropped : last.dropped = middle.dropped) (hpatch : PatchedItems recipe items items')
    {y : Text} (hhead : last.rest.head? = y.head?) :
    Ahead (column + 1) middle.rest (printItems items' ++ y) := by
  obtain ⟨z, hz⟩ := hitems.exists_text hpatch y
  obtain ⟨hdash, hdash'⟩ := hitems.start hdropped hpatch hhead hz
  obtain ⟨hline, hcolumn, hne, -⟩ := itemFollows_inv hnext
  have hvisible : ∀ {text : Text}, atDash text = true → isBlankLine text = false := by
    intro text htext
    obtain ⟨tail, rfl⟩ := eq_dash_of_atDash htext
    exact isBlankLine_cons (by decide) tail
  rw [hz, ← trivia_append middle]
  refine .line (isTrivia_trivia hne) (List.contains_iff_mem.mp hline) hne
    (triviaLength_afterTrivia middle) (.of_atDash hdash hdash') ⟨hvisible hdash, hvisible hdash'⟩
    (.inl ⟨?_, by rw [atKey_of_atDash hdash, atKey_of_atDash hdash']⟩)
  rw [← column_afterTrivia hline, hcolumn]
  omega

/-- A changed node in block context starts as the node did. -/
theorem BlockContent.alike {floor : Nat} {place : Place} {sameLine : Bool} {lead : Text}
    {r after : Reader} {block block' : Block}
    (h : BlockContent floor place sameLine lead r block after)
    (hdropped : after.dropped = r.dropped) (hpatch : PatchedBlock recipe block block') {y : Text}
    (hahead : Ahead floor after.rest y) :
    Alike r.rest (Anchor.printOption block'.anchor ++ (block'.body ++ y)) := by
  have hhead := hpatch.head_eq hahead.head
  have hrest := (h.keeps.2.rest_eq hdropped).1
  rw [List.append_assoc] at hrest
  rw [← hrest] at hhead
  have hmark : ∀ {c : Char} {tail : Text}, r.rest = c :: tail → c ≠ '-' → c ≠ '.' →
      Alike r.rest (Anchor.printOption block'.anchor ++ (block'.body ++ y)) := by
    intro c tail hopen hdash hdot
    exact .of_head hdash hdot (by rw [hopen]; rfl) hhead
  match h with
  | .anchorAlone hopen _ _ | .anchored hopen _ _ _ _ =>
    obtain ⟨⟨tail, hopen⟩, -⟩ := describes_of_opening hopen
    exact hmark hopen (by decide) (by decide)
  | .aliasNode hopen | .literal hopen | .folded hopen =>
    obtain ⟨tail, hopen⟩ := describes_of_opening hopen
    exact hmark hopen (by decide) (by decide)
  | .flow hopen _ =>
    obtain ⟨tail, hopen | hopen⟩ := describes_of_opening hopen <;>
      exact hmark hopen (by decide) (by decide)
  | .quoted hopen _ =>
    obtain ⟨rfl | rfl, ⟨tail, hopen⟩, -⟩ := describes_of_opening hopen <;>
      exact hmark hopen (by decide) (by decide)
  | .plain hopen =>
    cases hpatch
    exact (congrArg (fun text => Alike text _) hrest).mpr (hahead.alike _)
  | .sequence hopen hline hitems =>
    cases hpatch with
    | sequence hchange =>
        obtain ⟨hdash, hdash'⟩ := hitems.start hdropped hchange hahead.head rfl
        simpa [Block.anchor, Block.body, Anchor.printOption, Layout.printOpening,
          Layout.printClosing] using Alike.of_atDash hdash hdash'
  | .mapping hopen hline hentries =>
    cases hpatch with
    | mapping hchange =>
        obtain ⟨halike, -, -⟩ := hentries.start hdropped hchange hahead.head rfl
        simpa [Block.anchor, Block.body, Anchor.printOption, Layout.printOpening,
          Layout.printClosing] using halike

end Reader

end LosslessYaml
