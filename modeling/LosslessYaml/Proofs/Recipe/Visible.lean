import LosslessYaml.Proofs.Reading.Spacing
import LosslessYaml.Proofs.Recipe.Locality
import LosslessYaml.Proofs.WellFormed.Reading
import LosslessYaml.Proofs.Recipe.Several

/-!
# A change can be seen

A recipe says that it changes a stream when it replaces a value.  A replaced value could print as
the old one did, in the place of the old one and of what stands around it, and the text would be the
same after all.  It never does.

The argument counts dividers, which are line breaks and the marks of flow collections.  A new value
has none and its lead has no more than the old one had, so no replacement adds a divider.  Two values
have a divider between them.  If the text as a whole stays the same, then no replacement can have
taken a divider away either, and the dividers that stand between values are at the same places; so
each value prints as before.  But a value without a problem is the print of a plain scalar only.

Main statement: `ChangeValue.changes_eq_false_iff_print`.
-/

namespace LosslessYaml

open Text Lookahead

/-! ## Dividers -/

/-- Line breaks and the marks of flow collections, of which no value without a problem has any. -/
def isDivider (c : Char) : Bool := c == '\n' || isFlowIndicator c

/-- The number of dividers in a text. -/
def dividers (text : Text) : Nat := text.countP isDivider

theorem dividers_append (first second : Text) :
    dividers (first ++ second) = dividers first + dividers second := List.countP_append

theorem dividers_eq_zero {text : Text} :
    dividers text = 0 ↔ ∀ c ∈ text, isDivider c = false := by
  simp [dividers, List.countP_eq_zero]

private theorem start_eq_of_le {first first' before rest rest' : Text} {d : Char}
    (hd : isDivider d = true) (hbefore : dividers before = 0)
    (hdividers : dividers first = dividers first') (hlength : first.length ≤ first'.length)
    (h : first ++ (before ++ d :: rest) = first' ++ (before ++ d :: rest')) : first = first' := by
  obtain ⟨more, rfl⟩ : first <+: first' :=
    List.prefix_of_prefix_length_le ⟨_, h⟩ (List.prefix_append _ _) hlength
  rw [List.append_assoc, List.append_cancel_left_eq] at h
  have hmore : dividers more = 0 := by
    rw [dividers_append] at hdividers
    omega
  -- The first divider is found after `before`, and after `more` and `before`.
  have hscan : ∀ {text rest : Text}, dividers text = 0 →
      (text ++ d :: rest).takeWhile (fun c => !isDivider c) = text := by
    intro text rest htext
    rw [List.takeWhile_append_of_pos (by simpa using dividers_eq_zero.mp htext)]
    simp [hd]
  have hsame := congrArg (List.takeWhile fun c => !isDivider c) h
  rw [← List.append_assoc, hscan hbefore, hscan (by rw [dividers_append, hmore, hbefore])] at hsame
  have hnil : more = [] := by simpa using hsame
  rw [hnil, List.append_nil]

/-- Two starts with as many dividers are the same where both go on with the same text that has a
divider. -/
theorem start_eq_of_dividers {first first' separator rest rest' : Text}
    (hseparator : ∃ c ∈ separator, isDivider c = true)
    (hdividers : dividers first = dividers first')
    (h : first ++ (separator ++ rest) = first' ++ (separator ++ rest')) : first = first' := by
  have hfound : (separator.find? isDivider).isSome = true := by simpa using hseparator
  obtain ⟨d, hd⟩ := Option.isSome_iff_exists.mp hfound
  obtain ⟨hdivider, before, after, rfl, hbefore⟩ := List.find?_eq_some_iff_append.mp hd
  have hzero : dividers before = 0 := dividers_eq_zero.mpr (by simpa using hbefore)
  simp only [List.append_assoc, List.cons_append] at h
  rcases Nat.le_total first.length first'.length with hle | hle
  · exact start_eq_of_le hdivider hzero hdividers hle h
  · exact (start_eq_of_le hdivider hzero hdividers.symm hle h.symm).symm

/-! ## Texts that are put in place of others -/

/-- A text that is put in place of another one, with what stands around both. -/
structure Substitution where
  before : Text
  old : Text
  new : Text
  after : Text

namespace Substitution

def oldText (s : Substitution) : Text := s.before ++ (s.old ++ s.after)

def newText (s : Substitution) : Text := s.before ++ (s.new ++ s.after)

/-- No divider is added. -/
def Light (s : Substitution) : Prop := dividers s.new ≤ dividers s.old

/-- A divider stands between the two places. -/
def Apart (s next : Substitution) : Prop := ∃ c ∈ s.after ++ next.before, isDivider c = true

theorem dividers_newText_le {parts : List Substitution} (h : ∀ s ∈ parts, s.Light) :
    dividers (parts.flatMap newText) ≤ dividers (parts.flatMap oldText) := by
  induction parts with
  | nil => simp
  | cons s parts ih =>
      obtain ⟨hlight, hparts⟩ := List.forall_mem_cons.mp h
      have hrest := ih hparts
      unfold Light at hlight
      simp only [List.flatMap_cons, newText, oldText, dividers_append] at hrest ⊢
      omega

/-- Substitutions that add no divider and are kept apart by dividers leave the text as it is only if
each of them does. -/
theorem new_eq_old {parts : List Substitution} (hlight : ∀ s ∈ parts, s.Light)
    (hapart : parts.IsChain Apart) (h : parts.flatMap newText = parts.flatMap oldText) :
    ∀ s ∈ parts, s.new = s.old := by
  induction parts with
  | nil => simp
  | cons s parts ih =>
      obtain ⟨hs, hparts⟩ := List.forall_mem_cons.mp hlight
      cases parts with
      | nil => simpa [newText, oldText] using h
      | cons next parts =>
          obtain ⟨hnext, hchain⟩ := List.isChain_cons_cons.mp hapart
          have hstart : s.new = s.old := by
            apply start_eq_of_dividers hnext
            · have htotal := congrArg dividers h
              have hrest := dividers_newText_le hparts
              unfold Light at hs
              simp only [List.flatMap_cons, newText, oldText, dividers_append] at htotal hrest
              omega
            · simpa [newText, oldText] using h
          refine List.forall_mem_cons.mpr ⟨hstart, ih hparts hchain ?_⟩
          simpa [newText, oldText, hstart] using h

end Substitution

/-! ## Parts of collections -/

theorem printEntries_eq_flatMap (entries : List (Entry Block)) :
    printEntries entries = entries.flatMap fun entry =>
      entry.lead ++ entry.key.print ++ entry.beforeColon ++ [':'] ++
        (entry.value.print ++ printComma entry.comma) := by
  induction entries with
  | nil => simp [printEntries]
  | cons entry entries ih => simp [printEntries, ih]

theorem printItems_eq_flatMap (items : List (Item Block)) :
    printItems items = items.flatMap fun item =>
      item.lead ++ printDash item.dash ++ (item.value.print ++ printComma item.comma) := by
  induction items with
  | nil => simp [printItems]
  | cons item items ih => simp [printItems, ih]

/-- A comma or a line break is a divider between two parts. -/
private theorem exists_divider {comma : Option Text} {lead : Text}
    (h : comma ≠ none ∨ '\n' ∈ lead) (rest : Text) :
    ∃ c ∈ printComma comma ++ (lead ++ rest), isDivider c = true := by
  rcases h with hcomma | hline
  · obtain ⟨text, rfl⟩ := Option.ne_none_iff_exists'.mp hcomma
    exact ⟨',', by simp [printComma], by decide⟩
  · exact ⟨'\n', by simp [hline], by decide⟩

private theorem isChain_of_dropLast {α : Type} {R : α → α → Prop} {parts : List α}
    (h : ∀ part ∈ parts.dropLast, ∀ next, R part next) : parts.IsChain R := by
  induction parts with
  | nil => exact .nil
  | cons part parts ih =>
      cases parts with
      | nil => exact .singleton _
      | cons next parts =>
          rw [List.dropLast_cons_of_ne_nil (by simp), List.forall_mem_cons] at h
          exact .cons_cons (h.1 next) (ih h.2)

private theorem isChain_of_tail {α : Type} {R : α → α → Prop} {parts : List α}
    (h : ∀ next ∈ parts.tail, ∀ part, R part next) : parts.IsChain R := by
  induction parts with
  | nil => exact .nil
  | cons part parts ih =>
      cases parts with
      | nil => exact .singleton _
      | cons next parts =>
          rw [List.tail_cons, List.forall_mem_cons] at h
          exact .cons_cons (h.1 part) (ih h.2)

/-- The parts of a collection are kept apart by a comma or a line break. -/
private theorem isChain_parts {α : Type} {comma : α → Option Text} {lead : α → Text}
    {value : α → Block} {layout : Layout} {inFlow : Bool} {parts : List α}
    (hseparates : layout.Separates inFlow (parts.map comma))
    (hlines : layout = .block → OnLines [] (parts.map lead) (parts.map value)) :
    parts.IsChain fun part next => comma part ≠ none ∨ '\n' ∈ lead next := by
  cases layout with
  | block =>
      have hothers := (hlines rfl).others
      rw [← List.map_tail, List.forall_mem_map] at hothers
      exact isChain_of_tail fun next hnext _ => .inr (hothers next hnext)
  | flow closing =>
      have hcommas := hseparates.2.1
      rw [← List.map_dropLast, List.forall_mem_map] at hcommas
      exact isChain_of_dropLast fun part hpart _ => .inl (hcommas part hpart)

/-- New values of entries show in the text of the entries. -/
private theorem values_eq_of_printEntries {entries : List (Entry Block)}
    {change : Entry Block → Block}
    (hlight : ∀ entry ∈ entries, dividers (change entry).print ≤ dividers entry.value.print)
    (hapart : entries.IsChain fun entry next => entry.comma ≠ none ∨ '\n' ∈ next.lead)
    (h : printEntries (entries.map fun entry => { entry with value := change entry }) =
      printEntries entries) :
    ∀ entry ∈ entries, (change entry).print = entry.value.print := by
  let part : Entry Block → Substitution := fun entry =>
    { before := entry.lead ++ (entry.key.print ++ entry.beforeColon ++ [':'])
      old := entry.value.print
      new := (change entry).print
      after := printComma entry.comma }
  have hparts := @Substitution.new_eq_old (entries.map part) ?_ ?_ ?_
  · rwa [List.forall_mem_map] at hparts
  · rwa [List.forall_mem_map]
  · exact (List.isChain_map part).mpr (hapart.imp fun entry next hdivider =>
      exists_divider hdivider _)
  · rw [printEntries_eq_flatMap, printEntries_eq_flatMap, List.flatMap_map] at h
    rw [List.flatMap_map, List.flatMap_map]
    simpa [part, Substitution.newText, Substitution.oldText] using h

/-- New values of items show in the text of the items. -/
private theorem values_eq_of_printItems {α : Type} {sites : List α} {item : α → Item Block}
    {change : α → Block}
    (hlight : ∀ site ∈ sites, dividers (change site).print ≤ dividers (item site).value.print)
    (hapart : (sites.map item).IsChain fun item next => item.comma ≠ none ∨ '\n' ∈ next.lead)
    (h : printItems (sites.map fun site => { item site with value := change site }) =
      printItems (sites.map item)) :
    ∀ site ∈ sites, (change site).print = (item site).value.print := by
  let part : α → Substitution := fun site =>
    { before := (item site).lead ++ printDash (item site).dash
      old := (item site).value.print
      new := (change site).print
      after := printComma (item site).comma }
  have hparts := @Substitution.new_eq_old (sites.map part) ?_ ?_ ?_
  · rwa [List.forall_mem_map] at hparts
  · rwa [List.forall_mem_map]
  · rw [List.isChain_map] at hapart
    exact (List.isChain_map part).mpr (hapart.imp fun site next hdivider =>
      exists_divider hdivider _)
  · rw [printItems_eq_flatMap, printItems_eq_flatMap, List.flatMap_map, List.flatMap_map] at h
    rw [List.flatMap_map, List.flatMap_map]
    simpa [part, Substitution.newText, Substitution.oldText] using h

/-! ## New values -/

namespace ChangeValue

variable {recipe : ChangeValue} {inFlow : Bool} {value : Block}

/-- A value without a problem does not start as another node does. -/
private theorem head_ne (hsound : ValueProblem.Sound recipe.options.value) {c : Char} {rest : Text}
    (hc : (ValueProblem.isIndicator c || isFlowIndicator c) = true) :
    c :: rest ≠ recipe.options.value := by
  intro hvalue
  have hindicator := hsound.indicator c (by simp [← hvalue])
  have hflow := hsound.flow c (by simp [← hvalue])
  simp [hindicator, hflow] at hc

/-- A value without a problem has no divider. -/
private theorem dividers_value (hsound : ValueProblem.Sound recipe.options.value) :
    dividers recipe.options.value = 0 := by
  rw [dividers_eq_zero]
  intro c hc
  have hline : c ≠ '\n' := by
    rintro rfl
    exact hsound.oneLine.1 hc
  simp [isDivider, hline, hsound.flow c hc]

private theorem dividers_tail (hsound : ValueProblem.Sound recipe.options.value) {start tail : Text}
    {c : Char} (hvalue : recipe.options.value = start ++ c :: tail) : dividers tail = 0 := by
  have hnone := dividers_value hsound
  rw [hvalue, dividers_append] at hnone
  simp only [dividers, List.countP_cons] at hnone ⊢
  omega

/-- What follows the colon or the dash of a part is a break, if there is no divider. -/
private theorem atBreak_part {comma : Option Text} {rest : Text}
    (hvalue : atBreak value.print = true) (hrest : rest = [] ∨ '\n' ∈ rest)
    (hnone : dividers (value.print ++ (printComma comma ++ rest)) = 0) :
    atBreak (value.print ++ (printComma comma ++ rest)) = true := by
  cases hprint : value.print with
  | cons c text =>
      rw [hprint] at hvalue
      exact hvalue
  | nil =>
      rw [dividers_eq_zero] at hnone
      cases comma with
      | some text => exact absurd (hnone ',' (by simp [printComma])) (by decide)
      | none =>
          rcases hrest with rfl | hmem
          · rfl
          · exact absurd (hnone '\n' (by simp [hmem])) (by decide)

/-- The first part of a block collection has no lead, and a line break follows it if there are
others. -/
private theorem exists_first {α : Type} {lead : α → Text} {values : List Block} {parts : List α}
    (h : OnLines [] (parts.map lead) values) :
    ∃ first others, parts = first :: others ∧ lead first = [] ∧
      ∀ next ∈ others, '\n' ∈ lead next := by
  cases parts with
  | nil => simpa using h.first
  | cons first others =>
      have hothers := h.others
      rw [List.map_cons, List.tail_cons, List.forall_mem_map] at hothers
      exact ⟨first, others, rfl, by simpa using h.first, hothers⟩

/-- A block mapping has a colon that a break follows, and a value without a problem has none. -/
private theorem printEntries_ne (hsound : ValueProblem.Sound recipe.options.value)
    {entries : List (Entry Block)}
    (hlines : OnLines [] (entries.map Entry.lead) (entries.map Entry.value)) :
    printEntries entries ≠ recipe.options.value := by
  intro hvalue
  obtain ⟨first, others, rfl, -, hothers⟩ := exists_first hlines
  have hrest : printEntries others = [] ∨ '\n' ∈ printEntries others := by
    cases others with
    | nil => exact .inl rfl
    | cons next others => exact .inr (by simp [printEntries, hothers next (by simp)])
  have hsplit : recipe.options.value = (first.lead ++ first.key.print ++ first.beforeColon) ++
      ':' :: (first.value.print ++ (printComma first.comma ++ printEntries others)) := by
    simp [← hvalue, printEntries]
  have hbreak := atBreak_part (hlines.values first.value (by simp)) hrest
    (dividers_tail hsound hsplit)
  have hcolon := @hsound.colon_eq_false _ [] _ _ hsplit
  rw [List.append_nil, hbreak] at hcolon
  simp at hcolon

/-- A block sequence starts with a dash that a break follows, and a value without a problem does
not. -/
private theorem printItems_ne (hsound : ValueProblem.Sound recipe.options.value)
    {items : List (Item Block)} (hdash : ∀ item ∈ items, item.dash = true)
    (hlines : OnLines [] (items.map Item.lead) (items.map Item.value)) :
    printItems items ≠ recipe.options.value := by
  intro hvalue
  obtain ⟨first, others, rfl, hlead, hothers⟩ := exists_first hlines
  have hrest : printItems others = [] ∨ '\n' ∈ printItems others := by
    cases others with
    | nil => exact .inl rfl
    | cons next others => exact .inr (by simp [printItems, hothers next (by simp)])
  have hsplit : recipe.options.value =
      '-' :: (first.value.print ++ (printComma first.comma ++ printItems others)) := by
    simp [← hvalue, printItems, hlead, hdash first (by simp), printDash]
  have hbreak := atBreak_part (hlines.values first.value (by simp)) hrest
    (@dividers_tail _ hsound [] _ _ hsplit)
  rw [hsplit] at hsound
  have hmark := hsound.atBreak_eq_false (.inl rfl) []
  rw [List.append_nil, hbreak] at hmark
  cases hmark

/-- A node whose text is the new value is a plain scalar with that text. -/
private theorem isNew_of_content (hsound : ValueProblem.Sound recipe.options.value)
    (hformed : value.WellFormed inFlow) (hspaced : value.Spaced)
    (h : value.content = recipe.options.value) : recipe.isNew value = true := by
  rw [Block.content] at h
  have hanchor : value.anchor = none := by
    cases hanchor : value.anchor with
    | none => rfl
    | some anchor =>
        rw [hanchor] at h
        exact absurd h (head_ne hsound (by decide))
  rw [hanchor, Anchor.printOption, List.nil_append] at h
  cases hspaced with
  | @scalar s =>
      cases hstyle : s.style with
      | plain =>
          simp only [Block.body, Scalar.printBody, hstyle] at h
          simp [isNew, hstyle, h, show s.anchor = none from hanchor]
      | singleQuoted | doubleQuoted | literal | folded =>
          simp only [Block.body, Scalar.printBody, hstyle] at h
          exact absurd h (head_ne hsound (by decide))
  | aliasNode a => exact absurd h (head_ne hsound (by decide))
  | @mapping m _ hlines _ =>
      cases hlayout : m.layout with
      | flow closing =>
          simp only [Block.body, hlayout, Layout.printOpening] at h
          exact absurd h (head_ne hsound (by decide))
      | block =>
          simp only [Block.body, hlayout, Layout.printOpening, Layout.printClosing,
            List.nil_append, List.append_nil] at h
          exact absurd h (printEntries_ne hsound (hlines hlayout))
  | @sequence q _ hlines _ =>
      cases hlayout : q.layout with
      | flow closing =>
          simp only [Block.body, hlayout, Layout.printOpening] at h
          exact absurd h (head_ne hsound (by decide))
      | block =>
          simp only [Block.body, hlayout, Layout.printOpening, Layout.printClosing,
            List.nil_append, List.append_nil] at h
          refine absurd h (printItems_ne hsound ?_ (hlines hlayout))
          intro item hitem
          cases hformed with
          | sequence hsequence _ =>
              rw [(hsequence.items item hitem).dash, hlayout]
              rfl

/-- Only the new value itself prints as the value that would replace it. -/
theorem isNew_of_print (hsound : ValueProblem.Sound recipe.options.value)
    (hformed : value.WellFormed inFlow) (hspaced : value.Spaced)
    (h : (recipe.newValue value).print = value.print) : recipe.isNew value = true := by
  have hstart := hspaced.start
  rw [print_newValue, Block.print_eq_content] at h
  rcases newLead_cases value with ⟨hnil, hlead⟩ | ⟨-, more, hlead, hmore⟩
  · rw [hnil, hlead, List.nil_append] at h
    simp [← h] at hstart
  · rw [hlead, List.append_assoc, List.append_cancel_left_eq] at h
    cases more with
    | nil => exact isNew_of_content hsound hformed hspaced h.symm
    | cons c more =>
        -- a value that would be indented further does not start with a space
        simp [← h, hmore c (by simp)] at hstart

/-! ## Runs -/

private theorem dividers_newLead_le (value : Block) :
    dividers (newLead value) ≤ dividers value.print := by
  rw [Block.print_eq_content, dividers_append]
  rcases newLead_cases value with ⟨-, hlead⟩ | ⟨-, more, hlead, hmore⟩
  · rw [hlead]
    exact Nat.zero_le _
  · have hspaces : dividers more = 0 := by
      rw [dividers_eq_zero]
      intro c hc
      rw [hmore c hc]
      decide
    rw [hlead, dividers_append]
    omega

/-- No replacement adds a divider. -/
theorem Spliced.dividers_le (hsound : ValueProblem.Sound recipe.options.value)
    {targets : List Block} {text text' : Text} (h : Spliced recipe targets text text') :
    dividers text' ≤ dividers text := by
  induction h with
  | rest text => exact Nat.le_refl _
  | target before value _ ih =>
      have hlead := dividers_newLead_le value
      have hvalue := dividers_value hsound
      simp only [dividers_append]
      omega

private theorem dividers_settle_le (hsound : ValueProblem.Sound recipe.options.value)
    (address : List Step) (value : Block) :
    dividers (recipe.settle address value).print ≤ dividers value.print := by
  rw [settle]
  split
  · split
    · exact Nat.le_refl _
    · exact (Spliced.replaced value).dividers_le hsound
  · exact (print_descendBlock recipe address value).dividers_le hsound

/-- A selected entry that prints as before has kept its value. -/
private theorem settle_eq_self (hsound : ValueProblem.Sound recipe.options.value)
    (hformed : value.WellFormed inFlow) (hspaced : value.Spaced) {address : List Step}
    (hbelow : (recipe.descendBlock address value).print = value.print →
      recipe.descendBlock address value = value)
    (h : (recipe.settle address value).print = value.print) :
    recipe.settle address value = value := by
  rw [settle] at h ⊢
  split at h
  next hselected =>
    rw [if_pos hselected]
    split at h
    next hnew => rw [if_pos hnew]
    next hnew => exact absurd (isNew_of_print hsound hformed hspaced h) hnew
  next hselected =>
    rw [if_neg hselected]
    exact hbelow h

private theorem map_entries_eq_self {entries : List (Entry Block)} {change : Entry Block → Block}
    (h : ∀ entry ∈ entries, change entry = entry.value) :
    (entries.map fun entry => { entry with value := change entry }) = entries := by
  conv_rhs => rw [← List.map_id entries]
  apply List.map_congr_left
  intro entry hentry
  rw [h entry hentry]
  rfl

private theorem map_items_eq_self {α : Type} {sites : List α} {item : α → Item Block}
    {change : α → Block} (h : ∀ site ∈ sites, change site = (item site).value) :
    (sites.map fun site => { item site with value := change site }) = sites.map item := by
  apply List.map_congr_left
  intro site hsite
  rw [h site hsite]

/-- A node that prints as before is the same. -/
theorem descendBlock_eq_self (hsound : ValueProblem.Sound recipe.options.value) {block : Block}
    (hformed : block.WellFormed inFlow) (hspaced : block.Spaced) (address : List Step)
    (h : (recipe.descendBlock address block).print = block.print) :
    recipe.descendBlock address block = block := by
  induction hformed generalizing address with
  | scalar | aliasNode => exact descendBlock_leaf rfl
  | @mapping _ m hmapping hvalues ih =>
      cases hspaced with
      | mapping _ hlines hspaced =>
          rw [descendBlock_mapping] at h ⊢
          have hentries := values_eq_of_printEntries (fun entry _ => dividers_settle_le hsound _ _)
            (isChain_parts hmapping.separates hlines) (by simpa [Block.print] using h)
          have hsame : ∀ entry ∈ m.entries,
              recipe.settle (address ++ [.key entry.key.text]) entry.value = entry.value := by
            intro entry hentry
            exact settle_eq_self hsound (hvalues entry hentry) (hspaced entry hentry)
              (ih entry hentry (hspaced entry hentry) _) (hentries entry hentry)
          rw [map_entries_eq_self hsame]
  | @sequence _ q hsequence hvalues ih =>
      cases hspaced with
      | sequence _ hlines hspaced =>
          rw [descendBlock_sequence, List.mapIdx_eq_zipIdx_map] at h ⊢
          have hitems := @values_eq_of_printItems _ q.items.zipIdx Prod.fst
            (fun site => recipe.descendBlock (address ++ [.item site.2 q.items.length]) site.1.value)
            (fun site _ => (print_descendBlock recipe _ _).dividers_le hsound)
            (by simpa using isChain_parts hsequence.separates hlines)
            (by simpa [Block.print] using h)
          have hsame : ∀ site ∈ q.items.zipIdx, recipe.descendBlock
              (address ++ [.item site.2 q.items.length]) site.1.value = site.1.value := by
            intro site hsite
            have hitem := List.fst_mem_of_mem_zipIdx hsite
            exact ih site.1 hitem (hspaced site.1 hitem) _ (hitems site hsite)
          have hmap := map_items_eq_self hsame
          rw [List.zipIdx_map_fst] at hmap
          exact congrArg (fun items => Block.sequence { q with items }) hmap

/-- A stream that prints as before is the same. -/
private theorem run_eq_of_print (hsound : ValueProblem.Sound recipe.options.value)
    {stream : Stream} (hformed : stream.WellFormed) (hspaced : DocumentsSpaced stream.documents)
    (h : (recipe.run stream).print = stream.print) : recipe.run stream = stream := by
  let part : Document → Substitution := fun document =>
    { before := document.lead ++ printDashes document.explicit
      old := document.root.print
      new := (recipe.descendBlock [] document.root).print
      after := document.ending.lead ++ printDots document.ending.explicit }
  have hroots := @Substitution.new_eq_old (stream.documents.map part) ?_ ?_ ?_
  · rw [List.forall_mem_map] at hroots
    have hsame : ∀ document ∈ stream.documents,
        recipe.descendBlock [] document.root = document.root := by
      intro document hdocument
      exact descendBlock_eq_self hsound (hformed.roots document hdocument)
        (hspaced.roots document hdocument) [] (hroots document hdocument)
    have hmap : (stream.documents.map fun document =>
        { document with root := recipe.descendBlock [] document.root }) = stream.documents := by
      conv_rhs => rw [← List.map_id stream.documents]
      apply List.map_congr_left
      intro document hdocument
      rw [hsame document hdocument]
      rfl
    rw [run_eq, descend, hmap]
  · rw [List.forall_mem_map]
    intro document _
    exact (print_descendBlock recipe [] document.root).dividers_le hsound
  · refine (List.isChain_map part).mpr (isChain_of_dropLast ?_)
    intro document hdocument _
    exact ⟨'\n', by simp [part, hspaced.endings document hdocument], by decide⟩
  · have hprint : Document.print = fun document => (part document).oldText := by
      funext document
      simp [Document.print, Substitution.oldText, part]
    rw [run_eq] at h
    simpa [Stream.print, descend, List.flatMap_map, hprint, part, Substitution.newText,
      Substitution.oldText] using h

/-- A recipe that was accepted says that it changes a stream exactly if the text of the stream
changes. -/
theorem changes_eq_false_iff_print {options : ChangeOptions} {source : Text} {stream : Stream}
    (hbuild : build options = .ok recipe) (hparse : Stream.parse source = .ok stream) :
    recipe.changes stream = false ↔ (recipe.run stream).print = stream.print := by
  constructor
  · intro hkept
    rw [run_eq_self hkept]
  · intro hprint
    have hsame := run_eq_of_print (sound_of_build hbuild) (Stream.wellFormed_of_parse hparse)
      (Stream.spaced_of_parse hparse) hprint
    have hagain := recipe.changes_run stream
    rwa [hsame] at hagain

/-- A quoted scalar with two anchors gives way to the plain one of the same text, which can be seen.
The plain one gives way to nothing. -/
theorem changes_iff_print_quoted :
    ∃ outer inner stream,
      build ⟨"/a".toList, "v".toList⟩ = .ok outer ∧ build ⟨"b/a".toList, "v".toList⟩ = .ok inner ∧
      Stream.parse "a: &x &y 'v' #c\nb: {a: v}\n".toList = .ok stream ∧
      outer.changes stream = true ∧ (outer.run stream).print ≠ stream.print ∧
      inner.changes stream = false ∧ (inner.run stream).print = stream.print := by
  let outer : ChangeValue := ⟨⟨"/a".toList, "v".toList⟩, ⟨true, [.child "a".toList]⟩⟩
  let inner : ChangeValue :=
    ⟨⟨"b/a".toList, "v".toList⟩, ⟨false, [.child "b".toList, .child "a".toList]⟩⟩
  have houter : build outer.options = .ok outer := by decide +kernel
  have hinner : build inner.options = .ok inner := by decide +kernel
  have hchanges : (Stream.parse "a: &x &y 'v' #c\nb: {a: v}\n".toList).toOption.map
      (fun stream => (outer.changes stream, inner.changes stream)) = some (true, false) := by
    decide +kernel
  cases hparse : Stream.parse "a: &x &y 'v' #c\nb: {a: v}\n".toList with
  | error error =>
      rw [hparse] at hchanges
      cases hchanges
  | ok stream =>
      rw [hparse] at hchanges
      obtain ⟨hchange, hkept⟩ := Prod.mk.inj (Option.some.inj hchanges)
      refine ⟨outer, inner, stream, houter, hinner, rfl, hchange, ?_, hkept,
        (changes_eq_false_iff_print hinner hparse).mp hkept⟩
      rw [ne_eq, ← changes_eq_false_iff_print houter hparse, hchange]
      decide

end ChangeValue

end LosslessYaml
