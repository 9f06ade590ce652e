import LosslessYaml.Proofs.LineEnds.Lookahead
import LosslessYaml.Proofs.Recipe.Locality

/-!
# Trees whose lines end in a carriage return

Two trees of one text, whose lines end in a line feed and in a carriage return with a line feed.
Their texts are converted one by one, except where a literal scalar ends: the carriage return there
belongs to the scalar and not to the trivia that comes after it.  The relations carry a flag for
that, which says whether a carriage return has come too early.

Printed, the second tree is the first one converted, and recipes keep the relation as long as they
replace no value that ends with such a carriage return.
-/

namespace LosslessYaml

open Text

/-- The carriage return that has come too early, if one has. -/
def returned (late : Bool) : Text := if late then ['\r'] else []

@[simp] theorem returned_false : returned false = [] := rfl

@[simp] theorem returned_true : returned true = ['\r'] := rfl

/-! ## The relations -/

/-- The anchor with its lines converted. -/
def Anchor.crlf (anchor : Anchor) : Anchor := ⟨Text.crlf anchor.name, Text.crlf anchor.trail⟩

/-- The layout with its lines converted. -/
def Layout.crlf : Layout → Layout
  | .block => .block
  | .flow closing => .flow (Text.crlf closing)

/-- The second scalar is the first converted.  Only a literal or folded one may end too late. -/
structure Scalar.Converted (late : Bool) (scalar scalar' : Scalar) : Prop where
  lead : scalar'.lead = crlf scalar.lead
  anchor : scalar'.anchor = scalar.anchor.map Anchor.crlf
  style : scalar'.style = scalar.style
  text : scalar'.text = crlf scalar.text ++ returned late
  literal : late = true → scalar.style = .literal ∨ scalar.style = .folded

mutual

/-- The second node is the first converted, with a carriage return more at its end if it is
`late`. -/
inductive ConvertedBlock : Bool → Block → Block → Prop
  | scalar {late : Bool} {s s' : Scalar} (h : s.Converted late s') :
      ConvertedBlock late (.scalar s) (.scalar s')
  | aliasNode {a a' : Alias} (hlead : a'.lead = crlf a.lead) (hname : a'.name = crlf a.name) :
      ConvertedBlock false (.aliasNode a) (.aliasNode a')
  | mapping {late : Bool} {lead : Text} {markers : List Marker} {anchor : Option Anchor}
      {layout : Layout} {entries entries' : List (Entry Block)}
      (hlayout : late = true → layout = .block)
      (hentries : ConvertedEntries false late entries entries') :
      ConvertedBlock late (.mapping ⟨lead, markers, anchor, layout, entries⟩)
        (.mapping ⟨crlf lead, markers, anchor.map Anchor.crlf, layout.crlf, entries'⟩)
  | sequence {late : Bool} {lead : Text} {markers : List Marker} {anchor : Option Anchor}
      {layout : Layout} {indentless : Bool} {items items' : List (Item Block)}
      (hlayout : late = true → layout = .block) (hitems : ConvertedItems false late items items') :
      ConvertedBlock late (.sequence ⟨lead, markers, anchor, layout, indentless, items⟩)
        (.sequence ⟨crlf lead, markers, anchor.map Anchor.crlf, layout.crlf, indentless, items'⟩)

/-- The second entries are the first converted, without a carriage return at their start if it came
`early`. -/
inductive ConvertedEntries : Bool → Bool → List (Entry Block) → List (Entry Block) → Prop
  | nil (late : Bool) : ConvertedEntries late late [] []
  | cons {early between late : Bool} {lead lead' : Text} {markers : List Marker}
      {key key' : Scalar} {beforeColon : Text} {value value' : Block} {comma : Option Text}
      {entries entries' : List (Entry Block)} (hlead : returned early ++ lead' = crlf lead)
      (hkey : key.Converted false key') (hvalue : ConvertedBlock between value value')
      (hcomma : between = true → comma = none)
      (hentries : ConvertedEntries between late entries entries') :
      ConvertedEntries early late (⟨lead, markers, key, beforeColon, value, comma⟩ :: entries)
        (⟨lead', markers, key', crlf beforeColon, value', comma.map crlf⟩ :: entries')

/-- The second items are the first converted, without a carriage return at their start if it came
`early`. -/
inductive ConvertedItems : Bool → Bool → List (Item Block) → List (Item Block) → Prop
  | nil (late : Bool) : ConvertedItems late late [] []
  | cons {early between late : Bool} {lead lead' : Text} {markers : List Marker} {dash : Bool}
      {value value' : Block} {comma : Option Text} {items items' : List (Item Block)}
      (hlead : returned early ++ lead' = crlf lead) (hvalue : ConvertedBlock between value value')
      (hcomma : between = true → comma = none)
      (hitems : ConvertedItems between late items items') :
      ConvertedItems early late (⟨lead, markers, dash, value, comma⟩ :: items)
        (⟨lead', markers, dash, value', comma.map crlf⟩ :: items')

end

/-- The second document is the first converted. -/
structure ConvertedDocument (document document' : Document) : Prop where
  lead : document'.lead = crlf document.lead
  explicit : document'.explicit = document.explicit
  root : ∃ late, ConvertedBlock late document.root document'.root ∧
    returned late ++ document'.ending.lead = crlf document.ending.lead
  ending : document'.ending.explicit = document.ending.explicit

/-- The second documents are the first converted. -/
inductive ConvertedDocuments : List Document → List Document → Prop
  | nil : ConvertedDocuments [] []
  | cons {document document' : Document} {documents documents' : List Document}
      (hdocument : ConvertedDocument document document')
      (hdocuments : ConvertedDocuments documents documents') :
      ConvertedDocuments (document :: documents) (document' :: documents')

/-- The second stream is the first converted. -/
structure ConvertedStream (stream stream' : Stream) : Prop where
  documents : ConvertedDocuments stream.documents stream'.documents
  suffix : stream'.suffix = crlf stream.suffix

theorem ConvertedItems.length_eq {early late : Bool} {items items' : List (Item Block)}
    (h : ConvertedItems early late items items') : items.length = items'.length := by
  induction items generalizing early items' with
  | nil => cases h; rfl
  | cons item items ih =>
      cases h with
      | cons _ _ _ hitems => rw [List.length_cons, List.length_cons, ih hitems]

/-! ## Printing -/

theorem Anchor.print_crlf (anchor : Option Anchor) :
    Anchor.printOption (anchor.map Anchor.crlf) = Text.crlf (Anchor.printOption anchor) := by
  cases anchor with
  | none => rfl
  | some anchor =>
      simp [Anchor.printOption, Anchor.print, Anchor.crlf, crlf_append, crlf_cons]

theorem printComma_crlf (comma : Option Text) :
    printComma (comma.map crlf) = crlf (printComma comma) := by
  cases comma with
  | none => rfl
  | some lead => simp [printComma, crlf_append, crlf_cons]

theorem printDash_crlf (dash : Bool) : crlf (printDash dash) = printDash dash := by
  cases dash <;> rfl

theorem Layout.printOpening_crlf (layout : Layout) {bracket : Char} (h : bracket ≠ '\n') :
    layout.crlf.printOpening bracket = Text.crlf (layout.printOpening bracket) := by
  cases layout <;> simp [Layout.crlf, Layout.printOpening, crlf_cons h]

theorem Layout.printClosing_crlf (layout : Layout) {bracket : Char} (h : bracket ≠ '\n') :
    layout.crlf.printClosing bracket = Text.crlf (layout.printClosing bracket) := by
  cases layout <;> simp [Layout.crlf, Layout.printClosing, crlf_append, crlf_cons h]

theorem Scalar.Converted.print {late : Bool} {scalar scalar' : Scalar}
    (h : scalar.Converted late scalar') : scalar'.print = crlf scalar.print ++ returned late := by
  have hbody : scalar'.printBody = crlf scalar.printBody ++ returned late := by
    rw [Scalar.printBody, Scalar.printBody, h.style, h.text]
    cases late with
    | false => cases scalar.style <;> simp [crlf_append, crlf_cons]
    | true => obtain hstyle | hstyle := h.literal rfl <;> simp [hstyle, crlf_cons]
  rw [Scalar.print, h.lead, h.anchor, Anchor.print_crlf, hbody, Scalar.print, crlf_append,
    crlf_append]
  simp only [List.append_assoc]

/-- Nothing but the closing bracket follows the content of a collection, so a carriage return that
is too early stays at the end. -/
theorem returned_closing {late : Bool} {layout : Layout} (h : late = true → layout = .block)
    {bracket : Char} (hbracket : bracket ≠ '\n') :
    returned late ++ layout.crlf.printClosing bracket =
      crlf (layout.printClosing bracket) ++ returned late := by
  rw [Layout.printClosing_crlf layout hbracket]
  cases late with
  | false => simp
  | true => simp [h rfl, Layout.printClosing]

theorem returned_comma {late : Bool} {comma : Option Text} (h : late = true → comma = none) :
    returned late ++ printComma (comma.map crlf) = crlf (printComma comma) ++ returned late := by
  rw [printComma_crlf]
  cases late with
  | false => simp
  | true => simp [h rfl, printComma]

mutual

/-- A converted node prints as the converted text, up to the carriage return that is too early. -/
theorem ConvertedBlock.print {late : Bool} {block block' : Block} :
    ConvertedBlock late block block' → block'.print = crlf block.print ++ returned late
  | .scalar h => h.print
  | .aliasNode hlead hname => by
    simp [Block.print, Alias.print, hlead, hname, crlf_append, crlf_cons]
  | .mapping hlayout hentries => by
    have hprint := hentries.print
    rw [returned_false, List.nil_append] at hprint
    simp only [Block.print, hprint, Anchor.print_crlf, Layout.printOpening_crlf _
      (by decide : '\x7b' ≠ '\n'), List.append_assoc, returned_closing hlayout
      (by decide : '\x7d' ≠ '\n'), crlf_append]
  | .sequence hlayout hitems => by
    have hprint := hitems.print
    rw [returned_false, List.nil_append] at hprint
    simp only [Block.print, hprint, Anchor.print_crlf, Layout.printOpening_crlf _
      (by decide : '[' ≠ '\n'), List.append_assoc, returned_closing hlayout
      (by decide : ']' ≠ '\n'), crlf_append]

theorem ConvertedEntries.print {early late : Bool} {entries entries' : List (Entry Block)} :
    ConvertedEntries early late entries entries' →
      returned early ++ printEntries entries' = crlf (printEntries entries) ++ returned late
  | .nil late => by simp [printEntries]
  | .cons hlead hkey hvalue hcomma hentries => by
    rw [printEntries, printEntries, hkey.print, hvalue.print]
    simp only [List.append_assoc, List.cons_append, returned_false, List.nil_append]
    -- The carriage return is passed on over the comma, if there is one, to the entries behind.
    rw [← List.append_assoc (returned _) (printComma _), returned_comma hcomma, List.append_assoc,
      hentries.print, ← List.append_assoc (returned _), hlead]
    simp [crlf_append, crlf_cons]

theorem ConvertedItems.print {early late : Bool} {items items' : List (Item Block)} :
    ConvertedItems early late items items' →
      returned early ++ printItems items' = crlf (printItems items) ++ returned late
  | .nil late => by simp [printItems]
  | .cons hlead hvalue hcomma hitems => by
    rw [printItems, printItems, hvalue.print]
    simp only [List.append_assoc]
    rw [← List.append_assoc (returned _) (printComma _), returned_comma hcomma, List.append_assoc,
      hitems.print, ← List.append_assoc (returned _), hlead]
    simp [crlf_append, printDash_crlf]

end

theorem ConvertedDocument.print {document document' : Document}
    (h : ConvertedDocument document document') : document'.print = crlf document.print := by
  obtain ⟨late, hroot, hending⟩ := h.root
  have hdashes : crlf (printDashes document.explicit) = printDashes document.explicit := by
    cases document.explicit <;> rfl
  have hdots : crlf (printDots document.ending.explicit) = printDots document.ending.explicit := by
    cases document.ending.explicit <;> rfl
  rw [Document.print, Document.print, h.lead, h.explicit, h.ending, hroot.print]
  simp only [crlf_append, List.append_assoc, hdashes, hdots]
  rw [← List.append_assoc (returned late), hending]

/-- A converted stream prints as the converted text. -/
theorem ConvertedStream.print {stream stream' : Stream} (h : ConvertedStream stream stream') :
    stream'.print = crlf stream.print := by
  have hdocuments : ∀ {documents documents' : List Document},
      ConvertedDocuments documents documents' →
      documents'.flatMap Document.print = crlf (documents.flatMap Document.print) := by
    intro documents documents' h
    induction h with
    | nil => rfl
    | cons hdocument _ ih => simp [hdocument.print, ih, crlf_append]
  rw [Stream.print, Stream.print, hdocuments h.documents, h.suffix, crlf_append]

/-! ## Addresses -/

/-- The step with the lines of its key converted. -/
def Step.crlf : Step → Step
  | .key name => .key (Text.crlf name)
  | .item n count => .item n count

/-- The segment with the lines of its names converted. -/
def Segment.crlf : Segment → Segment
  | .child name => .child (Text.crlf name)
  | .anyOf names => .anyOf (names.map Text.crlf)
  | segment => segment

/-- The path with the lines of its names converted. -/
def Path.crlf (path : Path) : Path := { path with segments := path.segments.map Segment.crlf }

theorem Text.crlf_beq (first second : Text) : (crlf first == crlf second) = (first == second) := by
  rw [Bool.eq_iff_iff, beq_iff_eq, beq_iff_eq]
  exact ⟨crlf_injective, congrArg crlf⟩

theorem Text.contains_crlf (names : List Text) (key : Text) :
    (names.map crlf).contains (crlf key) = names.contains key := by
  induction names with
  | nil => rfl
  | cons name names ih => rw [List.map_cons, List.contains_cons, List.contains_cons, crlf_beq, ih]

theorem Segment.selects_crlf (segment : Segment) (step : Step) :
    segment.crlf.selects step.crlf = segment.selects step := by
  cases step with
  | item index length => cases segment <;> rfl
  | key key =>
      cases segment with
      | child name => exact Text.crlf_beq name key
      | anyOf names => exact Text.contains_crlf names key
      | index _ | slice _ _ | wildcard | descent => rfl

theorem Segment.crlf_ne_descent {segment : Segment} (h : segment ≠ .descent) :
    segment.crlf ≠ .descent := by
  cases segment <;> simp_all [Segment.crlf]

theorem matchAll_crlf (segments : List Segment) (steps : List Step) :
    matchAll (segments.map Segment.crlf) (steps.map Step.crlf) = matchAll segments steps := by
  fun_induction matchAll segments steps with
  | case1 steps => cases steps <;> rfl
  | case2 segments steps ih =>
      have hdrop : ∀ n, matchAll (segments.map Segment.crlf) ((steps.map Step.crlf).drop n) =
          matchAll segments (steps.drop n) := by
        intro n
        rw [← List.map_drop]
        exact ih n
      rw [List.map_cons]
      show matchAll (.descent :: segments.map Segment.crlf) _ = _
      rw [matchAll]
      simp only [List.length_map, hdrop]
  | case3 segment segments hdescent =>
      rw [List.map_cons, List.map_nil, matchAll]
      exact Segment.crlf_ne_descent hdescent
  | case4 segment segments step steps hdescent ih =>
      rw [List.map_cons, List.map_cons, matchAll, ih, Segment.selects_crlf]
      exact Segment.crlf_ne_descent hdescent

/-- A path selects an address exactly if the converted path selects the converted address. -/
theorem Path.selects_crlf (path : Path) (steps : List Step) :
    path.crlf.selects (steps.map Step.crlf) = path.selects steps := by
  simp only [Path.selects, Path.crlf, List.length_map, ← List.map_drop, matchAll_crlf]

/-! ## Recipes -/

namespace ChangeValue

/-- The second recipe puts the same value where the converted path selects. -/
structure Converts (recipe recipe' : ChangeValue) : Prop where
  path : recipe'.path = recipe.path.crlf
  value : recipe'.options.value = recipe.options.value
  line : '\n' ∉ recipe.options.value

variable {recipe recipe' : ChangeValue} {late : Bool} {block block' : Block}

theorem Converts.isNew (h : Converts recipe recipe') (hblock : ConvertedBlock late block block') :
    recipe'.isNew block' = recipe.isNew block := by
  cases hblock with
  | aliasNode _ _ | mapping _ _ | sequence _ _ => rfl
  | scalar hs =>
      rename_i s s'
      simp only [ChangeValue.isNew, hs.style, hs.anchor, Option.isNone_map, hs.text, h.value]
      cases late with
      | true =>
          have hplain : (s.style == Style.plain) = false := by
            obtain hstyle | hstyle := hs.literal rfl <;> rw [hstyle] <;> rfl
          rw [hplain, Bool.false_and, Bool.false_and, Bool.false_and]
      | false =>
          have hvalue := crlf_beq s.text recipe.options.value
          rw [crlf_eq_self h.line] at hvalue
          rw [returned_false, List.append_nil, hvalue]

/-- The lead of a new value is converted. -/
theorem newLead_converted (h : ConvertedBlock late block block') :
    newLead block' = crlf (newLead block) := by
  have hplain : ∀ lead : Text, (if (crlf lead).isEmpty then [' '] else crlf lead) =
      crlf (if lead.isEmpty then [' '] else lead) := by
    intro lead
    cases lead with
    | nil => rfl
    | cons c lead => rw [if_neg (by simp), if_neg (by simp)]
  cases h with
  | scalar hs =>
      simp only [newLead, Block.lead, hs.lead]
      exact hplain _
  | aliasNode hlead _ =>
      simp only [newLead, Block.lead, hlead]
      exact hplain _
  | mapping _ _ => exact hplain _
  | sequence _ _ =>
      rename_i lead _ _ _ indentless _ _ _ _
      have hline : (crlf lead).contains '\n' = lead.contains '\n' := by
        rw [Bool.eq_iff_iff, List.contains_iff_mem, List.contains_iff_mem, newline_mem_crlf]
      simp only [newLead, hline]
      by_cases hindent : (indentless && lead.contains '\n') = true
      · rw [if_pos hindent, if_pos hindent, crlf_append]
        rfl
      · rw [if_neg hindent, if_neg hindent]
        exact hplain lead

theorem Converts.newValue (h : Converts recipe recipe')
    (hblock : ConvertedBlock late block block') :
    ConvertedBlock false (recipe.newValue block) (recipe'.newValue block') := by
  refine .scalar ⟨newLead_converted hblock, rfl, rfl, ?_, by simp⟩
  rw [returned_false, List.append_nil, crlf_eq_self h.line]
  exact h.value

/-- No carriage return comes too early at the end of a value that does not print with one. -/
theorem late_eq_false (h : ConvertedBlock late block block')
    (hprint : block'.print.getLast? ≠ some '\r') : late = false := by
  cases late with
  | false => rfl
  | true =>
      rw [h.print, returned_true, List.getLast?_concat] at hprint
      exact absurd rfl hprint

mutual

/-- A change keeps the relation, if no value it replaces ends with a carriage return that is too
early. -/
theorem Converts.descendBlock (h : Converts recipe recipe') (address : List Step) {late : Bool}
    {block block' : Block} : ConvertedBlock late block block' →
      (∀ value ∈ recipe'.targetsIn (address.map Step.crlf) block',
        value.print.getLast? ≠ some '\r') →
      ConvertedBlock late (recipe.descendBlock address block)
        (recipe'.descendBlock (address.map Step.crlf) block')
  | .scalar hs, _ => .scalar hs
  | .aliasNode hlead hname, _ => .aliasNode hlead hname
  | .mapping hlayout hentries, htargets => by
    rw [ChangeValue.descendBlock, ChangeValue.descendBlock]
    exact .mapping hlayout (h.descendEntries address hentries htargets)
  | .sequence hlayout hitems, htargets => by
    rw [ChangeValue.descendBlock, ChangeValue.descendBlock, ← hitems.length_eq]
    rw [targetsIn, ← hitems.length_eq] at htargets
    exact .sequence hlayout (h.descendItems address _ 0 hitems htargets)

theorem Converts.descendEntries (h : Converts recipe recipe') (address : List Step)
    {early late : Bool} {entries entries' : List (Entry Block)} :
    ConvertedEntries early late entries entries' →
      (∀ value ∈ recipe'.targetsInEntries (address.map Step.crlf) entries',
        value.print.getLast? ≠ some '\r') →
      ConvertedEntries early late (recipe.descendEntries address entries)
        (recipe'.descendEntries (address.map Step.crlf) entries')
  | .nil late, _ => .nil late
  | .cons hlead hkey hvalue hcomma hentries, htargets => by
    rename_i key key' _ value value' _ _ _
    -- The two entries have one address, so both are selected or neither is.
    have here : address.map Step.crlf ++ [.key key'.text] =
        (address ++ [Step.key key.text]).map Step.crlf := by
      rw [List.map_append, hkey.text, returned_false, List.append_nil]
      rfl
    have hselects : recipe'.path.selects ((address ++ [Step.key key.text]).map Step.crlf) =
        recipe.path.selects (address ++ [.key key.text]) := by
      rw [h.path, Path.selects_crlf]
    rw [targetsInEntries, here, hselects, h.isNew hvalue] at htargets
    have hrest := h.descendEntries address hentries
      fun value hmem => htargets value (List.mem_append_right _ hmem)
    have hfound := fun value hmem => htargets value (List.mem_append_left _ hmem)
    rw [descendEntries_cons, descendEntries_cons, here, hselects, h.isNew hvalue]
    refine .cons hlead hkey ?_ hcomma hrest
    by_cases hselected : recipe.path.selects (address ++ [.key key.text]) = true
    · rw [if_pos hselected] at hfound
      simp only [hselected, if_true]
      by_cases hnew : recipe.isNew value = true
      · rw [if_pos hnew, if_pos hnew]
        exact hvalue
      · rw [if_neg hnew] at hfound
        rw [if_neg hnew, if_neg hnew]
        obtain rfl := late_eq_false hvalue (hfound value' (List.mem_singleton_self _))
        exact h.newValue hvalue
    · rw [if_neg hselected] at hfound
      simp only [hselected, Bool.false_eq_true, if_false]
      exact h.descendBlock _ hvalue hfound

theorem Converts.descendItems (h : Converts recipe recipe') (address : List Step)
    (length index : Nat) {early late : Bool} {items items' : List (Item Block)} :
    ConvertedItems early late items items' →
      (∀ value ∈ recipe'.targetsInItems (address.map Step.crlf) length index items',
        value.print.getLast? ≠ some '\r') →
      ConvertedItems early late (recipe.descendItems address length index items)
        (recipe'.descendItems (address.map Step.crlf) length index items')
  | .nil late, _ => .nil late
  | .cons hlead hvalue hcomma hitems, htargets => by
    have here : address.map Step.crlf ++ [.item index length] =
        (address ++ [Step.item index length]).map Step.crlf := by
      rw [List.map_append]
      rfl
    rw [targetsInItems, here] at htargets
    rw [ChangeValue.descendItems, ChangeValue.descendItems, here]
    exact .cons hlead
      (h.descendBlock _ hvalue fun value hmem => htargets value (List.mem_append_left _ hmem))
      hcomma
      (h.descendItems address length (index + 1) hitems
        fun value hmem => htargets value (List.mem_append_right _ hmem))

end

/-- A run keeps the relation, if no value it replaces ends with a carriage return. -/
theorem Converts.run (h : Converts recipe recipe') {stream stream' : Stream}
    (hstream : ConvertedStream stream stream')
    (htargets : ∀ value ∈ recipe'.targets stream', value.print.getLast? ≠ some '\r') :
    ConvertedStream (recipe.run stream) (recipe'.run stream') := by
  have hdocuments : ∀ {documents documents' : List Document},
      ConvertedDocuments documents documents' →
      (∀ document ∈ documents', ∀ value ∈ recipe'.targetsIn [] document.root,
        value.print.getLast? ≠ some '\r') →
      ConvertedDocuments
        (documents.map fun document =>
          { document with root := recipe.descendBlock [] document.root })
        (documents'.map fun document =>
          { document with root := recipe'.descendBlock [] document.root }) := by
    intro documents documents' hdocuments
    induction hdocuments with
    | nil => exact fun _ => .nil
    | cons hdocument _ ih =>
        intro hmem
        obtain ⟨late, hroot, hending⟩ := hdocument.root
        have hroot' := h.descendBlock [] hroot (hmem _ List.mem_cons_self)
        exact .cons ⟨hdocument.lead, hdocument.explicit, ⟨late, hroot', hending⟩, hdocument.ending⟩
          (ih fun document hdocument => hmem document (List.mem_cons_of_mem _ hdocument))
  rw [run_eq, run_eq]
  refine ⟨hdocuments hstream.documents ?_, hstream.suffix⟩
  intro document hdocument value hvalue
  exact htargets value (List.mem_flatMap.2 ⟨document, hdocument, hvalue⟩)

end ChangeValue

end LosslessYaml
