import LosslessYaml.Proofs.ReadBack.Stream
import LosslessYaml.Proofs.WellFormed.Tree

/-!
# Reading gives well-formed trees

Every tree that can be read is well formed (`Stream.wellFormed_of_parse`).  The proof follows the
rules of reading: what a rule takes for trivia, a name or a plain scalar has the characters that it
may have, and each rule puts well-formed parts together in a way that is well formed.

Where another character follows, the trivia that was read ends its last line, so no comment can run
into it.  Only at the end of the source a comment or a directive may be left open.
-/

namespace LosslessYaml

open Text Lookahead

/-! ## Trivia -/

namespace Trivia

theorem append {first second : Text} (hfirst : Trivia first) (hsecond : Trivia second) :
    Trivia (first ++ second) := by
  induction hfirst with
  | nil => exact hsecond
  | space hc _ ih => exact .space hc ih
  | comment hwords _ ih =>
      rw [List.cons_append, List.append_assoc]
      exact .comment hwords ih

theorem of_blank {text : Text} (h : ∀ c ∈ text, isBlank c = true) : Trivia text := by
  induction text with
  | nil => exact .nil
  | cons c text ih =>
      rw [List.forall_mem_cons] at h
      refine .space ?_ (ih h.2)
      have hc := h.1
      simp only [isBlank, Bool.or_eq_true, beq_iff_eq] at hc
      rcases hc with rfl | rfl <;> simp

end Trivia

/-- What is skipped as trivia is trivia, if the last line is ended by what follows it or else by
hand.  A comment may have been entered before. -/
private theorem trivia_of_triviaFrom {comment : Bool} {trivia x tail : Text}
    (h : triviaFrom comment (trivia ++ x) = trivia.length)
    (htail : tail = ['\n'] ∨ tail = [] ∧ x ≠ []) :
    if comment then ∃ words rest, '\n' ∉ words ∧ trivia ++ tail = words ++ '\n' :: rest ∧
      Trivia rest
    else Trivia (trivia ++ tail) := by
  induction trivia generalizing comment with
  | nil =>
      rcases htail with rfl | ⟨rfl, hx⟩
      · cases comment with
        | false => exact .space (by simp) .nil
        | true => exact ⟨[], [], by simp, rfl, .nil⟩
      · cases comment with
        | false => exact .nil
        | true =>
            obtain ⟨c, x, rfl⟩ := List.exists_cons_of_ne_nil hx
            rw [List.nil_append, triviaFrom] at h
            split at h <;> simp at h
  | cons c trivia ih =>
      rw [List.cons_append, triviaFrom] at h
      split at h
      next hline =>
        have hrest := ih (Nat.succ.inj h)
        rw [eq_of_beq hline]
        cases comment with
        | false => exact .space (by simp) hrest
        | true => exact ⟨[], _, by simp, rfl, hrest⟩
      next hline =>
        split at h
        next hcomment =>
          -- The rest of the line are the words of the comment, whether it starts here or before.
          obtain ⟨words, rest, hwords, heq, hrest⟩ := ih (Nat.succ.inj h)
          rw [List.cons_append, heq]
          cases comment with
          | false =>
              have hc : c = '#' := by simpa using hcomment
              rw [hc]
              exact .comment hwords hrest
          | true =>
              have hne : '\n' ≠ c := by
                rintro rfl
                simp at hline
              exact ⟨c :: words, rest, by simp [hne, hwords], rfl, hrest⟩
        next hcomment =>
          split at h
          next htrailing =>
            have hrest := ih (Nat.succ.inj h)
            cases comment with
            | false =>
                refine .space ?_ hrest
                simp only [isTrailing, Bool.or_eq_true, beq_iff_eq] at htrailing
                rcases htrailing with (rfl | rfl) | rfl <;> simp
            | true => simp at hcomment
          next => simp at h

/-- The same for what is skipped before a document. -/
private theorem preamble_of_preambleLength {lineStart skipping : Bool} {preamble x tail : Text}
    (h : preambleLength lineStart skipping (preamble ++ x) = preamble.length)
    (htail : tail = ['\n'] ∨ tail = [] ∧ x ≠ []) :
    if skipping then ∃ words rest, '\n' ∉ words ∧ preamble ++ tail = words ++ '\n' :: rest ∧
      Preamble true rest
    else Preamble lineStart (preamble ++ tail) := by
  induction preamble generalizing lineStart skipping with
  | nil =>
      rcases htail with rfl | ⟨rfl, hx⟩
      · cases skipping with
        | false => exact .lineEnd .nil
        | true => exact ⟨[], [], by simp, rfl, .nil⟩
      · cases skipping with
        | false => exact .nil
        | true =>
            obtain ⟨c, x, rfl⟩ := List.exists_cons_of_ne_nil hx
            rw [List.nil_append, preambleLength] at h
            split at h <;> simp at h
  | cons c preamble ih =>
      rw [List.cons_append, preambleLength] at h
      split at h
      next hline =>
        have hrest := ih (Nat.succ.inj h)
        rw [eq_of_beq hline]
        cases skipping with
        | false => exact .lineEnd hrest
        | true => exact ⟨[], _, by simp, rfl, hrest⟩
      next hline =>
        split at h
        next hskip =>
          obtain ⟨words, rest, hwords, heq, hrest⟩ := ih (Nat.succ.inj h)
          rw [List.cons_append, heq]
          cases skipping with
          | false =>
              have hc : c = '#' ∨ c = '%' ∧ lineStart = true := by simpa using hskip
              rcases hc with rfl | ⟨rfl, rfl⟩
              · exact .comment hwords hrest
              · exact .directive hwords hrest
          | true =>
              have hne : '\n' ≠ c := by
                rintro rfl
                simp at hline
              exact ⟨c :: words, rest, by simp [hne, hwords], rfl, hrest⟩
        next hskip =>
          split at h
          next htrailing =>
            have hrest := ih (Nat.succ.inj h)
            cases skipping with
            | false =>
                refine .space ?_ hrest
                simp only [isTrailing, Bool.or_eq_true, beq_iff_eq] at htrailing
                rcases htrailing with (rfl | rfl) | rfl <;> simp
            | true => simp at hskip
          next => simp at h

/-! ## Layouts -/

namespace Layout.Separates

variable {inFlow : Bool} {closing : Text} {comma : Option Text} {commas : List (Option Text)}
  {layout : Layout}

theorem last (hclosing : Trivia closing) : (flow closing).Separates inFlow [] :=
  ⟨hclosing, by simp, by simp⟩

/-- Another part in front needs a comma unless it is the only one. -/
theorem cons (h : (flow closing).Separates inFlow commas) (hcomma : comma = none → commas = [])
    (htext : ∀ text ∈ comma, Trivia text) :
    (flow closing).Separates inFlow (comma :: commas) := by
  obtain ⟨hclosing, hall, htexts⟩ := h
  refine ⟨hclosing, ?_, ?_⟩
  · cases commas with
    | nil => simp
    | cons next commas =>
        rw [List.dropLast_cons_cons, List.forall_mem_cons]
        exact ⟨fun hnone => List.cons_ne_nil _ _ (hcomma hnone), hall⟩
  · intro text hmem
    rcases List.mem_cons.mp hmem with heq | hmem
    · exact htext text heq.symm
    · exact htexts text hmem

theorem single : block.Separates false [none] := ⟨rfl, by simp, by simp⟩

theorem more (h : block.Separates false commas) : block.Separates false (none :: commas) :=
  ⟨rfl, by simp, by simpa using h.2.2⟩

/-- What may stand in brackets may stand outside of them. -/
theorem outside (h : layout.Separates true commas) : layout.Separates false commas := by
  cases layout with
  | block => exact absurd h.1 (by simp)
  | flow closing => exact h

end Layout.Separates

/-! ## Nodes -/

namespace Block.WellFormed

variable {inFlow : Bool} {block node : Block}

theorem empty : Block.empty.WellFormed inFlow :=
  .scalar ⟨.nil, by simp, by simp, by simp⟩

theorem outside (h : block.WellFormed true) : block.WellFormed false := by
  cases h with
  | scalar hscalar => exact .scalar ⟨hscalar.lead, hscalar.anchor, by simp, by simp⟩
  | aliasNode hlead => exact .aliasNode hlead
  | mapping hmapping hvalues =>
      exact .mapping { hmapping with separates := hmapping.separates.outside } hvalues
  | sequence hsequence hvalues =>
      exact .sequence { hsequence with separates := hsequence.separates.outside } hvalues

theorem withAnchor {lead : Text} {anchor : Anchor} (h : block.WellFormed inFlow)
    (hlead : Trivia lead) (hanchor : anchor.WellFormed)
    (hnode : block.withAnchor? lead anchor = some node) : node.WellFormed inFlow := by
  have hanchors : ∀ a ∈ some anchor, a.WellFormed := by
    rintro a ⟨⟩
    exact hanchor
  cases h with
  | scalar hscalar =>
      cases hnode
      exact .scalar ⟨hlead, hanchors, hscalar.style, hscalar.plain⟩
  | aliasNode => simp [Block.withAnchor?] at hnode
  | mapping hmapping hvalues =>
      cases hnode
      exact .mapping ⟨hlead, hanchors, hmapping.separates, hmapping.entries⟩ hvalues
  | sequence hsequence hvalues =>
      cases hnode
      exact .sequence ⟨hlead, hanchors, hsequence.separates, hsequence.items⟩ hvalues

end Block.WellFormed

namespace Reader

/-! ## The parts of a node -/

private theorem trivia_append_of {r : Reader} {tail : Text}
    (htail : tail = ['\n'] ∨ tail = [] ∧ r.afterTrivia.rest ≠ []) : Trivia (r.trivia ++ tail) := by
  have hlength : triviaFrom false (r.trivia ++ r.afterTrivia.rest) = r.trivia.length := by
    rw [trivia_append, trivia, taken, List.length_take]
    exact (Nat.min_eq_left (triviaLength_le r.rest)).symm
  exact trivia_of_triviaFrom hlength htail

theorem trivia_of_rest {r : Reader} (h : r.afterTrivia.rest ≠ []) : Trivia r.trivia := by
  simpa using trivia_append_of (.inr ⟨rfl, h⟩)

theorem trivia_of_end (r : Reader) : Trivia (r.trivia ++ ['\n']) := trivia_append_of (.inl rfl)

theorem trivia_blanks (r : Reader) : Trivia r.blanks :=
  .of_blank isBlank_of_mem_blanks

/-- A plain scalar in flow context ends before the characters that it must not hold. -/
private theorem plainFlow_fits (r : Reader) :
    ∀ c ∈ r.taken (plainFlowLength r.rest), c ≠ '\n' ∧ isFlowIndicator c = false := by
  intro c hc
  constructor
  · rintro rfl
    exact notMem_run _ (by simp) _ hc
  · by_contra hflow
    exact notMem_run _ (by simp [hflow]) _ hc

theorem anchor_wellFormed {r after : Reader} {name trail : Text}
    (h : r.anchorName = .ok (name, after)) (htrail : Trivia trail) :
    Anchor.WellFormed ⟨name, trail⟩ := by
  simp only [anchorName] at h
  split at h
  next => simp [fail] at h
  next hlength =>
    cases h
    refine ⟨?_, fun c hc => ?_, htrail⟩
    · intro hnil
      simp only [taken, List.take_eq_nil_iff] at hnil
      rcases hnil with hzero | hrest
      · simp [hzero] at hlength
      · simp [hrest, nameLength, runLength] at hlength
    · constructor
      · intro hspace
        refine notMem_run _ (fun rest => ?_) _ hc
        simp only [List.mem_cons, List.not_mem_nil, or_false] at hspace
        rcases hspace with rfl | rfl | rfl | rfl | rfl <;> rfl
      · by_contra hflow
        exact notMem_run _ (by simp [hflow]) _ hc

theorem anchorAlone_wellFormed {inFlow : Bool} {lead name : Text} {r after : Reader}
    (hlead : Trivia lead) (h : r.anchorName = .ok (name, after)) :
    Block.WellFormed inFlow (.scalar { lead, anchor := some ⟨name, []⟩, text := [] }) := by
  refine .scalar ⟨hlead, ?_, by simp, by simp⟩
  rintro a ⟨⟩
  exact anchor_wellFormed h .nil

theorem quoted_wellFormed {inFlow : Bool} {quote : Char} {lead : Text} {r after : Reader}
    {scalar : Scalar} (hlead : Trivia lead) (h : r.quoted quote lead = .ok (scalar, after)) :
    scalar.WellFormed inFlow := by
  obtain ⟨text, rfl, -⟩ := quoted_eq_ok h
  refine ⟨hlead, by simp, fun _ => ?_, fun _ => ?_⟩ <;> dsimp only <;> split <;> simp

/-! ## Keys -/

private theorem quoted_isKey {inFlow : Bool} {quote : Char} {r after : Reader} {key : Scalar}
    (h : r.quoted quote [] = .ok (key, after)) : key.IsKey inFlow := by
  have hscalar : key.WellFormed inFlow := quoted_wellFormed .nil h
  obtain ⟨text, rfl, -⟩ := quoted_eq_ok h
  refine { hscalar with lead_eq_nil := rfl, plain_or_quoted := ?_, text_ne_nil := ?_ } <;>
    dsimp only <;> split <;> simp

private theorem plainKey_isKey {inFlow : Bool} {n : Nat} {r after : Reader} {key : Scalar}
    (hle : n ≤ r.rest.length)
    (hfits : inFlow = true → ∀ c ∈ r.taken n, c ≠ '\n' ∧ isFlowIndicator c = false)
    (h : r.plainKey n = .ok (key, after)) : key.IsKey inFlow := by
  simp only [plainKey] at h
  split at h
  next => simp [fail] at h
  next hzero =>
    cases h
    refine ⟨⟨.nil, by simp, by simp, fun hflow _ => hfits hflow⟩, rfl, .inl rfl, fun _ hnil => ?_⟩
    have hlength := congrArg List.length hnil
    rw [taken, List.length_take, List.length_nil, Nat.min_eq_left hle] at hlength
    exact hzero (by simp [hlength])

private theorem bareBlockKey_isKey {r after : Reader} {key : Scalar}
    (h : r.bareBlockKey = .ok (key, after)) : key.IsKey false := by
  unfold bareBlockKey at h
  split at h
  next => exact quoted_isKey h
  next => exact quoted_isKey h
  next => exact plainKey_isKey (plainKeyLength_le r.rest) (by simp) h

private theorem bareFlowKey_isKey {r after : Reader} {key : Scalar}
    (h : r.bareFlowKey = .ok (key, after)) : key.IsKey true := by
  unfold bareFlowKey at h
  split at h
  next => exact quoted_isKey h
  next => exact quoted_isKey h
  next => simp [fail] at h
  next => simp [fail] at h
  next => exact plainKey_isKey (runLength_le _ _ r.rest) (fun _ => plainFlow_fits r) h

/-- An anchor does not make another key of a key. -/
private theorem keyWith_isKey {inFlow : Bool} {bare : Reader → Except Failure (Scalar × Reader)}
    (hbare : ∀ {r after : Reader} {key : Scalar}, bare r = .ok (key, after) → key.IsKey inFlow)
    {r after : Reader} {key : Scalar} (h : keyWith bare r = .ok (key, after)) :
    key.IsKey inFlow := by
  unfold keyWith at h
  obtain ⟨⟨anchor, middle⟩, hanchor, h⟩ := bind_eq_ok.mp h
  obtain ⟨⟨key, last⟩, hkey, h⟩ := bind_eq_ok.mp h
  cases h
  have hanchors : ∀ a ∈ anchor, a.WellFormed := by
    unfold keyAnchor at hanchor
    split at hanchor
    next =>
      obtain ⟨⟨name, afterName⟩, hname, hanchor⟩ := bind_eq_ok.mp hanchor
      cases hanchor
      rintro a ⟨⟩
      exact anchor_wellFormed hname (trivia_blanks afterName)
    next =>
      cases hanchor
      simp
  exact { hbare hkey with anchor := hanchors }

theorem blockKey_isKey {r after : Reader} {key : Scalar} (h : r.blockKey = .ok (key, after)) :
    key.IsKey false :=
  keyWith_isKey bareBlockKey_isKey h

theorem flowKey_isKey {r after : Reader} {key : Scalar} (h : r.flowKey = .ok (key, after)) :
    key.IsKey true :=
  keyWith_isKey bareFlowKey_isKey h

/-! ## Flow context -/

/-- A comma has trivia before it, and where there is none the bracket follows. -/
private theorem separator_comma {closing : Char} {r next : Reader} {comma : Option Text}
    (h : r.separator closing = .ok (comma, next)) :
    (∀ text ∈ comma, Trivia text) ∧
      (comma = none → ∃ tail, next.afterTrivia.rest = closing :: tail) := by
  rcases separator_eq_ok h with ⟨tail, hrest, rfl, rfl⟩ | ⟨tail, hrest, rfl, rfl⟩
  · refine ⟨?_, by simp⟩
    rintro text ⟨⟩
    exact trivia_of_rest (by simp [hrest])
  · exact ⟨by simp, fun _ => ⟨tail, hrest⟩⟩

mutual

theorem FlowNode.wellFormed {lead : Text} {r after : Reader} {block : Block}
    (h : FlowNode lead r block after) (hlead : Trivia lead) : block.WellFormed true := by
  match h with
  | .mapping hopen hentries =>
    obtain ⟨hseparates, hall⟩ := hentries.wellFormed
    exact .mapping ⟨hlead, by simp, hseparates, fun entry hentry => (hall entry hentry).1⟩
      fun entry hentry => (hall entry hentry).2
  | .sequence hopen hitems =>
    obtain ⟨hseparates, hall⟩ := hitems.wellFormed
    exact .sequence ⟨hlead, by simp, hseparates, fun item hitem => (hall item hitem).1⟩
      fun item hitem => (hall item hitem).2
  | .quoted hquote hopen hscalar => exact .scalar (quoted_wellFormed hlead hscalar)
  | .aliasNode hopen => exact .aliasNode hlead
  | .anchorAlone hopen hname hend => exact anchorAlone_wellFormed hlead hname
  | .anchored hopen hname hend hnode hanchor =>
    have htrail := trivia_of_rest hnode.rest_ne_nil
    exact (hnode.wellFormed .nil).withAnchor hlead (anchor_wellFormed hname htrail) hanchor
  | .missing hend => exact .scalar ⟨hlead, by simp, by simp, by simp [taken]⟩
  | .plain hopen hmark => exact .scalar ⟨hlead, by simp, by simp, fun _ _ => plainFlow_fits r⟩

theorem FlowEntries.wellFormed {r after : Reader} {entries : List (Entry Block)} {closing : Text}
    (h : FlowEntries r entries closing after) :
    (Layout.flow closing).Separates true (entries.map Entry.comma) ∧
      ∀ entry ∈ entries, entry.WellFormed true ∧ entry.value.WellFormed true := by
  match h with
  | .close hclose => exact ⟨.last (trivia_of_rest (by simp [hclose])), by simp⟩
  | .entry hopen hc hkey hcolon hvalue hcomma hentries =>
    obtain ⟨hseparates, hall⟩ := hentries.wellFormed
    obtain ⟨htext, hnone⟩ := separator_comma hcomma
    refine ⟨hseparates.cons (fun hcomma => ?_) htext, List.forall_mem_cons.mpr ⟨⟨?_, ?_⟩, hall⟩⟩
    · obtain ⟨tail, hclose⟩ := hnone hcomma
      simp [(hentries.close_inv hclose).1]
    · exact ⟨trivia_of_rest (by simp [hopen]), flowKey_isKey hkey, trivia_blanks _⟩
    · exact hvalue.wellFormed (trivia_of_rest hvalue.rest_ne_nil)

theorem FlowItems.wellFormed {r after : Reader} {items : List (Item Block)} {closing : Text}
    (h : FlowItems r items closing after) :
    (Layout.flow closing).Separates true (items.map Item.comma) ∧
      ∀ item ∈ items, item.WellFormed true ∧ item.value.WellFormed true := by
  match h with
  | .close hclose => exact ⟨.last (trivia_of_rest (by simp [hclose])), by simp⟩
  | .item hopen hc hvalue hpair hcomma hitems =>
    obtain ⟨hseparates, hall⟩ := hitems.wellFormed
    obtain ⟨htext, hnone⟩ := separator_comma hcomma
    refine ⟨hseparates.cons (fun hcomma => ?_) htext, List.forall_mem_cons.mpr ⟨⟨?_, ?_⟩, hall⟩⟩
    · obtain ⟨tail, hclose⟩ := hnone hcomma
      simp [(hitems.close_inv hclose).1]
    · exact ⟨rfl, .nil, fun _ => rfl⟩
    · exact hvalue.wellFormed (trivia_of_rest hvalue.rest_ne_nil)

end

/-! ## Block context -/

mutual

theorem BlockNode.wellFormed {floor : Nat} {place : Place} {r after : Reader} {block : Block}
    (h : BlockNode floor place r block after) : block.WellFormed false := by
  match h with
  | .missing hstop => exact .empty
  | .content hstop hcontent =>
    exact hcontent.wellFormed (trivia_of_rest (rest_ne_nil_of_stops hstop))

theorem BlockContent.wellFormed {floor : Nat} {place : Place} {sameLine : Bool} {lead : Text}
    {r after : Reader} {block : Block} (h : BlockContent floor place sameLine lead r block after)
    (hlead : Trivia lead) : block.WellFormed false := by
  match h with
  | .anchorAlone hopen hname hend => exact anchorAlone_wellFormed hlead hname
  | .anchored hopen hname hend hcontent hanchor =>
    have hstop := (Bool.or_eq_false_iff.mp hend).1
    have htrail := trivia_of_rest (rest_ne_nil_of_stops hstop)
    exact (hcontent.wellFormed .nil).withAnchor hlead (anchor_wellFormed hname htrail) hanchor
  | .aliasNode hopen => exact .aliasNode hlead
  | .flow hopen hnode => exact (hnode.wellFormed hlead).outside
  | .literal hopen => exact .scalar ⟨hlead, by simp, by simp, by simp⟩
  | .folded hopen => exact .scalar ⟨hlead, by simp, by simp, by simp⟩
  | .quoted hopen hscalar => exact .scalar (quoted_wellFormed hlead hscalar)
  | .sequence hopen hline hitems =>
    obtain ⟨hseparates, hall⟩ := hitems.wellFormed .nil
    exact .sequence ⟨hlead, by simp, hseparates, fun item hitem => (hall item hitem).1⟩
      fun item hitem => (hall item hitem).2
  | .mapping hopen hline hentries =>
    obtain ⟨hseparates, hall⟩ := hentries.wellFormed .nil
    exact .mapping ⟨hlead, by simp, hseparates, fun entry hentry => (hall entry hentry).1⟩
      fun entry hentry => (hall entry hentry).2
  | .plain hopen => exact .scalar ⟨hlead, by simp, by simp, by simp⟩

theorem BlockEntries.wellFormed {lead : Text} {r after : Reader} {entries : List (Entry Block)}
    (h : BlockEntries lead r entries after) (hlead : Trivia lead) :
    Layout.block.Separates false (entries.map Entry.comma) ∧
      ∀ entry ∈ entries, entry.WellFormed false ∧ entry.value.WellFormed false := by
  match h with
  | .last hstart hkey hcolon hvalue hnext =>
    refine ⟨.single, List.forall_mem_cons.mpr ⟨⟨?_, hvalue.wellFormed⟩, by simp⟩⟩
    exact ⟨hlead, blockKey_isKey hkey, trivia_blanks _⟩
  | .more hstart hkey hcolon hvalue hnext hentries =>
    have hrest := (entryFollows_inv hnext).2.2.1
    obtain ⟨hseparates, hall⟩ := hentries.wellFormed (trivia_of_rest hrest)
    refine ⟨hseparates.more, List.forall_mem_cons.mpr ⟨⟨?_, hvalue.wellFormed⟩, hall⟩⟩
    exact ⟨hlead, blockKey_isKey hkey, trivia_blanks _⟩

theorem BlockItems.wellFormed {lead : Text} {r after : Reader} {items : List (Item Block)}
    (h : BlockItems lead r items after) (hlead : Trivia lead) :
    Layout.block.Separates false (items.map Item.comma) ∧
      ∀ item ∈ items, item.WellFormed false ∧ item.value.WellFormed false := by
  match h with
  | .last hstart hvalue hnext =>
    refine ⟨.single, List.forall_mem_cons.mpr ⟨⟨?_, hvalue.wellFormed⟩, by simp⟩⟩
    exact ⟨rfl, hlead, by simp⟩
  | .more hstart hvalue hnext hitems =>
    have hrest := (itemFollows_inv hnext).2.2.1
    obtain ⟨hseparates, hall⟩ := hitems.wellFormed (trivia_of_rest hrest)
    refine ⟨hseparates.more, List.forall_mem_cons.mpr ⟨⟨?_, hvalue.wellFormed⟩, hall⟩⟩
    exact ⟨rfl, hlead, by simp⟩

end

/-! ## Documents -/

private theorem preamble_append_of {r : Reader} {tail : Text}
    (htail : tail = ['\n'] ∨ tail = [] ∧ r.afterPreamble.rest ≠ []) :
    Preamble (r.column == 0) (r.preamble ++ tail) := by
  have hlength : preambleLength (r.column == 0) false (r.preamble ++ r.afterPreamble.rest) =
      r.preamble.length := by
    simp only [preamble, afterPreamble, taken, skip, List.take_append_drop, List.length_take]
    exact (Nat.min_eq_left (preambleLength_le _ _ r.rest)).symm
  exact preamble_of_preambleLength hlength htail

/-- Where reading goes on after the end of a document: behind the mark of its end, at the end of the
source or at the mark of the next document. -/
def Ended (ending : Ending) (r : Reader) : Prop :=
  if ending.explicit then r.column ≠ 0 else r.rest = [] ∨ r.startsDocument = true

theorem ended_of_ending {r after : Reader} {ending : Ending} (h : r.ending = .ok (ending, after)) :
    Ended ending after := by
  rcases ending_eq_ok h with ⟨hrest, rfl, rfl⟩ | ⟨hcolumn, hdots, rfl, rfl⟩ |
    ⟨hcolumn, hdashes, rfl, rfl⟩
  · exact .inl hrest
  · obtain ⟨tail, htail⟩ := eq_dots_of_atDots hdots
    simp only [Ended, if_true, skip, htail, hcolumn, List.take_succ_cons, List.take_zero,
      columnAfter]
    decide
  · exact .inr (by simp [startsDocument, hcolumn, hdashes])

namespace Ended

variable {ending : Ending} {r : Reader}

/-- Nothing lies between a document that ends without a mark and the next one. -/
private theorem preamble_eq_nil (h : Ended ending r) (hexplicit : ending.explicit = false) :
    r.preamble = [] ∧ r.afterPreamble = r := by
  have hlength : preambleLength (r.column == 0) false r.rest = 0 := by
    simp only [Ended, hexplicit, startsDocument, Bool.and_eq_true] at h
    rcases h with hrest | ⟨-, hdashes⟩
    · rw [hrest]
      rfl
    · obtain ⟨tail, htail⟩ := eq_dashes_of_atDashes hdashes
      simp [htail, preambleLength, isTrailing]
  simp [preamble, afterPreamble, hlength, taken, skip_zero]

theorem preamble {tail : Text} (h : Ended ending r)
    (htail : tail = ['\n'] ∨ tail = [] ∧ r.afterPreamble.rest ≠ []) :
    Preamble false (r.preamble ++ tail) := by
  cases hexplicit : ending.explicit with
  | true =>
      have hcolumn : (r.column == 0) = false := by simpa [Ended, hexplicit] using h
      exact hcolumn ▸ preamble_append_of htail
  | false =>
      rw [(h.preamble_eq_nil hexplicit).1, List.nil_append]
      rcases htail with rfl | ⟨rfl, -⟩
      · exact .lineEnd .nil
      · exact .nil

theorem explicit_of_suffix (h : Ended ending r) (hsuffix : r.preamble ≠ []) :
    ending.explicit = true := by
  by_contra hexplicit
  exact hsuffix (h.preamble_eq_nil (by simpa using hexplicit)).1

theorem apart (h : Ended ending r) (hmore : r.afterPreamble.rest ≠ []) :
    r.afterPreamble.startsDocument = true ∨ ending.explicit = true := by
  cases hexplicit : ending.explicit with
  | true => exact .inr rfl
  | false =>
      have hsame := (h.preamble_eq_nil hexplicit).2
      simp only [Ended, hexplicit] at h
      rw [hsame] at hmore ⊢
      exact .inl (h.resolve_left hmore)

end Ended

theorem DocumentNode.wellFormed {lead : Text} {r after : Reader} {document : Document}
    (h : DocumentNode lead r document after) :
    document.lead = lead ∧ document.explicit = r.startsDocument ∧
      document.root.WellFormed false ∧ Trivia (document.ending.lead ++ ['\n']) ∧
      Ended document.ending after := by
  cases h with
  | intro hroot hending =>
      refine ⟨rfl, rfl, hroot.wellFormed, ?_, ended_of_ending hending⟩
      rcases ending_eq_ok hending with ⟨-, rfl, -⟩ | ⟨-, -, rfl, -⟩ | ⟨-, -, rfl, -⟩ <;>
        exact trivia_of_end _

/-- The documents after one that was read already. -/
theorem MoreDocuments.wellFormed {r last : Reader} {documents : List Document} {suffix : Text}
    (h : MoreDocuments r documents suffix last) {before : Document}
    (hbefore : Ended before.ending r) :
    (before :: documents).IsChain (fun before after =>
        after.explicit = true ∨ before.ending.explicit = true) ∧
      (suffix ≠ [] → ∀ last ∈ (before :: documents).getLast?, last.ending.explicit = true) ∧
      (∀ document ∈ documents, document.root.WellFormed false ∧ Preamble false document.lead ∧
        Trivia (document.ending.lead ++ ['\n'])) ∧
      Preamble false (suffix ++ ['\n']) := by
  induction h generalizing before with
  | done hend =>
      refine ⟨.singleton _, fun hsuffix => ?_, by simp, hbefore.preamble (.inl rfl)⟩
      rintro last ⟨⟩
      exact hbefore.explicit_of_suffix hsuffix
  | @document r _ _ document documents _ hmore hdocument hdocuments ih =>
      obtain ⟨hlead, hexplicit, hroot, hending, hended⟩ := hdocument.wellFormed
      obtain ⟨hchain, hlast, hall, hsuffix⟩ := ih hended
      refine ⟨.cons_cons ?_ hchain, ?_, ?_, hsuffix⟩
      · rw [hexplicit]
        exact hbefore.apart hmore
      · rwa [List.getLast?_cons_cons]
      · have hpreamble : Preamble false document.lead := by
          rw [hlead]
          simpa using hbefore.preamble (.inr ⟨rfl, hmore⟩)
        exact List.forall_mem_cons.mpr ⟨⟨hroot, hpreamble, hending⟩, hall⟩

theorem StreamNode.wellFormed {mark : Text} {r last : Reader} {stream : Stream}
    (h : StreamNode mark r stream last) (hmark : mark = [] ∨ mark = ['\ufeff'])
    (hcolumn : r.column = 0) : stream.WellFormed := by
  have hpreamble : Preamble true (r.preamble ++ ['\n']) := by
    simpa [hcolumn] using preamble_append_of (r := r) (.inl rfl)
  cases h with
  | blank hend =>
      exact {
        documents_ne_nil := by simp
        roots := by simpa using Block.WellFormed.empty
        apart := .singleton _
        ended := by simp
        first := by
          rintro first ⟨⟩
          exact ⟨mark, r.preamble, rfl, hmark, hpreamble⟩
        leads := by simp
        endings := by simpa using Trivia.space (by simp) .nil
        suffix := .lineEnd .nil }
  | documents hmore hfirst hdocuments =>
      obtain ⟨hlead, -, hroot, hending, hended⟩ := hfirst.wellFormed
      obtain ⟨hchain, hlast, hall, hsuffix⟩ := hdocuments.wellFormed hended
      exact {
        documents_ne_nil := by simp
        roots := List.forall_mem_cons.mpr ⟨hroot, fun document hmem => (hall document hmem).1⟩
        apart := hchain
        ended := hlast
        first := by
          rintro first ⟨⟩
          exact ⟨mark, r.preamble, hlead, hmark, hpreamble⟩
        leads := fun document hmem => (hall document hmem).2.1
        endings := List.forall_mem_cons.mpr ⟨hending, fun document hmem => (hall document hmem).2.2⟩
        suffix := hsuffix }

end Reader

theorem Stream.wellFormed_of_parse {source : Text} {stream : Stream}
    (h : Stream.parse source = .ok stream) : stream.WellFormed := by
  obtain ⟨last, hrules⟩ := Stream.parse_eq_ok_iff.mp h
  refine hrules.wellFormed ?_ rfl
  rcases splitMark_cases source with hmark | ⟨hmark, -⟩
  · exact .inr hmark
  · exact .inl hmark

end LosslessYaml
