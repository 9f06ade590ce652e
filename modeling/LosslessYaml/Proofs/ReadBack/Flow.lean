import LosslessYaml.Proofs.ReadBack.Rereads
import LosslessYaml.Proofs.ReadBack.Start

/-!
# Reading a changed tree again, in flow context

The mutual theorems at the end say that a changed node, changed entries and changed items in flow
context are read back exactly if they are legible.  The lemmas before them are the steps: one for
each rule by which such a part is read, from the parts that the rule reads.
-/

namespace LosslessYaml

open Text Lookahead ChangeValue

namespace ChangeValue

variable {recipe : ChangeValue}

/-- A change of a node with an anchor is a change of the node without it. -/
theorem PatchedBlock.withAnchor_inv {lead : Text} {anchor : Anchor} {block node node' : Block}
    (hanchor : block.withAnchor? lead anchor = some node) (h : PatchedBlock recipe node node') :
    ∃ block', PatchedBlock recipe block block' ∧ block'.withAnchor? lead anchor = some node' := by
  cases block with
  | aliasNode a => simp [Block.withAnchor?] at hanchor
  | scalar s =>
      simp only [Block.withAnchor?, Option.some.injEq] at hanchor
      subst hanchor
      cases h
      exact ⟨_, .scalar s, rfl⟩
  | mapping m =>
      simp only [Block.withAnchor?, Option.some.injEq] at hanchor
      subst hanchor
      cases h with
      | mapping hentries => exact ⟨_, .mapping hentries, rfl⟩
  | sequence q =>
      simp only [Block.withAnchor?, Option.some.injEq] at hanchor
      subst hanchor
      cases h with
      | sequence hitems => exact ⟨_, .sequence hitems, rfl⟩

end ChangeValue

namespace Reader

variable {recipe : ChangeValue}

/-! ## Values -/

theorem take_append_eq_iff {text after : Text} {n : Nat} (h : n ≤ (text ++ after).length) :
    (text ++ after).take n = text ↔ n = text.length := by
  constructor
  · intro htake
    have hlength := congrArg List.length htake
    rw [List.length_take] at hlength
    omega
  · rintro rfl
    exact List.take_left

/-- A plain scalar in flow context is read back if it is as long as it is found to be. -/
private theorem plain_rereads_flow {text y : Text} {r' : Reader} {c : Char} (lead lead' : Text)
    (column : Nat) (hrest : r'.rest = c :: text ++ y) (hmark : isFlowMark c = false) :
    Rereads (FlowNode lead' r')
      (fun again => again.data = (Block.scalar { lead, text := c :: text }).data)
      (fun last => last.rest = y)
      ((Block.scalar { lead, text := c :: text }).legible none column y) := by
  have hle : plainFlowLength (c :: text ++ y) ≤ (c :: text ++ y).length := runLength_le _ _ _
  have hsame : (r'.plain (plainFlowLength r'.rest) lead').1.data =
      (Block.scalar { lead, text := c :: text }).data ↔
        plainFlowLength (c :: text ++ y) = (c :: text).length := by
    simp only [Reader.plain, Block.data, taken, Option.map_none, Data.scalar.injEq, true_and]
    rw [hrest, take_append_eq_iff hle]
  have hnode := @FlowNode.plain lead' (text ++ y) r' c hrest hmark
  refine .of_unique hnode hnode.unique ?_ fun hdata => ?_
  · rw [hsame]
    simp [Block.legible, Scalar.legible, anchorLegible_flow]
  · show (r'.skip (plainFlowLength r'.rest)).rest = y
    rw [hrest, hsame.mp hdata, rest_skip hrest]

/-- A plain scalar that was read has text, since a comma or a bracket follows it. -/
private theorem keptPlain_rereads_flow {lead tail y : Text} {r r' : Reader} {c : Char}
    (lead' : Text) (column : Nat) (hopen : r.rest = c :: tail) (hmark : isFlowMark c = false)
    (hstart : triviaLength r.rest = 0)
    (hahead : FlowAhead (r.skip (plainFlowLength r.rest)).rest y)
    (hrest : r'.rest = (r.plain (plainFlowLength r.rest) lead).1.body ++ y) :
    Rereads (FlowNode lead' r')
      (fun again => again.data = (r.plain (plainFlowLength r.rest) lead).1.data)
      (fun last => last.rest = y)
      ((r.plain (plainFlowLength r.rest) lead).1.legible none column y) := by
  simp only [Reader.plain] at hrest ⊢
  cases htext : r.taken (plainFlowLength r.rest) with
  | nil =>
      have hzero : plainFlowLength r.rest = 0 := by
        simpa [taken, hopen] using htext
      have hend := hahead.atFlowEnd_drop.1
      rw [hzero, skip_zero, hstart, List.drop_zero, hopen] at hend
      simp only [atFlowEnd, Bool.or_eq_true, beq_iff_eq] at hend
      rcases hend with (rfl | rfl) | rfl <;> simp [isFlowMark, isFlowIndicator] at hmark
  | cons d text =>
      have hd : d = c := by
        have hsplit := List.take_append_drop (plainFlowLength r.rest) r.rest
        rw [show r.rest.take _ = d :: text from htext, hopen] at hsplit
        exact (List.cons.inj hsplit).1
      subst hd
      rw [htext] at hrest
      exact plain_rereads_flow lead lead' column hrest hmark

/-- A quoted scalar is read up to its closing quote. -/
private theorem quoted_rereads_flow {quote : Char} {lead y : Text} {r after r' : Reader}
    {scalar : Scalar} (lead' : Text) (column : Nat) (hquote : quote = '"' ∨ quote = '\'')
    (hscalar : r.quoted quote lead = .ok (scalar, after)) (hhead : after.rest.head? = y.head?)
    (hrest : r'.rest = scalar.printBody ++ y) :
    Rereads (FlowNode lead' r') (fun again => again.data = (Block.scalar scalar).data)
      (fun last => last.rest = y) ((Block.scalar scalar).legible none column y) := by
  have hagain := quoted_again hquote hscalar lead' hrest hhead
  obtain ⟨text, rfl, -, -⟩ := quoted_eq_ok hscalar
  have hopen : r'.rest = quote :: (text ++ [quote] ++ y) := by
    rw [hrest, printBody_quoted hquote, List.cons_append]
  have hnode := FlowNode.quoted hquote hopen hagain
  refine .of_unique hnode hnode.unique ?_ fun _ => rest_skip hrest
  rcases hquote with rfl | rfl <;>
    simp [Block.data, Block.legible, anchorLegible_flow, Scalar.legible]

/-- The value of a new entry, in flow context. -/
private theorem newValue_rereads_flow {value : Block} {x y : Text} {r' : Reader} (column : Nat)
    (hsound : ValueProblem.Sound recipe.options.value) (hlead : IsTrivia value.lead)
    (hahead : FlowAhead x y) (hrest : r'.rest = (recipe.newValue value).print ++ y) :
    Rereads (FlowNode r'.trivia r'.afterTrivia)
      (fun again => again.data = (recipe.newValue value).data)
      (fun last => ∃ trivia, IsTrivia trivia ∧ y = trivia ++ last.rest)
      ((recipe.newValue value).legible none column y) := by
  have hlead' := newLead_isTrivia hlead
  rw [print_newValue, List.append_assoc] at hrest
  cases hvalue : recipe.options.value with
  | nil =>
      -- nothing is written, so the reader goes on to the comma or the bracket
      cases hahead with
      | @intro trivia x y c htrivia hend =>
          rw [hvalue, List.nil_append, ← List.append_assoc] at hrest
          obtain ⟨-, hafter⟩ := trivia_eq hrest (hlead'.append htrivia)
            (FlowAhead.triviaLength_cons hend y)
          have hrest' : r'.afterTrivia.rest = c :: y := by rw [hafter, rest_skip hrest]
          have hnode := @FlowNode.missing r'.trivia r'.afterTrivia (by rw [hrest']; exact hend)
          refine .of_unique hnode hnode.unique ?_ fun _ => ⟨trivia, htrivia, ?_⟩
          · simp [Reader.plain, newValue, Block.data, hvalue, taken, Block.legible, Scalar.legible,
              anchorLegible_flow]
          · show trivia ++ c :: y = trivia ++ (r'.afterTrivia.skip 0).rest
            rw [skip_zero, hrest']
  | cons c tail =>
      have hstart := hsound.triviaLength_eq_zero (by simp [hvalue]) y
      obtain ⟨htrivia, hafter⟩ := trivia_eq hrest hlead' hstart
      have hrest' : r'.afterTrivia.rest = c :: tail ++ y := by
        rw [hafter, rest_skip hrest, hvalue]
      have hread := plain_rereads_flow (newLead value) r'.trivia column hrest'
        (hvalue ▸ hsound).isFlowMark_eq_false
      simp only [newValue, hvalue]
      exact hread.weaken fun hlast => ⟨[], .nil, hlast.symm⟩

/-! ## Anchors -/

/-- A node after an anchor is reread if the node without the anchor is. -/
private theorem anchored_rereads_flow {lead lead' name trail tail y : Text} {r' middle : Reader}
    {block node : Block} {column : Nat} (hopen : r'.rest = '&' :: tail)
    (hname : r'.anchorName = .ok (name, middle))
    (hend : atFlowEnd middle.afterTrivia.rest = false)
    (hhead : middle.afterTrivia.rest.head? ≠ some '&') (hnone : block.anchor = none)
    (hanchor : block.withAnchor? lead ⟨name, trail⟩ = some node)
    (h : Rereads (FlowNode [] middle.afterTrivia) (fun again => again.data = block.data)
      (fun last => last.rest = y)
      (block.legible none (columnAfter column (Anchor.print ⟨name, trail⟩)) y)) :
    Rereads (FlowNode lead' r') (fun again => again.data = node.data) (fun last => last.rest = y)
      (node.legible none column y) := by
  rw [Block.legible_withAnchor hanchor hnone, anchorLegible_flow, Bool.true_and]
  refine h.transfer ?_ ?_
  · intro again last hagain hdata _
    obtain ⟨node', hnode'⟩ := Block.exists_withAnchor hdata hanchor lead' ⟨name, middle.trivia⟩
    refine ⟨node', _, .anchored hopen hname hend hagain hnode', ?_⟩
    rw [Block.data_withAnchor hnode', Block.data_withAnchor hanchor, hdata]
  · intro node' last' hnode' hdata
    obtain ⟨again, last, hagain, hwith, rfl⟩ := hnode'.anchor_inv hopen hname hend
    have hnone' := hagain.anchor_eq_none_iff.mpr hhead
    exact ⟨again, last, hagain, Block.data_of_withAnchor hanchor hwith hnone hnone' hdata, id⟩

/-- An anchor that stands alone. -/
private theorem anchorAlone_rereads_flow {lead name y : Text} {r after r' : Reader} (lead' : Text)
    (column : Nat) (hname : r.anchorName = .ok (name, after)) (hahead : FlowAhead after.rest y)
    (hrest : r'.rest = ('&' :: name) ++ y) :
    Rereads (FlowNode lead' r')
      (fun again => again.data =
        (Block.scalar { lead, anchor := some ⟨name, []⟩, text := [] }).data)
      (fun last => last.rest = y)
      ((Block.scalar { lead, anchor := some ⟨name, []⟩, text := [] }).legible none column y) := by
  have hmiddle := rest_skip hrest
  have hend : atFlowEnd (r'.skip ('&' :: name).length).afterTrivia.rest = true := by
    show atFlowEnd ((r'.skip _).rest.drop (triviaLength (r'.skip _).rest)) = true
    rw [hmiddle]
    exact hahead.atFlowEnd_drop.2
  have hnode := @FlowNode.anchorAlone lead' _ _ _ _ hrest
    (anchorName_again hname hrest hahead.head) hend
  refine .of_unique hnode hnode.unique ?_ fun _ => hmiddle
  simp [Block.data, Block.legible, anchorLegible_flow, Scalar.legible]

/-! ## Commas and brackets -/

/-- Trivia that was skipped already makes no difference to where the next token is. -/
private theorem rest_afterTrivia {r : Reader} {skipped lead rest : Text}
    (hskipped : IsTrivia skipped) (hlead : IsTrivia lead) (hstart : triviaLength rest = 0)
    (h : lead ++ rest = skipped ++ r.rest) : r.afterTrivia.rest = rest := by
  have hlength : lead.length = skipped.length + triviaLength r.rest := by
    have hsame := congrArg triviaLength h
    rw [hlead, hskipped, hstart] at hsame
    omega
  calc r.rest.drop (triviaLength r.rest)
      = (skipped ++ r.rest).drop (skipped.length + triviaLength r.rest) := by
        rw [← List.drop_drop, List.drop_left]
    _ = (lead ++ rest).drop lead.length := by rw [h, hlength]
    _ = rest := List.drop_left

/-- What follows a value of a flow collection: the same comma, or the end of the collection.  A
reader that comes to it after the changed value finds it, whatever trivia it skipped. -/
private theorem separator_again {closing : Char} (hclosing : closing = '\x7d' ∨ closing = ']')
    {afterValue next : Reader} {comma : Option Text} {rest : Text}
    (hcomma : afterValue.separator closing = .ok (comma, next))
    (hclose : comma = none → ∃ tail, rest = afterValue.trivia ++ closing :: tail) :
    FlowAhead afterValue.rest (printComma comma ++ rest) ∧
      ∀ {last : Reader} {skipped : Text}, IsTrivia skipped →
        printComma comma ++ rest = skipped ++ last.rest →
        ∃ comma' next', last.separator closing = .ok (comma', next') ∧
          ∃ skipped', IsTrivia skipped' ∧ rest = skipped' ++ next'.rest := by
  rcases separator_eq_ok hcomma with ⟨tail, hafter, rfl, rfl⟩ | ⟨tail, hafter, rfl, rfl⟩
  · have htrivia : IsTrivia afterValue.trivia := isTrivia_trivia (by simp [hafter])
    simp only [printComma, List.append_assoc, List.singleton_append]
    constructor
    · rw [← trivia_append afterValue, hafter]
      exact .intro htrivia rfl
    · intro last skipped hskipped hlast
      have hrest := rest_afterTrivia hskipped htrivia (FlowAhead.triviaLength_cons rfl rest) hlast
      refine ⟨some last.trivia, last.afterTrivia.skip 1, by simp [separator, hrest], [], .nil, ?_⟩
      simp [skip, hrest]
  · obtain ⟨tail', rfl⟩ := hclose rfl
    have htrivia : IsTrivia next.trivia := isTrivia_trivia (by simp [hafter])
    have hend : atFlowEnd [closing] = true ∧ closing ≠ ',' := by
      rcases hclosing with rfl | rfl <;> decide
    simp only [printComma, List.nil_append]
    constructor
    · rw [← trivia_append next, hafter]
      exact .intro htrivia hend.1
    · intro last skipped hskipped hlast
      have hrest := rest_afterTrivia hskipped htrivia
        (FlowAhead.triviaLength_cons hend.1 tail') hlast
      exact ⟨none, last, by simp [separator, hrest, hend.2], skipped, hskipped, hlast⟩

/-- The entries of a flow mapping from a changed entry on: its value is read, then the comma or the
bracket, then the others. -/
private theorem entry_rereads_flow {r' afterKey : Reader} {c : Char} {tail colonTail y : Text}
    {key : Scalar} {data : Data} {entries : List (Entry Block)} {legible legibleRest : Bool}
    (rest : Text) (hopen : r'.afterTrivia.rest = c :: tail) (hc : c ≠ '\x7d')
    (hkey : r'.afterTrivia.flowKey = .ok (key, afterKey))
    (hcolon : afterKey.afterBlanks.rest = ':' :: colonTail)
    (hvalue : Rereads (FlowNode (afterKey.afterBlanks.skip 1).trivia
      (afterKey.afterBlanks.skip 1).afterTrivia) (fun again => again.data = data)
      (fun last => ∃ skipped, IsTrivia skipped ∧ rest = skipped ++ last.rest) legible)
    (hentries : ∀ {middle : Reader} {skipped : Text}, IsTrivia skipped →
      rest = skipped ++ middle.rest → ∃ comma next, middle.separator '\x7d' = .ok (comma, next) ∧
        Rereads (fun again last => ∃ closing, FlowEntries next again closing last)
          (fun again => entriesData again = entriesData entries) (fun last => last.rest = y)
          legibleRest) :
    Rereads (fun again last => ∃ closing, FlowEntries r' again closing last)
      (fun again => entriesData again = (key.keyData, data) :: entriesData entries)
      (fun last => last.rest = y) (legible && legibleRest) := by
  have hmore : ∀ {middle : Reader}, (∃ skipped, IsTrivia skipped ∧ rest = skipped ++ middle.rest) →
      Rereads (fun again last => ∃ comma next, middle.separator '\x7d' = .ok (comma, next) ∧
          ∃ closing, FlowEntries next again closing last)
        (fun again => entriesData again = entriesData entries) (fun last => last.rest = y)
        legibleRest := by
    rintro middle ⟨skipped, hskipped, hrest⟩
    obtain ⟨comma, next, hcomma, hnext⟩ := hentries hskipped hrest
    exact hnext.afterStep hcomma
  refine hvalue.andThen hmore ?_ ?_
  · rintro value middle others last hvalue hdata - ⟨comma, next, hcomma, closing, hothers⟩ hsame
    refine ⟨_, ⟨closing, .entry hopen hc hkey hcolon hvalue hcomma hothers⟩, ?_⟩
    rw [entriesData, hdata, hsame]
  · rintro all last ⟨closing, hall⟩ hdata
    cases hall with
    | close hclose =>
        rw [hopen] at hclose
        cases hclose
        exact absurd rfl hc
    | entry _ _ hkey' _ hvalue' hcomma' hothers =>
        cases hkey.symm.trans hkey'
        simp only [entriesData, List.cons.injEq, Prod.mk.injEq, true_and] at hdata
        exact ⟨_, _, hvalue', hdata.1, fun _ => ⟨_, ⟨_, _, hcomma', _, hothers⟩, hdata.2⟩⟩

/-- The items of a flow sequence from a changed item on. -/
private theorem item_rereads_flow {r' : Reader} {c : Char} {tail y : Text} {data : Data}
    {items : List (Item Block)} {legible legibleRest : Bool} (rest : Text)
    (hopen : r'.afterTrivia.rest = c :: tail) (hc : c ≠ ']')
    (hvalue : Rereads (FlowNode r'.trivia r'.afterTrivia) (fun again => again.data = data)
      (fun last => ∃ skipped, IsTrivia skipped ∧ rest = skipped ++ last.rest) legible)
    (hitems : ∀ {middle : Reader} {skipped : Text}, IsTrivia skipped →
      rest = skipped ++ middle.rest → ∃ comma next, middle.separator ']' = .ok (comma, next) ∧
        Rereads (fun again last => ∃ closing, FlowItems next again closing last)
          (fun again => itemsData again = itemsData items) (fun last => last.rest = y)
          legibleRest) :
    Rereads (fun again last => ∃ closing, FlowItems r' again closing last)
      (fun again => itemsData again = data :: itemsData items) (fun last => last.rest = y)
      (legible && legibleRest) := by
  have hmore : ∀ {middle : Reader}, (∃ skipped, IsTrivia skipped ∧ rest = skipped ++ middle.rest) →
      Rereads (fun again last => ∃ comma next, middle.separator ']' = .ok (comma, next) ∧
          ∃ closing, FlowItems next again closing last)
        (fun again => itemsData again = itemsData items) (fun last => last.rest = y)
        legibleRest := by
    rintro middle ⟨skipped, hskipped, hrest⟩
    obtain ⟨comma, next, hcomma, hnext⟩ := hitems hskipped hrest
    exact hnext.afterStep hcomma
  refine hvalue.andThen hmore ?_ ?_
  · rintro value middle others last hvalue hdata - ⟨comma, next, hcomma, closing, hothers⟩ hsame
    have hpair : middle.afterTrivia.rest.head? ≠ some ':' := by
      rcases separator_eq_ok hcomma with ⟨tail, hafter, -⟩ | ⟨tail, hafter, -⟩ <;> simp [hafter]
    refine ⟨_, ⟨closing, .item hopen hc hvalue hpair hcomma hothers⟩, ?_⟩
    rw [itemsData, hdata, hsame]
  · rintro all last ⟨closing, hall⟩ hdata
    cases hall with
    | close hclose =>
        rw [hopen] at hclose
        cases hclose
        exact absurd rfl hc
    | item _ _ hvalue' _ hcomma' hothers =>
        simp only [itemsData, List.cons.injEq] at hdata
        exact ⟨_, _, hvalue', hdata.1, fun _ => ⟨_, ⟨_, _, hcomma', _, hothers⟩, hdata.2⟩⟩

/-- The texts and places of an entry of a flow mapping, where no anchor was dropped. -/
private theorem entry_source_flow {r afterKey afterValue next after : Reader}
    {key : Scalar} {value : Block} {comma : Option Text} {entries : List (Entry Block)}
    {colonTail closing : Text} (hkey : r.flowKey = .ok (key, afterKey))
    (hcolon : afterKey.afterBlanks.rest = ':' :: colonTail)
    (hvalue : FlowNode (afterKey.afterBlanks.skip 1).trivia
      (afterKey.afterBlanks.skip 1).afterTrivia value afterValue)
    (hcomma : afterValue.separator '\x7d' = .ok (comma, next))
    (hentries : FlowEntries next entries closing after) (hdropped : after.dropped = r.dropped) :
    afterKey.dropped = r.dropped ∧
      afterValue.dropped = (afterKey.afterBlanks.skip 1).dropped ∧ after.dropped = next.dropped ∧
      colonTail = value.print ++ afterValue.rest := by
  have hvalueKeeps : Keeps (afterKey.afterBlanks.skip 1) value.print afterValue := by
    rw [Block.print_eq_append, hvalue.keeps.1]
    exact (Keeps.trivia _).trans hvalue.keeps.2
  have hentry := ((flowKey_keeps hkey).trans ((Keeps.blanks _).trans (.head hcolon))).trans
    hvalueKeeps
  obtain ⟨hmiddle, hafter⟩ :=
    hentry.dropped_split ((separator_keeps hcomma).trans hentries.keeps) hdropped
  obtain ⟨hkeyDropped, hvalueDropped, htail, -⟩ :=
    entry_rest (flowKey_keeps hkey) hcolon hvalueKeeps hmiddle
  exact ⟨hkeyDropped, hvalueDropped,
    ((separator_keeps hcomma).dropped_split hentries.keeps hafter).2, htail⟩

/-- A changed entry of a flow mapping starts with the same key and colon. -/
private theorem entry_again_flow {r r' afterKey afterValue : Reader} {c : Char}
    {tail skipped y : Text} {key : Scalar} {value value' : Block}
    (hopen : r.afterTrivia.rest = c :: tail)
    (hkey : r.afterTrivia.flowKey = .ok (key, afterKey)) (hdropped : afterKey.dropped = r.dropped)
    (hcolon : afterKey.afterBlanks.rest = ':' :: (value.print ++ afterValue.rest))
    (hchange : PatchedBlock recipe value value' ∨ value' = recipe.newValue value)
    (hhead : afterValue.rest.head? = y.head?) (hskipped : IsTrivia skipped)
    (hrest : r.trivia ++ (key.print ++ (afterKey.blanks ++ ':' :: (value'.print ++ y))) =
      skipped ++ r'.rest) :
    ∃ tail' afterKey', r'.afterTrivia.rest = c :: tail' ∧
      r'.afterTrivia.flowKey = .ok (key, afterKey') ∧
      afterKey'.afterBlanks.rest = ':' :: (value'.print ++ y) := by
  have hsource : r.afterTrivia.rest =
      key.print ++ (afterKey.blanks ++ ':' :: (value.print ++ afterValue.rest)) := by
    rw [((flowKey_keeps hkey).rest_eq hdropped).1, ← hcolon, blanks_append]
  have hstart : r.afterTrivia.rest.head? =
      (key.print ++ (afterKey.blanks ++ ':' :: (value'.print ++ y))).head? := by
    rw [hsource]
    exact head?_append_congr (head?_append_cons _ _ _ ':') _
  have hrest' := rest_afterTrivia hskipped (isTrivia_trivia (by simp [hopen]))
    (triviaLength_eq_zero_congr hstart (triviaLength_afterTrivia r)) hrest
  rw [← hrest', hopen] at hstart
  obtain ⟨tail', hopen'⟩ := List.head?_eq_some_iff.mp hstart.symm
  exact ⟨tail', _, hopen', flowKey_again hkey hdropped hcolon (colon_next hchange hhead) hrest',
    (afterColon_again hcolon hrest').2.1⟩

/-- A changed value of a flow collection starts as the value did. -/
private theorem value_start_flow {r after r' : Reader} {value value' : Block} {skipped y : Text}
    (h : FlowNode r.trivia r.afterTrivia value after) (hdropped : after.dropped = r.dropped)
    (hpatch : PatchedBlock recipe value value') (hhead : after.rest.head? = y.head?)
    (hskipped : IsTrivia skipped) (hrest : value'.print ++ y = skipped ++ r'.rest) :
    r'.afterTrivia.rest = Anchor.printOption value'.anchor ++ (value'.body ++ y) ∧
      r.afterTrivia.rest.head? = r'.afterTrivia.rest.head? := by
  have hstart : r.afterTrivia.rest.head? =
      (Anchor.printOption value'.anchor ++ (value'.body ++ y)).head? := by
    rw [(h.keeps.2.rest_eq hdropped).1, List.append_assoc]
    exact hpatch.head_eq hhead
  rw [Block.print_eq_append, hpatch.lead_eq, h.keeps.1] at hrest
  simp only [List.append_assoc] at hrest
  have hrest' := rest_afterTrivia hskipped (isTrivia_trivia h.rest_ne_nil)
    (triviaLength_eq_zero_congr hstart (triviaLength_afterTrivia r)) hrest
  exact ⟨hrest', by rw [hrest', hstart]⟩

/-- A flow mapping is reread if its entries are. -/
private theorem mapping_rereads_flow {lead lead' closing tail y : Text} {markers : List Marker}
    {entries : List (Entry Block)} {r' : Reader} {column : Nat} (hopen : r'.rest = '\x7b' :: tail)
    (h : Rereads (fun again last => ∃ closing', FlowEntries (r'.skip 1) again closing' last)
      (fun again => entriesData again = entriesData entries) (fun last => last.rest = y)
      (entriesLegible none column (closing ++ '\x7d' :: y) entries)) :
    Rereads (FlowNode lead' r')
      (fun again => again.data = (Block.mapping ⟨lead, markers, none, .flow closing, entries⟩).data)
      (fun last => last.rest = y)
      ((Block.mapping ⟨lead, markers, none, .flow closing, entries⟩).legible none column y) := by
  have hlegible : (Block.mapping ⟨lead, markers, none, .flow closing, entries⟩).legible none column
      y = entriesLegible none column (closing ++ '\x7d' :: y) entries := by
    simp [Block.legible, anchorLegible_flow, Layout.context, Layout.printClosing,
      Anchor.printOption, columnAfter]
  rw [hlegible]
  refine h.transfer ?_ ?_
  · rintro again last ⟨closing', hagain⟩ hdata -
    exact ⟨_, last, .mapping hopen hagain, by simp [Block.data, hdata]⟩
  · intro node last hnode hdata
    obtain ⟨again, closing', rfl, hagain⟩ := hnode.brace_inv hopen
    simp only [Block.data, Option.map_none, Data.mapping.injEq, true_and] at hdata
    exact ⟨again, last, ⟨closing', hagain⟩, hdata, id⟩

/-- A flow sequence is reread if its items are. -/
private theorem sequence_rereads_flow {lead lead' closing tail y : Text} {markers : List Marker}
    {indentless : Bool} {items : List (Item Block)} {r' : Reader} {column : Nat}
    (hopen : r'.rest = '[' :: tail)
    (h : Rereads (fun again last => ∃ closing', FlowItems (r'.skip 1) again closing' last)
      (fun again => itemsData again = itemsData items) (fun last => last.rest = y)
      (itemsLegible none column (closing ++ ']' :: y) items)) :
    Rereads (FlowNode lead' r')
      (fun again => again.data =
        (Block.sequence ⟨lead, markers, none, .flow closing, indentless, items⟩).data)
      (fun last => last.rest = y)
      ((Block.sequence ⟨lead, markers, none, .flow closing, indentless, items⟩).legible none column
        y) := by
  have hlegible : (Block.sequence ⟨lead, markers, none, .flow closing, indentless, items⟩).legible
      none column y = itemsLegible none column (closing ++ ']' :: y) items := by
    simp [Block.legible, anchorLegible_flow, Layout.context, Layout.printClosing,
      Anchor.printOption, columnAfter]
  rw [hlegible]
  refine h.transfer ?_ ?_
  · rintro again last ⟨closing', hagain⟩ hdata -
    exact ⟨_, last, .sequence hopen hagain, by simp [Block.data, hdata]⟩
  · intro node last hnode hdata
    obtain ⟨again, closing', rfl, hagain⟩ := hnode.bracket_inv hopen
    simp only [Block.data, Option.map_none, Data.sequence.injEq, true_and] at hdata
    exact ⟨again, last, ⟨closing', hagain⟩, hdata, id⟩

/-! ## Nodes -/

mutual

/-- A changed node in flow context is read back exactly if it is legible.  What follows it matters
only if it has no brackets of its own. -/
theorem FlowNode.rereads (hsound : ValueProblem.Sound recipe.options.value) {lead : Text}
    {r after : Reader} {block block' : Block} (h : FlowNode lead r block after)
    (hdropped : after.dropped = r.dropped) (hstart : triviaLength r.rest = 0)
    (hpatch : PatchedBlock recipe block block') {y : Text}
    (hahead : r.rest.head? ≠ some '[' → r.rest.head? ≠ some '\x7b' → FlowAhead after.rest y)
    {r' : Reader} (hrest : r'.rest = Anchor.printOption block'.anchor ++ (block'.body ++ y))
    (lead' : Text) (column : Nat) :
    Rereads (FlowNode lead' r') (fun again => again.data = block'.data)
      (fun last => last.rest = y) (block'.legible none column y) := by
  match h with
  | @FlowNode.mapping _ closing _ _ _ _ hopen hentries =>
    cases hpatch with
    | @mapping _ _ _ _ _ entries' hpatch =>
        replace hrest :
            r'.rest = '\x7b' :: (printEntries entries' ++ (closing ++ '\x7d' :: y)) := by
          simpa [Block.anchor, Anchor.printOption, Block.body, Layout.printOpening,
            Layout.printClosing] using hrest
        exact mapping_rereads_flow hrest
          (hentries.rereads hsound hdropped hpatch .nil (by simp [skip, hrest]) column)
  | @FlowNode.sequence _ closing _ _ _ _ hopen hitems =>
    cases hpatch with
    | @sequence _ _ _ _ _ _ items' hpatch =>
        replace hrest : r'.rest = '[' :: (printItems items' ++ (closing ++ ']' :: y)) := by
          simpa [Block.anchor, Anchor.printOption, Block.body, Layout.printOpening,
            Layout.printClosing] using hrest
        exact sequence_rereads_flow hrest
          (hitems.rereads hsound hdropped hpatch .nil (by simp [skip, hrest]) column)
  | .quoted hquote hopen hscalar =>
    cases hpatch
    have hflow := hahead (by rcases hquote with rfl | rfl <;> simp [hopen])
      (by rcases hquote with rfl | rfl <;> simp [hopen])
    obtain ⟨text, rfl, -, -⟩ := quoted_eq_ok hscalar
    exact quoted_rereads_flow lead' column hquote hscalar hflow.head hrest
  | .aliasNode hopen =>
    cases hpatch
    have hhead := (hahead (by simp [hopen]) (by simp [hopen])).head
    have hagain := @aliasNode_again _ lead' y _ r' _ rfl hrest hhead
    have hnode := @FlowNode.aliasNode lead' _ r' hrest
    rw [hagain] at hnode
    refine .of_unique hnode hnode.unique ?_ fun _ => rest_skip hrest
    simp [Block.data, Block.legible]
  | .anchorAlone hopen hname _ =>
    cases hpatch
    have hflow := hahead (by simp [hopen]) (by simp [hopen])
    exact anchorAlone_rereads_flow lead' column hname hflow
      (by simpa [Block.anchor, Anchor.printOption, Anchor.print, Block.body, Scalar.printBody]
        using hrest)
  | @FlowNode.anchored _ _ name _ middle last inner _ hopen hname hend hnode hanchor =>
    have hflow : FlowAhead last.rest y := hahead (by simp [hopen]) (by simp [hopen])
    obtain ⟨inner', hpatch', hanchor'⟩ := hpatch.withAnchor_inv hanchor
    have hbefore := (anchorName_keeps hopen hname).trans (Keeps.trivia middle)
    obtain ⟨hnone, hlast⟩ := dropping_inv (hbefore.trans hnode.keeps.2) hdropped
    have hinner := (hbefore.dropped_split hnode.keeps.2 hlast).2
    have hnone' : inner'.anchor = none := hpatch'.anchor_eq.trans hnone
    -- the node after the anchor starts as it did
    have hhead : middle.afterTrivia.rest.head? = (inner'.body ++ y).head? := by
      have hsame := hpatch'.head_eq hflow.head
      rw [hnone', hnone] at hsame
      rwa [(hnode.keeps.2.rest_eq hinner).1, hnone]
    replace hrest : r'.rest = ('&' :: name) ++ (middle.trivia ++ (inner'.body ++ y)) := by
      obtain ⟨-, hsome, hbody⟩ := Block.withAnchor?_eq_some hanchor'
      rw [hrest, hsome, hbody]
      simp [Anchor.printOption, Anchor.print]
    have hname' := anchorName_again hname hrest (by
      rw [← trivia_append middle]
      exact head?_append_congr hhead _)
    obtain ⟨-, hafter⟩ := trivia_eq (rest_skip hrest) (isTrivia_trivia hnode.rest_ne_nil)
      (triviaLength_eq_zero_congr hhead (triviaLength_afterTrivia middle))
    have hrest' := rest_skip (rest_skip hrest)
    rw [← hafter] at hrest'
    refine anchored_rereads_flow hrest hname' ?_ ?_ hnone' hanchor'
      (hnode.rereads hsound hinner (triviaLength_afterTrivia middle) hpatch' (fun _ _ => hflow)
        (by rw [hrest', hnone']; rfl) [] _)
    · rw [hrest', ← atFlowEnd_congr hhead, hend]
    · rw [hrest', ← hhead]
      exact hnode.anchor_eq_none_iff.mp hnone
  | .missing hend =>
    cases hpatch
    have hflow : FlowAhead r.rest y := by
      have hbracket : r.rest.head? ≠ some '[' ∧ r.rest.head? ≠ some '\x7b' := by
        constructor <;> intro hhead <;> obtain ⟨tail, htail⟩ := List.head?_eq_some_iff.mp hhead <;>
          simp [htail, atFlowEnd] at hend
      simpa [Reader.plain, skip_zero] using hahead hbracket.1 hbracket.2
    replace hrest : r'.rest = y := hrest
    rw [atFlowEnd_congr hflow.head, ← hrest] at hend
    have hnode := @FlowNode.missing lead' r' hend
    refine .of_unique hnode hnode.unique ?_ fun _ => ?_
    · simp [Reader.plain, taken, Block.data, Block.legible, anchorLegible_flow, Scalar.legible]
    · show (r'.skip 0).rest = y
      rw [skip_zero, hrest]
  | .plain hopen hmark =>
    cases hpatch
    have hflow : FlowAhead (r.skip (plainFlowLength r.rest)).rest y := by
      refine hahead ?_ ?_ <;> rw [hopen] <;> rintro ⟨rfl⟩ <;>
        simp [isFlowMark, isFlowIndicator] at hmark
    exact keptPlain_rereads_flow lead' column hopen hmark hstart hflow hrest

/-- Changed entries of a flow mapping are read back exactly if their values are legible. -/
theorem FlowEntries.rereads (hsound : ValueProblem.Sound recipe.options.value) {r after : Reader}
    {entries entries' : List (Entry Block)} {closing : Text}
    (h : FlowEntries r entries closing after) (hdropped : after.dropped = r.dropped)
    (hpatch : PatchedEntries recipe entries entries') {y skipped : Text} {r' : Reader}
    (hskipped : IsTrivia skipped)
    (hrest : printEntries entries' ++ (closing ++ '\x7d' :: y) = skipped ++ r'.rest)
    (column : Nat) :
    Rereads (fun again last => ∃ closing', FlowEntries r' again closing' last)
      (fun again => entriesData again = entriesData entries') (fun last => last.rest = y)
      (entriesLegible none column (closing ++ '\x7d' :: y) entries') := by
  match h with
  | @FlowEntries.close _ tail hclose =>
    cases hpatch
    have hrest' : r'.afterTrivia.rest = '\x7d' :: y :=
      rest_afterTrivia hskipped (isTrivia_trivia (by simp [hclose]))
        (FlowAhead.triviaLength_cons rfl y) hrest
    refine ⟨fun _ => ⟨[], _, ⟨_, .close hrest'⟩, rfl⟩, ?_⟩
    rintro again last ⟨closing', hagain⟩ -
    obtain ⟨rfl, -, rfl⟩ := hagain.close_inv hrest'
    exact ⟨rfl, by simp [skip, hrest']⟩
  | @FlowEntries.entry _ afterKey afterValue next _ c tail colonTail _ key value comma entries hopen
      hc hkey hcolon hvalue hcomma hentries =>
    obtain ⟨value', entries', rfl, hchange, hmore⟩ := hpatch.cons_inv
    rw [printEntries_cons_append] at hrest
    dsimp only at hrest hchange
    obtain ⟨hkeyDropped, hvalueDropped, hlast, rfl⟩ :=
      entry_source_flow hkey hcolon hvalue hcomma hentries hdropped
    -- where no comma follows, the mapping ends
    have hclose : comma = none → ∃ tail, printEntries entries' ++ (closing ++ '\x7d' :: y) =
        afterValue.trivia ++ '\x7d' :: tail := by
      rintro rfl
      rcases separator_eq_ok hcomma with ⟨_, -, hsome, -⟩ | ⟨_, hafter, -, rfl⟩
      · cases hsome
      · obtain ⟨rfl, rfl, -⟩ := hentries.close_inv hafter
        cases hmore
        exact ⟨y, rfl⟩
    obtain ⟨hflow, hseparator⟩ := separator_again (.inl rfl) hcomma hclose
    obtain ⟨tail', afterKey', hopen', hkey', hcolon'⟩ :=
      entry_again_flow hopen hkey hkeyDropped hcolon hchange hflow.head hskipped hrest
    have hvalueRest := @rest_skip _ [':'] _ hcolon'
    simp only [entriesLegible, entriesData, List.append_assoc]
    refine entry_rereads_flow
      (printComma comma ++ (printEntries entries' ++ (closing ++ '\x7d' :: y))) hopen' hc hkey'
      hcolon' ?_ ?_
    · rcases hchange with hvaluePatch | rfl
      · obtain ⟨hvalueStart, -⟩ := @value_start_flow _ _ _ (afterKey'.afterBlanks.skip 1) _ _ [] _
          hvalue hvalueDropped hvaluePatch hflow.head .nil hvalueRest.symm
        exact (hvalue.rereads hsound hvalueDropped (triviaLength_afterTrivia _) hvaluePatch
          (fun _ _ => hflow) hvalueStart _ _).weaken fun hsynced => ⟨[], .nil, hsynced.symm⟩
      · exact newValue_rereads_flow _ hsound
          (hvalue.keeps.1 ▸ isTrivia_trivia hvalue.rest_ne_nil) hflow hvalueRest
    · intro middle skipped' hskipped' hmiddle
      obtain ⟨comma', next', hcomma', skipped'', hskipped'', hnext⟩ := hseparator hskipped' hmiddle
      exact ⟨comma', next', hcomma', hentries.rereads hsound hlast hmore hskipped'' hnext column⟩

/-- Changed items of a flow sequence are read back exactly if their values are legible. -/
theorem FlowItems.rereads (hsound : ValueProblem.Sound recipe.options.value) {r after : Reader}
    {items items' : List (Item Block)} {closing : Text} (h : FlowItems r items closing after)
    (hdropped : after.dropped = r.dropped) (hpatch : PatchedItems recipe items items')
    {y skipped : Text} {r' : Reader} (hskipped : IsTrivia skipped)
    (hrest : printItems items' ++ (closing ++ ']' :: y) = skipped ++ r'.rest) (column : Nat) :
    Rereads (fun again last => ∃ closing', FlowItems r' again closing' last)
      (fun again => itemsData again = itemsData items') (fun last => last.rest = y)
      (itemsLegible none column (closing ++ ']' :: y) items') := by
  match h with
  | @FlowItems.close _ tail hclose =>
    cases hpatch
    have hrest' : r'.afterTrivia.rest = ']' :: y :=
      rest_afterTrivia hskipped (isTrivia_trivia (by simp [hclose]))
        (FlowAhead.triviaLength_cons rfl y) hrest
    refine ⟨fun _ => ⟨[], _, ⟨_, .close hrest'⟩, rfl⟩, ?_⟩
    rintro again last ⟨closing', hagain⟩ -
    obtain ⟨rfl, -, rfl⟩ := hagain.close_inv hrest'
    exact ⟨rfl, by simp [skip, hrest']⟩
  | @FlowItems.item _ afterValue next _ c tail _ value comma items hopen hc hvalue hpair hcomma
      hitems =>
    obtain ⟨value', items', rfl, hvaluePatch, hmore⟩ := hpatch.cons_inv
    rw [printItems_cons_append] at hrest
    dsimp only [printDash] at hrest hvaluePatch
    rw [List.nil_append, List.nil_append] at hrest
    obtain ⟨hvalueDropped, hafter⟩ := hvalue.keeps.2.dropped_split
      ((separator_keeps hcomma).trans hitems.keeps) hdropped
    have hlast := ((separator_keeps hcomma).dropped_split hitems.keeps hafter).2
    -- where no comma follows, the sequence ends
    have hclose : comma = none → ∃ tail,
        printItems items' ++ (closing ++ ']' :: y) = afterValue.trivia ++ ']' :: tail := by
      rintro rfl
      rcases separator_eq_ok hcomma with ⟨_, -, hsome, -⟩ | ⟨_, hafter, -, rfl⟩
      · cases hsome
      · obtain ⟨rfl, rfl, -⟩ := hitems.close_inv hafter
        cases hmore
        exact ⟨y, rfl⟩
    obtain ⟨hflow, hseparator⟩ := separator_again (.inr rfl) hcomma hclose
    obtain ⟨hvalueStart, hhead⟩ :=
      value_start_flow hvalue hvalueDropped hvaluePatch hflow.head hskipped hrest
    rw [hopen] at hhead
    obtain ⟨tail', hopen'⟩ := List.head?_eq_some_iff.mp hhead.symm
    simp only [itemsLegible, itemsData, List.append_assoc]
    refine item_rereads_flow (printComma comma ++ (printItems items' ++ (closing ++ ']' :: y)))
      hopen' hc ?_ ?_
    · exact (hvalue.rereads hsound hvalueDropped (triviaLength_afterTrivia _) hvaluePatch
        (fun _ _ => hflow) hvalueStart _ _).weaken fun hsynced => ⟨[], .nil, hsynced.symm⟩
    · intro middle skipped' hskipped' hmiddle
      obtain ⟨comma', next', hcomma', skipped'', hskipped'', hnext⟩ := hseparator hskipped' hmiddle
      exact ⟨comma', next', hcomma', hitems.rereads hsound hlast hmore hskipped'' hnext column⟩

end

end Reader

end LosslessYaml
