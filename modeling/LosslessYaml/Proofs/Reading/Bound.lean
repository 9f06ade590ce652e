import LosslessYaml.Proofs.Reading.Local
import LosslessYaml.Proofs.Reading.Lossless

/-!
# The bound on nested calls is never met

The reader recurses on a bound, which `readingFuel` sets to four calls for each character and four
more.  A call that reads no character leads to at most two further calls of that kind in a row.  So
whatever follows the rules is read within the bound, the rules say exactly what the reader accepts,
and two readings by the rules from one place are the same.

Main statement: `Stream.read_of_rules`.
-/

namespace LosslessYaml.Reader

open Lookahead

/-! ## Progress -/

theorem skip_length (r : Reader) (n : Nat) : (r.skip n).rest.length = r.rest.length - n := by
  simp [skip]

theorem afterTrivia_length_le (r : Reader) : r.afterTrivia.rest.length ≤ r.rest.length := by
  rw [afterTrivia, skip_length]
  omega

private theorem length_pos {r : Reader} {c : Char} {tail : Text} (h : r.rest = c :: tail) :
    0 < r.rest.length := by
  simp [h]

/-- The colon of an entry is read before its value. -/
theorem afterColon_length {r afterKey : Reader} {key tail : Text}
    (hkey : Keeps r key afterKey) (hcolon : afterKey.afterBlanks.rest = ':' :: tail) :
    (afterKey.afterBlanks.skip 1).rest.length < r.rest.length := by
  have hle := ((hkey.trans (.blanks afterKey)).trans (.head hcolon)).length_le
  simp only [List.length_append, List.length_singleton] at hle
  omega

/-- The items of a flow sequence that are left to read are fewer characters. -/
theorem separator_length {r afterValue next : Reader} {c : Char} {tail value : Text}
    {comma : Option Text} (hopen : r.afterTrivia.rest = c :: tail) (hc : c ≠ ']')
    (hvalue : Keeps r.afterTrivia value afterValue)
    (hcomma : afterValue.separator ']' = .ok (comma, next)) :
    next.rest.length < r.rest.length := by
  have hle := afterTrivia_length_le r
  have hread := hvalue.length_le
  rcases separator_eq_ok hcomma with ⟨_, hrest, -, rfl⟩ | ⟨_, hrest, -, rfl⟩
  · have := length_pos hrest
    have := afterTrivia_length_le afterValue
    rw [skip_length]
    omega
  · -- without a comma the bracket follows, so that the value was not empty
    obtain ⟨read, -, hsplit, -⟩ := hvalue
    cases read with
    | nil =>
        have hsame : r.afterTrivia.rest = next.rest := by simpa using hsplit
        have hnone : triviaLength next.rest = 0 := hsame ▸ triviaLength_drop r.rest
        have hbracket : next.afterTrivia.rest = next.rest := by simp [afterTrivia, hnone, skip]
        rw [hbracket, ← hsame, hopen] at hrest
        exact absurd (List.cons.inj hrest).1 hc
    | cons d read =>
        simp only [hsplit, List.length_append, List.length_cons] at hle
        omega

/-! ## From the rules to the reader -/

private theorem exists_succ {fuel : Nat} (h : 0 < fuel) : ∃ less, fuel = less + 1 :=
  ⟨fuel - 1, by omega⟩

private theorem attach_eq {lead : Text} {anchor : Anchor} {start last : Reader}
    {block node : Block} (h : block.withAnchor? lead anchor = some node) :
    attach lead anchor start (block, last) = .ok (node, last.dropping block.anchor) := by
  simp [attach, h, dropping]

theorem flowContent_plain {fuel : Nat} {lead tail : Text} {r : Reader} {c : Char}
    (hopen : r.rest = c :: tail) (hmark : isFlowMark c = false) :
    flowContent (fuel + 1) lead r = .ok (r.plain (plainFlowLength r.rest) lead) := by
  unfold flowContent
  split
  next hnil => simp [hopen] at hnil
  all_goals
    first
    | rfl
    | next hrest =>
        cases hopen.symm.trans hrest
        simp [isFlowMark, Text.isFlowIndicator] at hmark

mutual

theorem FlowNode.flowContent_eq {lead : Text} {r after : Reader} {block : Block}
    (h : FlowNode lead r block after) (fuel : Nat) (hfuel : 4 * r.rest.length ≤ fuel) :
    flowContent fuel lead r = .ok (block, after) := by
  match h with
  | .mapping hopen hentries =>
    have hpos := length_pos hopen
    obtain ⟨fuel, rfl⟩ := exists_succ (by omega : 0 < fuel)
    have hread := hentries.flowEntries_eq fuel r (by rw [skip_length]; omega)
    simp only [flowContent, hopen, hread, bind, Except.bind]
  | .sequence hopen hitems =>
    have hpos := length_pos hopen
    obtain ⟨fuel, rfl⟩ := exists_succ (by omega : 0 < fuel)
    have hread := hitems.flowItems_eq fuel r (by rw [skip_length]; omega)
    simp only [flowContent, hopen, hread, bind, Except.bind]
  | .quoted hquote hopen hscalar =>
    have hpos := length_pos hopen
    obtain ⟨fuel, rfl⟩ := exists_succ (by omega : 0 < fuel)
    rcases hquote with rfl | rfl <;> simp only [flowContent, hopen, hscalar, bind, Except.bind]
  | .aliasNode hopen =>
    have hpos := length_pos hopen
    obtain ⟨fuel, rfl⟩ := exists_succ (by omega : 0 < fuel)
    simp only [flowContent, hopen]
  | .anchorAlone hopen hname hend =>
    have hpos := length_pos hopen
    obtain ⟨fuel, rfl⟩ := exists_succ (by omega : 0 < fuel)
    simp only [flowContent, hopen, hname, hend, bind, Except.bind, if_true]
  | .anchored hopen hname hend hnode hanchor =>
    have hle := ((anchorName_keeps hopen hname).trans (.trivia _)).length_le
    simp only [List.length_append, List.length_cons] at hle
    obtain ⟨fuel, rfl⟩ := exists_succ (by omega : 0 < fuel)
    have hread := hnode.flowContent_eq fuel (by omega)
    simp only [flowContent, hopen, hname, hend, hread, bind, Except.bind, attach_eq hanchor,
      Bool.false_eq_true, if_false]
  | .missing hend =>
    match hrest : r.rest with
    | [] => simp [hrest, atFlowEnd] at hend
    | c :: tail =>
      have hpos := length_pos hrest
      obtain ⟨fuel, rfl⟩ := exists_succ (by omega : 0 < fuel)
      simp only [hrest, atFlowEnd, Bool.or_eq_true, beq_iff_eq] at hend
      rcases hend with (rfl | rfl) | rfl <;> simp only [flowContent, hrest]
  | .plain hopen hmark =>
    have hpos := length_pos hopen
    obtain ⟨fuel, rfl⟩ := exists_succ (by omega : 0 < fuel)
    exact flowContent_plain hopen hmark

theorem FlowEntries.flowEntries_eq {r after : Reader} {entries : List (Entry Block)}
    {closing : Text} (h : FlowEntries r entries closing after) (fuel : Nat) (start : Reader)
    (hfuel : 4 * r.rest.length ≤ fuel) :
    flowEntries fuel start r = .ok (entries, closing, after) := by
  match h with
  | .close hclose =>
    have hpos := length_pos hclose
    have hle := afterTrivia_length_le r
    obtain ⟨fuel, rfl⟩ := exists_succ (by omega : 0 < fuel)
    simp only [flowEntries, hclose]
  | .entry hopen hc hkey hcolon hvalue hcomma hentries =>
    have hbefore := afterColon_length ((Keeps.trivia r).trans (flowKey_keeps hkey)) hcolon
    have htrivia := (Keeps.trivia _).trans hvalue.keeps.2
    have hlength := (htrivia.trans (separator_keeps hcomma)).length_le
    obtain ⟨fuel, rfl⟩ := exists_succ (by omega : 0 < fuel)
    have hread := hvalue.flowContent_eq fuel
      (Nat.le_trans (Nat.mul_le_mul_left 4 (afterTrivia_length_le _)) (by omega))
    have hmore := hentries.flowEntries_eq fuel start (by omega)
    unfold flowEntries
    split
    next hnil => simp [hopen] at hnil
    next hbrace => exact absurd (List.cons.inj (hopen.symm.trans hbrace)).1 hc
    next =>
      simp only [hkey, flowColon, hcolon, hread, hcomma, hmore, bind, Except.bind]

theorem FlowItems.flowItems_eq {r after : Reader} {items : List (Item Block)} {closing : Text}
    (h : FlowItems r items closing after) (fuel : Nat) (start : Reader)
    (hfuel : 4 * r.rest.length + 1 ≤ fuel) :
    flowItems fuel start r = .ok (items, closing, after) := by
  match h with
  | .close hclose =>
    obtain ⟨fuel, rfl⟩ := exists_succ (by omega : 0 < fuel)
    simp only [flowItems, hclose]
  | .item hopen hc hvalue hpair hcomma hitems =>
    have htrivia := afterTrivia_length_le r
    have hlength := separator_length hopen hc hvalue.keeps.2 hcomma
    obtain ⟨fuel, rfl⟩ := exists_succ (by omega : 0 < fuel)
    have hread := hvalue.flowContent_eq fuel (by omega)
    have hmore := hitems.flowItems_eq fuel start (by omega)
    unfold flowItems
    split
    next hnil => simp [hopen] at hnil
    next hbracket => exact absurd (List.cons.inj (hopen.symm.trans hbracket)).1 hc
    next =>
      simp only [hread, hcomma, hmore, bind, Except.bind, beq_iff_eq, hpair, if_false]

end

mutual

theorem BlockNode.block_eq {floor : Nat} {place : Place} {r after : Reader} {node : Block}
    (h : BlockNode floor place r node after) (fuel : Nat) (hfuel : 4 * r.rest.length + 2 ≤ fuel) :
    block fuel floor place r = .ok (node, after) := by
  match h with
  | .missing hstop =>
    obtain ⟨fuel, rfl⟩ := exists_succ (by omega : 0 < fuel)
    unfold block
    exact if_pos hstop
  | .content hstop hcontent =>
    have htrivia := afterTrivia_length_le r
    obtain ⟨fuel, rfl⟩ := exists_succ (by omega : 0 < fuel)
    unfold block
    exact (if_neg (Bool.eq_false_iff.mp hstop)).trans (hcontent.blockContent_eq fuel (by omega))

theorem BlockContent.blockContent_eq {floor : Nat} {place : Place} {sameLine : Bool} {lead : Text}
    {r after : Reader} {node : Block} (h : BlockContent floor place sameLine lead r node after)
    (fuel : Nat) (hfuel : 4 * r.rest.length + 1 ≤ fuel) :
    blockContent fuel floor place sameLine lead r = .ok (node, after) := by
  obtain ⟨fuel, rfl⟩ := exists_succ (by omega : 0 < fuel)
  match h with
  | .anchorAlone hopen hname hend =>
    obtain ⟨⟨tail, hrest⟩, -⟩ := describes_of_opening hopen
    have hpos := length_pos hrest
    obtain ⟨fuel, rfl⟩ := exists_succ (by omega : 0 < fuel)
    simp only [blockContent, hopen, anchored, hname, bind, Except.bind]
    exact if_pos hend
  | .anchored hopen hname hend hcontent hanchor =>
    obtain ⟨⟨tail, hrest⟩, -⟩ := describes_of_opening hopen
    have hle := ((anchorName_keeps hrest hname).trans (.trivia _)).length_le
    simp only [List.length_append, List.length_cons] at hle
    obtain ⟨fuel, rfl⟩ := exists_succ (by omega : 0 < fuel)
    have hread := hcontent.blockContent_eq fuel (by omega)
    simp only [blockContent, hopen, anchored, hname, bind, Except.bind]
    refine (if_neg (Bool.eq_false_iff.mp hend)).trans ?_
    rw [hread]
    exact attach_eq hanchor
  | .aliasNode hopen => simp only [blockContent, hopen]
  | .flow hopen hnode =>
    simp only [blockContent, hopen]
    exact hnode.flowContent_eq fuel (by omega)
  | .literal hopen => simp only [blockContent, hopen]
  | .folded hopen => simp only [blockContent, hopen]
  | .quoted hopen hscalar => simp only [blockContent, hopen, hscalar, bind, Except.bind]
  | .sequence hopen hline hitems =>
    have hread := hitems.blockItems_eq fuel (by omega)
    simp only [blockContent, hopen, hline, hread, bind, Except.bind, Bool.false_eq_true, if_false]
  | .mapping hopen hline hentries =>
    have hread := hentries.blockEntries_eq fuel (by omega)
    simp only [blockContent, hopen, hline, hread, bind, Except.bind, Bool.false_eq_true, if_false]
  | .plain hopen => simp only [blockContent, hopen]

theorem BlockEntries.blockEntries_eq {lead : Text} {r after : Reader}
    {entries : List (Entry Block)} (h : BlockEntries lead r entries after) (fuel : Nat)
    (hfuel : 4 * r.rest.length ≤ fuel) : blockEntries fuel lead r = .ok (entries, after) := by
  match h with
  | .last hstart hkey hcolon hvalue hnext =>
    have hbefore := afterColon_length (blockKey_keeps hkey) hcolon
    obtain ⟨fuel, rfl⟩ := exists_succ (by omega : 0 < fuel)
    have hread := hvalue.block_eq fuel (by omega)
    unfold entryFollows at hnext
    simp only [blockEntries, hkey, hcolon, hread, hnext, bind, Except.bind, List.head?_cons,
      bne_self_eq_false, Bool.false_eq_true, if_false]
  | .more hstart hkey hcolon hvalue hnext hentries =>
    have hbefore := afterColon_length (blockKey_keeps hkey) hcolon
    have hlength := (hvalue.keeps.trans (.trivia _)).length_le
    obtain ⟨fuel, rfl⟩ := exists_succ (by omega : 0 < fuel)
    have hread := hvalue.block_eq fuel (by omega)
    have hmore := hentries.blockEntries_eq fuel (by omega)
    unfold entryFollows at hnext
    simp only [blockEntries, hkey, hcolon, hread, hnext, hmore, bind, Except.bind,
      List.head?_cons, bne_self_eq_false, Bool.false_eq_true, if_false, if_true]

theorem BlockItems.blockItems_eq {lead : Text} {r after : Reader} {items : List (Item Block)}
    (h : BlockItems lead r items after) (fuel : Nat) (hfuel : 4 * r.rest.length ≤ fuel) :
    blockItems fuel lead r = .ok (items, after) := by
  match h with
  | .last hstart hvalue hnext =>
    obtain ⟨tail, hrest⟩ := eq_dash_of_atDash hstart
    have hpos := length_pos hrest
    obtain ⟨fuel, rfl⟩ := exists_succ (by omega : 0 < fuel)
    have hread := hvalue.block_eq fuel (by rw [skip_length]; omega)
    unfold itemFollows at hnext
    simp only [blockItems, hread, hnext, bind, Except.bind, Bool.false_eq_true, if_false]
  | .more hstart hvalue hnext hitems =>
    obtain ⟨tail, hrest⟩ := eq_dash_of_atDash hstart
    have hpos := length_pos hrest
    have hlength := (hvalue.keeps.trans (.trivia _)).length_le
    rw [skip_length] at hlength
    obtain ⟨fuel, rfl⟩ := exists_succ (by omega : 0 < fuel)
    have hread := hvalue.block_eq fuel (by rw [skip_length]; omega)
    have hmore := hitems.blockItems_eq fuel (by omega)
    unfold itemFollows at hnext
    simp only [blockItems, hread, hnext, hmore, bind, Except.bind, if_true]

end

/-! ## One place is read in one way -/

theorem FlowNode.unique {lead : Text} {r after after' : Reader} {node node' : Block}
    (h : FlowNode lead r node after) (h' : FlowNode lead r node' after') :
    node' = node ∧ after' = after := by
  have hread := h.flowContent_eq _ (Nat.le_refl _)
  rw [h'.flowContent_eq _ (Nat.le_refl _)] at hread
  simpa using hread

theorem BlockContent.unique {floor : Nat} {place : Place} {sameLine : Bool} {lead : Text}
    {r after after' : Reader} {node node' : Block}
    (h : BlockContent floor place sameLine lead r node after)
    (h' : BlockContent floor place sameLine lead r node' after') :
    node' = node ∧ after' = after := by
  have hread := h.blockContent_eq _ (Nat.le_refl _)
  rw [h'.blockContent_eq _ (Nat.le_refl _)] at hread
  simpa using hread

/-! ## Streams -/

/-- A document takes at least one character, so that a stream has an end. -/
theorem document_length {lead : Text} {r after : Reader} {document : Document}
    (h : DocumentNode lead r document after) (hstart : triviaLength r.rest = 0)
    (hmore : r.rest ≠ []) : after.rest.length < r.rest.length := by
  obtain ⟨hroot, hending⟩ := h
  have hdashes := (afterDashes_keeps r).length_le
  have hle := (hroot.keeps.trans (ending_keeps hending)).length_le
  cases hexplicit : r.startsDocument with
  | true =>
      simp only [hexplicit, printDashes, List.length_cons] at hdashes
      omega
  | false =>
      have hsame : r.afterDashes = r := by simp [afterDashes, hexplicit]
      rw [hsame] at hroot
      have hlast := (ending_keeps hending).length_le
      obtain ⟨read, -, hrest, hcolumn, -⟩ := hroot.keeps
      cases read with
      | cons c read =>
          simp only [hrest, List.length_append, List.length_cons]
          omega
      | nil =>
          -- nothing was read for the root, so the mark that ends the document stands here
          rw [List.nil_append] at hrest
          rw [hrest] at hstart hmore
          have hnext : ∀ middle : Reader, triviaLength middle.rest = 0 →
              middle.afterTrivia = middle := by
            intro middle hmiddle
            simp [afterTrivia, hmiddle, skip, Text.columnAfter]
          rcases ending_eq_ok hending with ⟨hend, -, -⟩ | ⟨-, -, -, rfl⟩ | ⟨hzero, hmark, -, -⟩
          · rw [hnext _ hstart] at hend
            exact absurd hend hmore
          · have := List.length_pos_iff.mpr hmore
            rw [hnext _ hstart, skip_length, hrest]
            omega
          · rw [hnext _ hstart] at hzero hmark
            have hzero' : r.column = 0 := hcolumn.symm.trans hzero
            simp [startsDocument, hrest, hmark, hzero'] at hexplicit

private theorem document_eq {lead : Text} {r after : Reader} {node : Document}
    (h : DocumentNode lead r node after) (fuel : Nat) (hfuel : 4 * r.rest.length + 2 ≤ fuel) :
    document fuel lead r = .ok (node, after) := by
  obtain ⟨hroot, hending⟩ := h
  have hdashes := (afterDashes_keeps r).length_le
  have hread := hroot.block_eq fuel (by omega)
  exact bind_eq_ok.mpr ⟨_, hread, bind_eq_ok.mpr ⟨_, hending, rfl⟩⟩

theorem preamble_start (r : Reader) : triviaLength r.afterPreamble.rest = 0 := by
  have hdrop : ∀ (lineStart skipping : Bool) (text : Text),
      triviaLength (text.drop (preambleLength lineStart skipping text)) = 0 := by
    intro lineStart skipping text
    fun_induction preambleLength lineStart skipping text with
    | case1 => rfl
    | case2 _ _ c rest _ ih => exact ih
    | case3 _ _ c rest _ _ ih => exact ih
    | case4 _ _ c rest _ _ _ ih => exact ih
    | case5 _ _ c rest hline hskip htrailing =>
        simp only [Bool.or_eq_true, not_or] at hskip
        simp [triviaLength, triviaFrom, hline, hskip, htrailing]
  exact hdrop _ _ _

private theorem moreDocuments_eq {r last : Reader} {documents : List Document} {suffix : Text}
    (h : MoreDocuments r documents suffix last) (fuel : Nat)
    (hfuel : 4 * r.rest.length + 3 ≤ fuel) :
    moreDocuments fuel r = .ok (documents, suffix, last) := by
  induction h generalizing fuel with
  | done hend =>
      obtain ⟨fuel, rfl⟩ := exists_succ (by omega : 0 < fuel)
      simp [moreDocuments, hend]
  | @document r _ _ _ _ _ hmore hdocument hdocuments ih =>
      have hle := (preamble_keeps r).length_le
      have hlt := document_length hdocument (preamble_start _) hmore
      obtain ⟨fuel, rfl⟩ := exists_succ (by omega : 0 < fuel)
      have hread := document_eq hdocument fuel (by omega)
      have hothers := ih fuel (by omega)
      simp only [moreDocuments, List.isEmpty_iff, hmore, hread, hothers, bind, Except.bind,
        if_false]

theorem StreamNode.stream_eq {mark : Text} {r last : Reader} {node : Stream}
    (h : StreamNode mark r node last) (fuel : Nat) (hfuel : 4 * r.rest.length + 4 ≤ fuel) :
    stream fuel mark r = .ok (node, last) := by
  cases h with
  | blank hend => simp [stream, hend]
  | documents hmore hfirst hdocuments =>
      have hle := (preamble_keeps r).length_le
      have hlt := document_length hfirst (preamble_start r) hmore
      have hread := document_eq hfirst fuel (by omega)
      have hothers := moreDocuments_eq hdocuments fuel (by omega)
      simp only [stream, List.isEmpty_iff, hmore, hread, hothers, bind, Except.bind, if_false]

end LosslessYaml.Reader

namespace LosslessYaml

/-- What follows the rules is read. -/
theorem Stream.read_of_rules {source : Text} {stream : Stream} {last : Reader}
    (h : Reader.StreamNode (splitMark source).1 { rest := (splitMark source).2 } stream last) :
    Stream.read source = .ok ⟨stream, last.dropped⟩ := by
  have hread := h.stream_eq (readingFuel (splitMark source).2) (Nat.le_refl _)
  simp only [Stream.read, hread]

/-- Parsing succeeds exactly along the rules of reading. -/
theorem Stream.parse_eq_ok_iff {source : Text} {stream : Stream} :
    Stream.parse source = .ok stream ↔
      ∃ last, Reader.StreamNode (splitMark source).1 { rest := (splitMark source).2 } stream
        last := by
  constructor
  · intro h
    cases hread : Stream.read source with
    | error error => simp [Stream.parse, hread, Except.map] at h
    | ok parsed =>
        simp only [Stream.parse, hread, Except.map, Except.ok.injEq] at h
        obtain ⟨last, hrules, -⟩ := Stream.read_rules hread
        exact ⟨last, h ▸ hrules⟩
  · rintro ⟨last, hrules⟩
    simp only [Stream.parse, Stream.read_of_rules hrules, Except.map]

end LosslessYaml
