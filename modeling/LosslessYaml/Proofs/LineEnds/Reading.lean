import LosslessYaml.Proofs.LineEnds.Lines
import LosslessYaml.Proofs.LineEnds.Tree
import LosslessYaml.Proofs.Reading.Keys

/-!
# Reading lines that end in a carriage return

Two readers, one in a text whose lines end in a line feed and one in the same text with a carriage
return before each line feed.  They take the same steps: both fail, or both succeed, with nodes that
are converted into each other and at places that are aligned again.

After a literal scalar the second reader is one character ahead, past the carriage return of the
line.  Trivia is read next wherever that happens, and the readers are aligned after it.

This file has the steps of a reader, the parts of a node that hold no other node, and the nodes
between brackets.
-/

namespace LosslessYaml

open Text Lookahead

/-! ## Two computations in step -/

/-- Both computations fail, or both succeed with related results. -/
inductive Agree {α β : Type} (related : α → β → Prop) :
    Except Failure α → Except Failure β → Prop
  | error (failure failure' : Failure) : Agree related (.error failure) (.error failure')
  | ok {a : α} {b : β} (h : related a b) : Agree related (.ok a) (.ok b)

/-- Two steps in a row.  What the second one gets was the result of the first. -/
theorem Agree.bind_of_eq {α β γ δ : Type} {related : α → β → Prop} {related' : γ → δ → Prop}
    {x : Except Failure α} {y : Except Failure β} {f : α → Except Failure γ}
    {g : β → Except Failure δ} (h : Agree related x y)
    (hnext : ∀ a b, x = .ok a → related a b → Agree related' (f a) (g b)) :
    Agree related' (x >>= f) (y >>= g) := by
  cases h with
  | error failure failure' => exact .error failure failure'
  | ok h => exact hnext _ _ rfl h

theorem Agree.bind {α β γ δ : Type} {related : α → β → Prop} {related' : γ → δ → Prop}
    {x : Except Failure α} {y : Except Failure β} {f : α → Except Failure γ}
    {g : β → Except Failure δ} (h : Agree related x y)
    (hnext : ∀ a b, related a b → Agree related' (f a) (g b)) :
    Agree related' (x >>= f) (y >>= g) :=
  h.bind_of_eq fun a b _ => hnext a b

theorem Agree.ite {α β : Type} {related : α → β → Prop} {x x' : Except Failure α}
    {y y' : Except Failure β} {b b' : Bool} (hb : b' = b) (hthen : b = true → Agree related x y)
    (helse : b = false → Agree related x' y') :
    Agree related (if b then x else x') (if b' then y else y') := by
  subst hb
  cases b' with
  | true => exact hthen rfl
  | false => exact helse rfl

theorem Agree.mono {α β : Type} {related related' : α → β → Prop} {x : Except Failure α}
    {y : Except Failure β} (h : Agree related x y)
    (hmono : ∀ a b, related a b → related' a b) : Agree related' x y := by
  cases h with
  | error failure failure' => exact .error failure failure'
  | ok h => exact .ok (hmono _ _ h)

/-- One of them succeeds if the other one does. -/
theorem Agree.exists_ok_iff {α β : Type} {related : α → β → Prop} {x : Except Failure α}
    {y : Except Failure β} (h : Agree related x y) : (∃ a, x = .ok a) ↔ ∃ b, y = .ok b := by
  cases h with
  | error _ _ => simp
  | ok _ => simp

theorem Agree.related_of_ok {α β : Type} {related : α → β → Prop} {x : Except Failure α}
    {y : Except Failure β} (h : Agree related x y) {a : α} {b : β} (hx : x = .ok a)
    (hy : y = .ok b) : related a b := by
  cases h with
  | error _ _ => cases hx
  | ok h =>
      cases hx
      cases hy
      exact h

namespace Reader

/-! ## Two readers in step -/

/-- The second reader is at the same place of the converted text as the first one of the text. -/
structure Aligned (r r' : Reader) : Prop where
  rest : r'.rest = crlf r.rest
  column : r'.column = r.column

/-- The second reader is at the same place of the converted text, or past the carriage return there
if it is `late`. -/
inductive Follows : Bool → Reader → Reader → Prop
  | aligned {r r' : Reader} (h : Aligned r r') : Follows false r r'
  | late {r r' : Reader} {tail : Text} (hrest : r.rest = '\n' :: tail)
      (hrest' : r'.rest = '\n' :: crlf tail) : Follows true r r'

variable {late : Bool} {r r' : Reader}

theorem Aligned.skip (h : Aligned r r') {n n' : Nat} (hn : n' = crlfLength r.rest n) :
    Aligned (r.skip n) (r'.skip n') where
  rest := by
    show r'.rest.drop n' = crlf (r.rest.drop n)
    rw [h.rest, hn, drop_crlf]
  column := by
    show columnAfter r'.column (r'.rest.take n') = columnAfter r.column (r.rest.take n)
    rw [h.rest, hn, take_crlf, columnAfter_crlf, h.column]

theorem Aligned.taken (h : Aligned r r') {n n' : Nat} (hn : n' = crlfLength r.rest n) :
    r'.taken n' = crlf (r.taken n) := by
  rw [Reader.taken, h.rest, hn, take_crlf, Reader.taken]

/-- A step over a mark of one character. -/
theorem Aligned.skip_one (h : Aligned r r') {c : Char} (hc : c ≠ '\n')
    (hhead : r.rest.head? = some c) : Aligned (r.skip 1) (r'.skip 1) := by
  obtain ⟨tail, htail⟩ := List.head?_eq_some_iff.mp hhead
  refine h.skip ?_
  rw [htail, crlfLength_cons hc, crlfLength_zero]

theorem Aligned.head? (h : Aligned r r') {c : Char} (hreturn : c ≠ '\r')
    (hnewline : c ≠ '\n') : (r'.rest.head? == some c) = (r.rest.head? == some c) := by
  rw [h.rest, head?_crlf hreturn hnewline]

theorem Aligned.head?_eq_some (h : Aligned r r') {c : Char} (hreturn : c ≠ '\r')
    (hnewline : c ≠ '\n') : r'.rest.head? = some c ↔ r.rest.head? = some c := by
  rw [← beq_iff_eq, h.head? hreturn hnewline, beq_iff_eq]

theorem Aligned.isEmpty (h : Aligned r r') : r'.rest.isEmpty = r.rest.isEmpty := by
  rw [h.rest, Bool.eq_iff_iff, List.isEmpty_iff, List.isEmpty_iff, crlf_eq_nil_iff]

theorem Aligned.atDocumentMark (h : Aligned r r') :
    r'.atDocumentMark = r.atDocumentMark := by
  rw [Reader.atDocumentMark, Reader.atDocumentMark, h.column, h.rest, atDashes_crlf, atDots_crlf]

theorem Aligned.continues (h : Aligned r r') (floor : Nat) (place : Place) :
    r'.continues floor place = r.continues floor place := by
  rw [Reader.continues, Reader.continues, h.atDocumentMark, h.column, h.rest, atDash_crlf]

theorem Aligned.blanks (h : Aligned r r') : r'.blanks = crlf r.blanks :=
  h.taken (by rw [h.rest, blankLength_crlf, crlfLength_blank])

theorem Aligned.afterBlanks (h : Aligned r r') :
    Aligned r.afterBlanks r'.afterBlanks :=
  h.skip (by rw [h.rest, blankLength_crlf, crlfLength_blank])

theorem Aligned.trivia (h : Aligned r r') : r'.trivia = crlf r.trivia :=
  h.taken (by rw [h.rest, triviaLength_crlf])

theorem Aligned.afterTrivia (h : Aligned r r') :
    Aligned r.afterTrivia r'.afterTrivia :=
  h.skip (by rw [h.rest, triviaLength_crlf])

/-- Trivia at a line feed goes on in the next line. -/
private theorem trivia_newline {tail : Text} (h : r.rest = '\n' :: tail) :
    r.trivia = '\n' :: tail.take (triviaLength tail) ∧
      r.afterTrivia.rest = tail.drop (triviaLength tail) ∧
      r.afterTrivia.column = columnAfter 0 (tail.take (triviaLength tail)) := by
  have hlength : triviaLength r.rest = triviaLength tail + 1 := by
    rw [h]
    rfl
  refine ⟨?_, ?_, ?_⟩
  · rw [Reader.trivia, Reader.taken, hlength, h, List.take_succ_cons]
  · show r.rest.drop (triviaLength r.rest) = _
    rw [hlength, h, List.drop_succ_cons]
  · show columnAfter r.column (r.rest.take (triviaLength r.rest)) = _
    rw [hlength, h, List.take_succ_cons]
    simp [columnAfter]

theorem Follows.trivia (h : Follows late r r') :
    returned late ++ r'.trivia = crlf r.trivia := by
  cases h with
  | aligned h => exact h.trivia
  | late hrest hrest' =>
      rw [(trivia_newline hrest).1, (trivia_newline hrest').1, triviaLength_crlf, take_crlf,
        crlf_newline]
      rfl

/-- Trivia brings the readers back in step. -/
theorem Follows.afterTrivia (h : Follows late r r') :
    Aligned r.afterTrivia r'.afterTrivia := by
  cases h with
  | aligned h => exact h.afterTrivia
  | late hrest hrest' =>
      obtain ⟨-, hafter, hcolumn⟩ := trivia_newline hrest
      obtain ⟨-, hafter', hcolumn'⟩ := trivia_newline hrest'
      rw [triviaLength_crlf] at hafter' hcolumn'
      refine ⟨?_, ?_⟩
      · rw [hafter', hafter, drop_crlf]
      · rw [hcolumn', hcolumn, take_crlf, columnAfter_crlf]

theorem Follows.newLine (h : Follows late r r') :
    r'.trivia.contains '\n' = r.trivia.contains '\n' := by
  have hmem : '\n' ∈ returned late ++ r'.trivia ↔ '\n' ∈ r'.trivia := by
    cases late <;> simp
  rw [Bool.eq_iff_iff, List.contains_iff_mem, List.contains_iff_mem, ← hmem, h.trivia,
    newline_mem_crlf]

/-- The anchors that found no home do not matter. -/
theorem Follows.dropping (h : Follows late r r') (dropped dropped' : List Anchor) :
    Follows late { r with dropped } { r' with dropped := dropped' } := by
  cases h with
  | aligned h => exact .aligned ⟨h.rest, h.column⟩
  | late hrest hrest' => exact .late hrest hrest'

/-! ## What the readers give -/

/-- Converted parts, and readers that are in step after them. -/
def InStep {α : Type} (converted : α → α → Prop) (x y : α × Reader) : Prop :=
  converted x.1 y.1 ∧ Aligned x.2 y.2

/-- Converted parts, the second of which may have taken a carriage return too early. -/
def InStepLate {α : Type} (converted : Bool → α → α → Prop) (x y : α × Reader) : Prop :=
  ∃ late, converted late x.1 y.1 ∧ Follows late x.2 y.2

theorem InStep.toLate {α : Type} {converted : Bool → α → α → Prop} {x y : α × Reader}
    (h : InStep (converted false) x y) : InStepLate converted x y :=
  ⟨false, h.1, .aligned h.2⟩

/-! ## Anchors, scalars and aliases -/

variable {lead : Text}

theorem anchorName_agree (h : Aligned r r') (hhead : r.rest.head? = some '&') :
    Agree (InStep fun name name' => name' = crlf name) r.anchorName r'.anchorName := by
  have hbody := h.skip_one (by decide) hhead
  have hlength : nameLength (r'.skip 1).rest = nameLength (r.skip 1).rest := by
    rw [hbody.rest, nameLength_crlf]
  have hcover := (crlfLength_name (r.skip 1).rest).symm
  simp only [anchorName, hlength]
  refine Agree.ite rfl (fun _ => .error _ _) fun _ => .ok ⟨hbody.taken hcover, hbody.skip hcover⟩

theorem aliasNode_inStep (h : Aligned r r') (hhead : r.rest.head? = some '*') :
    InStep (ConvertedBlock false) (r.aliasNode lead) (r'.aliasNode (crlf lead)) := by
  have hbody := h.skip_one (by decide) hhead
  have hlength : nameLength (r'.skip 1).rest = nameLength (r.skip 1).rest := by
    rw [hbody.rest, nameLength_crlf]
  have hcover := (crlfLength_name (r.skip 1).rest).symm
  simp only [aliasNode, hlength]
  exact ⟨.aliasNode rfl (hbody.taken hcover), hbody.skip hcover⟩

theorem plain_inStep (h : Aligned r r') {n n' : Nat} (hn : n' = crlfLength r.rest n) :
    InStep (ConvertedBlock false) (r.plain n lead) (r'.plain n' (crlf lead)) :=
  ⟨.scalar ⟨rfl, rfl, rfl, by simpa using h.taken hn, by simp⟩, h.skip hn⟩

theorem quoted_agree {quote : Char} (hquote : quote = '"' ∨ quote = '\'') (h : Aligned r r')
    (hhead : r.rest.head? = some quote) :
    Agree (InStep (Scalar.Converted false)) (r.quoted quote lead)
      (r'.quoted quote (crlf lead)) := by
  have hreturn : quote ≠ '\r' := by obtain rfl | rfl := hquote <;> decide
  have hnewline : quote ≠ '\n' := by obtain rfl | rfl := hquote <;> decide
  have hbody := h.skip_one hnewline hhead
  have hlength := quotedLength_crlf hreturn hnewline (r.skip 1).rest
  rw [← hbody.rest] at hlength
  simp only [quoted, hlength]
  cases hclose : quotedLength false quote (r.skip 1).rest with
  | none => exact .error _ _
  | some n =>
      obtain ⟨tail, htail⟩ := drop_quotedLength hclose
      have hcover : crlfLength (r.skip 1).rest n + 1 = crlfLength (r.skip 1).rest (n + 1) := by
        rw [crlfLength_add, htail, crlfLength_cons hnewline, crlfLength_zero]
      exact .ok ⟨⟨rfl, rfl, rfl, by simpa using hbody.taken rfl, by simp⟩, hbody.skip hcover⟩

/-- A literal scalar takes the carriage return of its last line with it. -/
theorem literal_inStep {style : Style} (hstyle : style = .literal ∨ style = .folded) (floor : Nat)
    (h : Aligned r r') {c : Char} (hc : c ≠ '\n') (hhead : r.rest.head? = some c) :
    InStepLate ConvertedBlock (r.literal style floor lead)
      (r'.literal style floor (crlf lead)) := by
  have hbody := h.skip_one hc hhead
  have hlength := literalLength_crlf floor (r.skip 1).rest
  rw [← hbody.rest] at hlength
  simp only [literal]
  generalize literalLength floor (r.skip 1).rest = n at hlength ⊢
  rw [hlength]
  generalize r.skip 1 = body at hbody ⊢
  generalize r'.skip 1 = body' at hbody ⊢
  by_cases hline : (body.rest.drop n).head? = some '\n'
  · obtain ⟨tail, htail⟩ := List.head?_eq_some_iff.mp hline
    have hsplit : body'.rest = crlf (body.rest.take n) ++ '\r' :: '\n' :: crlf tail := by
      rw [hbody.rest, ← crlf_newline, ← htail, ← crlf_append, List.take_append_drop]
    have hone : returnLength (body.rest.drop n) = 1 := by rw [returnLength, htail]; rfl
    rw [hone, crlfLength]
    refine ⟨true, .scalar ⟨rfl, rfl, rfl, ?_, fun _ => hstyle⟩, .late htail ?_⟩
    · show body'.rest.take _ = _
      rw [hsplit, List.take_length_add_append]
      rfl
    · show body'.rest.drop _ = _
      rw [hsplit, List.drop_length_add_append]
      rfl
  · have hzero : returnLength (body.rest.drop n) = 0 := by
      rw [returnLength, if_neg (by rwa [beq_iff_eq])]
    rw [hzero, Nat.add_zero]
    exact InStep.toLate ⟨.scalar ⟨rfl, rfl, rfl, by simpa using hbody.taken rfl, by simp⟩,
      hbody.skip rfl⟩

/-! ## Anchored nodes -/

/-- Both nodes take the anchor, or neither does. -/
theorem attach_agree {anchor : Anchor} {start start' after after' : Reader} {block block' : Block}
    (hblock : ConvertedBlock late block block') (hafter : Follows late after after') :
    Agree (fun x y => ConvertedBlock late x.1 y.1 ∧ Follows late x.2 y.2)
      (attach lead anchor start (block, after))
      (attach (crlf lead) anchor.crlf start' (block', after')) := by
  have hdropped := fun dropped dropped' => hafter.dropping dropped dropped'
  cases hblock with
  | scalar hs => exact .ok ⟨.scalar ⟨rfl, rfl, hs.style, hs.text, hs.literal⟩, hdropped _ _⟩
  | aliasNode _ _ => exact .error _ _
  | mapping hlayout hentries => exact .ok ⟨.mapping hlayout hentries, hdropped _ _⟩
  | sequence hlayout hitems => exact .ok ⟨.sequence hlayout hitems, hdropped _ _⟩

/-- An anchor that names nothing. -/
theorem anchorAlone_inStep {name : Text} (h : Aligned r r') :
    InStep (ConvertedBlock false)
      (.scalar { lead, anchor := some ⟨name, []⟩, text := [] }, r)
      (.scalar { lead := crlf lead, anchor := some ⟨crlf name, []⟩, text := [] }, r') :=
  ⟨.scalar ⟨rfl, rfl, rfl, rfl, by simp⟩, h⟩

/-! ## Keys -/

theorem keyAnchor_agree (h : Aligned r r') :
    Agree (InStep fun anchor anchor' => anchor' = anchor.map Anchor.crlf) r.keyAnchor
      r'.keyAnchor := by
  unfold keyAnchor
  refine Agree.ite (h.head? (by decide) (by decide)) (fun hhead => ?_) fun _ => .ok ⟨rfl, h⟩
  refine (anchorName_agree h (eq_of_beq hhead)).bind ?_
  rintro ⟨name, after⟩ ⟨name', after'⟩ ⟨hname, hafter⟩
  dsimp only at hname hafter
  subst hname
  refine .ok ⟨?_, hafter.afterBlanks⟩
  show some (Anchor.mk (crlf name) after'.blanks) = some (Anchor.mk (crlf name) (crlf after.blanks))
  rw [hafter.blanks]

theorem plainKey_agree (h : Aligned r r') {n n' : Nat} (hn : n' = n)
    (hcover : crlfLength r.rest n = n) :
    Agree (InStep (Scalar.Converted false)) (r.plainKey n) (r'.plainKey n') := by
  subst hn
  unfold plainKey
  refine Agree.ite rfl (fun _ => .error _ _) fun _ => ?_
  exact .ok ⟨⟨rfl, rfl, rfl, by simpa using h.taken hcover.symm, by simp⟩, h.skip hcover.symm⟩

private theorem quotedKey_agree {bare : Reader → Except Failure (Scalar × Reader)} {quote : Char}
    (hbare : ∀ {r : Reader}, r.rest.head? = some quote → bare r = r.quoted quote [])
    (hquote : quote = '"' ∨ quote = '\'') (h : Aligned r r')
    (hhead : r.rest.head? = some quote) :
    Agree (InStep (Scalar.Converted false)) (bare r) (bare r') := by
  have hhead' : r'.rest.head? = some quote := by
    rwa [h.head?_eq_some] <;> obtain rfl | rfl := hquote <;> decide
  rw [hbare hhead, hbare hhead']
  exact quoted_agree hquote h hhead

/-- A key of a block mapping is quoted, or plain and closed by its colon. -/
theorem bareBlockKey_agree (h : Aligned r r') (hstart : atBareKey r.rest = true) :
    Agree (InStep (Scalar.Converted false)) r.bareBlockKey r'.bareBlockKey := by
  by_cases hdouble : r.rest.head? = some '"'
  · exact quotedKey_agree (bareBlockKey_quoted (.inl rfl)) (.inl rfl) h hdouble
  by_cases hsingle : r.rest.head? = some '\''
  · exact quotedKey_agree (bareBlockKey_quoted (.inr rfl)) (.inr rfl) h hsingle
  have hdouble' := mt (h.head?_eq_some (by decide) (by decide)).mp hdouble
  have hsingle' := mt (h.head?_eq_some (by decide) (by decide)).mp hsingle
  rw [bareBlockKey_plain hdouble hsingle, bareBlockKey_plain hdouble' hsingle']
  refine plainKey_agree h ?_ (crlfLength_plainKey r.rest)
  rw [h.rest, plainKeyLength_crlf (plainKeyCloses_of_atBareKey hstart hdouble hsingle)]

theorem bareFlowKey_agree (h : Aligned r r') :
    Agree (InStep (Scalar.Converted false)) r.bareFlowKey r'.bareFlowKey := by
  have hhead : ∀ {c : Char}, c ≠ '\r' → c ≠ '\n' →
      (r'.rest.head? = some c ↔ r.rest.head? = some c) := h.head?_eq_some
  by_cases hdouble : r.rest.head? = some '"'
  · exact quotedKey_agree (bareFlowKey_quoted (.inl rfl)) (.inl rfl) h hdouble
  by_cases hsingle : r.rest.head? = some '\''
  · exact quotedKey_agree (bareFlowKey_quoted (.inr rfl)) (.inr rfl) h hsingle
  by_cases hbracket : r.rest.head? = some '['
  · rw [bareFlowKey_bracket (.inl rfl) hbracket,
      bareFlowKey_bracket (.inl rfl) ((hhead (by decide) (by decide)).mpr hbracket)]
    exact .error _ _
  by_cases hbrace : r.rest.head? = some '\x7b'
  · rw [bareFlowKey_bracket (.inr rfl) hbrace,
      bareFlowKey_bracket (.inr rfl) ((hhead (by decide) (by decide)).mpr hbrace)]
    exact .error _ _
  rw [bareFlowKey_plain hdouble hsingle hbracket hbrace, bareFlowKey_plain]
  · exact plainKey_agree h (by rw [h.rest, plainFlowLength_crlf]) (crlfLength_plainFlow r.rest)
  all_goals rwa [ne_eq, hhead (by decide) (by decide)]

/-- A key with its anchor, if what follows the anchor is read alike. -/
theorem keyWith_agree {bare : Reader → Except Failure (Scalar × Reader)} (h : Aligned r r')
    (hbare : ∀ {anchor : Option Anchor} {middle middle' : Reader},
      r.keyAnchor = .ok (anchor, middle) → Aligned middle middle' →
      Agree (InStep (Scalar.Converted false)) (bare middle) (bare middle')) :
    Agree (InStep (Scalar.Converted false)) (keyWith bare r) (keyWith bare r') := by
  refine (keyAnchor_agree h).bind_of_eq ?_
  rintro ⟨anchor, middle⟩ ⟨anchor', middle'⟩ hread ⟨hanchor, hmiddle⟩
  refine (hbare hread hmiddle).bind ?_
  rintro ⟨key, after⟩ ⟨key', after'⟩ ⟨hkey, hafter⟩
  exact .ok ⟨⟨hkey.lead, hanchor, hkey.style, hkey.text, hkey.literal⟩, hafter⟩

/-- A key of a block mapping is read alike, where there is one. -/
theorem blockKey_agree (h : Aligned r r') (hstart : atKey r.rest = true) :
    Agree (InStep (Scalar.Converted false)) r.blockKey r'.blockKey :=
  keyWith_agree h fun hanchor hmiddle =>
    bareBlockKey_agree hmiddle (by rwa [← atKey_eq_atBareKey hanchor])

theorem flowKey_agree (h : Aligned r r') :
    Agree (InStep (Scalar.Converted false)) r.flowKey r'.flowKey :=
  keyWith_agree h fun _ hmiddle => bareFlowKey_agree hmiddle

/-! ## Flow collections -/

theorem separator_agree {closing : Char} (hreturn : closing ≠ '\r') (hnewline : closing ≠ '\n')
    (h : Aligned r r') :
    Agree (InStep fun comma comma' => comma' = comma.map crlf) (r.separator closing)
      (r'.separator closing) := by
  have hafter := h.afterTrivia
  have hrest' := hafter.rest
  unfold separator
  cases hrest : r.afterTrivia.rest using lineInduction with
  | nil =>
      rw [hrest'.trans (congrArg crlf hrest)]
      exact .error _ _
  | newline rest =>
      rw [hrest'.trans (congrArg crlf hrest), crlf_newline]
      dsimp only
      rw [if_neg (by decide), if_neg (by simpa using hnewline.symm), if_neg (by decide),
        if_neg (by simpa using hreturn.symm)]
      exact .error _ _
  | other c rest hc =>
      rw [hrest'.trans (congrArg crlf hrest), crlf_cons hc]
      dsimp only
      refine Agree.ite rfl (fun _ => ?_) fun _ => Agree.ite rfl (fun _ => ?_) fun _ => .error _ _
      · refine .ok ⟨congrArg some h.trivia, hafter.skip_one hc ?_⟩
        rw [hrest, List.head?_cons]
      · exact .ok ⟨rfl, h⟩

theorem flowColon_agree (h : Aligned r r') :
    Agree Aligned r.flowColon r'.flowColon := by
  have hfail : ∀ r : Reader, r.rest.head? ≠ some ':' → ∃ failure, r.flowColon = .error failure := by
    intro r hhead
    unfold flowColon
    split
    next hrest => simp [hrest] at hhead
    all_goals exact ⟨_, rfl⟩
  by_cases hhead : r.rest.head? = some ':'
  · have hhead' := (h.head?_eq_some (by decide) (by decide)).mpr hhead
    obtain ⟨tail, htail⟩ := List.head?_eq_some_iff.mp hhead
    obtain ⟨tail', htail'⟩ := List.head?_eq_some_iff.mp hhead'
    simp only [flowColon, htail, htail']
    exact .ok (h.skip_one (by decide) hhead)
  · obtain ⟨failure, hfailure⟩ := hfail r hhead
    obtain ⟨failure', hfailure'⟩ :=
      hfail r' (mt (h.head?_eq_some (by decide) (by decide)).mp hhead)
    rw [hfailure, hfailure']
    exact .error _ _

/-- The content of a flow collection, with the trivia before its closing bracket. -/
def InStepClosing {α : Type} (converted : α → α → Prop) (x y : α × Text × Reader) : Prop :=
  converted x.1 y.1 ∧ InStep (fun closing closing' => closing' = crlf closing) x.2 y.2

/-- A node that starts with a mark, if what it holds is read alike. -/
private theorem flowMark_agree {fuel : Nat} {c : Char} {tail tail' : Text}
    (hcontent : ∀ (lead : Text) {r r' : Reader}, Aligned r r' →
      Agree (InStep (ConvertedBlock false)) (r.flowContent fuel lead)
        (r'.flowContent fuel (crlf lead)))
    (hentries : ∀ {start start' r r' : Reader}, Aligned r r' →
      Agree (InStepClosing (ConvertedEntries false false)) (flowEntries fuel start r)
        (flowEntries fuel start' r'))
    (hitems : ∀ {start start' r r' : Reader}, Aligned r r' →
      Agree (InStepClosing (ConvertedItems false false)) (flowItems fuel start r)
        (flowItems fuel start' r'))
    (h : Aligned r r') (hc : c ≠ '\n') (hrest : r.rest = c :: tail)
    (hrest' : r'.rest = c :: tail') (hmark : isFlowMark c = true) :
    Agree (InStep (ConvertedBlock false)) (r.flowContent (fuel + 1) lead)
      (r'.flowContent (fuel + 1) (crlf lead)) := by
  have hhead : r.rest.head? = some c := by rw [hrest, List.head?_cons]
  have hbody := h.skip_one hc hhead
  have hempty : InStep (ConvertedBlock false) (r.plain 0 lead) (r'.plain 0 (crlf lead)) :=
    plain_inStep h (crlfLength_zero r.rest).symm
  have hquoted : c = '"' ∨ c = '\'' → Agree (InStep (ConvertedBlock false))
      (r.quoted c lead >>= fun x => .ok (.scalar x.1, x.2))
      (r'.quoted c (crlf lead) >>= fun x => .ok (.scalar x.1, x.2)) := by
    intro hquote
    refine (quoted_agree hquote h hhead).bind ?_
    rintro x y ⟨hscalar, hafter⟩
    exact .ok ⟨.scalar hscalar, hafter⟩
  simp only [isFlowMark, isFlowIndicator, Bool.or_eq_true, beq_iff_eq] at hmark
  -- The closing brackets and the comma leave an empty scalar before them.
  rcases hmark with (((((((((rfl | rfl) | rfl) | rfl) | rfl) | rfl) | rfl) | rfl) | rfl) | rfl)
  all_goals simp only [flowContent, hrest, hrest']
  · exact .ok hempty
  · refine (hitems hbody).bind ?_
    rintro ⟨items, closing, after⟩ ⟨items', closing', after'⟩ ⟨hitems, hclosing, hafter⟩
    dsimp only at hitems hclosing hafter ⊢
    rw [hclosing]
    exact .ok ⟨.sequence (by simp) hitems, hafter⟩
  · exact .ok hempty
  · refine (hentries hbody).bind ?_
    rintro ⟨entries, closing, after⟩ ⟨entries', closing', after'⟩ ⟨hentries, hclosing, hafter⟩
    dsimp only at hentries hclosing hafter ⊢
    rw [hclosing]
    exact .ok ⟨.mapping (by simp) hentries, hafter⟩
  · exact .ok hempty
  · exact hquoted (.inl rfl)
  · exact hquoted (.inr rfl)
  · exact .ok (aliasNode_inStep h hhead)
  · exact .error _ _
  · refine (anchorName_agree h hhead).bind ?_
    rintro ⟨name, after⟩ ⟨name', after'⟩ ⟨hname, hafter⟩
    dsimp only at hname hafter ⊢
    have hnext := hafter.afterTrivia
    rw [hname, hafter.trivia]
    refine Agree.ite (by rw [hnext.rest, atFlowEnd_crlf]) (fun _ => .ok (anchorAlone_inStep hafter))
      fun _ => ?_
    refine (hcontent [] hnext).bind ?_
    rintro ⟨block, last⟩ ⟨block', last'⟩ ⟨hblock, hlast⟩
    refine (attach_agree hblock (.aligned hlast)).mono ?_
    rintro x y ⟨hnode, hplaces⟩
    cases hplaces with
    | aligned haligned => exact ⟨hnode, haligned⟩

mutual

/-- Nodes between brackets are read alike, and never take a carriage return too early. -/
theorem flowContent_agree (fuel : Nat) (lead : Text) {r r' : Reader} (h : Aligned r r') :
    Agree (InStep (ConvertedBlock false)) (r.flowContent fuel lead)
      (r'.flowContent fuel (crlf lead)) := by
  match fuel with
  | 0 => exact .error _ _
  | fuel + 1 =>
      have hplain : InStep (ConvertedBlock false) (r.plain (plainFlowLength r.rest) lead)
          (r'.plain (plainFlowLength r'.rest) (crlf lead)) :=
        plain_inStep h (by rw [h.rest, plainFlowLength_crlf, crlfLength_plainFlow])
      cases hrest : r.rest using lineInduction with
      | nil =>
          have hrest' : r'.rest = [] := by rw [h.rest, hrest, crlf_nil]
          simp only [flowContent, hrest, hrest']
          exact .error _ _
      | newline tail =>
          have hrest' : r'.rest = '\r' :: '\n' :: crlf tail := by rw [h.rest, hrest, crlf_newline]
          rw [flowContent_plain hrest (by decide), flowContent_plain hrest' (by decide)]
          exact .ok hplain
      | other c tail hc =>
          have hrest' : r'.rest = c :: crlf tail := by rw [h.rest, hrest, crlf_cons hc]
          have hhead : r.rest.head? = some c := by rw [hrest, List.head?_cons]
          by_cases hmark : isFlowMark c = true
          · exact flowMark_agree (flowContent_agree fuel) (flowEntries_agree fuel)
              (flowItems_agree fuel) h hc hrest hrest' hmark
          · rw [Bool.not_eq_true] at hmark
            rw [flowContent_plain hrest hmark, flowContent_plain hrest' hmark]
            exact .ok hplain

theorem flowEntries_agree (fuel : Nat) {start start' r r' : Reader} (h : Aligned r r') :
    Agree (InStepClosing (ConvertedEntries false false)) (flowEntries fuel start r)
      (flowEntries fuel start' r') := by
  match fuel with
  | 0 => exact .error _ _
  | fuel + 1 =>
    have hnext := h.afterTrivia
    unfold flowEntries
    split
    next hnil =>
      have hnil' : r'.afterTrivia.rest = [] := by rw [hnext.rest, hnil, crlf_nil]
      simp only [hnil']
      exact .error _ _
    next tail hclose =>
      have hclose' : r'.afterTrivia.rest = '\x7d' :: crlf tail := by
        rw [hnext.rest, hclose, crlf_cons (by decide)]
      simp only [hclose']
      refine .ok ⟨.nil false, h.trivia, hnext.skip_one (by decide : '\x7d' ≠ '\n') ?_⟩
      rw [hclose, List.head?_cons]
    next hnil hclose =>
      split
      next hnil' =>
        exact absurd (crlf_eq_nil_iff.mp (hnext.rest.symm.trans hnil')) hnil
      next tail' hclose' =>
        obtain ⟨tail, htail, -⟩ := crlf_eq_cons (by decide) (hnext.rest.symm.trans hclose')
        exact absurd htail (hclose tail)
      next =>
        refine (flowKey_agree hnext).bind ?_
        rintro ⟨key, afterKey⟩ ⟨key', afterKey'⟩ ⟨hkey, hafterKey⟩
        refine (flowColon_agree hafterKey.afterBlanks).bind ?_
        intro afterColon afterColon' hafterColon
        have hvalue := flowContent_agree fuel afterColon.trivia hafterColon.afterTrivia
        rw [← hafterColon.trivia] at hvalue
        refine hvalue.bind ?_
        rintro ⟨value, afterValue⟩ ⟨value', afterValue'⟩ ⟨hvalue, hafterValue⟩
        refine (separator_agree (by decide) (by decide) hafterValue).bind ?_
        rintro ⟨comma, next⟩ ⟨comma', next'⟩ ⟨hcomma, hafterComma⟩
        refine (flowEntries_agree fuel hafterComma).bind ?_
        rintro ⟨entries, closing, after⟩ ⟨entries', closing', after'⟩ ⟨hentries, hclosing⟩
        have hblanks := hafterKey.blanks
        dsimp only at hcomma hblanks hentries hkey hvalue ⊢
        rw [hcomma, hblanks]
        exact .ok ⟨.cons h.trivia hkey hvalue (by simp) hentries, hclosing⟩

theorem flowItems_agree (fuel : Nat) {start start' r r' : Reader} (h : Aligned r r') :
    Agree (InStepClosing (ConvertedItems false false)) (flowItems fuel start r)
      (flowItems fuel start' r') := by
  match fuel with
  | 0 => exact .error _ _
  | fuel + 1 =>
    have hnext := h.afterTrivia
    unfold flowItems
    split
    next hnil =>
      have hnil' : r'.afterTrivia.rest = [] := by rw [hnext.rest, hnil, crlf_nil]
      simp only [hnil']
      exact .error _ _
    next tail hclose =>
      have hclose' : r'.afterTrivia.rest = ']' :: crlf tail := by
        rw [hnext.rest, hclose, crlf_cons (by decide)]
      simp only [hclose']
      refine .ok ⟨.nil false, h.trivia, hnext.skip_one (by decide : ']' ≠ '\n') ?_⟩
      rw [hclose, List.head?_cons]
    next hnil hclose =>
      split
      next hnil' =>
        exact absurd (crlf_eq_nil_iff.mp (hnext.rest.symm.trans hnil')) hnil
      next tail' hclose' =>
        obtain ⟨tail, htail, -⟩ := crlf_eq_cons (by decide) (hnext.rest.symm.trans hclose')
        exact absurd htail (hclose tail)
      next =>
        have hvalue := flowContent_agree fuel r.trivia hnext
        rw [← h.trivia] at hvalue
        refine hvalue.bind ?_
        rintro ⟨value, afterValue⟩ ⟨value', afterValue'⟩ ⟨hvalue, hafterValue⟩
        refine Agree.ite (hafterValue.afterTrivia.head? (by decide) (by decide))
          (fun _ => .error _ _) fun _ => ?_
        refine (separator_agree (by decide) (by decide) hafterValue).bind ?_
        rintro ⟨comma, next⟩ ⟨comma', next'⟩ ⟨hcomma, hafterComma⟩
        refine (flowItems_agree fuel hafterComma).bind ?_
        rintro ⟨items, closing, after⟩ ⟨items', closing', after'⟩ ⟨hitems, hclosing⟩
        dsimp only at hcomma hitems hvalue ⊢
        rw [hcomma]
        exact .ok ⟨.cons rfl hvalue (by simp) hitems, hclosing⟩

end

end Reader

end LosslessYaml
