import LosslessYaml.Proofs.LineEnds.Divergence
import LosslessYaml.Proofs.Trace.Record

/-!
# Reading streams whose lines end in a carriage return

The nodes that nest by indentation, documents and whole streams, read by two readers.  The readers
stay in step, or they part at a broken key and one of them does not get to the end of its text.

They can part only where the first reader finds the key: where it reads one, and where one ends a
plain scalar.  So the first reading is recorded, and its record tells whether that has happened.
What looks like a broken key in a comment, in a scalar or between brackets does no harm.

Main statement: `Reader.stream_agreeOrStuck`.
-/

namespace LosslessYaml

open Text Lookahead

/-! ## Where a broken key is found -/

/-- Whether a broken key is found: one that is about to be read, or one that a plain scalar ends
before, with white space in between. -/
def Event.findsBrokenKey : Event → Bool
  | .key place => atBrokenKey place.rest
  | .content start after =>
    opening start.rest == .plain && atBrokenKey (after.rest.dropWhile isWhitespace)
  | .stands _ | .nested _ _ | .again _ _ _ => false

/-- While the source is read, no key of a block mapping is found that goes on over a line break. -/
def KeysOnLines (source : Text) : Prop :=
  ∀ event ∈ (Stream.traced source).events, event.findsBrokenKey = false

instance (source : Text) : Decidable (KeysOnLines source) :=
  inferInstanceAs (Decidable (∀ event ∈ (Stream.traced source).events, _))

namespace Traced

variable {α β : Type} {x : Traced α}

theorem events_subset_bind (x : Traced α) (f : α → Traced β) : x.events ⊆ (x >>= f).events := by
  obtain ⟨events, result⟩ := x
  cases result with
  | ok a => exact List.subset_append_left _ _
  | error failure => exact List.Subset.refl _

theorem subset_events_bind {f : α → Traced β} {a : α} (hx : x.result = .ok a) :
    (f a).events ⊆ (x >>= f).events := by
  obtain ⟨events, result⟩ := x
  cases hx
  exact List.subset_append_right _ _

/-- A broken key is found on the way. -/
def FindsBrokenKey (x : Traced α) : Prop := ∃ event ∈ x.events, event.findsBrokenKey = true

theorem FindsBrokenKey.mono {z : Traced β} (h : x.FindsBrokenKey) (hevents : x.events ⊆ z.events) :
    z.FindsBrokenKey := by
  obtain ⟨event, hevent, hbroken⟩ := h
  exact ⟨event, hevents hevent, hbroken⟩

/-- A broken key is found on the way, or the reading fails. -/
def FindsOrFails (x : Traced α) : Prop :=
  x.FindsBrokenKey ∨ ∃ failure, x.result = .error failure

theorem FindsOrFails.bind (h : x.FindsOrFails) (f : α → Traced β) : (x >>= f).FindsOrFails := by
  refine h.imp (fun hkey => hkey.mono (events_subset_bind x f)) ?_
  rintro ⟨failure, hfailure⟩
  refine ⟨failure, ?_⟩
  rw [result_bind, hfailure]
  rfl

theorem FindsOrFails.preceded (h : x.FindsOrFails) (event : Event) :
    (preceded event x).FindsOrFails :=
  h.imp_left fun hkey => hkey.mono (List.subset_cons_self _ _)

theorem FindsOrFails.followed (h : x.FindsOrFails) (event : α → Event) :
    (followed event x).FindsOrFails :=
  h.imp_left fun hkey => hkey.mono (List.subset_append_left _ _)

end Traced

/-! ## Readers that stay in step or part -/

/-- The computation fails or gives a `stuck` result. -/
def GivesStuck {α : Type} (stuck : α → Prop) (x : Except Failure α) : Prop :=
  ∀ a, x = .ok a → stuck a

theorem GivesStuck.bind {α β : Type} {stuck : α → Prop} {stuck' : β → Prop}
    {x : Except Failure α} {f : α → Except Failure β} (h : GivesStuck stuck x)
    (hnext : ∀ a, stuck a → GivesStuck stuck' (f a)) : GivesStuck stuck' (x >>= f) := by
  intro c hc
  obtain ⟨a, ha, hf⟩ := Reader.bind_eq_ok.mp hc
  exact hnext a (h a ha) c hf

/-- A recorded computation and another one agree, or they part and do not get on. -/
inductive AgreeOrStuck {α : Type} (stuck : α → Prop) (related : α → α → Prop) (x : Traced α)
    (y : Except Failure α) : Prop
  | agree (h : Agree related x.result y)
  /-- Neither gets on. -/
  | neither (hfirst : GivesStuck stuck x.result) (hsecond : GivesStuck stuck y)
  /-- The first one finds a broken key, and one of the two does not get on. -/
  | parted (hkey : x.FindsBrokenKey) (hstuck : GivesStuck stuck x.result ∨ GivesStuck stuck y)

namespace AgreeOrStuck

variable {α β : Type} {stuck : α → Prop} {stuck' : β → Prop} {related : α → α → Prop}
  {related' : β → β → Prop} {x : Traced α} {y : Except Failure α}

/-- A longer record of the same result. -/
theorem extend {z : Traced α} (h : AgreeOrStuck stuck related x y) (hresult : z.result = x.result)
    (hevents : x.events ⊆ z.events) : AgreeOrStuck stuck related z y := by
  cases h with
  | agree hagree => exact .agree (hresult ▸ hagree)
  | neither hfirst hsecond => exact .neither (hresult ▸ hfirst) hsecond
  | parted hkey hstuck => exact .parted (hkey.mono hevents) (hresult ▸ hstuck)

theorem preceded (h : AgreeOrStuck stuck related x y) (event : Event) :
    AgreeOrStuck stuck related (Traced.preceded event x) y :=
  h.extend rfl (List.subset_cons_self _ _)

theorem followed (h : AgreeOrStuck stuck related x y) (event : α → Event) :
    AgreeOrStuck stuck related (Traced.followed event x) y :=
  h.extend rfl (List.subset_append_left _ _)

/-- The second computation does not get on, and the first one finds a broken key or fails. -/
theorem of_findsOrFails (hfirst : x.FindsOrFails) (hsecond : GivesStuck stuck y) :
    AgreeOrStuck stuck related x y := by
  obtain hkey | ⟨failure, hfailure⟩ := hfirst
  · exact .parted hkey (.inr hsecond)
  · refine .neither ?_ hsecond
    intro a ha
    cases hfailure.symm.trans ha

theorem ite {x' : Traced α} {y' : Except Failure α} {b b' : Bool} (hb : b' = b)
    (hthen : b = true → AgreeOrStuck stuck related x y)
    (helse : b = false → AgreeOrStuck stuck related x' y') :
    AgreeOrStuck stuck related (if b then x else x') (if b' then y else y') := by
  subst hb
  cases b' with
  | true => exact hthen rfl
  | false => exact helse rfl

/-- Two steps in a row, the first of which is made alike. -/
theorem of_agree {f : α → Traced β} {g : α → Except Failure β} (h : Agree related x.result y)
    (hnext : ∀ a b, x.result = .ok a → related a b → AgreeOrStuck stuck' related' (f a) (g b)) :
    AgreeOrStuck stuck' related' (x >>= f) (y >>= g) := by
  have hresult := Traced.result_bind x f
  cases hx : x.result with
  | error failure =>
      rw [hx] at h hresult
      cases h
      refine .agree ?_
      rw [hresult]
      exact .error _ _
  | ok a =>
      rw [hx] at h hresult
      cases h with
      | ok hrelated => exact (hnext a _ hx hrelated).extend hresult (Traced.subset_events_bind hx)

/-- Two steps in a row.  After a stuck result of the first, the second must be stuck too. -/
theorem bind {f : α → Traced β} {g : α → Except Failure β} (h : AgreeOrStuck stuck related x y)
    (hnext : ∀ a b, related a b → AgreeOrStuck stuck' related' (f a) (g b))
    (hleft : ∀ a, stuck a → GivesStuck stuck' (f a).result)
    (hright : ∀ b, stuck b → GivesStuck stuck' (g b)) :
    AgreeOrStuck stuck' related' (x >>= f) (y >>= g) := by
  have hfirst : GivesStuck stuck x.result → GivesStuck stuck' (x >>= f).result := by
    intro hx
    rw [Traced.result_bind]
    exact hx.bind hleft
  have hsecond : GivesStuck stuck y → GivesStuck stuck' (y >>= g) := fun hy => hy.bind hright
  cases h with
  | agree hagree => exact of_agree hagree fun a b _ => hnext a b
  | neither hx hy => exact .neither (hfirst hx) (hsecond hy)
  | parted hkey hstuck =>
      exact .parted (hkey.mono (Traced.events_subset_bind x f)) (hstuck.imp hfirst hsecond)

end AgreeOrStuck

namespace Reader

variable {r r' : Reader}

/-! ## Block collections -/

/-- Both readers stop before what follows, or neither does. -/
private theorem stops_eq_crlf {late : Bool} (h : Follows late r r') (floor : Nat)
    (place : Place) : r'.stops floor place = r.stops floor place := by
  unfold stops
  rw [h.afterTrivia.isEmpty, h.newLine, h.afterTrivia.continues]

/-- A node on a line of its own, or after what takes columns of the line, is nested. -/
private theorem nested_column {floor : Nat} {place : Place}
    (hstart : place ≠ .mappingValue → floor ≤ r.column + 1)
    (hstop : r.stops floor place = false)
    (hline : (place == .mappingValue && !r.trivia.contains '\n') = false) :
    floor ≤ r.afterTrivia.column + 1 := by
  cases hbreak : r.trivia.contains '\n' with
  | true =>
      rw [stops, hbreak, Bool.true_and, Bool.or_eq_false_iff, Bool.not_eq_false'] at hstop
      simp only [continues, Bool.and_eq_true, Bool.or_eq_true, decide_eq_true_eq, beq_iff_eq]
        at hstop
      omega
  | false =>
      have hplace : place ≠ .mappingValue := by
        rintro rfl
        rw [hbreak] at hline
        cases hline
      have hnested : r.column + r.trivia.length ≤ r.afterTrivia.column :=
        le_columnAfter (by simpa using hbreak) r.column
      have hfloor := hstart hplace
      omega

/-- A mark takes columns of its line. -/
private theorem lt_column_skip {c : Char} (hc : c ≠ '\n') (hhead : r.rest.head? = some c) :
    r.column < (r.skip 1).column := by
  obtain ⟨tail, htail⟩ := List.head?_eq_some_iff.mp hhead
  have hline : '\n' ∉ [c] := by simpa using hc.symm
  rw [show (r.skip 1).column = columnAfter r.column [c] from @column_skip r [c] tail htail]
  exact le_columnAfter hline r.column

/-- A name takes columns of its line. -/
private theorem anchorName_nested {found : Text × Reader} (hhead : r.rest.head? = some '&')
    (hread : r.anchorName = .ok found) : r.column ≤ found.2.column := by
  have hfirst := lt_column_skip (by decide) hhead
  simp only [anchorName] at hread
  split at hread
  next => cases hread
  next =>
    cases hread
    have hname : (r.skip 1).column + ((r.skip 1).taken (nameLength (r.skip 1).rest)).length ≤
        ((r.skip 1).skip (nameLength (r.skip 1).rest)).column :=
      le_columnAfter (notMem_run _ (by simp) _) _
    show r.column ≤ ((r.skip 1).skip (nameLength (r.skip 1).rest)).column
    omega

/-- The first reader takes a broken key for a key. -/
private theorem opening_of_atBrokenKey {text : Text} (h : atBrokenKey text = true) :
    opening text = .key := by
  have hkey := (atKey_of_atBrokenKey h).1
  obtain ⟨c, hhead, hc⟩ := head?_of_atBrokenKey h
  obtain ⟨tail, rfl⟩ := List.head?_eq_some_iff.mp hhead
  obtain rfl | rfl | rfl := hc <;> simp [opening, atDash, hkey]

/-- The first reader finds the broken key that it reads entries from. -/
private theorem blockEntries_findsOrFails (fuel : Nat) {lead : Text}
    (h : atBrokenKey r.rest = true) : (Traced.blockEntries fuel lead r).FindsOrFails := by
  cases fuel with
  | zero => exact .inr ⟨_, rfl⟩
  | succ fuel => exact .inl ⟨.key r, List.mem_cons_self, h⟩

/-- The first reader finds the broken key that a node starts with, unless no mapping may start
there. -/
private theorem blockContent_findsOrFails (fuel : Nat) {floor : Nat} {place : Place}
    {sameLine : Bool} {lead : Text} (h : atBrokenKey r.rest = true) :
    (Traced.blockContent fuel floor place sameLine lead r).FindsOrFails := by
  cases fuel with
  | zero => exact .inr ⟨_, rfl⟩
  | succ fuel =>
      rw [Traced.blockContent, opening_of_atBrokenKey h]
      refine Traced.FindsOrFails.preceded (Traced.FindsOrFails.followed ?_ _) _
      dsimp only
      split
      · exact .inr ⟨_, rfl⟩
      · exact (blockEntries_findsOrFails fuel h).bind _

mutual

/-- The node that follows is read alike. -/
theorem block_agreeOrStuck (fuel floor : Nat) (place : Place) {r r' : Reader}
    (h : Aligned r r') (hstart : place ≠ .mappingValue → floor ≤ r.column + 1) :
    AgreeOrStuck (fun x => Stuck floor x.2) (InStepLate ConvertedBlock)
      (Traced.block fuel floor place r) (r'.block fuel floor place) := by
  match fuel with
  | 0 => exact .agree (.error _ _)
  | fuel + 1 =>
    rw [Traced.block, block]
    refine AgreeOrStuck.preceded ?_ _
    refine AgreeOrStuck.ite (stops_eq_crlf (.aligned h) floor place) (fun _ => ?_) fun hstop => ?_
    · exact .agree (.ok ⟨false, .scalar ⟨rfl, rfl, rfl, rfl, by simp⟩, .aligned h⟩)
    · rw [(Follows.aligned h).newLine, h.trivia]
      exact blockContent_agreeOrStuck fuel floor place _ r.trivia h.afterTrivia
        (nested_column hstart hstop)

theorem blockContent_agreeOrStuck (fuel floor : Nat) (place : Place) (sameLine : Bool) (lead : Text)
    {r r' : Reader} (h : Aligned r r')
    (hcolumn : (place == .mappingValue && sameLine) = false → floor ≤ r.column + 1) :
    AgreeOrStuck (fun x => Stuck floor x.2) (InStepLate ConvertedBlock)
      (Traced.blockContent fuel floor place sameLine lead r)
      (r'.blockContent fuel floor place sameLine (crlf lead)) := by
  cases hbroken : atBrokenKey r.rest with
  | true =>
      exact .of_findsOrFails (blockContent_findsOrFails fuel hbroken)
        fun _ => blockContent_stuck fuel h hbroken
  | false =>
  match fuel with
  | 0 => exact .agree (.error _ _)
  | fuel + 1 =>
    have hlead : returned false ++ [] = crlf [] := rfl
    have hopening : opening r'.rest = opening r.rest := by rw [h.rest, opening_crlf hbroken]
    rw [Traced.blockContent, blockContent]
    simp only [hopening]
    refine AgreeOrStuck.preceded ?_ _
    cases hopen : opening r.rest with
    | tag | complexKey => exact .agree (.error _ _)
    | anchor =>
        obtain ⟨⟨tail, htail⟩, -⟩ := describes_of_opening hopen
        refine AgreeOrStuck.followed ?_ _
        refine anchored_agreeOrStuck fuel floor place lead h (by rw [htail, List.head?_cons]) ?_
        intro hplace
        exact hcolumn (by simp [hplace])
    | aliasNode =>
        obtain ⟨tail, htail⟩ := describes_of_opening hopen
        exact .agree (.ok (aliasNode_inStep h (by rw [htail, List.head?_cons])).toLate)
    | flow =>
        refine .agree ?_
        show Agree _ (Traced.flowContent fuel lead r).result _
        rw [Traced.flowContent_result]
        exact (flowContent_agree fuel lead h).mono fun _ _ => InStep.toLate
    | literal =>
        obtain ⟨tail, htail⟩ := describes_of_opening hopen
        exact .agree (.ok (literal_inStep (.inl rfl) floor h (by decide : '|' ≠ '\n')
          (by rw [htail, List.head?_cons])))
    | folded =>
        obtain ⟨tail, htail⟩ := describes_of_opening hopen
        exact .agree (.ok (literal_inStep (.inr rfl) floor h (by decide : '>' ≠ '\n')
          (by rw [htail, List.head?_cons])))
    | quoted quote =>
        obtain ⟨hquote, ⟨tail, htail⟩, -⟩ := describes_of_opening hopen
        refine AgreeOrStuck.followed ?_ _
        refine AgreeOrStuck.of_agree (quoted_agree hquote h (by rw [htail, List.head?_cons])) ?_
        rintro ⟨scalar, after⟩ ⟨scalar', after'⟩ - ⟨hscalar, hafter⟩
        exact .agree (.ok ⟨false, .scalar hscalar, .aligned hafter⟩)
    | item =>
        obtain ⟨tail, htail⟩ := eq_dash_of_atDash (describes_of_opening hopen)
        refine AgreeOrStuck.followed ?_ _
        refine AgreeOrStuck.ite rfl (fun _ => .agree (.error _ _)) fun hplace => ?_
        have hitems := blockItems_agreeOrStuck fuel false h hlead (by rw [htail, List.head?_cons])
        refine hitems.bind ?_ ?_ ?_
        · rintro ⟨items, after⟩ ⟨items', after'⟩ ⟨late, hitems, hafter⟩
          dsimp only at hitems hafter ⊢
          rw [h.column]
          exact .agree (.ok ⟨late, .sequence (fun _ => rfl) hitems, hafter⟩)
        -- A reader that is stuck in the sequence is stuck after it, which is nested no less.
        all_goals
          rintro ⟨items, after⟩ hstuck _ hok
          cases hok
          exact hstuck.mono (hcolumn hplace)
    | key =>
        refine AgreeOrStuck.followed ?_ _
        refine AgreeOrStuck.ite rfl (fun _ => .agree (.error _ _)) fun hplace => ?_
        have hentries := blockEntries_agreeOrStuck fuel false h hlead (describes_of_opening hopen)
        refine hentries.bind ?_ ?_ ?_
        · rintro ⟨entries, after⟩ ⟨entries', after'⟩ ⟨late, hentries, hafter⟩
          exact .agree (.ok ⟨late, .mapping (fun _ => rfl) hentries, hafter⟩)
        all_goals
          rintro ⟨entries, after⟩ hstuck _ hok
          cases hok
          exact hstuck.mono (hcolumn hplace)
    | plain =>
        obtain hlength | ⟨hends, line, hstop, hfloor, hkey⟩ := plainBlockLength_crlf floor r.rest
        · exact .agree (.ok (plain_inStep h (by rw [h.rest, hlength])).toLate)
        -- The second reader goes on over the line with the key, and the first one does not.
        · have hfound : Event.findsBrokenKey
              (.content r (r.skip (plainBlockLength floor r.rest))) = true := by
            rw [Event.findsBrokenKey, hopen, plain_dropWhile hends hstop hkey, hkey]
            rfl
          refine .parted ⟨_, List.mem_append_right _ (List.mem_singleton_self _), hfound⟩ (.inl ?_)
          rintro _ hok
          cases hok
          exact plain_stuck hends hstop hfloor hkey

theorem anchored_agreeOrStuck (fuel floor : Nat) (place : Place) (lead : Text) {r r' : Reader}
    (h : Aligned r r') (hhead : r.rest.head? = some '&')
    (hstart : place ≠ .mappingValue → floor ≤ r.column + 1) :
    AgreeOrStuck (fun x => Stuck floor x.2) (InStepLate ConvertedBlock)
      (Traced.anchored fuel floor place lead r) (anchored fuel floor place (crlf lead) r') := by
  match fuel with
  | 0 => exact .agree (.error _ _)
  | fuel + 1 =>
    rw [Traced.anchored, anchored]
    refine AgreeOrStuck.of_agree (anchorName_agree h hhead) ?_
    rintro ⟨name, after⟩ ⟨name', after'⟩ hread ⟨hname, hafter⟩
    dsimp only at hname hafter ⊢
    have hnext := hafter.afterTrivia
    have hline := (Follows.aligned hafter).newLine
    have hnested := anchorName_nested hhead hread
    rw [hname]
    refine AgreeOrStuck.ite ?_ (fun _ => ?_) fun hstop => ?_
    · show (after'.stops floor place || _) = _
      rw [stops_eq_crlf (.aligned hafter), hline, hnext.rest, atFlowEnd_crlf]
    · exact .agree (.ok (anchorAlone_inStep hafter).toLate)
    · rw [hline, hafter.trivia]
      refine ((blockContent_agreeOrStuck fuel floor place _ [] hnext ?_).preceded _).bind ?_ ?_ ?_
      · refine nested_column (fun hplace => ?_) (Bool.or_eq_false_iff.mp hstop).1
        exact Nat.le_trans (hstart hplace) (Nat.succ_le_succ hnested)
      · rintro ⟨block, last⟩ ⟨block', last'⟩ ⟨late, hblock, hlast⟩
        exact .agree ((attach_agree hblock hlast).mono fun _ _ hnode => ⟨late, hnode⟩)
      all_goals exact fun _ hstuck _ hok => attach_stuck hstuck hok

/-- Entries are read alike.  The carriage return before the first one may have been taken by the
value in front. -/
theorem blockEntries_agreeOrStuck (fuel : Nat) (early : Bool) {lead lead' : Text} {r r' : Reader}
    (h : Aligned r r') (hlead : returned early ++ lead' = crlf lead)
    (hstart : atKey r.rest = true) :
    AgreeOrStuck (fun x => Stuck (r.column + 1) x.2) (InStepLate (ConvertedEntries early))
      (Traced.blockEntries fuel lead r) (blockEntries fuel lead' r') := by
  match fuel with
  | 0 => exact .agree (.error _ _)
  | fuel + 1 =>
    rw [Traced.blockEntries, blockEntries]
    refine AgreeOrStuck.preceded ?_ _
    refine AgreeOrStuck.of_agree (blockKey_agree h hstart) ?_
    rintro ⟨key, afterKey⟩ ⟨key', afterKey'⟩ - ⟨hkey, hafterKey⟩
    dsimp only at hkey hafterKey ⊢
    have hcolon := hafterKey.afterBlanks
    have hmark := hcolon.head? (by decide : ':' ≠ '\r') (by decide)
    refine AgreeOrStuck.ite (by rw [bne, bne, hmark]) (fun _ => .agree (.error _ _))
      fun hfound => ?_
    have hhead : afterKey.afterBlanks.rest.head? = some ':' := by simpa using hfound
    rw [h.column, hafterKey.blanks]
    refine ((block_agreeOrStuck fuel (r.column + 1) .mappingValue
      (hcolon.skip_one (by decide) hhead) (by simp)).preceded _).bind ?_ ?_ ?_
    · rintro ⟨value, after⟩ ⟨value', after'⟩ ⟨between, hvalue, hafter⟩
      dsimp only at hvalue hafter ⊢
      have hnext := hafter.afterTrivia
      have hlast : InStepLate (ConvertedEntries early)
          ([{ lead, key, beforeColon := afterKey.blanks, value }], after)
          ([{ lead := lead', key := key', beforeColon := crlf afterKey.blanks, value := value' }],
            after') :=
        ⟨between, .cons hlead hkey hvalue (fun _ => rfl) (.nil between), hafter⟩
      cases hbroken : atBrokenKey after.afterTrivia.rest with
      | true =>
          -- The second reader finds no further entry, and is left before the key.
          obtain ⟨hstuck, hno⟩ := stuck_of_atBrokenKey hafter hbroken
          simp only [hno, Bool.and_false, Bool.false_eq_true, if_false]
          split
          · apply AgreeOrStuck.of_findsOrFails
            · exact ((blockEntries_findsOrFails fuel hbroken).preceded _).bind _
            · intro _ hok
              cases hok
              exact hstuck
          · exact .agree (.ok hlast)
      | false =>
          refine AgreeOrStuck.ite ?_ (fun hmore => ?_) fun _ => .agree (.ok hlast)
          · rw [hafter.newLine, hnext.column, hnext.atDocumentMark, hnext.rest, atKey_crlf hbroken]
            rfl
          · obtain ⟨⟨⟨-, hsame⟩, -⟩, hkeyAhead⟩ := by
              simpa only [entryFollows, Bool.and_eq_true] using hmore
            have hentries := blockEntries_agreeOrStuck fuel between hnext hafter.trivia hkeyAhead
            rw [eq_of_beq hsame] at hentries
            refine (hentries.preceded _).bind ?_ ?_ ?_
            · rintro ⟨entries, last⟩ ⟨entries', last'⟩ ⟨late, hentries, hlast⟩
              exact .agree (.ok ⟨late, .cons hlead hkey hvalue (fun _ => rfl) hentries, hlast⟩)
            all_goals
              rintro ⟨entries, last⟩ hstuck x hok
              cases hok
              exact hstuck
    · rintro ⟨value, after⟩ hstuck x hok
      have hno : after.entryFollows r.column = false := hstuck.not_entry (Nat.lt_succ_self _)
      dsimp only at hok
      rw [hno] at hok
      cases hok
      exact hstuck
    · rintro ⟨value, after⟩ hstuck x hok
      dsimp only at hstuck hok
      rw [hstuck.not_entry (Nat.lt_succ_self _), if_neg (by simp)] at hok
      cases hok
      exact hstuck

theorem blockItems_agreeOrStuck (fuel : Nat) (early : Bool) {lead lead' : Text} {r r' : Reader}
    (h : Aligned r r') (hlead : returned early ++ lead' = crlf lead)
    (hhead : r.rest.head? = some '-') :
    AgreeOrStuck (fun x => Stuck (r.column + 1) x.2) (InStepLate (ConvertedItems early))
      (Traced.blockItems fuel lead r) (blockItems fuel lead' r') := by
  match fuel with
  | 0 => exact .agree (.error _ _)
  | fuel + 1 =>
    have hdash := lt_column_skip (by decide) hhead
    rw [Traced.blockItems, blockItems, h.column]
    refine ((block_agreeOrStuck fuel (r.column + 1) .sequenceItem (h.skip_one (by decide) hhead)
      fun _ => by omega).preceded _).bind ?_ ?_ ?_
    · rintro ⟨value, after⟩ ⟨value', after'⟩ ⟨between, hvalue, hafter⟩
      dsimp only at hvalue hafter ⊢
      have hnext := hafter.afterTrivia
      refine AgreeOrStuck.ite ?_ (fun hmore => ?_) fun _ => ?_
      · rw [hafter.newLine, hnext.column, hnext.rest, atDash_crlf]
        rfl
      · obtain ⟨⟨-, hsame⟩, hdashAhead⟩ := by
          simpa only [itemFollows, Bool.and_eq_true] using hmore
        obtain ⟨tail, htail⟩ := eq_dash_of_atDash hdashAhead
        have hitems := blockItems_agreeOrStuck fuel between hnext hafter.trivia
          (by rw [htail, List.head?_cons])
        rw [eq_of_beq hsame] at hitems
        refine (hitems.preceded _).bind ?_ ?_ ?_
        · rintro ⟨items, last⟩ ⟨items', last'⟩ ⟨late, hitems, hlast⟩
          exact .agree (.ok ⟨late, .cons hlead hvalue (fun _ => rfl) hitems, hlast⟩)
        all_goals
          rintro ⟨items, last⟩ hstuck x hok
          cases hok
          exact hstuck
      · exact .agree (.ok ⟨between, .cons hlead hvalue (fun _ => rfl) (.nil between), hafter⟩)
    · rintro ⟨value, after⟩ hstuck x hok
      have hno : after.itemFollows r.column = false := hstuck.not_item (Nat.lt_succ_self _)
      dsimp only at hok
      rw [hno] at hok
      cases hok
      exact hstuck
    · rintro ⟨value, after⟩ hstuck x hok
      dsimp only at hstuck hok
      rw [hstuck.not_item (Nat.lt_succ_self _), if_neg (by simp)] at hok
      cases hok
      exact hstuck

end

/-! ## Documents -/

/-- A step over the mark of a document. -/
private theorem Aligned.skip_mark (h : Aligned r r') {c : Char} (hc : c ≠ '\n') {tail : Text}
    (hrest : r.rest = c :: c :: c :: tail) : Aligned (r.skip 3) (r'.skip 3) := by
  refine h.skip ?_
  rw [hrest, crlfLength_cons hc, crlfLength_cons hc, crlfLength_cons hc, crlfLength_zero]

/-- The trivia after the root of a document starts with the carriage return that the root took. -/
def ConvertedEnding (late : Bool) (ending ending' : Ending) : Prop :=
  returned late ++ ending'.lead = crlf ending.lead ∧ ending'.explicit = ending.explicit

theorem ending_agree {late : Bool} (h : Follows late r r') :
    Agree (InStep (ConvertedEnding late)) r.ending r'.ending := by
  have hnext := h.afterTrivia
  unfold ending
  refine Agree.ite hnext.isEmpty (fun _ => .ok ⟨⟨h.trivia, rfl⟩, hnext⟩) fun _ => ?_
  refine Agree.ite (by rw [hnext.column, hnext.rest, atDots_crlf]) (fun hdots => ?_) fun _ => ?_
  · obtain ⟨tail, htail⟩ := eq_dots_of_atDots (Bool.and_eq_true_iff.mp hdots).2
    exact .ok ⟨⟨h.trivia, rfl⟩, hnext.skip_mark (by decide) htail⟩
  · exact Agree.ite (by rw [hnext.column, hnext.rest, atDashes_crlf])
      (fun _ => .ok ⟨⟨h.trivia, rfl⟩, hnext⟩) fun _ => .error _ _

/-- A document is read alike, or not read from one of the texts. -/
theorem document_agreeOrStuck (fuel : Nat) (lead : Text) (h : Aligned r r') :
    AgreeOrStuck (fun _ => False) (InStep ConvertedDocument) (Traced.document fuel lead r)
      (r'.document fuel (crlf lead)) := by
  have hexplicit : (r'.column == 0 && atDashes r'.rest) = (r.column == 0 && atDashes r.rest) := by
    rw [h.column, h.rest, atDashes_crlf]
  have hstart : Aligned r.afterDashes
      (if r.column == 0 && atDashes r.rest then r'.skip 3 else r') := by
    unfold afterDashes startsDocument
    split
    next hdashes =>
      obtain ⟨tail, htail⟩ := eq_dashes_of_atDashes (Bool.and_eq_true_iff.mp hdashes).2
      exact h.skip_mark (by decide) htail
    next => exact h
  rw [Traced.document, document]
  simp only [hexplicit]
  refine (block_agreeOrStuck fuel 0 .root hstart fun _ => Nat.zero_le _).bind ?_ ?_ ?_
  · rintro ⟨root, afterRoot⟩ ⟨root', afterRoot'⟩ ⟨late, hroot, hafterRoot⟩
    refine AgreeOrStuck.of_agree (ending_agree hafterRoot) ?_
    rintro ⟨ending, after⟩ ⟨ending', after'⟩ - ⟨hending, hafter⟩
    exact .agree (.ok ⟨⟨rfl, rfl, ⟨late, hroot, hending.1⟩, hending.2⟩, hafter⟩)
  · rintro ⟨root, afterRoot⟩ hstuck x hok
    obtain ⟨failure, hfailure⟩ := hstuck.ending_eq_error
    dsimp only at hok hfailure
    rw [Traced.result_bind, Traced.result_moving, hfailure] at hok
    cases hok
  · rintro ⟨root, afterRoot⟩ hstuck x hok
    obtain ⟨failure, hfailure⟩ := hstuck.ending_eq_error
    dsimp only at hok hfailure
    rw [hfailure] at hok
    cases hok

theorem Aligned.preamble (h : Aligned r r') : r'.preamble = crlf r.preamble :=
  h.taken (by rw [h.column, h.rest, preambleLength_crlf])

theorem Aligned.afterPreamble (h : Aligned r r') :
    Aligned r.afterPreamble r'.afterPreamble :=
  h.skip (by rw [h.column, h.rest, preambleLength_crlf])

theorem moreDocuments_agreeOrStuck (fuel : Nat) {r r' : Reader} (h : Aligned r r') :
    AgreeOrStuck (fun _ => False) (InStepClosing ConvertedDocuments)
      (Traced.moreDocuments fuel r) (r'.moreDocuments fuel) := by
  induction fuel generalizing r r' with
  | zero => exact .agree (.error _ _)
  | succ fuel ih =>
      have hnext := h.afterPreamble
      rw [Traced.moreDocuments, moreDocuments, h.preamble]
      refine AgreeOrStuck.preceded ?_ _
      refine AgreeOrStuck.ite hnext.isEmpty (fun _ => .agree (.ok ⟨.nil, rfl, hnext⟩)) fun _ => ?_
      refine (document_agreeOrStuck fuel r.preamble hnext).bind ?_ (by simp) (by simp)
      rintro ⟨document, after⟩ ⟨document', after'⟩ ⟨hdocument, hafter⟩
      refine ((ih hafter).preceded _).bind ?_ (by simp) (by simp)
      rintro ⟨documents, suffix, last⟩ ⟨documents', suffix', last'⟩ ⟨hdocuments, hsuffix⟩
      exact .agree (.ok ⟨.cons hdocument hdocuments, hsuffix⟩)

/-- A stream is read alike, or not read from one of the texts. -/
theorem stream_agreeOrStuck (fuel : Nat) (mark : Text) (h : Aligned r r') :
    AgreeOrStuck (fun _ => False) (InStep ConvertedStream) (Traced.stream fuel mark r)
      (r'.stream fuel (crlf mark)) := by
  have hnext := h.afterPreamble
  rw [Traced.stream, stream]
  simp only [h.preamble, ← crlf_append]
  refine AgreeOrStuck.preceded ?_ _
  refine AgreeOrStuck.ite hnext.isEmpty (fun _ => .agree (.ok ⟨⟨?_, rfl⟩, hnext⟩)) fun _ => ?_
  · exact .cons ⟨rfl, rfl, ⟨false, .scalar ⟨rfl, rfl, rfl, rfl, by simp⟩, rfl⟩, rfl⟩ .nil
  · refine (document_agreeOrStuck fuel _ hnext).bind ?_ (by simp) (by simp)
    rintro ⟨first, after⟩ ⟨first', after'⟩ ⟨hfirst, hafter⟩
    refine ((moreDocuments_agreeOrStuck fuel hafter).preceded _).bind ?_ (by simp) (by simp)
    rintro ⟨documents, suffix, last⟩ ⟨documents', suffix', last'⟩ ⟨hdocuments, hsuffix, hlast⟩
    exact .agree (.ok ⟨⟨.cons hfirst hdocuments, hsuffix⟩, hlast⟩)

end Reader

end LosslessYaml
