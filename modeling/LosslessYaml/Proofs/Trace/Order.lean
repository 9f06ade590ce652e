import LosslessYaml.Proofs.Reading.Inversion
import LosslessYaml.Proofs.Reading.Keys
import LosslessYaml.Proofs.Trace.Record

/-!
# The order of events

While a source is read, each place that the reader takes is the one before it or a later one, and
where the reader calls itself, or a loop goes on, a character was read in between.  Keys of block
mappings are read only where one was seen by looking ahead.

`Traced.Orderly` says this of a recorded reading, from the place where it starts to the place where
it ends.  Orderly readings are put together as readings are, so that there is one lemma for each
function of the reader, and none of them depends on the bound on nested calls.

Main statements: `Traced.stream_orderly`, `Stream.keys_are_seen_and_read`.
-/

namespace LosslessYaml

open Lookahead

namespace Reader

/-! ## Places behind each other -/

/-- At least one character stands between the first place and the second. -/
def Gains (r after : Reader) : Prop := ∃ c read, r.rest = c :: (read ++ after.rest)

theorem Gains.of_length {r after : Reader} (hsuffix : after.rest <:+ r.rest)
    (hlength : after.rest.length < r.rest.length) : Gains r after := by
  obtain ⟨read, hread⟩ := hsuffix
  cases read with
  | nil =>
      rw [List.nil_append] at hread
      rw [hread] at hlength
      omega
  | cons c read => exact ⟨c, read, by rw [← hread, List.cons_append]⟩

theorem Gains.behind {r after later : Reader} (h : Gains r after)
    (hlater : later.rest <:+ after.rest) : Gains r later := by
  obtain ⟨c, read, hread⟩ := h
  obtain ⟨more, hmore⟩ := hlater
  exact ⟨c, read ++ more, by rw [hread, ← hmore, List.append_assoc]⟩

theorem Keeps.suffix {r after : Reader} {text : Text} (h : Keeps r text after) :
    after.rest <:+ r.rest := by
  obtain ⟨read, -, hrest, -⟩ := h
  exact ⟨read, hrest.symm⟩

theorem Keeps.gains {r after : Reader} {text : Text} (h : Keeps r text after) (hne : text ≠ []) :
    Gains r after := by
  have hlength := h.length_le
  have hpos := List.length_pos_iff.mpr hne
  exact .of_length h.suffix (by omega)

theorem skip_suffix (r : Reader) (n : Nat) : (r.skip n).rest <:+ r.rest := List.drop_suffix n r.rest

/-! ## Nodes take characters -/

theorem BlockEntries.gains {lead : Text} {r after : Reader} {entries : List (Entry Block)}
    (h : BlockEntries lead r entries after) : Gains r after := by
  obtain ⟨text, -, hkeeps⟩ := h.keeps
  refine .of_length hkeeps.suffix ?_
  cases h with
  | last hstart hkey hcolon hvalue hnext =>
      have hbefore := afterColon_length (blockKey_keeps hkey) hcolon
      have hlength := hvalue.keeps.length_le
      omega
  | more hstart hkey hcolon hvalue hnext hentries =>
      have hbefore := afterColon_length (blockKey_keeps hkey) hcolon
      have hlength := (hvalue.keeps.trans (.trivia _)).length_le
      obtain ⟨text, -, hmore⟩ := hentries.keeps
      have hlast := hmore.length_le
      omega

theorem BlockItems.gains {lead : Text} {r after : Reader} {items : List (Item Block)}
    (h : BlockItems lead r items after) : Gains r after := by
  cases h with
  | last hstart hvalue hnext =>
      obtain ⟨tail, hrest⟩ := eq_dash_of_atDash hstart
      exact ((Keeps.head hrest).trans hvalue.keeps).gains (by simp)
  | more hstart hvalue hnext hitems =>
      obtain ⟨tail, hrest⟩ := eq_dash_of_atDash hstart
      obtain ⟨text, -, hmore⟩ := hitems.keeps
      have hitem := (Keeps.head hrest).trans (hvalue.keeps.trans (.trivia _))
      exact (hitem.trans hmore).gains (by simp)

/-- A node in block context that starts with a visible character takes at least that one. -/
theorem BlockContent.gains {floor : Nat} {place : Place} {sameLine : Bool} {lead : Text}
    {r after : Reader} {node : Block} (h : BlockContent floor place sameLine lead r node after)
    (hne : r.rest ≠ []) (hstart : triviaLength r.rest = 0) : Gains r after := by
  cases h with
  | anchorAlone hopen hname hend =>
      obtain ⟨⟨tail, hrest⟩, -⟩ := describes_of_opening hopen
      exact (anchorName_keeps hrest hname).gains (by simp)
  | anchored hopen hname hend hcontent hanchor =>
      obtain ⟨⟨tail, hrest⟩, -⟩ := describes_of_opening hopen
      have hbefore := (anchorName_keeps hrest hname).gains (by simp)
      exact hbefore.behind ((Keeps.trivia _).trans hcontent.keeps.2).suffix
  | aliasNode hopen =>
      obtain ⟨tail, hrest⟩ := describes_of_opening hopen
      exact ((Keeps.head hrest).gains (by simp)).behind (skip_suffix _ _)
  | flow hopen hnode =>
      refine hnode.keeps.2.gains ?_
      rcases describes_of_opening hopen with ⟨tail, hrest | hrest⟩
      · obtain ⟨items, closing, rfl, -⟩ := hnode.bracket_inv hrest
        simp [Block.body, Layout.printOpening]
      · obtain ⟨entries, closing, rfl, -⟩ := hnode.brace_inv hrest
        simp [Block.body, Layout.printOpening]
  | literal hopen | folded hopen =>
      obtain ⟨tail, hrest⟩ := describes_of_opening hopen
      exact ((Keeps.head hrest).gains (by simp)).behind (skip_suffix _ _)
  | quoted hopen hscalar =>
      obtain ⟨hquote, ⟨tail, hrest⟩, -⟩ := describes_of_opening hopen
      refine (quoted_keeps hquote hrest hscalar).2.2.gains ?_
      obtain ⟨text, rfl, -, -⟩ := quoted_eq_ok hscalar
      rw [printBody_quoted hquote]
      simp
  | sequence hopen hline hitems => exact hitems.gains
  | mapping hopen hline hentries => exact hentries.gains
  | plain hopen =>
      have hpos := plainBlockLength_pos floor hne hstart
      have hle := plainBlockLength_le floor r.rest
      refine .of_length (skip_suffix _ _) ?_
      show (r.skip (plainBlockLength floor r.rest)).rest.length < r.rest.length
      rw [skip_length]
      omega

end Reader

/-! ## Orderly readings -/

/-- What an event promises. -/
def Event.Sound : Event → Prop
  | .stands _ => True
  | .key place => atKey place.rest = true
  | .nested outer inner => outer.Gains inner
  | .again _ earlier later => earlier.Gains later
  | .content start after => start.Gains after

namespace Traced

/-- From the place `r` on, the events are sound and in the order of the source, and the place after
a successful reading is behind all of them.  `exit` takes that place out of the result.  A reading
that fails does not do so for want of the colon of a key. -/
structure Orderly {α : Type} (r : Reader) (exit : α → Reader) (x : Traced α) : Prop where
  sound : ∀ e ∈ x.events, e.Sound
  within : ∀ e ∈ x.events, e.place.rest <:+ r.rest
  ordered : x.events.Pairwise fun e later => later.place.rest <:+ e.place.rest
  ends : ∀ a, x.result = .ok a →
    (exit a).rest <:+ r.rest ∧ ∀ e ∈ x.events, (exit a).rest <:+ e.place.rest
  colon : Reader.FindsColon x.result

section

variable {α β : Type} {r : Reader} {exit : α → Reader} {exit' : β → Reader}

theorem orderly_silent {result : Except Failure α}
    (h : ∀ a, result = .ok a → (exit a).rest <:+ r.rest) (hcolon : Reader.FindsColon result) :
    Orderly r exit (silent result) where
  sound := by simp [silent]
  within := by simp [silent]
  ordered := .nil
  ends a ha := ⟨h a ha, by simp [silent]⟩
  colon := hcolon

theorem orderly_fail {place : Reader} {cause : Cause} (hcause : cause ≠ .missingColon) :
    Orderly r exit (silent (place.fail cause)) := by
  refine orderly_silent ?_ (Reader.findsColon_fail hcause)
  intro a ha
  cases ha

theorem orderly_pure {a : α} (h : (exit a).rest <:+ r.rest) :
    Orderly r exit (pure a : Traced α) := by
  refine @orderly_silent α r exit (.ok a) ?_ (Reader.findsColon_ok a)
  intro b hb
  cases hb
  exact h

theorem Orderly.behind {later : Reader} {x : Traced α} (h : Orderly later exit x)
    (hlater : later.rest <:+ r.rest) : Orderly r exit x where
  sound := h.sound
  within e he := (h.within e he).trans hlater
  ordered := h.ordered
  ends a ha := ⟨(h.ends a ha).1.trans hlater, (h.ends a ha).2⟩
  colon := h.colon

theorem Orderly.preceded {x : Traced α} {event : Event} (hevent : event.Sound)
    (hplace : event.place.rest <:+ r.rest) (hx : Orderly event.place exit x) :
    Orderly r exit (Traced.preceded event x) where
  sound := List.forall_mem_cons.mpr ⟨hevent, hx.sound⟩
  within := List.forall_mem_cons.mpr ⟨hplace, (hx.behind hplace).within⟩
  ordered := List.pairwise_cons.mpr ⟨hx.within, hx.ordered⟩
  ends a ha := by
    have hends := hx.ends a ha
    exact ⟨hends.1.trans hplace, List.forall_mem_cons.mpr ⟨hends.1, hends.2⟩⟩
  colon := hx.colon

theorem Orderly.standing {x : Traced α} (hx : Orderly r exit x) :
    Orderly r exit (Traced.preceded (.stands r) x) :=
  Orderly.preceded trivial List.suffix_rfl hx

theorem orderly_key {x : Traced α} (hkey : atKey r.rest = true) (hx : Orderly r exit x) :
    Orderly r exit (preceded (.key r) x) :=
  Orderly.preceded hkey List.suffix_rfl hx

/-- A nested node is read behind the node around it. -/
theorem Orderly.nested {outer inner : Reader} {x : Traced α} (hx : Orderly inner exit x)
    (hgains : outer.Gains inner) (hinner : inner.rest <:+ r.rest) :
    Orderly r exit (Traced.preceded (.nested outer inner) x) :=
  Orderly.preceded hgains hinner hx

/-- The next part of a loop is read behind the one before it. -/
theorem Orderly.again {loop : Loop} {earlier later : Reader} {x : Traced α}
    (hx : Orderly later exit x) (hgains : earlier.Gains later) (hlater : later.rest <:+ r.rest) :
    Orderly r exit (Traced.preceded (.again loop earlier later) x) :=
  Orderly.preceded hgains hlater hx

theorem Orderly.followed {x : Traced α} {event : α → Event} (hx : Orderly r exit x)
    (hsound : ∀ a, x.result = .ok a → (event a).Sound)
    (hplace : ∀ a, (event a).place = exit a) : Orderly r exit (Traced.followed event x) := by
  obtain ⟨events, result⟩ := x
  cases result with
  | error failure =>
      have hnone : Traced.followed event ⟨events, .error failure⟩ = ⟨events, .error failure⟩ := by
        simp [Traced.followed, Except.toOption]
      rw [hnone]
      exact hx
  | ok a =>
      have hends := hx.ends a rfl
      have hevents : (Traced.followed event ⟨events, .ok a⟩).events = events ++ [event a] := by
        simp [Traced.followed, Except.toOption]
      constructor
      · intro e he
        rw [hevents, List.mem_append, List.mem_singleton] at he
        rcases he with he | rfl
        · exact hx.sound e he
        · exact hsound a rfl
      · intro e he
        rw [hevents, List.mem_append, List.mem_singleton] at he
        rcases he with he | rfl
        · exact hx.within e he
        · rw [hplace]
          exact hends.1
      · rw [hevents, List.pairwise_append]
        refine ⟨hx.ordered, List.pairwise_singleton _ _, ?_⟩
        intro e he later hlater
        rw [List.mem_singleton.mp hlater, hplace]
        exact hends.2 e he
      · intro b hb
        obtain rfl : a = b := Except.ok.inj hb
        refine ⟨hends.1, ?_⟩
        intro e he
        rw [hevents, List.mem_append, List.mem_singleton] at he
        rcases he with he | rfl
        · exact hends.2 e he
        · exact ⟨[], by simp [hplace]⟩
      · exact hx.colon

theorem orderly_moving {result : Except Failure α} (hcolon : Reader.FindsColon result)
    (h : ∀ a, result = .ok a → (exit a).rest <:+ r.rest) : Orderly r exit (moving exit result) :=
  (orderly_silent h hcolon).followed (fun _ _ => trivial) fun _ => rfl

theorem orderly_found {a : α} (h : (exit a).rest <:+ r.rest) :
    Orderly r exit (moving exit (.ok a)) := by
  refine orderly_moving (Reader.findsColon_ok a) ?_
  intro b hb
  obtain rfl := Except.ok.inj hb
  exact h

/-- One orderly reading after another. -/
theorem Orderly.bind {x : Traced α} {f : α → Traced β} (hx : Orderly r exit x)
    (hf : ∀ a, x.result = .ok a → Orderly (exit a) exit' (f a)) : Orderly r exit' (x >>= f) := by
  obtain ⟨events, result⟩ := x
  cases result with
  | error failure =>
      refine ⟨hx.sound, hx.within, hx.ordered, ?_, ?_⟩
      · intro b hb
        cases hb
      · intro other hother
        obtain rfl := Except.error.inj hother
        exact hx.colon _ rfl
  | ok a =>
      have hends := hx.ends a rfl
      have hafter := hf a rfl
      have hevents : ((⟨events, .ok a⟩ : Traced α) >>= f).events = events ++ (f a).events := rfl
      constructor
      · intro e he
        rw [hevents, List.mem_append] at he
        exact he.elim (hx.sound e) (hafter.sound e)
      · intro e he
        rw [hevents, List.mem_append] at he
        exact he.elim (hx.within e) fun he => (hafter.within e he).trans hends.1
      · rw [hevents, List.pairwise_append]
        refine ⟨hx.ordered, hafter.ordered, ?_⟩
        intro e he later hlater
        exact (hafter.within later hlater).trans (hends.2 e he)
      · intro b hb
        have hlast := hafter.ends b hb
        refine ⟨hlast.1.trans hends.1, ?_⟩
        intro e he
        rw [hevents, List.mem_append] at he
        exact he.elim (fun he => hlast.1.trans (hends.2 e he)) (hlast.2 e)
      · exact hafter.colon

end

/-! ## Nodes in flow context -/

theorem orderly_attach {lead : Text} {anchor : Anchor} {start : Reader} {node : Block × Reader} :
    Orderly node.2 Prod.snd (silent (start.attach lead anchor node)) := by
  obtain ⟨block, last⟩ := node
  refine orderly_silent (fun found hfound => ?_) Reader.attach_findsColon
  obtain ⟨-, hlast⟩ := Reader.attach_eq_ok hfound
  rw [← hlast]
  exact List.suffix_rfl

/-- The closing bracket of a flow node. -/
theorem orderly_close {α : Type} (r : Reader) :
    Orderly r (fun found => found.2.2)
      (moving (fun found : List α × Text × Reader => found.2.2)
        (.ok ([], r.trivia, r.afterTrivia.skip 1))) := by
  exact orderly_found ((Reader.skip_suffix _ 1).trans (Reader.Keeps.trivia r).suffix)

theorem orderly_aliasNode (lead : Text) (r : Reader) :
    Orderly r Prod.snd (moving Prod.snd (.ok (r.aliasNode lead))) := by
  exact orderly_found ((Reader.skip_suffix _ _).trans (r.skip_suffix 1))

theorem orderly_plain (n : Nat) (lead : Text) (r : Reader) :
    Orderly r Prod.snd (moving Prod.snd (.ok (r.plain n lead))) := by
  exact orderly_found (r.skip_suffix n)

theorem orderly_quoted {quote : Char} {lead tail : Text} {r : Reader}
    (hquote : quote = '"' ∨ quote = '\'') (hrest : r.rest = quote :: tail) :
    Orderly r Prod.snd (do
      let (scalar, after) ← moving Prod.snd (r.quoted quote lead)
      pure (Block.scalar scalar, after)) := by
  refine (orderly_moving (Reader.quoted_findsColon _ _) ?_).bind ?_
  · rintro ⟨scalar, after⟩ hscalar
    exact (Reader.quoted_keeps hquote hrest hscalar).2.2.suffix
  · rintro ⟨scalar, after⟩ -
    exact orderly_pure List.suffix_rfl

mutual

theorem flowContent_orderly (fuel : Nat) (lead : Text) (r : Reader) :
    Orderly r Prod.snd (flowContent fuel lead r) := by
  match fuel with
  | 0 => exact orderly_fail (by decide)
  | fuel + 1 =>
    rw [flowContent]
    refine Orderly.standing ?_
    cases hform : flowOpening r.rest with
    | ended => exact orderly_fail (by decide)
    | mapping =>
        obtain ⟨tail, hrest⟩ := describes_of_flowOpening hform
        have hopen := (Reader.Keeps.head hrest).gains (by simp)
        refine ((flowEntries_orderly fuel hopen).behind (r.skip_suffix 1)).bind ?_
        rintro ⟨entries, closing, after⟩ -
        exact orderly_pure List.suffix_rfl
    | sequence =>
        obtain ⟨tail, hrest⟩ := describes_of_flowOpening hform
        have hopen := (Reader.Keeps.head hrest).gains (by simp)
        refine ((flowItems_orderly fuel hopen).behind (r.skip_suffix 1)).bind ?_
        rintro ⟨items, closing, after⟩ -
        exact orderly_pure List.suffix_rfl
    | quoted quote =>
        obtain ⟨hquote, tail, hrest⟩ := describes_of_flowOpening hform
        exact orderly_quoted hquote hrest
    | aliasNode => exact orderly_aliasNode lead r
    | tag => exact orderly_fail (by decide)
    | anchor =>
        obtain ⟨tail, hrest⟩ := describes_of_flowOpening hform
        refine (orderly_moving (Reader.anchorName_findsColon r) ?_).bind ?_
        · rintro ⟨name, after⟩ hname
          exact (Reader.anchorName_keeps hrest hname).suffix
        · rintro ⟨name, after⟩ hname
          have hgains := (Reader.anchorName_keeps hrest hname).gains (by simp)
          have htrivia := (Reader.Keeps.trivia after).suffix
          dsimp only
          split
          · exact orderly_pure List.suffix_rfl
          · refine ((flowContent_orderly fuel [] _).nested (hgains.behind htrivia) htrivia).bind ?_
            intro node hnode
            exact orderly_attach
    | missing => exact orderly_plain 0 lead r
    | plain => exact orderly_plain _ lead r

theorem flowEntries_orderly (fuel : Nat) {start r : Reader} (hstart : start.Gains r) :
    Orderly r (fun found => found.2.2) (flowEntries fuel start r) := by
  match fuel with
  | 0 => exact orderly_fail (by decide)
  | fuel + 1 =>
    rw [flowEntries]
    refine Orderly.standing ?_
    have htrivia := (Reader.Keeps.trivia r).suffix
    split
    · exact orderly_fail (by decide)
    split
    · exact orderly_close r
    refine (orderly_moving (Reader.flowKey_findsColon _) ?_).bind ?_
    · rintro ⟨key, afterKey⟩ hkey
      exact (Reader.flowKey_keeps hkey).suffix.trans htrivia
    rintro ⟨key, afterKey⟩ hkey
    have hkeeps := Reader.flowKey_keeps hkey
    have hblanks := (Reader.Keeps.blanks afterKey).suffix
    refine (orderly_moving (Reader.flowColon_findsColon _) ?_).bind ?_
    · intro afterColon hcolon
      obtain ⟨-, rfl⟩ := Reader.flowColon_eq_ok hcolon
      exact (Reader.skip_suffix _ 1).trans hblanks
    intro afterColon hcolon
    obtain ⟨⟨colonTail, hcolonTail⟩, rfl⟩ := Reader.flowColon_eq_ok hcolon
    have hcolonAt := ((Reader.skip_suffix _ 1).trans hblanks).trans hkeeps.suffix
    have hgains : r.Gains (afterKey.afterBlanks.skip 1) := by
      have hshorter := Reader.afterColon_length hkeeps hcolonTail
      have hlength := r.afterTrivia_length_le
      exact .of_length (hcolonAt.trans htrivia) (by omega)
    have hvalueAt := (Reader.Keeps.trivia (afterKey.afterBlanks.skip 1)).suffix
    have hnested := (hstart.behind (hcolonAt.trans htrivia)).behind hvalueAt
    refine ((flowContent_orderly fuel _ _).nested hnested hvalueAt).bind ?_
    rintro ⟨value, afterValue⟩ hvalue
    rw [result_preceded, flowContent_result] at hvalue
    have hread := (Reader.flowContent_rules fuel hvalue).keeps.2.suffix
    refine (orderly_moving (Reader.separator_findsColon _) ?_).bind ?_
    · rintro ⟨comma, next⟩ hcomma
      exact (Reader.separator_keeps hcomma).suffix
    rintro ⟨comma, next⟩ hcomma
    have hnext := ((Reader.separator_keeps hcomma).suffix.trans hread).trans hvalueAt
    have hafter := hnext.trans (hcolonAt.trans htrivia)
    have hrest := flowEntries_orderly fuel (hstart.behind hafter)
    refine (hrest.again (hgains.behind hnext) List.suffix_rfl).bind ?_
    rintro ⟨entries, closing, after⟩ -
    exact orderly_pure List.suffix_rfl

theorem flowItems_orderly (fuel : Nat) {start r : Reader} (hstart : start.Gains r) :
    Orderly r (fun found => found.2.2) (flowItems fuel start r) := by
  match fuel with
  | 0 => exact orderly_fail (by decide)
  | fuel + 1 =>
    rw [flowItems]
    refine Orderly.standing ?_
    have htrivia := (Reader.Keeps.trivia r).suffix
    split
    · exact orderly_fail (by decide)
    next hmore =>
    split
    · exact orderly_close r
    next hopen =>
    refine ((flowContent_orderly fuel _ _).nested (hstart.behind htrivia) htrivia).bind ?_
    rintro ⟨value, afterValue⟩ hvalue
    rw [result_preceded, flowContent_result] at hvalue
    have hread := (Reader.flowContent_rules fuel hvalue).keeps.2
    dsimp only
    split
    · exact orderly_fail (by decide)
    refine (orderly_moving (Reader.separator_findsColon _) ?_).bind ?_
    · rintro ⟨comma, next⟩ hcomma
      exact (Reader.separator_keeps hcomma).suffix
    rintro ⟨comma, next⟩ hcomma
    have hnext := ((Reader.separator_keeps hcomma).suffix.trans hread.suffix).trans htrivia
    have hgains : r.Gains next := by
      obtain ⟨c, tail, hrest⟩ := List.exists_cons_of_ne_nil (by simpa using hmore)
      have hc : c ≠ ']' := by simpa [hrest] using hopen
      exact .of_length hnext (Reader.separator_length hrest hc hread hcomma)
    have hrest := flowItems_orderly fuel (hstart.behind hnext)
    refine (hrest.again hgains List.suffix_rfl).bind ?_
    rintro ⟨items, closing, after⟩ -
    exact orderly_pure List.suffix_rfl

end

/-! ## Nodes in block context -/

theorem orderly_literal (style : Style) (floor : Nat) (lead : Text) (r : Reader) :
    Orderly r Prod.snd (moving Prod.snd (.ok (r.literal style floor lead))) := by
  exact orderly_found ((Reader.skip_suffix _ _).trans (r.skip_suffix 1))

mutual

theorem block_orderly (fuel floor : Nat) (place : Place) (r : Reader) :
    Orderly r Prod.snd (block fuel floor place r) := by
  match fuel with
  | 0 => exact orderly_fail (by decide)
  | fuel + 1 =>
    rw [block]
    refine Orderly.standing ?_
    split
    · exact orderly_pure List.suffix_rfl
    next hstop =>
      have hne := Reader.rest_ne_nil_of_stops (by simpa using hstop)
      have hcontent := blockContent_orderly fuel floor place (!r.trivia.contains '\n') r.trivia hne
        (triviaLength_drop r.rest)
      exact hcontent.behind (Reader.Keeps.trivia r).suffix

theorem blockContent_orderly (fuel floor : Nat) (place : Place) (sameLine : Bool) (lead : Text)
    {r : Reader} (hne : r.rest ≠ []) (hstart : triviaLength r.rest = 0) :
    Orderly r Prod.snd (blockContent fuel floor place sameLine lead r) := by
  match fuel with
  | 0 => exact orderly_fail (by decide)
  | fuel + 1 =>
    have hresult := blockContent_result (fuel + 1) floor place sameLine lead r
    rw [blockContent] at hresult ⊢
    refine Orderly.standing (Orderly.followed ?_ ?_ fun node => rfl)
    · clear hresult
      cases hform : opening r.rest with
      | anchor => exact anchored_orderly fuel floor place lead hform
      | aliasNode => exact orderly_aliasNode lead r
      | tag => exact orderly_fail (by decide)
      | complexKey => exact orderly_fail (by decide)
      | flow => exact flowContent_orderly fuel lead r
      | literal => exact orderly_literal _ floor lead r
      | folded => exact orderly_literal _ floor lead r
      | quoted quote =>
          obtain ⟨hquote, ⟨tail, hrest⟩, -⟩ := describes_of_opening hform
          exact orderly_quoted hquote hrest
      | item =>
          dsimp only
          split
          · exact orderly_fail (by decide)
          · refine (blockItems_orderly fuel [] (describes_of_opening hform)).bind ?_
            rintro ⟨items, after⟩ -
            exact orderly_pure List.suffix_rfl
      | key =>
          dsimp only
          split
          · exact orderly_fail (by decide)
          · refine (blockEntries_orderly fuel [] (describes_of_opening hform)).bind ?_
            rintro ⟨entries, after⟩ -
            exact orderly_pure List.suffix_rfl
      | plain => exact orderly_plain _ lead r
    · rintro ⟨node, after⟩ hnode
      exact (Reader.blockContent_rules _ (hresult ▸ hnode)).gains hne hstart

theorem anchored_orderly (fuel floor : Nat) (place : Place) (lead : Text) {r : Reader}
    (hform : opening r.rest = .anchor) :
    Orderly r Prod.snd (anchored fuel floor place lead r) := by
  match fuel with
  | 0 => exact orderly_fail (by decide)
  | fuel + 1 =>
    obtain ⟨⟨tail, hrest⟩, -⟩ := describes_of_opening hform
    rw [anchored]
    refine (orderly_moving (Reader.anchorName_findsColon r) ?_).bind ?_
    · rintro ⟨name, after⟩ hname
      exact (Reader.anchorName_keeps hrest hname).suffix
    rintro ⟨name, after⟩ hname
    have hgains := (Reader.anchorName_keeps hrest hname).gains (by simp)
    have htrivia := (Reader.Keeps.trivia after).suffix
    dsimp only
    split
    · exact orderly_pure List.suffix_rfl
    next hmore =>
      rw [Bool.not_eq_true, Bool.or_eq_false_iff] at hmore
      have hne := Reader.rest_ne_nil_of_stops hmore.1
      have hcontent := blockContent_orderly fuel floor place (!after.trivia.contains '\n') [] hne
        (triviaLength_drop after.rest)
      refine (hcontent.nested (hgains.behind htrivia) htrivia).bind ?_
      intro node hnode
      exact orderly_attach

theorem blockEntries_orderly (fuel : Nat) (lead : Text) {r : Reader}
    (hstart : atKey r.rest = true) : Orderly r Prod.snd (blockEntries fuel lead r) := by
  match fuel with
  | 0 => exact orderly_fail (by decide)
  | fuel + 1 =>
    rw [blockEntries]
    refine orderly_key hstart ((orderly_moving (Reader.blockKey_findsColon hstart) ?_).bind ?_)
    · rintro ⟨key, afterKey⟩ hkey
      exact (Reader.blockKey_keeps hkey).suffix
    rintro ⟨key, afterKey⟩ hkey
    dsimp only
    split
    next hcolon =>
      -- the key was seen with its colon
      rcases Reader.blockKey_of_atKey hstart with ⟨failure, hfailure, -⟩ | ⟨_, _, hread, hat⟩
      · cases hfailure.symm.trans hkey
      · cases hread.symm.trans hkey
        obtain ⟨tail, hrest, -⟩ := Reader.eq_colon_of_atColon hat
        simp [hrest] at hcolon
    next hcolon =>
      obtain ⟨colonTail, hcolonTail⟩ : ∃ tail, afterKey.afterBlanks.rest = ':' :: tail :=
        List.head?_eq_some_iff.mp (by simpa using hcolon)
      have hvalueAt := (Reader.blockEntry_keeps hkey hcolonTail).gains (by simp)
      have hbehind := (Reader.skip_suffix _ 1).trans (Reader.Keeps.blanks afterKey).suffix
      refine ((block_orderly fuel _ _ _).nested hvalueAt hbehind).bind ?_
      rintro ⟨value, after⟩ hvalue
      rw [result_preceded, block_result] at hvalue
      have hread := (Reader.block_rules fuel hvalue).keeps.trans (.trivia after)
      dsimp only
      split
      next hfollows =>
        rw [Reader.entryFollows, Bool.and_eq_true] at hfollows
        have hrest := blockEntries_orderly fuel after.trivia hfollows.2
        refine (hrest.again (hvalueAt.behind hread.suffix)
          (Reader.Keeps.trivia after).suffix).bind ?_
        rintro ⟨entries, last⟩ -
        exact orderly_pure List.suffix_rfl
      next => exact orderly_pure List.suffix_rfl

theorem blockItems_orderly (fuel : Nat) (lead : Text) {r : Reader}
    (hstart : atDash r.rest = true) : Orderly r Prod.snd (blockItems fuel lead r) := by
  match fuel with
  | 0 => exact orderly_fail (by decide)
  | fuel + 1 =>
    obtain ⟨tail, hrest⟩ := eq_dash_of_atDash hstart
    have hvalueAt := (Reader.Keeps.head hrest).gains (by simp)
    rw [blockItems]
    refine ((block_orderly fuel _ _ _).nested hvalueAt (r.skip_suffix 1)).bind ?_
    rintro ⟨value, after⟩ hvalue
    rw [result_preceded, block_result] at hvalue
    have hread := (Reader.block_rules fuel hvalue).keeps.trans (.trivia after)
    dsimp only
    split
    next hfollows =>
      rw [Reader.itemFollows, Bool.and_eq_true] at hfollows
      have hmore := blockItems_orderly fuel after.trivia hfollows.2
      refine (hmore.again (hvalueAt.behind hread.suffix) (Reader.Keeps.trivia after).suffix).bind ?_
      rintro ⟨items, last⟩ -
      exact orderly_pure List.suffix_rfl
    next => exact orderly_pure List.suffix_rfl

end

/-! ## Documents and streams -/

theorem document_orderly (fuel : Nat) (lead : Text) (r : Reader) :
    Orderly r Prod.snd (document fuel lead r) := by
  rw [document]
  refine ((block_orderly fuel 0 .root _).behind (Reader.afterDashes_keeps r).suffix).bind ?_
  rintro ⟨root, afterRoot⟩ -
  refine (orderly_moving (Reader.ending_findsColon _) ?_).bind ?_
  · rintro ⟨ending, after⟩ hending
    exact (Reader.ending_keeps hending).suffix
  · rintro ⟨ending, after⟩ -
    exact orderly_pure List.suffix_rfl

/-- A document takes at least one character of what is left after the preamble. -/
theorem document_gains {fuel : Nat} {lead : Text} {r after : Reader} {found : Document}
    (hmore : ¬ r.afterPreamble.rest.isEmpty = true)
    (h : (document fuel lead r.afterPreamble).result = .ok (found, after)) : r.Gains after := by
  rw [document_result] at h
  have hrules := Reader.document_rules h
  have hshorter := Reader.document_length hrules (Reader.preamble_start r) (by simpa using hmore)
  obtain ⟨text, -, hkeeps⟩ := hrules.keeps
  have hpreamble := Reader.preamble_keeps r
  have hlength := hpreamble.length_le
  exact .of_length (hkeeps.suffix.trans hpreamble.suffix) (by omega)

theorem moreDocuments_orderly (fuel : Nat) (r : Reader) :
    Orderly r (fun found => found.2.2) (moreDocuments fuel r) := by
  induction fuel generalizing r with
  | zero => exact orderly_fail (by decide)
  | succ fuel ih =>
      rw [moreDocuments]
      refine Orderly.standing ?_
      have hpreamble := (Reader.preamble_keeps r).suffix
      split
      · exact orderly_found (hpreamble)
      next hmore =>
        refine ((document_orderly fuel _ _).behind hpreamble).bind ?_
        rintro ⟨first, after⟩ hfirst
        refine ((ih after).again (document_gains hmore hfirst) List.suffix_rfl).bind ?_
        rintro ⟨documents, suffix, last⟩ -
        exact orderly_pure List.suffix_rfl

/-- Reading a stream is orderly, whatever the bound on nested calls. -/
theorem stream_orderly (fuel : Nat) (mark : Text) (r : Reader) :
    Orderly r Prod.snd (stream fuel mark r) := by
  rw [stream]
  refine Orderly.standing ?_
  have hpreamble := (Reader.preamble_keeps r).suffix
  split
  · exact orderly_found (hpreamble)
  next hmore =>
    refine ((document_orderly fuel _ _).behind hpreamble).bind ?_
    rintro ⟨first, after⟩ hfirst
    refine ((moreDocuments_orderly fuel after).again (document_gains hmore hfirst)
      List.suffix_rfl).bind ?_
    rintro ⟨documents, suffix, last⟩ -
    exact orderly_pure List.suffix_rfl

end Traced

/-! ## Reading a source -/

theorem Stream.traced_orderly (source : Text) :
    Traced.Orderly { rest := (splitMark source).2 } Prod.snd (Stream.traced source) :=
  Traced.stream_orderly _ _ _

theorem Stream.parse_cause_ne_missingColon {source : Text} {error : ParseError}
    (h : Stream.parse source = .error error) : error.cause ≠ .missingColon := by
  have hcolon := (Stream.traced_orderly source).colon
  rw [Stream.parse, Stream.read_eq_traced] at h
  cases hresult : (Stream.traced source).result with
  | ok found =>
      rw [hresult] at h
      cases h
  | error failure =>
      rw [hresult] at h
      obtain rfl := Except.error.inj h
      exact hcolon failure hresult

/-- Looking ahead for a key agrees with reading it.  Where a key is seen, it is read up to its colon
unless it is empty or its anchor has no name.  While a source is read, keys of block mappings are
read only where one is seen, so that no source is refused for want of such a colon. -/
theorem Stream.keys_are_seen_and_read :
    (∀ r : Reader, atKey r.rest = true →
      (∃ failure, r.blockKey = .error failure ∧
        (failure.cause = .emptyKey ∨ failure.cause = .namelessAnchor)) ∨
      ∃ key after, r.blockKey = .ok (key, after) ∧ atColon after.afterBlanks.rest = true) ∧
    ∀ source : Text,
      Stream.read source =
        ((Stream.traced source).result.map fun found => ⟨found.1, found.2.dropped⟩).mapError
          (Failure.locate (splitMark source).2) ∧
      (∀ place, .key place ∈ (Stream.traced source).events → atKey place.rest = true) ∧
      ∀ error, Stream.parse source = .error error → error.cause ≠ .missingColon := by
  refine ⟨fun r h => Reader.blockKey_of_atKey h,
    fun source => ⟨Stream.read_eq_traced source, ?_, ?_⟩⟩
  · intro place hplace
    exact (Stream.traced_orderly source).sound _ hplace
  · intro error h
    exact Stream.parse_cause_ne_missingColon h

/-- A quoted key behind an anchor, with an escape before a letter of two bytes. -/
theorem Stream.keys_are_seen_and_read_quoted :
    ∃ place : Reader, place.rest = "&n \"\\ä\" : 1".toList ∧
      .key place ∈ (Stream.traced "a:\n  &n \"\\ä\" : 1".toList).events ∧
      atKey place.rest = true ∧
      ∃ key after, place.blockKey = .ok (key, after) ∧ atColon after.afterBlanks.rest = true := by
  have hmem : .key ⟨"&n \"\\ä\" : 1".toList, 2, []⟩ ∈
      (Stream.traced "a:\n  &n \"\\ä\" : 1".toList).events := by decide +kernel
  have hkey := (Stream.keys_are_seen_and_read.2 _).2.1 _ hmem
  refine ⟨_, rfl, hmem, hkey, ?_⟩
  rcases Stream.keys_are_seen_and_read.1 _ hkey with ⟨failure, hfailure, -⟩ | hread
  · have hnone : ((⟨"&n \"\\ä\" : 1".toList, 2, []⟩ : Reader).blockKey).toOption.isSome := by
      decide +kernel
    rw [hfailure] at hnone
    cases hnone
  · exact hread

end LosslessYaml
