import LosslessYaml.File.Load
import LosslessYaml.File.Save
import LosslessYaml.Proofs.File.Effects
import LosslessYaml.Proofs.File.Siblings

/-!
# Loading and saving a file

What loading and saving do to the disk of a session, whatever is refused on the way. Loading changes
nothing. Saving changes the file only by its last step, and besides that only the temporary file and
the copy that belong to it. If it succeeds, what is at every place is known; if it fails before its
first step on the disk, nothing has changed.

Main statement: `saveFile_effect`.
-/

namespace LosslessYaml

/-- Whether a save failed before it did anything to the disk. -/
def FileError.precedesWriting : FileError → Bool
  | .invalidOutput _ => true
  | .invalidName _ => true
  | _ => false

/-- The bytes that a text is saved as. The packed bytes stand for any encoding of the text in the
compressed format: another encoder may choose other bytes, which unpack to the same text. -/
def fileBytes (path text : Text) : Bytes :=
  if compresses path then Gzip.pack text.toBytes else text.toBytes

namespace Disk

/-! ## The places that belong to a file -/

/-- Where the temporary file and the copy lie that belong to a path. -/
def siblingPlaces (disk : Disk) (path : Text) : List (List Text) :=
  ["tmp", "bak"].filterMap fun suffix =>
    (FileName.sibling? path suffix.toList).bind disk.resolve?

theorem AgreesOff.siblingPlaces {places : List (List Text)} {disk later : Disk}
    (h : AgreesOff places disk later) (path : Text) :
    later.siblingPlaces path = disk.siblingPlaces path := by
  simp only [Disk.siblingPlaces, funext h.resolve?]

theorem AgreesOff.leadsTo {places : List (List Text)} {disk later : Disk}
    (h : AgreesOff places disk later) {path : Text} {directory : List Text} {name : Text}
    (hleads : disk.LeadsTo path directory name) : later.LeadsTo path directory name := by
  refine ⟨(h.resolve? path).trans hleads.place, fun suffix hslash hne => ?_⟩
  obtain ⟨sibling, hsibling, hresolve⟩ := hleads.beside suffix hslash hne
  exact ⟨sibling, hsibling, (h.resolve? sibling).trans hresolve⟩

variable {disk : Disk} {path : Text} {directory : List Text} {name : Text}

theorem LeadsTo.temporary (h : disk.LeadsTo path directory name) :
    ∃ sibling, FileName.sibling? path "tmp".toList = some sibling ∧
      disk.resolve? sibling = some (directory ++ [name ++ ".tmp".toList]) :=
  h.beside "tmp".toList (by decide) (by decide)

theorem LeadsTo.backup (h : disk.LeadsTo path directory name) :
    ∃ sibling, FileName.sibling? path "bak".toList = some sibling ∧
      disk.resolve? sibling = some (directory ++ [name ++ ".bak".toList]) :=
  h.beside "bak".toList (by decide) (by decide)

theorem LeadsTo.siblingPlaces_eq (h : disk.LeadsTo path directory name) :
    disk.siblingPlaces path =
      [directory ++ [name ++ ".tmp".toList], directory ++ [name ++ ".bak".toList]] := by
  obtain ⟨temporary, htemporary, hresolveTemporary⟩ := h.temporary
  obtain ⟨backup, hbackup, hresolveBackup⟩ := h.backup
  rw [siblingPlaces, List.filterMap_cons, List.filterMap_cons, List.filterMap_nil, htemporary,
    hbackup, Option.bind_some, Option.bind_some, hresolveTemporary, hresolveBackup]

/-- A file is neither its temporary file nor its copy. -/
theorem LeadsTo.place_notMem (h : disk.LeadsTo path directory name) :
    directory ++ [name] ∉ disk.siblingPlaces path := by
  rw [h.siblingPlaces_eq]
  simp

theorem sibling_subset {sibling : Text} {suffix : String} (hsuffix : suffix ∈ ["tmp", "bak"])
    (h : FileName.sibling? path suffix.toList = some sibling) :
    (disk.resolve? sibling).toList ⊆ disk.siblingPlaces path := by
  intro place hplace
  refine List.mem_filterMap.mpr ⟨suffix, hsuffix, ?_⟩
  rw [h]
  exact Option.mem_toList.mp hplace

/-- The text is saved at the place of the path, and nothing else is changed but what saving works
with. -/
structure Saved (disk : Disk) (path : Text) (place : List Text) (text : Text) (later : Disk) :
    Prop where
  agrees : disk.AgreesOff (place :: disk.siblingPlaces path) later
  holds : later.node? place = some (.file (fileBytes path text))

/-- The text is saved at the name in the directory, the temporary file is gone, and the old file is
copied or not. -/
structure SavedExactly (disk : Disk) (path : Text) (directory : List Text) (name : Text)
    (copied : Bool) (text : Text) (later : Disk) : Prop
    extends Saved disk path (directory ++ [name]) text later where
  leads : disk.LeadsTo path directory name
  temporary : later.node? (directory ++ [name ++ ".tmp".toList]) = none
  backup : later.node? (directory ++ [name ++ ".bak".toList]) =
    if copied then disk.node? (directory ++ [name])
    else disk.node? (directory ++ [name ++ ".bak".toList])

/-- A copy of the old file was made beside it, or nothing was done yet. -/
inductive BackedUp (disk : Disk) (path : Text) : Bool → Disk → Prop
  | nothing : BackedUp disk path false disk
  | copy {between : Disk} {backup : Text} {bytes : Bytes}
      (hsibling : FileName.sibling? path "bak".toList = some backup)
      (hagrees : disk.AgreesOff (disk.resolve? backup).toList between)
      (hold : disk.bytes? path = some bytes) (hcopied : between.bytes? backup = some bytes) :
      BackedUp disk path true between

theorem BackedUp.agrees {copied : Bool} {between : Disk} (h : disk.BackedUp path copied between) :
    disk.AgreesOff (disk.siblingPlaces path) between := by
  cases h with
  | nothing => exact .refl _ _
  | copy hsibling hagrees => exact hagrees.mono (sibling_subset (by simp) hsibling)

/-- The place of the copy holds what the file holds, if the copy was made. -/
theorem BackedUp.node {copied : Bool} {between : Disk} (h : disk.BackedUp path copied between)
    (hleads : disk.LeadsTo path directory name) :
    between.node? (directory ++ [name ++ ".bak".toList]) =
      if copied then disk.node? (directory ++ [name])
      else disk.node? (directory ++ [name ++ ".bak".toList]) := by
  cases h with
  | nothing => rfl
  | @copy _ backup bytes hsibling hagrees hold hcopied =>
      obtain ⟨sibling, hfound, hplace⟩ := hleads.backup
      obtain rfl : backup = sibling := Option.some.inj (hsibling.symm.trans hfound)
      calc between.node? (directory ++ [name ++ ".bak".toList]) = some (.file bytes) :=
            (bytes?_eq ((hagrees.resolve? backup).trans hplace)).mp hcopied
        _ = disk.node? (directory ++ [name]) := ((bytes?_eq hleads.place).mp hold).symm

/-- A path with a copy beside it has a name for the temporary file too. -/
theorem BackedUp.eq_of_nameless {copied : Bool} {between : Disk}
    (h : disk.BackedUp path copied between)
    (hnameless : FileName.sibling? path "tmp".toList = none) : between = disk := by
  cases h with
  | nothing => rfl
  | copy hsibling =>
      have hnone := (FileName.sibling?_eq_none_iff path _).mp hnameless
      rw [(FileName.sibling?_eq_none_iff path _).mpr hnone] at hsibling
      cases hsibling

/-- Saving failed. The file is as it was, and so is everything else if nothing was written. -/
structure Unsaved (disk : Disk) (path : Text) (error : FileError) (later : Disk) : Prop where
  agrees : disk.AgreesOff (disk.siblingPlaces path) later
  early : error.precedesWriting = true → later = disk

/-- What is at a place after a text was saved. -/
def savedNode? (disk : Disk) (path : Text) (directory : List Text) (name : Text) (copied : Bool)
    (text : Text) (place : List Text) : Option Node :=
  if place = directory ++ [name] then some (.file (fileBytes path text))
  else if place = directory ++ [name ++ ".tmp".toList] then none
  else if place = directory ++ [name ++ ".bak".toList] ∧ copied = true then
    disk.node? (directory ++ [name])
  else disk.node? place

theorem SavedExactly.node?_eq {copied : Bool} {text : Text} {later : Disk}
    (h : disk.SavedExactly path directory name copied text later) (place : List Text) :
    later.node? place = disk.savedNode? path directory name copied text place := by
  unfold savedNode?
  split
  next hplace => rw [hplace, h.holds]
  next hplace =>
    split
    next htemporary => rw [htemporary, h.temporary]
    next htemporary =>
      by_cases hbackup : place = directory ++ [name ++ ".bak".toList]
      · rw [hbackup, h.backup]
        cases copied <;> simp
      · rw [if_neg (fun hboth => hbackup hboth.1)]
        apply h.agrees.node
        rw [h.leads.siblingPlaces_eq]
        simp only [List.mem_cons, List.not_mem_nil, or_false, not_or]
        exact ⟨hplace, htemporary, hbackup⟩

/-- Files at different places have different temporary files and copies. -/
theorem LeadsTo.siblingPlaces_disjoint {other : Text} {otherDirectory : List Text}
    {otherName : Text} (h : disk.LeadsTo path directory name)
    (hother : disk.LeadsTo other otherDirectory otherName)
    (hne : directory ++ [name] ≠ otherDirectory ++ [otherName]) {place : List Text}
    (hplace : place ∈ disk.siblingPlaces path) : place ∉ disk.siblingPlaces other := by
  rw [h.siblingPlaces_eq] at hplace
  rw [hother.siblingPlaces_eq]
  intro hmem
  -- Two of the four places can be equal only if the suffixes are, and then the names are equal.
  have hcancel : ∀ suffix otherSuffix : Text, suffix.length = otherSuffix.length →
      directory ++ [name ++ suffix] = otherDirectory ++ [otherName ++ otherSuffix] →
      directory ++ [name] = otherDirectory ++ [otherName] ∧ suffix = otherSuffix := by
    intro suffix otherSuffix hlength heq
    obtain ⟨hdirectory, hlast⟩ := List.append_inj' heq rfl
    obtain ⟨hname, hsuffix⟩ := List.append_inj' (List.singleton_inj.mp hlast) hlength
    exact ⟨by rw [hdirectory, hname], hsuffix⟩
  simp only [List.mem_cons, List.not_mem_nil, or_false] at hplace hmem
  obtain rfl | rfl := hplace <;> obtain heq | heq := hmem
  · exact hne (hcancel _ _ rfl heq).1
  · simpa using (hcancel _ _ (by simp) heq).2
  · simpa using (hcancel _ _ (by simp) heq).2
  · exact hne (hcancel _ _ rfl heq).1

end Disk

namespace Session.Ends

open Disk

variable {s : Session} {settings : Settings} {path : Text} {directory : List Text} {name : Text}

/-! ## Loading -/

theorem ofExcept {α : Type} (result : Except FileError α) :
    Ends (liftM result) s (fun a after => result = .ok a ∧ after = s)
      fun error after => result = .error error ∧ after = s := by
  cases result with
  | ok a => exact ⟨rfl, rfl⟩
  | error error => exact ⟨rfl, rfl⟩

/-- Nothing is loaded from a file that cannot be read. -/
theorem streamOfFile_none (stream : Stream) : streamOfFile settings path none ≠ .ok stream := by
  have htext : ∃ error, textOfFile path none = .error error := by
    rw [textOfFile]
    split <;> exact ⟨_, rfl⟩
  obtain ⟨error, htext⟩ := htext
  rw [streamOfFile, htext]
  rintro ⟨⟩

theorem loadFile :
    Ends (LosslessYaml.loadFile settings path) s
      (fun stream after => after.disk = s.disk ∧
        streamOfFile settings path (s.disk.bytes? path) = .ok stream)
      fun _ after => after.disk = s.disk := by
  unfold LosslessYaml.loadFile
  dsimp only
  have hread : ∀ between : Session, between.disk = s.disk →
      Ends (do
        let bytes ← liftM (Machine.read? path : SessionM (Option Bytes))
        ExceptT.mk (Pure.pure (streamOfFile settings path bytes))) between
        (fun stream after => after.disk = s.disk ∧
          streamOfFile settings path (s.disk.bytes? path) = .ok stream)
        fun _ after => after.disk = s.disk := by
    intro between hbetween
    refine (read? path).bind ?_
    rintro bytes after ⟨hafter, hbytes⟩
    refine (ofExcept (streamOfFile settings path bytes)).mono ?_ ?_
    · rintro stream _ ⟨hstream, rfl⟩
      refine ⟨hafter.trans hbetween, ?_⟩
      obtain rfl | rfl := hbytes
      · exact absurd hstream (streamOfFile_none stream)
      · rwa [hbetween] at hstream
    · rintro _ _ ⟨-, rfl⟩
      exact hafter.trans hbetween
  split
  next =>
    have hexists : Ends (LosslessYaml.require (.unopened path) (Machine.exists? path)) s
        (fun _ after => after.disk = s.disk) fun _ after => after.disk = s.disk :=
      require (fun after heq => (look_cases false _ heq).1)
        fun after heq => (look_cases false _ heq).1
    exact hexists.bind fun _ between hbetween => hread between hbetween
  next => exact hread s rfl

/-! ## Saving -/

/-- A path beside the given one, if there is a name to start from. -/
theorem beside (suffix : String) :
    Ends (liftM (LosslessYaml.beside path suffix)) s
      (fun sibling after => FileName.sibling? path suffix.toList = some sibling ∧ after = s)
      fun error after => error = .invalidName path ∧
        FileName.sibling? path suffix.toList = none ∧ after = s := by
  unfold LosslessYaml.beside
  cases hsibling : FileName.sibling? path suffix.toList with
  | none => exact ⟨rfl, rfl, rfl⟩
  | some sibling => exact ⟨rfl, rfl⟩

/-- The written temporary file takes the place of the file. That it can tells that the path leads to
a name in a directory. -/
theorem renameOver {temporary : Text} {start : Disk} {bytes : Bytes}
    (hsibling : FileName.sibling? path "tmp".toList = some temporary)
    (hagrees : start.AgreesOff (start.resolve? temporary).toList s.disk)
    (hbytes : s.disk.bytes? temporary = some bytes) :
    Ends (LosslessYaml.require .renamingFailed (Machine.rename temporary path)) s
      (fun _ after => ∃ directory name, start.LeadsTo path directory name ∧
        start.AgreesOff [directory ++ [name], directory ++ [name ++ ".tmp".toList]] after.disk ∧
        after.disk.node? (directory ++ [name]) = some (.file bytes) ∧
        after.disk.node? (directory ++ [name ++ ".tmp".toList]) = none)
      fun error after => error = .renamingFailed ∧
        start.AgreesOff (start.resolve? temporary).toList after.disk := by
  refine rename.mono ?_ ?_
  · intro _ after hrename
    obtain ⟨old, hold, -⟩ := exists_place hbytes
    obtain ⟨new, hnew, hdirectory, hmoved⟩ := rename?_eq_some hold hrename
    rw [hagrees.resolve?] at hold hnew
    rw [ne_eq, hagrees.directory] at hdirectory
    obtain ⟨directory, name, rfl, hleads⟩ := exists_leadsTo hnew hdirectory
    -- the temporary file lies beside the file, so the two places differ
    obtain ⟨sibling, hfound, hplace⟩ := hleads.temporary
    obtain rfl : temporary = sibling := Option.some.inj (hsibling.symm.trans hfound)
    obtain rfl : directory ++ [name ++ ".tmp".toList] = old :=
      Option.some.inj (hplace.symm.trans hold)
    obtain ⟨hafter, hnode, hgone⟩ := hmoved (by simp)
    rw [hold, Option.toList_some] at hagrees
    have hfile := (bytes?_eq ((hagrees.resolve? temporary).trans hold)).mp hbytes
    exact ⟨directory, name, hleads, (hagrees.mono (by simp)).trans hafter, hnode.trans hfile, hgone⟩
  · rintro error after ⟨rfl, hafter⟩
    rw [hafter]
    exact ⟨rfl, hagrees⟩

/-- A file is replaced by way of its temporary file. -/
theorem replaceFile (path text : Text) (s : Session) :
    Ends (LosslessYaml.replaceFile path text.toBytes) s
      (fun _ after => ∃ directory name, s.disk.LeadsTo path directory name ∧
        s.disk.AgreesOff [directory ++ [name], directory ++ [name ++ ".tmp".toList]] after.disk ∧
        after.disk.node? (directory ++ [name]) = some (.file (fileBytes path text)) ∧
        after.disk.node? (directory ++ [name ++ ".tmp".toList]) = none)
      fun error after => s.disk.Unsaved path error after.disk ∧
        (error.precedesWriting = true → FileName.sibling? path "tmp".toList = none) := by
  unfold LosslessYaml.replaceFile
  refine ((beside "tmp").mono (fun _ _ h => h) ?_).bind ?_
  · rintro _ s ⟨rfl, hsibling, rfl⟩
    exact ⟨⟨.refl _ _, fun _ => rfl⟩, fun _ => hsibling⟩
  · rintro temporary s ⟨hsibling, rfl⟩
    have hsubset : (s.disk.resolve? temporary).toList ⊆ s.disk.siblingPlaces path :=
      sibling_subset (by simp) hsibling
    -- A step on the temporary file that is refused leaves everything else as it was.
    have hrefused : ∀ failure : FileError, failure.precedesWriting = false →
        ∀ between : Session, s.disk.AgreesOff (s.disk.resolve? temporary).toList between.disk →
        ∀ (error : FileError) (after : Session), (error = failure ∧
          between.disk.AgreesOff (between.disk.resolve? temporary).toList after.disk) →
        s.disk.Unsaved path error after.disk ∧
          (error.precedesWriting = true → FileName.sibling? path "tmp".toList = none) := by
      rintro failure hfailure between hbetween error after ⟨rfl, hafter⟩
      have hlate : error.precedesWriting ≠ true := by simp [hfailure]
      rw [hbetween.resolve?] at hafter
      exact ⟨⟨(hbetween.trans hafter).mono hsubset, fun h => absurd h hlate⟩,
        fun h => absurd h hlate⟩
    have hrenaming := hrefused .renamingFailed rfl s (.refl _ _)
    dsimp only
    split
    next hcompresses =>
      -- The temporary file is made empty and then gets the blocks and the trailer.
      refine ((write []).mono (fun _ _ h => h) (hrefused _ rfl s (.refl _ _))).bind ?_
      rintro - made ⟨hmade, hempty⟩
      refine ((append hempty _).mono (fun _ _ h => h) (hrefused _ rfl made hmade)).bind ?_
      rintro - filled ⟨hfilled, hbody⟩
      rw [hmade.resolve?] at hfilled
      have hsofar := hmade.trans hfilled
      refine ((append hbody _).mono (fun _ _ h => h) (hrefused _ rfl filled hsofar)).bind ?_
      rintro - ended ⟨hended, hpacked⟩
      rw [hsofar.resolve?] at hended
      rw [fileBytes, if_pos hcompresses]
      exact (renameOver hsibling (hsofar.trans hended) hpacked).mono (fun _ _ h => h) hrenaming
    next hcompresses =>
      refine ((write _).mono (fun _ _ h => h) (hrefused _ rfl s (.refl _ _))).bind ?_
      rintro - written ⟨hwritten, hbytes⟩
      rw [fileBytes, if_neg hcompresses]
      exact (renameOver hsibling hwritten hbytes).mono (fun _ _ h => h) hrenaming

/-- A copy of the file is made beside it. -/
theorem backUp (path : Text) (s : Session) :
    Ends (LosslessYaml.backUp path) s
      (fun _ after => s.disk.BackedUp path true after.disk)
      fun error after => s.disk.Unsaved path error after.disk := by
  unfold LosslessYaml.backUp
  refine ((beside "bak").mono (fun _ _ h => h) ?_).bind ?_
  · rintro _ s ⟨rfl, -, rfl⟩
    exact ⟨.refl _ _, fun _ => rfl⟩
  · rintro backup s ⟨hsibling, rfl⟩
    refine copy.mono ?_ ?_
    · rintro - after ⟨hagrees, bytes, hold, hcopied⟩
      exact .copy hsibling hagrees hold hcopied
    · rintro _ after ⟨rfl, hagrees⟩
      exact ⟨hagrees.mono (sibling_subset (by simp) hsibling), nofun⟩

/-- A file is replaced, after its copy was made or not. -/
theorem replaceBackedUp {s between : Session} {copied : Bool}
    (hbacked : s.disk.BackedUp path copied between.disk) (text : Text) :
    Ends (LosslessYaml.replaceFile path text.toBytes) between
      (fun _ after => ∃ directory name,
        s.disk.SavedExactly path directory name copied text after.disk)
      fun error after => s.disk.Unsaved path error after.disk := by
  have hsiblings := hbacked.agrees.siblingPlaces path
  refine (replaceFile path text between).mono ?_ ?_
  · rintro - after ⟨directory, name, hbetween, hafter, hholds, hgone⟩
    have hleads := hbacked.agrees.symm.leadsTo hbetween
    have hplaces := hleads.siblingPlaces_eq
    refine ⟨directory, name, ⟨?_, hholds⟩, hleads, hgone, ?_⟩
    · exact (hbacked.agrees.mono (List.subset_cons_self _ _)).trans
        (hafter.mono (by simp [hplaces]))
    · -- the copy is not among the two places that replacing the file works with
      rw [← hbacked.node hleads]
      exact hafter.node _ (by simp)
  · rintro error after ⟨hunsaved, hnameless⟩
    have hagrees := hunsaved.agrees
    rw [hsiblings] at hagrees
    refine ⟨hbacked.agrees.trans hagrees, fun hearly => ?_⟩
    exact (hunsaved.early hearly).trans (hbacked.eq_of_nameless (hnameless hearly))

/-- A save checks the text, looks for an old file, copies it and replaces it. -/
theorem saveFile_steps {stream : Stream} {done : Unit → Session → Prop}
    {failed : FileError → Session → Prop}
    (hcheck : ∀ error, settings.validateOutput = true →
      checkOutput stream.print = .error error → failed error s)
    (hrun : ∀ between : Session, between.disk = s.disk → (s.faults = [] → between.faults = []) →
      Ends (if settings.createBackup && s.sees path then
          LosslessYaml.backUp path >>= fun _ => LosslessYaml.replaceFile path stream.print.toBytes
        else LosslessYaml.replaceFile path stream.print.toBytes) between done failed) :
    Ends (LosslessYaml.saveFile settings path stream) s done failed := by
  have hlooked : Ends (do
        if settings.createBackup then
          if ← Machine.exists? (m := SessionM) path then LosslessYaml.backUp path
        LosslessYaml.replaceFile path stream.print.toBytes) s done failed := by
    dsimp only
    split
    next hbackup =>
      refine (exists? path).bind ?_
      rintro found between ⟨rfl, rfl⟩
      rw [hbackup, Bool.true_and] at hrun
      have hnext := hrun { s with faults := s.faults.tail } rfl (by simp +contextual)
      split
      next hsees => rwa [if_pos hsees] at hnext
      next hsees => rwa [if_neg hsees] at hnext
    next hbackup =>
      rw [Bool.eq_false_iff.mpr hbackup, Bool.false_and] at hrun
      exact hrun s rfl id
  unfold LosslessYaml.saveFile
  dsimp only
  split
  next hvalidate =>
    refine ((ofExcept (checkOutput stream.print)).mono (fun _ _ h => h) ?_).bind ?_
    · rintro error s ⟨herror, rfl⟩
      exact hcheck error hvalidate herror
    · rintro _ s ⟨-, rfl⟩
      exact hlooked
  next => exact hlooked

/-- Saving puts the text in the place of the file, or leaves the file alone. -/
theorem saveFile (settings : Settings) (path : Text) (stream : Stream) (s : Session) :
    Ends (LosslessYaml.saveFile settings path stream) s
      (fun _ after => ∃ directory name, s.disk.SavedExactly path directory name
        (settings.createBackup && s.sees path) stream.print after.disk)
      fun error after => s.disk.Unsaved path error after.disk := by
  refine saveFile_steps (fun _ _ _ => ⟨.refl _ _, fun _ => rfl⟩) fun between hbetween _ => ?_
  cases settings.createBackup && s.sees path with
  | true =>
      have hbackUp := backUp path between
      rw [hbetween] at hbackUp
      exact hbackUp.bind fun _ copied hcopied => replaceBackedUp hcopied stream.print
  | false => exact replaceBackedUp (hbetween ▸ .nothing) stream.print

/-! ### Saving that nothing refuses -/

/-- The temporary file of a save is there, and nothing will be refused. -/
structure Staged (disk : Disk) (temporary : Text) (after : Session) : Prop where
  faults : after.faults = []
  agrees : disk.AgreesOff (disk.resolve? temporary).toList after.disk
  held : ∃ bytes, after.disk.bytes? temporary = some bytes

theorem write_staged {temporary : Text} {failure : FileError} (hfaults : s.faults = [])
    (h : s.disk.Writable temporary) (bytes : Bytes) :
    Ends (LosslessYaml.require failure (Machine.write temporary bytes)) s
      (fun _ after => Staged s.disk temporary after) fun _ _ => False := by
  obtain ⟨later, hlater⟩ := h.write? bytes
  obtain ⟨hagrees, hbytes⟩ := wrote_of_write? hlater
  exact changed hfaults hlater ⟨hfaults, hagrees, bytes, hbytes⟩

theorem append_staged {temporary : Text} {failure : FileError} {between : Session}
    (h : Staged s.disk temporary between) (bytes : Bytes) :
    Ends (LosslessYaml.require failure (Machine.append temporary bytes)) between
      (fun _ after => Staged s.disk temporary after) fun _ _ => False := by
  obtain ⟨old, hold⟩ := h.held
  obtain ⟨later, hlater⟩ := (writable_of_bytes? hold).write? (old ++ bytes)
  obtain ⟨hagrees, hbytes⟩ := wrote_of_write? hlater
  rw [h.agrees.resolve?] at hagrees
  have hdone : between.disk.append? temporary bytes = some later := by
    rw [append?, hold]
    exact hlater
  exact changed h.faults hdone ⟨h.faults, h.agrees.trans hagrees, _, hbytes⟩

theorem rename_staged {temporary : Text} {between : Session} (hpath : s.disk.Writable path)
    (h : Staged s.disk temporary between) :
    Ends (LosslessYaml.require .renamingFailed (Machine.rename temporary path)) between
      (fun _ _ => True) fun _ _ => False := by
  obtain ⟨bytes, hbytes⟩ := h.held
  obtain ⟨later, hlater⟩ := (h.agrees.writable hpath).rename? hbytes
  exact changed h.faults hlater trivial

/-- A file can be replaced if neither it nor its temporary file is a directory. -/
theorem replaceFile_done {temporary : Text} (hfaults : s.faults = [])
    (hsibling : FileName.sibling? path "tmp".toList = some temporary)
    (hpath : s.disk.Writable path) (htemporary : s.disk.Writable temporary) (bytes : Bytes) :
    Ends (LosslessYaml.replaceFile path bytes) s (fun _ _ => True) fun _ _ => False := by
  unfold LosslessYaml.replaceFile
  refine ((beside "tmp").mono (fun _ _ h => h) ?_).bind ?_
  · rintro _ _ ⟨-, hnone, -⟩
    cases hsibling.symm.trans hnone
  · rintro found s ⟨hfound, rfl⟩
    obtain rfl : temporary = found := Option.some.inj (hsibling.symm.trans hfound)
    dsimp only
    split
    · refine (write_staged hfaults htemporary []).bind fun _ made hmade => ?_
      refine (append_staged hmade _).bind fun _ filled hfilled => ?_
      refine (append_staged hfilled _).bind fun _ ended hended => ?_
      exact rename_staged hpath hended
    · refine (write_staged hfaults htemporary bytes).bind fun _ written hwritten => ?_
      exact rename_staged hpath hwritten

/-- A file can be copied to a path beside it where no directory is. -/
theorem backUp_done {backup : Text} (hfaults : s.faults = [])
    (hsibling : FileName.sibling? path "bak".toList = some backup)
    (hbackup : s.disk.Writable backup) {bytes : Bytes} (hbytes : s.disk.bytes? path = some bytes) :
    Ends (LosslessYaml.backUp path) s
      (fun _ after => after.faults = [] ∧
        s.disk.AgreesOff (s.disk.resolve? backup).toList after.disk)
      fun _ _ => False := by
  unfold LosslessYaml.backUp
  refine ((beside "bak").mono (fun _ _ h => h) ?_).bind ?_
  · rintro _ _ ⟨-, hnone, -⟩
    cases hsibling.symm.trans hnone
  · rintro found s ⟨hfound, rfl⟩
    obtain rfl : backup = found := Option.some.inj (hsibling.symm.trans hfound)
    obtain ⟨later, hlater⟩ := hbackup.write? bytes
    have hcopy : s.disk.copy? path backup = some later := by
      rw [copy?, hbytes]
      exact hlater
    exact changed hfaults hcopy ⟨hfaults, (wrote_of_write? hlater).1⟩

/-- A save succeeds if the machine refuses nothing, the text passes the check and no directory is in
the way. -/
theorem saveFile_done {stream : Stream} (hfaults : s.faults = [])
    (hvalid : settings.validateOutput = true → checkOutput stream.print = .ok ())
    (hleads : s.disk.LeadsTo path directory name)
    (hclear : ∀ suffix ∈ ["", ".tmp", ".bak"],
      s.disk.node? (directory ++ [name ++ suffix.toList]) ≠ some .directory) :
    Ends (LosslessYaml.saveFile settings path stream) s (fun _ _ => True) fun _ _ => False := by
  obtain ⟨temporary, htemporary, htemporaryPlace⟩ := hleads.temporary
  obtain ⟨backup, hbackup, hbackupPlace⟩ := hleads.backup
  have hpath : s.disk.Writable path :=
    ⟨_, hleads.place, by simpa using hclear "" (by simp)⟩
  have hreplace : ∀ (places : List (List Text)) (between : Session), between.faults = [] →
      s.disk.AgreesOff places between.disk →
      Ends (LosslessYaml.replaceFile path stream.print.toBytes) between (fun _ _ => True)
        fun _ _ => False := by
    intro places between hcalm hagrees
    exact replaceFile_done hcalm htemporary (hagrees.writable hpath)
      (hagrees.writable ⟨_, htemporaryPlace, hclear ".tmp" (by simp)⟩) _
  refine saveFile_steps ?_ fun between hbetween hcalm => ?_
  · intro error hvalidate herror
    cases (hvalid hvalidate).symm.trans herror
  · split
    next hcopy =>
      obtain ⟨bytes, hbytes⟩ : ∃ bytes, s.disk.bytes? path = some bytes := by
        apply hpath.exists_bytes
        obtain hsees | ⟨-, hsees⟩ := s.sees_eq path
        · exact hsees.symm.trans (Bool.and_eq_true_iff.mp hcopy).2
        · simp [hsees] at hcopy
      rw [← hbetween] at hbytes hbackupPlace
      have hbackUp := backUp_done (hcalm hfaults) hbackup
        ⟨_, hbackupPlace, hbetween ▸ hclear ".bak" (by simp)⟩ hbytes
      refine hbackUp.bind ?_
      rintro _ copied ⟨hcopied, hagrees⟩
      exact hreplace _ copied hcopied (hbetween ▸ hagrees)
    next => exact hreplace [] between (hcalm hfaults) (hbetween ▸ .refl _ _)

end Session.Ends

namespace Disk

/-- A path leads to the same file or directory after a save that failed. -/
theorem Unsaved.find? {disk later : Disk} {path : Text} {error : FileError}
    (h : disk.Unsaved path error later) : later.find? path = disk.find? path := by
  unfold Disk.find?
  rw [h.agrees.resolve?]
  cases hplace : disk.resolve? path with
  | none => rfl
  | some place =>
      show later.node? place = disk.node? place
      by_cases hdirectory : disk.node? place = some .directory
      · rw [hdirectory]
        exact (h.agrees.directory place).mpr hdirectory
      · obtain ⟨directory, name, rfl, hleads⟩ := exists_leadsTo hplace hdirectory
        exact h.agrees.node _ hleads.place_notMem

end Disk

/-- The effect of a save on the disk, whichever of its steps fail. If it succeeds, the path
leads to a name in a directory. Everything is as it was, except that the file holds the printed
text, compressed if the path ends in `.gz`, that its temporary file does not exist, and that its
copy holds what the file held, if one was asked for and the machine saw a file. The machine sees a
file if there is one, unless it refuses to look. If the save fails, the path leads to what it led
to, and all else is as it was except for the temporary file and the copy; nothing at all has changed
if the text was not valid or the path has no name. If nothing is refused, the text is valid and no
directory is in the way, the save succeeds. -/
theorem saveFile_effect (settings : Settings) (path : Text) (stream : Stream) (s : Session) :
    Session.Ends (saveFile settings path stream) s
      (fun _ after => ∃ directory name, s.disk.LeadsTo path directory name ∧
        ∀ place, after.disk.node? place = s.disk.savedNode? path directory name
          (settings.createBackup && s.sees path) stream.print place)
      (fun error after => after.disk.find? path = s.disk.find? path ∧
        s.disk.AgreesOff (s.disk.siblingPlaces path) after.disk ∧
        ((∃ number, error = .invalidOutput number) ∨ error = .invalidName path →
          after.disk = s.disk)) ∧
    (s.sees path = (s.disk.find? path).isSome ∨
      (∃ fault, s.faults.head? = some (some fault)) ∧ s.sees path = false) ∧
    ∀ directory name, s.faults = [] →
      (settings.validateOutput = true → checkOutput stream.print = .ok ()) →
      s.disk.LeadsTo path directory name →
      (∀ suffix ∈ ["", ".tmp", ".bak"],
        s.disk.node? (directory ++ [name ++ suffix.toList]) ≠ some .directory) →
      Session.Ends (saveFile settings path stream) s (fun _ _ => True) fun _ _ => False := by
  refine ⟨(Session.Ends.saveFile settings path stream s).mono ?_ ?_, s.sees_eq path, ?_⟩
  · rintro - after ⟨directory, name, hsaved⟩
    exact ⟨directory, name, hsaved.leads, hsaved.node?_eq⟩
  · intro error after hunsaved
    refine ⟨hunsaved.find?, hunsaved.agrees, ?_⟩
    rintro (⟨number, rfl⟩ | rfl)
    · exact hunsaved.early rfl
    · exact hunsaved.early rfl
  · intro directory name hfaults hvalid hleads hclear
    exact .saveFile_done hfaults hvalid hleads hclear

/-- A session with one file. -/
def holding : Session where
  disk := ⟨[(["a.gz".toList], .file [1, 2])]⟩

/-- A compressed file is saved over an old one, of which a copy is kept. -/
theorem saveFile_effect_copy :
    ∃ after, Session.exec
        (saveFile { createBackup := true } "a.gz".toList ⟨[], [], "# new".toList⟩) holding =
          (.ok (), after) ∧
      after.disk.node? ["a.gz".toList] =
        some (.file (Gzip.pack (Text.toBytes "# new".toList))) ∧
      after.disk.node? ["a.gz.bak".toList] = some (.file [1, 2]) ∧
      after.disk.node? ["a.gz.tmp".toList] = none := by
  obtain ⟨heffect, -, hdone⟩ := saveFile_effect { createBackup := true } "a.gz".toList
    ⟨[], [], "# new".toList⟩ holding
  have hresolve : holding.disk.resolve? "a.gz".toList = some ([] ++ ["a.gz".toList]) := by
    decide +kernel
  obtain ⟨directory, name, hplace, hleads⟩ := Disk.exists_leadsTo hresolve (by decide +kernel)
  obtain ⟨rfl, hname⟩ := List.append_inj' hplace rfl
  obtain rfl := List.singleton_inj.mp hname
  have hvalid : checkOutput (Stream.print ⟨[], [], "# new".toList⟩) = .ok () := by
    have hfirst : Strict.firstInvalid (Stream.print ⟨[], [], "# new".toList⟩) = none := by
      decide +kernel
    rw [checkOutput, hfirst]
  have hsuccess := hdone [] _ rfl (fun _ => hvalid) hleads (by decide +kernel)
  unfold Session.Ends at heffect hsuccess
  split at hsuccess
  next after hexec =>
    rw [hexec] at heffect
    obtain ⟨directory, name, hsame, hnodes⟩ := heffect
    have hplaces := Option.some.inj (hleads.place.symm.trans hsame.place)
    obtain ⟨rfl, hname⟩ := List.append_inj' hplaces rfl
    obtain rfl := List.singleton_inj.mp hname
    refine ⟨after, hexec, ?_, ?_, ?_⟩
    · rw [hnodes]
      decide +kernel
    · rw [hnodes]
      decide +kernel
    · rw [hnodes]
      decide +kernel
  next => exact hsuccess.elim

/-- The same session, on a machine that refuses the first look at the disk. -/
def unseen : Session := { holding with faults := [some .refused] }

/-- A file is overwritten and no copy of it is kept, though one was asked for: the machine refused
to tell that the file exists. -/
theorem saveFile_unseen :
    unseen.disk.bytes? "a.gz".toList = some [1, 2] ∧
      ∃ after, Session.exec
          (saveFile { createBackup := true } "a.gz".toList ⟨[], [], "# new".toList⟩) unseen =
            (.ok (), after) ∧
        after.disk.bytes? "a.gz".toList = some (Gzip.pack (Text.toBytes "# new".toList)) ∧
        after.disk.find? "a.gz.bak".toList = none := by
  have hfacts : ∀ outcome, Session.exec (saveFile { createBackup := true } "a.gz".toList
      ⟨[], [], "# new".toList⟩) unseen = outcome → outcome.1.toOption = some () ∧
        outcome.2.disk.bytes? "a.gz".toList = some (Gzip.pack (Text.toBytes "# new".toList)) ∧
        outcome.2.disk.find? "a.gz.bak".toList = none := by
    intro outcome houtcome
    rw [← houtcome]
    decide +kernel
  refine ⟨by decide +kernel, ?_⟩
  cases hexec : Session.exec (saveFile { createBackup := true } "a.gz".toList
      ⟨[], [], "# new".toList⟩) unseen with
  | mk result after =>
      obtain ⟨hsaved, hfile, hcopy⟩ := hfacts _ hexec
      cases result with
      | ok _ => exact ⟨after, rfl, hfile, hcopy⟩
      | error error => cases hsaved

end LosslessYaml
