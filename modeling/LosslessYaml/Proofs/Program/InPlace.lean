import LosslessYaml.Program
import LosslessYaml.Proofs.File.Saving
import Mathlib.Data.List.Pairwise

/-!
# Runs in place

A run over files that puts the results in their place is all or nothing for each file, whatever is
refused on the way: the files before the one that it fails at hold the results, that file and those
after it hold what they held. What one file's turn does is said first. The run follows by induction
on the files, where the turn of one file leaves all others as they are, since the files lie apart
from each other.
-/

namespace LosslessYaml

namespace Disk

/-- The places that saving a path works with. -/
def workPlaces (disk : Disk) (path : Text) : List (List Text) :=
  (disk.resolve? path).toList ++ disk.siblingPlaces path

/-- The paths lead to different places, and neither of them to the temporary file or to the copy
that belongs to the other. -/
def Apart (disk : Disk) (path other : Text) : Prop :=
  (∀ place ∈ disk.resolve? path, place ∉ disk.workPlaces other) ∧
    ∀ place ∈ disk.resolve? other, place ∉ disk.workPlaces path

instance (disk : Disk) (path other : Text) : Decidable (disk.Apart path other) :=
  inferInstanceAs (Decidable (_ ∧ _))

/-- Whether recipes change the stream that a file holds. -/
def isChanged (settings : Settings) (recipes : List ChangeValue) (disk : Disk) (path : Text) :
    Bool :=
  match streamOfFile settings path (disk.bytes? path) with
  | .ok stream => anyChanges recipes stream
  | .error _ => false

instance (disk : Disk) : Std.Symm disk.Apart where
  symm _ _ h := ⟨h.2, h.1⟩

theorem AgreesOff.workPlaces {places : List (List Text)} {disk later : Disk}
    (h : AgreesOff places disk later) (path : Text) :
    later.workPlaces path = disk.workPlaces path := by
  rw [Disk.workPlaces, h.resolve?, h.siblingPlaces, Disk.workPlaces]

theorem AgreesOff.apart {places : List (List Text)} {disk later : Disk}
    (h : AgreesOff places disk later) {path other : Text} (hapart : disk.Apart path other) :
    later.Apart path other := by
  rw [Apart, h.workPlaces, h.workPlaces, h.resolve?, h.resolve?]
  exact hapart

end Disk

namespace Session.Ends

open Disk

variable {s : Session} {settings : Settings} {recipes : List ChangeValue} {output : Output}
  {path : Text}

/-! ## The turn of one file -/

theorem adapt {α : Type} {work : ExceptT FileError SessionM α} {done : α → Session → Prop}
    {failed : Session → Prop}
    (h : Ends work s done fun _ after => failed after) (tell : FileError → FileError) :
    Ends (ExceptT.adapt tell work) s done fun _ after => failed after := by
  have hexec : exec (ExceptT.adapt tell work) s =
      ((exec work s).1.mapError tell, (exec work s).2) := rfl
  rw [Ends, hexec]
  unfold Ends at h
  split at h
  next heq =>
    rw [heq]
    exact h
  next heq =>
    rw [heq]
    exact h

theorem emit (before result : Stream) :
    Ends (LosslessYaml.emit settings output path before result) s
      (fun _ after => after.disk = s.disk)
      fun _ after => output.diff = false ∧ after.disk = s.disk := by
  unfold LosslessYaml.emit
  split
  · exact lift rfl
  next hdiff =>
    have hdiff : output.diff = false := by simpa using hdiff
    dsimp only
    split
    · refine ((ofExcept (checkOutput result.print)).mono (fun _ _ h => h) ?_).bind ?_
      · rintro _ _ ⟨-, rfl⟩
        exact ⟨hdiff, rfl⟩
      · rintro _ _ ⟨-, rfl⟩
        exact lift rfl
    · exact lift rfl

/-- What is shown after a file's turn does not change the disk, and cannot fail in a run in
place. -/
theorem shown (before result : Stream) :
    Ends (if !output.inPlace || output.diff then
        LosslessYaml.emit settings output path before result else Pure.pure ()) s
      (fun _ after => after.disk = s.disk)
      fun _ after => output.inPlace = false ∧ after.disk = s.disk := by
  split
  next hshown =>
    refine (emit before result).mono (fun _ _ h => h) ?_
    rintro _ after ⟨hdiff, hafter⟩
    exact ⟨by simpa [hdiff] using hshown, hafter⟩
  next => exact pure rfl

/-- Without a write the disk stays as it is. -/
theorem processFile_shown (houtput : output.inPlace = false) :
    Ends (LosslessYaml.processFile settings recipes output path) s
      (fun _ after => after.disk = s.disk) fun _ after => after.disk = s.disk := by
  unfold LosslessYaml.processFile
  refine loadFile.bind ?_
  rintro stream loaded ⟨hloaded, -⟩
  have hskip : (output.inPlace && anyChanges recipes stream) = false := by simp [houtput]
  dsimp only
  rw [if_neg (by simp [hskip])]
  refine (shown stream _).mono ?_ ?_
  · exact fun _ after hafter => hafter.trans hloaded
  · exact fun _ after hafter => hafter.2.trans hloaded

/-- A file that is loaded leads to a name in a directory. -/
theorem leadsTo_of_streamOfFile {disk : Disk} {stream : Stream}
    (h : streamOfFile settings path (disk.bytes? path) = .ok stream) :
    ∃ directory name, disk.LeadsTo path directory name := by
  cases hbytes : disk.bytes? path with
  | none =>
      rw [hbytes] at h
      exact absurd h (streamOfFile_none stream)
  | some bytes =>
      obtain ⟨place, hplace, hnode⟩ := exists_place hbytes
      obtain ⟨directory, name, -, hleads⟩ := exists_leadsTo hplace (by simp [hnode])
      exact ⟨directory, name, hleads⟩

/-- In a run in place a file's turn saves the result if it changed, and fails before the file is
changed. -/
theorem processFile_inPlace (settings : Settings) (recipes : List ChangeValue)
    (houtput : output.inPlace = true) (path : Text) (s : Session) :
    Ends (LosslessYaml.processFile settings recipes output path) s
      (fun _ after => ∃ stream, streamOfFile settings path (s.disk.bytes? path) = .ok stream ∧
        if anyChanges recipes stream then ∃ place, s.disk.resolve? path = some place ∧
          s.disk.Saved path place (runAll recipes stream).print after.disk
        else after.disk = s.disk)
      fun _ after => after.disk = s.disk ∨ s.disk.isChanged settings recipes path = true ∧
        s.disk.AgreesOff (s.disk.siblingPlaces path) after.disk := by
  unfold LosslessYaml.processFile
  refine (loadFile.mono (fun _ _ h => h) fun _ _ h => .inl h).bind ?_
  rintro stream loaded ⟨hloaded, hstream⟩
  dsimp only
  by_cases hchanges : anyChanges recipes stream = true
  · rw [if_pos (by simp [houtput, hchanges])]
    have hsave := ((saveFile settings path (runAll recipes stream) loaded).mono (fun _ _ h => h)
      fun _ _ hunsaved => hunsaved.agrees).adapt (.during (.saving path))
    rw [hloaded] at hsave
    refine (hsave.mono (fun _ _ h => h) fun _ after hafter => ?_).bind ?_
    · exact .inr ⟨by simp [isChanged, hstream, hchanges], hafter⟩
    · rintro _ saved ⟨directory, name, hsaved⟩
      refine (shown stream _).mono (fun _ after hafter => ?_) fun _ after hafter => ?_
      · exact ⟨stream, hstream, by
          rw [if_pos hchanges, hafter]
          exact ⟨_, hsaved.leads.place, hsaved.toSaved⟩⟩
      · cases houtput.symm.trans hafter.1
  · rw [if_neg (by simp [hchanges])]
    refine (shown stream _).mono ?_ ?_
    · exact fun _ after hafter => ⟨stream, hstream, by rw [if_neg hchanges, hafter, hloaded]⟩
    · exact fun _ after hafter => .inl (hafter.2.trans hloaded)

end Session.Ends

/-! ## The run -/

open Disk

/-- What a run in place over files that lie apart from each other makes of a disk, if it gets
through those in `done` and not through those in `rest`. -/
structure RunInPlace (settings : Settings) (recipes : List ChangeValue) (disk : Disk)
    (done rest : List Text) (later : Disk) : Prop where
  /-- Nothing is changed but what belongs to files that change. -/
  agrees : disk.AgreesOff
    (((done ++ rest).filter (disk.isChanged settings recipes)).flatMap disk.workPlaces) later
  /-- The files that the run gets through hold the results, or what they held. -/
  rewritten : ∀ path ∈ done, ∃ stream,
    streamOfFile settings path (disk.bytes? path) = .ok stream ∧
      later.bytes? path =
        if anyChanges recipes stream then some (fileBytes path (runAll recipes stream).print)
        else disk.bytes? path
  /-- The others hold what they held. -/
  kept : ∀ path ∈ rest, later.bytes? path = disk.bytes? path

namespace RunInPlace

variable {settings : Settings} {recipes : List ChangeValue} {disk after later : Disk}
  {path : Text} {done rest : List Text}

theorem exists_stream (h : disk.isChanged settings recipes path = true) :
    ∃ stream, streamOfFile settings path (disk.bytes? path) = .ok stream ∧
      anyChanges recipes stream = true := by
  unfold isChanged at h
  split at h
  next stream hstream => exact ⟨stream, hstream, h⟩
  next => cases h

/-- A file's own place is not among the others that saving it works with. -/
theorem place_notMem_siblingPlaces (h : disk.isChanged settings recipes path = true) :
    ∀ place ∈ disk.resolve? path, place ∉ disk.siblingPlaces path := by
  intro place hplace
  obtain ⟨stream, hstream, -⟩ := exists_stream h
  obtain ⟨directory, name, hleads⟩ := Session.Ends.leadsTo_of_streamOfFile hstream
  obtain rfl : directory ++ [name] = place := Option.some.inj (hleads.place.symm.trans hplace)
  exact hleads.place_notMem

/-- The run fails at its first file. -/
theorem failed (hfile : after = disk ∨ disk.isChanged settings recipes path = true ∧
      disk.AgreesOff (disk.siblingPlaces path) after)
    (hapart : ∀ other ∈ rest, disk.Apart path other) :
    RunInPlace settings recipes disk [] (path :: rest) after := by
  obtain rfl | ⟨hchanged, hagrees⟩ := hfile
  · exact ⟨.refl _ _, by simp, fun _ _ => rfl⟩
  · refine ⟨hagrees.mono ?_, by simp, fun other hother => hagrees.bytes? ?_⟩
    · intro place hplace
      refine List.mem_flatMap.mpr ⟨path, by simp [hchanged], ?_⟩
      exact List.mem_append_right _ hplace
    · obtain rfl | hother := List.mem_cons.mp hother
      · exact place_notMem_siblingPlaces hchanged
      · exact fun place hplace hmem =>
          (hapart other hother).2 place hplace (List.mem_append_right _ hmem)

/-- What one file's turn leaves alone. -/
theorem agreesOff_of_turn {stream : Stream}
    (hstream : streamOfFile settings path (disk.bytes? path) = .ok stream)
    (hfile : if anyChanges recipes stream then ∃ place, disk.resolve? path = some place ∧
        disk.Saved path place (runAll recipes stream).print after
      else after = disk) :
    disk.AgreesOff (([path].filter (disk.isChanged settings recipes)).flatMap disk.workPlaces)
      after := by
  split at hfile
  next hchanges =>
    obtain ⟨place, hplace, hsaved⟩ := hfile
    have hchanged : disk.isChanged settings recipes path = true := by
      simp [isChanged, hstream, hchanges]
    refine hsaved.agrees.mono ?_
    simp [hchanged, workPlaces, hplace]
  next =>
    rw [hfile]
    exact .refl _ _

/-- What one file's turn leaves in the file. -/
theorem bytes?_of_turn {stream : Stream}
    (hfile : if anyChanges recipes stream then ∃ place, disk.resolve? path = some place ∧
        disk.Saved path place (runAll recipes stream).print after
      else after = disk) :
    after.bytes? path =
      if anyChanges recipes stream then some (fileBytes path (runAll recipes stream).print)
      else disk.bytes? path := by
  split at hfile
  next hchanges =>
    obtain ⟨place, hplace, hsaved⟩ := hfile
    rw [if_pos hchanges]
    exact (bytes?_eq ((hsaved.agrees.resolve? path).trans hplace)).mpr hsaved.holds
  next hchanges => rw [if_neg hchanges, hfile]

/-- The run gets through a file and then goes on. -/
theorem cons {stream : Stream}
    (hstream : streamOfFile settings path (disk.bytes? path) = .ok stream)
    (hfile : if anyChanges recipes stream then ∃ place, disk.resolve? path = some place ∧
        disk.Saved path place (runAll recipes stream).print after
      else after = disk)
    (hapart : ∀ other ∈ done ++ rest, disk.Apart path other)
    (h : RunInPlace settings recipes after done rest later) :
    RunInPlace settings recipes disk (path :: done) rest later := by
  have hturn := agreesOff_of_turn hstream hfile
  -- The turn leaves the other files alone, and their turns leave this file alone.
  have hothers : ∀ other ∈ done ++ rest, after.bytes? other = disk.bytes? other := by
    intro other hother
    refine hturn.bytes? fun place hplace hmem => ?_
    obtain ⟨file, hfile, hwork⟩ := List.mem_flatMap.mp hmem
    obtain rfl : file = path := by simpa using (List.mem_filter.mp hfile).1
    exact (hapart other hother).2 place hplace hwork
  have hsame : ∀ other ∈ done ++ rest,
      after.isChanged settings recipes other = disk.isChanged settings recipes other := by
    intro other hother
    rw [isChanged, hothers other hother, isChanged]
  have hagrees := h.agrees
  rw [List.filter_congr hsame, funext hturn.workPlaces] at hagrees
  have hown : later.bytes? path = after.bytes? path := by
    refine hagrees.bytes? fun place hplace hmem => ?_
    obtain ⟨file, hfile, hwork⟩ := List.mem_flatMap.mp hmem
    rw [hturn.resolve?] at hplace
    exact (hapart file (List.mem_filter.mp hfile).1).1 place hplace hwork
  refine ⟨?_, ?_, ?_⟩
  · rw [List.cons_append, ← List.singleton_append, List.filter_append, List.flatMap_append]
    exact (hturn.mono (List.subset_append_left _ _)).trans
      (hagrees.mono (List.subset_append_right _ _))
  · intro other hother
    obtain rfl | hother := List.mem_cons.mp hother
    · exact ⟨stream, hstream, hown.trans (bytes?_of_turn hfile)⟩
    · obtain ⟨found, hfound, hbytes⟩ := h.rewritten other hother
      rw [hothers other (List.mem_append_left _ hother)] at hfound hbytes
      exact ⟨found, hfound, hbytes⟩
  · intro other hother
    rw [h.kept other hother, hothers other (List.mem_append_right _ hother)]

end RunInPlace

theorem Session.exec_forM_cons (work : Text → ExceptT FileError SessionM Unit) (path : Text)
    (files : List Text) (s : Session) :
    Session.exec ((path :: files).forM work) s =
      match Session.exec (work path) s with
      | (.ok _, after) => Session.exec (files.forM work) after
      | (.error error, after) => (.error error, after) := by
  rw [List.forM_eq_forM, List.forM_cons, Session.exec_bind]
  obtain ⟨_ | _, _⟩ := Session.exec (work path) s <;> rfl

/-- A run in place gets through the files up to one that it fails at, or through all of them. -/
theorem forM_processFile {settings : Settings} {recipes : List ChangeValue} {output : Output}
    (houtput : output.inPlace = true) (files : List Text) (s : Session)
    (hapart : files.Pairwise s.disk.Apart) {result : Except FileError Unit} {after : Session}
    (hrun : Session.exec (files.forM (processFile settings recipes output)) s = (result, after)) :
    ∃ done rest, files = done ++ rest ∧
      RunInPlace settings recipes s.disk done rest after.disk ∧
      ((result = .ok () ∧ rest = []) ∨ ∃ error path later between,
        result = .error error ∧ rest = path :: later ∧
        Session.exec (done.forM (processFile settings recipes output)) s = (.ok (), between) ∧
        Session.exec (processFile settings recipes output path) between =
          (.error error, after)) := by
  induction files generalizing s with
  | nil =>
      obtain ⟨rfl, rfl⟩ := Prod.mk.inj hrun
      exact ⟨[], [], rfl, ⟨.refl _ _, by simp, by simp⟩, .inl ⟨rfl, rfl⟩⟩
  | cons path files ih =>
      obtain ⟨hfirst, hothers⟩ := List.pairwise_cons.mp hapart
      have hturn := Session.Ends.processFile_inPlace settings recipes houtput path s
      rw [Session.exec_forM_cons] at hrun
      unfold Session.Ends at hturn
      split at hturn
      next a between hexec =>
        rw [hexec] at hrun
        obtain ⟨stream, hstream, hfile⟩ := hturn
        have hagrees := RunInPlace.agreesOff_of_turn hstream hfile
        obtain ⟨done, rest, rfl, hlater, hend⟩ := ih between (hothers.imp hagrees.apart) hrun
        refine ⟨path :: done, rest, rfl, hlater.cons hstream hfile hfirst, ?_⟩
        obtain hend | ⟨error, failing, later, last, hresult, hrest, hdone, hfails⟩ := hend
        · exact .inl hend
        · refine .inr ⟨error, failing, later, last, hresult, hrest, ?_, hfails⟩
          rw [Session.exec_forM_cons, hexec]
          exact hdone
      next error failed hexec =>
        rw [hexec] at hrun
        obtain ⟨rfl, rfl⟩ := Prod.mk.inj hrun
        exact ⟨[], path :: files, rfl, .failed hturn hfirst,
          .inr ⟨error, path, files, s, rfl, rfl, rfl, hexec⟩⟩

/-- A file whose stream does not change keeps what is at its place and at the places beside it. -/
theorem RunInPlace.untouched {settings : Settings} {recipes : List ChangeValue} {disk later : Disk}
    {done rest : List Text} (h : RunInPlace settings recipes disk done rest later)
    (hapart : (done ++ rest).Pairwise disk.Apart) {path : Text} (hpath : path ∈ done ++ rest)
    {stream : Stream} (hstream : streamOfFile settings path (disk.bytes? path) = .ok stream)
    (hsame : anyChanges recipes stream = false) :
    ∀ place ∈ disk.workPlaces path, later.node? place = disk.node? place := by
  intro place hplace
  refine h.agrees.node place fun hmem => ?_
  obtain ⟨other, hother, hwork⟩ := List.mem_flatMap.mp hmem
  obtain ⟨hother, hchanged⟩ := List.mem_filter.mp hother
  have hne : path ≠ other := by
    rintro rfl
    simp [isChanged, hstream, hsame] at hchanged
  have hfar := hapart.forall hpath hother hne
  obtain ⟨_, hloaded, -⟩ := exists_stream hchanged
  obtain ⟨directory, name, hleads⟩ := Session.Ends.leadsTo_of_streamOfFile hstream
  obtain ⟨otherDirectory, otherName, hleadsOther⟩ :=
    Session.Ends.leadsTo_of_streamOfFile hloaded
  rw [workPlaces, hleads.place, Option.toList_some, List.singleton_append] at hplace
  obtain rfl | hplace := List.mem_cons.mp hplace
  · exact hfar.1 _ hleads.place hwork
  · rw [workPlaces, hleadsOther.place, Option.toList_some, List.singleton_append] at hwork
    obtain rfl | hwork := List.mem_cons.mp hwork
    · exact hfar.2 _ hleadsOther.place (List.mem_append_right _ hplace)
    · refine hleads.siblingPlaces_disjoint hleadsOther ?_ hplace hwork
      intro heq
      refine hfar.1 _ hleads.place ?_
      rw [heq, workPlaces, hleadsOther.place]
      exact List.mem_append_left _ (by simp)

theorem Session.Ends.loadInput (settings : Settings) (s : Session) :
    Session.Ends (LosslessYaml.loadInput settings) s
      (fun _ after => after.disk = s.disk) fun _ after => after.disk = s.disk := by
  unfold LosslessYaml.loadInput
  have hinput : Session.Ends (liftM (Machine.input? : SessionM (Option Bytes))) s
      (fun _ after => after.disk = s.disk) fun _ after => after.disk = s.disk := .lift rfl
  refine hinput.bind fun bytes after hafter => ?_
  refine (Session.Ends.ofExcept (streamOfInput settings bytes)).mono ?_ ?_
  · rintro _ _ ⟨-, rfl⟩
    exact hafter
  · rintro _ _ ⟨-, rfl⟩
    exact hafter

theorem Session.Ends.forM_shown (settings : Settings) (recipes : List ChangeValue)
    {output : Output} (houtput : output.inPlace = false) (files : List Text) (s : Session) :
    Session.Ends (files.forM (LosslessYaml.processFile settings recipes output)) s
      (fun _ after => after.disk = s.disk) fun _ after => after.disk = s.disk := by
  induction files generalizing s with
  | nil => exact .pure rfl
  | cons path files ih =>
      rw [List.forM_eq_forM, List.forM_cons]
      refine (processFile_shown houtput).bind fun _ between hbetween => ?_
      rw [← hbetween]
      exact ih between

/-- Nothing is written unless it was asked for, nor without files. -/
theorem processAll_shown (settings : Settings) (recipes : List ChangeValue) {output : Output}
    {files : List Text} (h : output.inPlace = false ∨ files = []) (s : Session) :
    Session.Ends (processAll settings recipes output files) s
      (fun _ after => after.disk = s.disk) fun _ after => after.disk = s.disk := by
  cases files with
  | nil =>
      unfold processAll
      dsimp only
      split
      · have hthrow : Session.Ends (throw .nothingInPlace : ExceptT FileError SessionM PUnit) s
            (fun _ _ => False) fun _ after => after.disk = s.disk := .throw rfl
        exact hthrow.bind fun _ _ hnever => hnever.elim
      · refine (Session.Ends.loadInput settings s).bind fun stream loaded hloaded => ?_
        exact (Session.Ends.emit stream _).mono (fun _ _ hafter => hafter.trans hloaded)
          fun _ _ hafter => hafter.2.trans hloaded
  | cons path files =>
      have houtput : output.inPlace = false := by simpa using h
      exact .forM_shown settings recipes houtput (path :: files) s

/-- The turn of a file whose stream does not change leaves the disk alone. -/
theorem processFile_unchanged (settings : Settings) (recipes : List ChangeValue) (output : Output)
    (path : Text) (s : Session) {stream : Stream}
    (hstream : streamOfFile settings path (s.disk.bytes? path) = .ok stream)
    (hsame : anyChanges recipes stream = false) :
    (Session.exec (processFile settings recipes output path) s).2.disk = s.disk := by
  have hturn : Session.Ends (processFile settings recipes output path) s
      (fun _ after => after.disk = s.disk) fun _ after => after.disk = s.disk := by
    cases houtput : output.inPlace with
    | false => exact .processFile_shown houtput
    | true =>
        refine (Session.Ends.processFile_inPlace settings recipes houtput path s).mono ?_ ?_
        · rintro - after ⟨found, hfound, hfile⟩
          obtain rfl : found = stream := Except.ok.inj (hfound.symm.trans hstream)
          rwa [if_neg (by simp [hsame])] at hfile
        · rintro _ after (hafter | ⟨hchanged, -⟩)
          · exact hafter
          · simp [isChanged, hstream, hsame] at hchanged
  exact hturn.holds

/-- Runs over files are all or nothing for each file. Without a request to write in place no file is
changed at all. The turn of a file whose stream does not change writes nothing. A run in place over
files that lie apart from each other gets through all of them, or fails at one of them: the files
that it gets through hold the results of the recipes, or what they held if nothing changed, and the
file that it fails at and those after it hold what they held. At the end a file whose stream does
not change has no new temporary file and no new copy. -/
theorem processAll_allOrNothing (settings : Settings) (recipes : List ChangeValue) (output : Output)
    (files : List Text) {s after : Session} {result : Except FileError Unit}
    (hrun : Session.exec (processAll settings recipes output files) s = (result, after)) :
    (output.inPlace = false ∨ files = [] → after.disk = s.disk) ∧
    (∀ path between stream, streamOfFile settings path (between.disk.bytes? path) = .ok stream →
      anyChanges recipes stream = false →
      (Session.exec (processFile settings recipes output path) between).2.disk = between.disk) ∧
    (output.inPlace = true → files ≠ [] → files.Pairwise s.disk.Apart →
      ∃ done rest, files = done ++ rest ∧
        ((result = .ok () ∧ rest = []) ∨ ∃ error path later between,
          result = .error error ∧ rest = path :: later ∧
          Session.exec (done.forM (processFile settings recipes output)) s = (.ok (), between) ∧
          Session.exec (processFile settings recipes output path) between =
            (.error error, after)) ∧
        (∀ path ∈ done, ∃ stream, streamOfFile settings path (s.disk.bytes? path) = .ok stream ∧
          after.disk.bytes? path =
            if anyChanges recipes stream then some (fileBytes path (runAll recipes stream).print)
            else s.disk.bytes? path) ∧
        (∀ path ∈ rest, after.disk.bytes? path = s.disk.bytes? path) ∧
        ∀ path ∈ files, ∀ stream, streamOfFile settings path (s.disk.bytes? path) = .ok stream →
          anyChanges recipes stream = false →
          ∀ place ∈ s.disk.workPlaces path, after.disk.node? place = s.disk.node? place) := by
  refine ⟨fun h => ?_, fun path between stream hstream hsame =>
    processFile_unchanged settings recipes output path between hstream hsame,
    fun houtput hfiles hapart => ?_⟩
  · have hshown := (processAll_shown settings recipes h s).holds
    rwa [hrun] at hshown
  · have hforM : processAll (m := SessionM) settings recipes output files =
        files.forM (processFile settings recipes output) := by
      cases files with
      | nil => exact absurd rfl hfiles
      | cons path files => rfl
    rw [hforM] at hrun
    obtain ⟨done, rest, rfl, hlater, hend⟩ := forM_processFile houtput files s hapart hrun
    exact ⟨done, rest, rfl, hend, hlater.rewritten, hlater.kept,
      fun path hpath stream hstream hsame => hlater.untouched hapart hpath hstream hsame⟩

/-- Four files, and a machine that refuses the eleventh operation. -/
def refusing : Session where
  disk := ⟨[([['a']], .file (Text.toBytes "k: 1\n".toList)),
    ([['b']], .file (Text.toBytes "x: 2\n".toList)),
    ([['c']], .file (Text.toBytes "k: 3\n".toList)),
    ([['d']], .file (Text.toBytes "k: 4\n".toList))]⟩
  faults := List.replicate 10 none ++ [some .refused]

/-- The third file's temporary file cannot take its place. The first file is rewritten, the second
one does not change and gets no copy, the last one is not reached. -/
theorem processAll_refusing :
    ∃ error after,
      Session.exec (processAll { createBackup := true }
        [⟨⟨['k'], ['9']⟩, ⟨false, [.child ['k']]⟩⟩] { inPlace := true }
        [['a'], ['b'], ['c'], ['d']]) refusing = (.error error, after) ∧
      [['a'], ['b'], ['c'], ['d']].Pairwise refusing.disk.Apart ∧
      after.disk.bytes? ['a'] = some (Text.toBytes "k: 9\n".toList) ∧
      after.disk.bytes? "c.tmp".toList = some (Text.toBytes "k: 9\n".toList) ∧
      (∀ place ∈ refusing.disk.workPlaces ['b'],
        after.disk.node? place = refusing.disk.node? place) ∧
      after.disk.bytes? ['d'] = refusing.disk.bytes? ['d'] := by
  have hapart : [['a'], ['b'], ['c'], ['d']].Pairwise refusing.disk.Apart := by decide +kernel
  have hsame : (streamOfFile { createBackup := true } ['b'] (refusing.disk.bytes? ['b'])
      ).toOption.map (anyChanges [⟨⟨['k'], ['9']⟩, ⟨false, [.child ['k']]⟩⟩]) = some false := by
    decide +kernel
  have hfacts : (match Session.exec (processAll { createBackup := true }
        [⟨⟨['k'], ['9']⟩, ⟨false, [.child ['k']]⟩⟩] { inPlace := true }
        [['a'], ['b'], ['c'], ['d']]) refusing with
      | (.ok _, _) => none
      | (.error _, after) => some (after.disk.bytes? ['a'], after.disk.bytes? "c.tmp".toList)) =
      some (some (Text.toBytes "k: 9\n".toList), some (Text.toBytes "k: 9\n".toList)) := by
    decide +kernel
  cases hrun : Session.exec (processAll { createBackup := true }
      [⟨⟨['k'], ['9']⟩, ⟨false, [.child ['k']]⟩⟩] { inPlace := true }
      [['a'], ['b'], ['c'], ['d']]) refusing with
  | mk result after =>
      rw [hrun] at hfacts
      obtain ⟨done, rest, hfiles, hend, -, hkept, huntouched⟩ :=
        (processAll_allOrNothing _ _ _ _ hrun).2.2 rfl (by decide) hapart
      obtain ⟨rfl, -⟩ | ⟨error, path, later, between, rfl, hrest, -⟩ := hend
      · cases hfacts
      · obtain ⟨hfirst, hleft⟩ := Prod.mk.inj (Option.some.inj hfacts)
        refine ⟨error, after, rfl, hapart, hfirst, hleft, ?_, hkept ['d'] ?_⟩
        · cases hstream : streamOfFile { createBackup := true } ['b']
              (refusing.disk.bytes? ['b']) with
          | error error =>
              rw [hstream] at hsame
              cases hsame
          | ok stream =>
              rw [hstream] at hsame
              exact huntouched ['b'] (by decide) stream hstream (Option.some.inj hsame)
        · apply List.mem_of_getLast?
          have hlast : (done ++ rest).getLast? = some ['d'] := by
            rw [← hfiles]
            rfl
          rwa [List.getLast?_append, hrest, List.getLast?_cons, Option.some_or,
            ← List.getLast?_cons, ← hrest] at hlast

end LosslessYaml
