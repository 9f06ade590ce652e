import LosslessYaml.Disk
import LosslessYaml.File.Failure

/-!
# What operations do to a disk

An operation changes what is at few places, and never what is a directory, so that every path leads
to the same place after it. This is said by `Disk.AgreesOff`, for the operations on disks, and from
that for the operations of a session, which can also fail.

Work that can fail is described by what holds if it ends well and what holds if it does not
(`Session.Ends`), with one rule for each way in which such work is put together.
-/

namespace LosslessYaml

namespace Disk

/-! ## What is at a place -/

theorem lookup_filter_ne {names other : List Text} (nodes : List (List Text × Node)) :
    (nodes.filter fun entry => entry.1 != names).lookup other =
      if other = names then none else nodes.lookup other := by
  induction nodes with
  | nil => simp
  | cons entry nodes ih =>
      obtain ⟨key, node⟩ := entry
      by_cases hkey : key = names
      · rw [List.filter_cons_of_neg (by simp [hkey]), ih, List.lookup_cons]
        by_cases hother : other = names
        · rw [if_pos hother, if_pos hother]
        · have hne : (other == key) = false := by simpa [hkey] using hother
          rw [if_neg hother, if_neg hother, hne]
      · rw [List.filter_cons_of_pos (by simpa using hkey), List.lookup_cons, List.lookup_cons, ih]
        by_cases hother : other = names
        · have hne : (other == key) = false := by simpa [hother] using Ne.symm hkey
          rw [if_pos hother, if_pos hother, hne]
        · rw [if_neg hother, if_neg hother]

theorem node?_erase {names : List Text} (hne : names ≠ []) (disk : Disk) (other : List Text) :
    (disk.erase names).node? other = if other = names then none else disk.node? other := by
  by_cases hother : other = []
  · subst hother
    simp [node?, Ne.symm hne]
  · simp [node?, hother, erase, lookup_filter_ne]

theorem node?_put {names : List Text} (hne : names ≠ []) (disk : Disk) (node : Node)
    (other : List Text) :
    (disk.put names node).node? other = if other = names then some node else disk.node? other := by
  by_cases hother : other = []
  · subst hother
    simp [node?, Ne.symm hne]
  · by_cases heq : other = names
    · simp [node?, put, heq, hne]
    · have hbeq : (other == names) = false := by simpa using heq
      simp [node?, put, erase, hother, heq, hbeq, List.lookup_cons, lookup_filter_ne]

/-! ## Disks that agree -/

/-- The disks have the same directories, and differ at most at the places. -/
structure AgreesOff (places : List (List Text)) (disk later : Disk) : Prop where
  directory : ∀ place, later.node? place = some .directory ↔ disk.node? place = some .directory
  node : ∀ place, place ∉ places → later.node? place = disk.node? place

namespace AgreesOff

theorem refl (places : List (List Text)) (disk : Disk) : AgreesOff places disk disk :=
  ⟨fun _ => Iff.rfl, fun _ _ => rfl⟩

theorem trans {places : List (List Text)} {disk between later : Disk}
    (h : AgreesOff places disk between) (hlater : AgreesOff places between later) :
    AgreesOff places disk later where
  directory place := (hlater.directory place).trans (h.directory place)
  node place hplace := (hlater.node place hplace).trans (h.node place hplace)

theorem symm {places : List (List Text)} {disk later : Disk} (h : AgreesOff places disk later) :
    AgreesOff places later disk where
  directory place := (h.directory place).symm
  node place hplace := (h.node place hplace).symm

theorem mono {places more : List (List Text)} {disk later : Disk}
    (h : AgreesOff places disk later) (hmore : places ⊆ more) : AgreesOff more disk later where
  directory := h.directory
  node place hplace := h.node place fun hmem => hplace (hmore hmem)

/-- Paths lead to the same places. -/
theorem walk {places : List (List Text)} {disk later : Disk} (h : AgreesOff places disk later)
    (names parts : List Text) : later.walk names parts = disk.walk names parts := by
  induction parts generalizing names with
  | nil => rfl
  | cons part parts ih =>
      have hdirectory : (later.node? names != some .directory) =
          (disk.node? names != some .directory) := by
        have := h.directory names
        by_cases hnode : disk.node? names = some .directory
        · simp [hnode, this.mpr hnode]
        · simp [bne, beq_eq_false_iff_ne.mpr hnode, beq_eq_false_iff_ne.mpr (hnode ∘ this.mp)]
      simp only [Disk.walk, hdirectory, ih]

theorem resolve? {places : List (List Text)} {disk later : Disk} (h : AgreesOff places disk later)
    (path : Text) : later.resolve? path = disk.resolve? path := by
  simp only [Disk.resolve?, h.walk]

/-- A file that is at none of the places holds what it held. -/
theorem bytes? {places : List (List Text)} {disk later : Disk} (h : AgreesOff places disk later)
    {path : Text} (hplace : ∀ place ∈ disk.resolve? path, place ∉ places) :
    later.bytes? path = disk.bytes? path := by
  have hfind : later.find? path = disk.find? path := by
    simp only [Disk.find?, h.resolve?]
    cases hresolve : disk.resolve? path with
    | none => rfl
    | some place => exact h.node place (hplace place hresolve)
  rw [Disk.bytes?, hfind, ← Disk.bytes?]

end AgreesOff

theorem bytes?_eq {disk : Disk} {path : Text} {place : List Text}
    (h : disk.resolve? path = some place) {bytes : Bytes} :
    disk.bytes? path = some bytes ↔ disk.node? place = some (.file bytes) := by
  have hfind : disk.find? path = disk.node? place := by
    rw [find?, h]
    rfl
  rw [bytes?, hfind]
  cases disk.node? place with
  | none => simp
  | some node => cases node <;> simp

/-- Putting a file where there is no directory changes that place. -/
theorem agreesOff_put {disk : Disk} {place : List Text}
    (h : disk.node? place ≠ some .directory) (bytes : Bytes) :
    AgreesOff [place] disk (disk.put place (.file bytes)) ∧
      (disk.put place (.file bytes)).node? place = some (.file bytes) := by
  have hne : place ≠ [] := by rintro rfl; exact h rfl
  refine ⟨⟨fun other => ?_, fun other hother => ?_⟩, by simp [node?_put hne]⟩
  · by_cases heq : other = place
    · subst heq
      simp [node?_put hne, h]
    · simp [node?_put hne, heq]
  · rw [node?_put hne, if_neg (by simpa using hother)]

/-- A file can be written where no directory is, and that changes its place. -/
theorem write?_eq_some {disk later : Disk} {path : Text} {bytes : Bytes}
    (h : disk.write? path bytes = some later) :
    ∃ place, disk.resolve? path = some place ∧ disk.node? place ≠ some .directory ∧
      AgreesOff [place] disk later ∧ later.node? place = some (.file bytes) := by
  obtain ⟨place, hplace, hwrite⟩ := Option.bind_eq_some_iff.mp h
  split at hwrite
  next => cases hwrite
  next hdirectory =>
    have hdirectory : disk.node? place ≠ some .directory := by simpa using hdirectory
    obtain rfl := Option.some.inj hwrite
    exact ⟨place, hplace, hdirectory, agreesOff_put hdirectory bytes⟩

/-- The file that a path leads to is written, and nothing else. -/
theorem wrote_of_write? {disk later : Disk} {path : Text} {bytes : Bytes}
    (h : disk.write? path bytes = some later) :
    AgreesOff (disk.resolve? path).toList disk later ∧ later.bytes? path = some bytes := by
  obtain ⟨place, hplace, -, hagrees, hnode⟩ := write?_eq_some h
  rw [hplace]
  exact ⟨hagrees, (bytes?_eq ((hagrees.resolve? path).trans hplace)).mpr hnode⟩

/-- Erasing a file changes its place. -/
theorem agreesOff_erase {disk : Disk} {place : List Text} {bytes : Bytes}
    (h : disk.node? place = some (.file bytes)) :
    AgreesOff [place] disk (disk.erase place) ∧ (disk.erase place).node? place = none := by
  have hne : place ≠ [] := by rintro rfl; cases h
  refine ⟨⟨fun other => ?_, fun other hother => ?_⟩, by simp [node?_erase hne]⟩
  · by_cases heq : other = place
    · subst heq
      simp [node?_erase hne, h]
    · simp [node?_erase hne, heq]
  · rw [node?_erase hne, if_neg (by simpa using hother)]

/-! ### Operations that can be done -/

/-- The path leads to a place where no directory is. -/
def Writable (disk : Disk) (path : Text) : Prop :=
  ∃ place, disk.resolve? path = some place ∧ disk.node? place ≠ some .directory

theorem AgreesOff.writable {places : List (List Text)} {disk later : Disk}
    (h : AgreesOff places disk later) {path : Text} (hpath : disk.Writable path) :
    later.Writable path := by
  obtain ⟨place, hplace, hdirectory⟩ := hpath
  exact ⟨place, (h.resolve? path).trans hplace,
    fun hnode => hdirectory ((h.directory place).mp hnode)⟩

theorem Writable.write? {disk : Disk} {path : Text} (h : disk.Writable path) (bytes : Bytes) :
    ∃ later, disk.write? path bytes = some later := by
  obtain ⟨place, hplace, hdirectory⟩ := h
  exact ⟨disk.put place (.file bytes), by simp [Disk.write?, hplace, hdirectory]⟩

/-- What is at a path that can be written is a file. -/
theorem Writable.exists_bytes {disk : Disk} {path : Text} (h : disk.Writable path)
    (hfind : (disk.find? path).isSome = true) : ∃ bytes, disk.bytes? path = some bytes := by
  obtain ⟨place, hplace, hdirectory⟩ := h
  have hnode : disk.find? path = disk.node? place := by simp [Disk.find?, hplace]
  rw [hnode] at hfind
  obtain ⟨node, hfound⟩ := Option.isSome_iff_exists.mp hfind
  cases node with
  | directory => exact absurd hfound hdirectory
  | file bytes => exact ⟨bytes, (bytes?_eq hplace).mpr hfound⟩

/-- A file leads to a place. -/
theorem exists_place {disk : Disk} {path : Text} {bytes : Bytes}
    (h : disk.bytes? path = some bytes) :
    ∃ place, disk.resolve? path = some place ∧ disk.node? place = some (.file bytes) := by
  cases hplace : disk.resolve? path with
  | none => simp [bytes?, find?, hplace] at h
  | some place => exact ⟨place, rfl, (bytes?_eq hplace).mp h⟩

theorem writable_of_bytes? {disk : Disk} {path : Text} {bytes : Bytes}
    (h : disk.bytes? path = some bytes) : disk.Writable path := by
  obtain ⟨place, hplace, hnode⟩ := exists_place h
  exact ⟨place, hplace, by simp [hnode]⟩

theorem Writable.rename? {disk : Disk} {source target : Text} {bytes : Bytes}
    (h : disk.Writable target) (hsource : disk.bytes? source = some bytes) :
    ∃ later, disk.rename? source target = some later := by
  obtain ⟨place, hplace, hnode⟩ := exists_place hsource
  obtain ⟨later, hlater⟩ := ((agreesOff_erase hnode).1.writable h).write? bytes
  exact ⟨later, by simp [Disk.rename?, hsource, hplace, hlater]⟩

/-! ### Moving -/

/-- A file that is moved is at its new place and no longer at the old one. -/
theorem rename?_eq_some {disk later : Disk} {source target : Text} {old : List Text}
    (hold : disk.resolve? source = some old) (h : disk.rename? source target = some later) :
    ∃ new, disk.resolve? target = some new ∧ disk.node? new ≠ some .directory ∧ (old ≠ new →
      AgreesOff [new, old] disk later ∧ later.node? new = disk.node? old ∧
        later.node? old = none) := by
  rw [rename?] at h
  obtain ⟨bytes, hbytes, h⟩ := Option.bind_eq_some_iff.mp h
  have hfile := (bytes?_eq hold).mp hbytes
  rw [hold] at h
  obtain ⟨herase, hgone⟩ := agreesOff_erase hfile
  obtain ⟨new, hnew, hdirectory, hwrite, hwritten⟩ := write?_eq_some h
  rw [ne_eq, herase.directory new] at hdirectory
  refine ⟨new, (herase.resolve? target).symm.trans hnew, hdirectory, fun hne => ?_⟩
  refine ⟨(herase.mono (by simp)).trans (hwrite.mono (by simp)), hwritten.trans hfile.symm, ?_⟩
  rw [hwrite.node old (by simpa using hne), hgone]

end Disk

/-! ## Work that can fail -/

/-- A failed operation leaves the disk as it was, or bytes in the file that was to be written. -/
theorem Fault.leaves_cases (fault : Fault) (target : Option Text) (disk : Disk) :
    fault.leaves target disk = disk ∨
      ∃ path ∈ target, ∃ junk, disk.write? path junk = some (fault.leaves target disk) := by
  cases fault with
  | refused => exact .inl rfl
  | brokenOff junk =>
      rw [leaves]
      cases hwrite : target.bind fun path => disk.write? path junk with
      | none => exact .inl rfl
      | some later =>
          obtain ⟨path, hpath, hlater⟩ := Option.bind_eq_some_iff.mp hwrite
          exact .inr ⟨path, hpath, junk, hlater⟩

namespace Session

/-- What work in a session comes to, and the session after it. -/
def exec {α : Type} (work : ExceptT FileError SessionM α) (s : Session) :
    Except FileError α × Session :=
  work.run.run s

theorem exec_bind {α β : Type} (work : ExceptT FileError SessionM α)
    (next : α → ExceptT FileError SessionM β) (s : Session) :
    exec (work >>= next) s =
      match exec work s with
      | (.ok a, after) => exec (next a) after
      | (.error error, after) => (.error error, after) := by
  simp only [exec, ExceptT.run_bind, StateT.run_bind]
  show _ = match (work.run.run s : Except FileError α × Session) with
    | (.ok a, after) => (next a).run.run after
    | (.error error, after) => (.error error, after)
  generalize (work.run.run s : Except FileError α × Session) = outcome
  obtain ⟨result, after⟩ := outcome
  cases result <;> rfl

/-- Work ends with a result and a session of which `done` holds, or it fails with an error and a
session of which `failed` holds. -/
def Ends {α : Type} (work : ExceptT FileError SessionM α) (s : Session)
    (done : α → Session → Prop) (failed : FileError → Session → Prop) : Prop :=
  match exec work s with
  | (.ok a, after) => done a after
  | (.error error, after) => failed error after

namespace Ends

variable {α β : Type} {s : Session} {done : α → Session → Prop}
  {failed : FileError → Session → Prop}

theorem mono {work : ExceptT FileError SessionM α} {done' : α → Session → Prop}
    {failed' : FileError → Session → Prop} (h : Ends work s done failed)
    (hdone : ∀ a after, done a after → done' a after)
    (hfailed : ∀ error after, failed error after → failed' error after) :
    Ends work s done' failed' := by
  unfold Ends at h ⊢
  split at h
  · exact hdone _ _ h
  · exact hfailed _ _ h

/-- What holds of the session however the work ends. -/
theorem holds {work : ExceptT FileError SessionM α} {kept : Session → Prop}
    (h : Ends work s (fun _ after => kept after) fun _ after => kept after) :
    kept (exec work s).2 := by
  unfold Ends at h
  split at h
  next heq => rwa [heq]
  next heq => rwa [heq]

theorem pure {a : α} (h : done a s) : Ends (pure a) s done failed := h

theorem throw {error : FileError} (h : failed error s) :
    Ends (throw error : ExceptT FileError SessionM α) s done failed := h

theorem bind {work : ExceptT FileError SessionM β} {next : β → ExceptT FileError SessionM α}
    {between : β → Session → Prop} (h : Ends work s between failed)
    (hnext : ∀ b after, between b after → Ends (next b) after done failed) :
    Ends (work >>= next) s done failed := by
  rw [Ends, exec_bind]
  unfold Ends at h
  split at h
  next b after heq => exact hnext b after h
  next error after heq => exact h

theorem lift {operation : SessionM β} {done : β → Session → Prop}
    (h : done (operation.run s).1 (operation.run s).2) :
    Ends (liftM operation : ExceptT FileError SessionM β) s done failed := h

/-- An operation was done or refused. -/
theorem require {failure : FileError} {operation : SessionM Bool} {done : Unit → Session → Prop}
    (hdone : ∀ after, operation.run s = (true, after) → done () after)
    (hfailed : ∀ after, operation.run s = (false, after) → failed failure after) :
    Ends (LosslessYaml.require failure operation) s done failed := by
  have hanswer : Ends (liftM operation : ExceptT FileError SessionM Bool) s
      (fun answer after => operation.run s = (answer, after)) failed := lift rfl
  refine hanswer.bind fun answer after heq => ?_
  cases answer with
  | true => exact pure (hdone after heq)
  | false => exact throw (hfailed after heq)

end Ends

/-! ## Operations of a session -/

/-- A change of the disk was done, or it failed and was possibly done in part. -/
theorem change_cases (target : Option Text) (operation : Disk → Option Disk) {s after : Session}
    {answer : Bool} (h : (change target operation).run s = (answer, after)) :
    (answer = true ∧ operation s.disk = some after.disk) ∨
      (answer = false ∧ (after.disk = s.disk ∨
        ∃ path ∈ target, ∃ junk, s.disk.write? path junk = some after.disk)) := by
  have hrun : Session.change target operation s = (answer, after) := h
  cases hfault : s.faults.head?.join with
  | some fault =>
      simp only [Session.change, nextFault, hfault] at hrun
      obtain ⟨rfl, rfl⟩ := Prod.mk.inj hrun
      exact .inr ⟨rfl, fault.leaves_cases target s.disk⟩
  | none =>
      simp only [Session.change, nextFault, hfault] at hrun
      cases hlater : operation s.disk with
      | some later =>
          rw [hlater] at hrun
          obtain ⟨rfl, rfl⟩ := Prod.mk.inj hrun
          exact .inl ⟨rfl, rfl⟩
      | none =>
          rw [hlater] at hrun
          obtain ⟨rfl, rfl⟩ := Prod.mk.inj hrun
          exact .inr ⟨rfl, .inl rfl⟩

/-- Looking at the disk does not change it, and tells what is there if it is not refused. -/
theorem look_cases {α : Type} (failed : α) (question : Disk → α) {s after : Session} {answer : α}
    (h : (look failed question).run s = (answer, after)) :
    after.disk = s.disk ∧ (answer = failed ∨ answer = question s.disk) := by
  have hrun : look failed question s = (answer, after) := h
  cases hfault : s.faults.head?.join with
  | some fault =>
      simp only [look, nextFault, hfault] at hrun
      obtain ⟨rfl, rfl⟩ := Prod.mk.inj hrun
      exact ⟨rfl, .inl rfl⟩
  | none =>
      simp only [look, nextFault, hfault] at hrun
      obtain ⟨rfl, rfl⟩ := Prod.mk.inj hrun
      exact ⟨rfl, .inr rfl⟩

/-- Whether the machine says that there is something at the path. -/
def sees (s : Session) (path : Text) : Bool := ((Machine.exists? path : SessionM Bool).run s).1

/-- The machine says what is true, or it refuses to look and sees nothing. -/
theorem sees_eq (s : Session) (path : Text) :
    s.sees path = (s.disk.find? path).isSome ∨
      (∃ fault, s.faults.head? = some (some fault)) ∧ s.sees path = false := by
  have hrun : s.sees path = (look false (fun disk => (disk.find? path).isSome) s).1 := rfl
  cases hfault : s.faults.head?.join with
  | none => exact .inl (by simp only [hrun, look, nextFault, hfault])
  | some fault =>
      refine .inr ⟨⟨fault, ?_⟩, by simp only [hrun, look, nextFault, hfault]⟩
      exact Option.join_eq_some_iff.mp hfault

namespace Ends

variable {s : Session} {path : Text} {failure : FileError}

theorem change {target : Option Text} {operation : Disk → Option Disk}
    {done : Unit → Session → Prop} {failed : FileError → Session → Prop}
    (hdone : ∀ after, operation s.disk = some after.disk → done () after)
    (hsame : ∀ after, after.disk = s.disk → failed failure after)
    (hjunk : ∀ path ∈ target, ∀ junk after, s.disk.write? path junk = some after.disk →
      failed failure after) :
    Ends (LosslessYaml.require failure (Session.change target operation)) s done failed := by
  refine require (fun after heq => ?_) fun after heq => ?_
  · obtain ⟨-, hlater⟩ | ⟨hanswer, -⟩ := change_cases _ _ heq
    · exact hdone after hlater
    · cases hanswer
  · obtain ⟨hanswer, -⟩ | ⟨-, hafter | ⟨path, hpath, junk, hlater⟩⟩ := change_cases _ _ heq
    · cases hanswer
    · exact hsame after hafter
    · exact hjunk path hpath junk after hlater

theorem exists? {failed : FileError → Session → Prop} (path : Text) :
    Ends (liftM (Machine.exists? path : SessionM Bool)) s
      (fun found after => found = s.sees path ∧ after = { s with faults := s.faults.tail })
      failed := by
  refine lift ⟨rfl, ?_⟩
  show (look false (fun disk => (disk.find? path).isSome) s).2 = _
  cases hfault : s.faults.head?.join <;> simp only [look, nextFault, hfault]

theorem read? {failed : FileError → Session → Prop} (path : Text) :
    Ends (liftM (Machine.read? path : SessionM (Option Bytes))) s
      (fun bytes after => after.disk = s.disk ∧ (bytes = none ∨ bytes = s.disk.bytes? path))
      failed :=
  lift (look_cases none (fun disk => disk.bytes? path) rfl)

/-- A change of one file that fails leaves anything in it. -/
theorem changeAt {operation : Disk → Option Disk} {done : Unit → Session → Prop}
    (hdone : ∀ after, operation s.disk = some after.disk → done () after) :
    Ends (LosslessYaml.require failure (Session.change (some path) operation)) s done
      fun error after =>
        error = failure ∧ s.disk.AgreesOff (s.disk.resolve? path).toList after.disk := by
  refine change hdone ?_ ?_
  · intro after hsame
    rw [hsame]
    exact ⟨rfl, .refl _ _⟩
  · rintro _ ⟨⟩ junk after hlater
    exact ⟨rfl, (Disk.wrote_of_write? hlater).1⟩

theorem write (bytes : Bytes) :
    Ends (LosslessYaml.require failure (Machine.write path bytes)) s
      (fun _ after => s.disk.AgreesOff (s.disk.resolve? path).toList after.disk ∧
        after.disk.bytes? path = some bytes)
      fun error after =>
        error = failure ∧ s.disk.AgreesOff (s.disk.resolve? path).toList after.disk :=
  changeAt fun _ hlater => Disk.wrote_of_write? hlater

theorem append {old : Bytes} (hold : s.disk.bytes? path = some old) (bytes : Bytes) :
    Ends (LosslessYaml.require failure (Machine.append path bytes)) s
      (fun _ after => s.disk.AgreesOff (s.disk.resolve? path).toList after.disk ∧
        after.disk.bytes? path = some (old ++ bytes))
      fun error after =>
        error = failure ∧ s.disk.AgreesOff (s.disk.resolve? path).toList after.disk := by
  refine changeAt fun after hlater => ?_
  rw [Disk.append?, hold] at hlater
  exact Disk.wrote_of_write? hlater

theorem copy {source target : Text} :
    Ends (LosslessYaml.require failure (Machine.copy source target)) s
      (fun _ after => s.disk.AgreesOff (s.disk.resolve? target).toList after.disk ∧
        ∃ bytes, s.disk.bytes? source = some bytes ∧ after.disk.bytes? target = some bytes)
      fun error after =>
        error = failure ∧ s.disk.AgreesOff (s.disk.resolve? target).toList after.disk := by
  refine changeAt fun after hlater => ?_
  obtain ⟨bytes, hbytes, hwrite⟩ := Option.bind_eq_some_iff.mp hlater
  obtain ⟨hagrees, hcopied⟩ := Disk.wrote_of_write? hwrite
  exact ⟨hagrees, bytes, hbytes, hcopied⟩

/-- A change that can be made is made if the machine refuses nothing. -/
theorem changed {target : Option Text} {operation : Disk → Option Disk} {later : Disk}
    {done : Unit → Session → Prop} {failed : FileError → Session → Prop}
    (hfaults : s.faults = []) (hlater : operation s.disk = some later)
    (hdone : done () { s with disk := later }) :
    Ends (LosslessYaml.require failure (Session.change target operation)) s done failed := by
  have hrun : (Session.change target operation).run s = (true, { s with disk := later }) := by
    show Session.change target operation s = _
    simp [Session.change, nextFault, hfaults, hlater]
  refine require (fun after heq => ?_) fun after heq => ?_
  · obtain ⟨-, rfl⟩ := Prod.mk.inj (hrun.symm.trans heq)
    exact hdone
  · cases (Prod.mk.inj (hrun.symm.trans heq)).1

/-- A file is moved, or nothing happens. -/
theorem rename {source target : Text} :
    Ends (LosslessYaml.require failure (Machine.rename source target)) s
      (fun _ after => s.disk.rename? source target = some after.disk)
      fun error after => error = failure ∧ after.disk = s.disk := by
  refine change (fun _ hlater => hlater) (fun after hsame => ⟨rfl, hsame⟩) ?_
  rintro _ ⟨⟩

end Ends

end Session

end LosslessYaml
