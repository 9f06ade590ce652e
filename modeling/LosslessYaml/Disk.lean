import LosslessYaml.FileName
import LosslessYaml.Machine

/-!
# Disks

A disk as a value, and the machine that works on it. A path leads to a file, to a directory or to
nothing. There are no links: no two places share a file, and a path leads through the directories
that it names.

Operations can be made to fail: a fault says which one does, and whether it leaves the disk as it
was or some bytes in the file that was to be written.
-/

namespace LosslessYaml

/-- What a path of a disk leads to. -/
inductive Disk.Node where
  | file (bytes : Bytes)
  | directory
deriving Repr, DecidableEq

/-- A disk: what the paths below its root lead to. A path is the list of its names. -/
structure Disk where
  nodes : List (List Text × Disk.Node) := []
deriving Repr, DecidableEq

namespace Disk

/-! ## Paths -/

/-- What a path leads to. The root is a directory. -/
def node? (disk : Disk) (names : List Text) : Option Node :=
  if names.isEmpty then some .directory else disk.nodes.lookup names

/-- Where parts of a path lead to from a directory. -/
def walk (disk : Disk) (names : List Text) : List Text → Option (List Text)
  | [] => some names
  | part :: parts =>
    if disk.node? names != some .directory then none
    else if part.isEmpty || part == ['.'] then walk disk names parts
    else if part == ['.', '.'] then walk disk names.dropLast parts
    else walk disk (names ++ [part]) parts

/-- Where a path leads to, if all that comes before its end are directories. -/
def resolve? (disk : Disk) (path : Text) : Option (List Text) :=
  if path.isEmpty then none else disk.walk [] (Text.splitAt '/' path)

/-- What a path leads to. -/
def find? (disk : Disk) (path : Text) : Option Node := disk.resolve? path >>= disk.node?

/-- The bytes of the file that a path leads to. -/
def bytes? (disk : Disk) (path : Text) : Option Bytes :=
  match disk.find? path with
  | some (.file bytes) => some bytes
  | _ => none

/-! ## Changes -/

/-- The disk without what is at the names. -/
def erase (disk : Disk) (names : List Text) : Disk :=
  ⟨disk.nodes.filter fun entry => entry.1 != names⟩

/-- The disk with a node at the names. -/
def put (disk : Disk) (names : List Text) (node : Node) : Disk :=
  ⟨(names, node) :: (disk.erase names).nodes⟩

/-- Makes the bytes those of the file that a path leads to. A directory cannot be written. -/
def write? (disk : Disk) (path : Text) (bytes : Bytes) : Option Disk := do
  let names ← disk.resolve? path
  if disk.node? names == some .directory then none else some (disk.put names (.file bytes))

/-- Adds bytes at the end of the file that a path leads to. -/
def append? (disk : Disk) (path : Text) (bytes : Bytes) : Option Disk := do
  let old ← disk.bytes? path
  disk.write? path (old ++ bytes)

/-- Copies a file. -/
def copy? (disk : Disk) (source target : Text) : Option Disk := do
  let bytes ← disk.bytes? source
  disk.write? target bytes

/-- Moves a file to another path. -/
def rename? (disk : Disk) (source target : Text) : Option Disk := do
  let bytes ← disk.bytes? source
  let names ← disk.resolve? source
  (disk.erase names).write? target bytes

/-- Makes the directories on the way through the parts of a path. -/
def makePath (disk : Disk) (names : List Text) : List Text → Option Disk
  | [] => some disk
  | part :: parts =>
    if part == ['.'] then makePath disk names parts
    else if part == ['.', '.'] then makePath disk names.dropLast parts
    else
      match disk.node? (names ++ [part]) with
      | some .directory => makePath disk (names ++ [part]) parts
      | some (.file _) => none
      | none => makePath (disk.put (names ++ [part]) .directory) (names ++ [part]) parts

/-- Makes the directory that a path names, and those that it lies in. -/
def makeDirectories? (disk : Disk) (path : Text) : Option Disk :=
  disk.makePath [] (FileName.parts path)

end Disk

/-! ## Sessions -/

/-- How an operation on the disk fails. -/
inductive Fault where
  /-- It is refused, and the disk stays as it was. -/
  | refused
  /-- It breaks off, with these bytes in the file that was to be written. -/
  | brokenOff (bytes : Bytes)
deriving Repr, DecidableEq

/-- The disk after a failed operation. No bytes are left at a path that cannot be written. -/
def Fault.leaves (target : Option Text) (disk : Disk) : Fault → Disk
  | .refused => disk
  | .brokenOff bytes => (target.bind fun path => disk.write? path bytes).getD disk

/-- The state of a machine that works on a disk. -/
structure Session where
  disk : Disk := {}
  input : Bytes := []
  output : Text := []
  /-- For the coming operations on the disk, whether they fail and how. The operations after these
  succeed if they can. -/
  faults : List (Option Fault) := []

/-- Computations on a machine whose state is a value. -/
abbrev SessionM := StateM Session

namespace Session

/-- The fault of the next operation, and the session after it. -/
def nextFault (s : Session) : Option Fault × Session :=
  (s.faults.head?.join, { s with faults := s.faults.tail })

/-- Looks at the disk, unless there is a fault. -/
def look {α : Type} (failed : α) (question : Disk → α) : SessionM α := fun s =>
  match s.nextFault with
  | (some _, s) => (failed, s)
  | (none, s) => (question s.disk, s)

/-- Changes the disk, unless there is a fault. The target is the file that is written, if any. -/
def change (target : Option Text) (operation : Disk → Option Disk) : SessionM Bool := fun s =>
  match s.nextFault with
  | (some fault, s) => (false, { s with disk := fault.leaves target s.disk })
  | (none, s) =>
    match operation s.disk with
    | some disk => (true, { s with disk })
    | none => (false, s)

instance : Machine SessionM where
  exists? path := look false fun disk => (disk.find? path).isSome
  read? path := look none fun disk => disk.bytes? path
  write path bytes := change (some path) fun disk => disk.write? path bytes
  append path bytes := change (some path) fun disk => disk.append? path bytes
  copy source target := change (some target) fun disk => disk.copy? source target
  rename source target := change none fun disk => disk.rename? source target
  makeDirectories path := change none fun disk => disk.makeDirectories? path
  input? := fun s => (some s.input, s)
  print text := fun s => ((), { s with output := s.output ++ text })

end Session

end LosslessYaml
