import LosslessYaml.File.Failure
import LosslessYaml.FileName
import LosslessYaml.Gzip
import LosslessYaml.Machine
import LosslessYaml.Settings
import LosslessYaml.Strict.Verdict
import LosslessYaml.Tree.Print

/-!
# Saving

A stream is written to a file beside the target, which then takes the target's place in one step, so
that the target is never half written. Before that the text is checked, and a copy of the old file
is made, as the settings ask for.
-/

namespace LosslessYaml

variable {m : Type → Type} [Monad m] [Machine m]

/-- Checks a text that is to be given out. -/
def checkOutput (text : Text) : Except FileError Unit :=
  match Strict.firstInvalid text with
  | none => .ok ()
  | some number => .error (.invalidOutput number)

/-- A path beside the given one. -/
def beside (path : Text) (suffix : String) : Except FileError Text :=
  (FileName.sibling? path suffix.toList).elim (.error (.invalidName path)) .ok

/-- Keeps a copy of a file. -/
def backUp (path : Text) : ExceptT FileError m Unit := do
  let backup ← beside path "bak"
  require .backupFailed (Machine.copy path backup)

/-- Whether a file is compressed when it is written. -/
def compresses (path : Text) : Bool := ['.', 'g', 'z'].isSuffixOf path

/-- Replaces a file in one step. -/
def replaceFile (path : Text) (bytes : Bytes) : ExceptT FileError m Unit := do
  let temporary ← beside path "tmp"
  if compresses path then
    require .creatingFailed (Machine.write temporary [])
    require .compressingFailed (Machine.append temporary (Gzip.body bytes))
    require .finishingFailed (Machine.append temporary (Gzip.trailer bytes))
  else
    require .writingFailed (Machine.write temporary bytes)
  require .renamingFailed (Machine.rename temporary path)

/-- Saves a stream. -/
def saveFile (settings : Settings) (path : Text) (stream : Stream) : ExceptT FileError m Unit := do
  let text := stream.print
  if settings.validateOutput then checkOutput text
  if settings.createBackup then
    if ← Machine.exists? (m := m) path then backUp path
  replaceFile path text.toBytes

end LosslessYaml
