import LosslessYaml.File.Failure
import LosslessYaml.FileName
import LosslessYaml.Machine
import LosslessYaml.Settings

/-!
# Settings files

A file of settings that is missing, cannot be read or is malformed counts as one that sets nothing.
-/

namespace LosslessYaml.Settings

variable {m : Type → Type} [Monad m] [Machine m]

/-- Loads settings from a file. -/
def load (path : Text) : m Settings := do
  let bytes ← Machine.read? path
  return (bytes.bind Bytes.toText?).elim {} ofText

/-- Saves settings to a file. Its directory is made if there is none. -/
def save (settings : Settings) (path : Text) : ExceptT FileError m Unit := do
  if let some directory := FileName.parent? path then
    require (.directoryFailed directory) (Machine.makeDirectories directory)
  require (.settingsFailed path) (Machine.write path settings.toText.toBytes)

end LosslessYaml.Settings
