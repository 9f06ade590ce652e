import LosslessYaml.File.Failure
import LosslessYaml.FileName
import LosslessYaml.Gzip
import LosslessYaml.Machine
import LosslessYaml.Reading.Stream
import LosslessYaml.Settings
import LosslessYaml.Strict.Verdict

/-!
# Loading

Streams come from files, from the standard input or from texts. Compressed files are unpacked, and
what is loaded from a file is marked with its path.
-/

namespace LosslessYaml

variable {m : Type → Type} [Monad m] [Machine m]

/-- Reads a text into a stream, after a strict reading if the settings ask for one. -/
def loadText (settings : Settings) (text : Text) : Except FileError Stream :=
  if settings.validateInput && !Strict.acceptsInput text then .error .invalidInput
  else (Stream.parse text).mapError .unparsed

/-- Whether a file is unpacked when it is read: its name ends in a dot and `gz`, with something
before the dot. -/
def isCompressed (path : Text) : Bool := FileName.extension? path == some ['g', 'z']

/-- The text that the bytes of a file hold, if it has any. -/
def textOfFile (path : Text) (bytes : Option Bytes) : Except FileError Text :=
  if isCompressed path then
    ((bytes.bind Gzip.unpack).bind Bytes.toText?).elim (.error .corrupted) .ok
  else (bytes.bind Bytes.toText?).elim (.error (.unreadable path)) .ok

/-- The stream that the bytes of a file hold. -/
def streamOfFile (settings : Settings) (path : Text) (bytes : Option Bytes) :
    Except FileError Stream := do
  let text ← textOfFile path bytes
  let stream ← (loadText settings text).mapError (FileError.during (.loading path))
  return stream.mark (.provenance path)

/-- Loads a file. -/
def loadFile (settings : Settings) (path : Text) : ExceptT FileError m Stream := do
  if isCompressed path then require (.unopened path) (Machine.exists? path)
  let bytes ← Machine.read? (m := m) path
  ExceptT.mk (pure (streamOfFile settings path bytes))

/-- The text that the standard input holds, which may be compressed. -/
def textOfInput (bytes : Option Bytes) : Except FileError Text :=
  match bytes with
  | none => .error .noInput
  | some bytes =>
    if Gzip.magic.isPrefixOf bytes then
      ((Gzip.unpack bytes).bind Bytes.toText?).elim (.error .corruptedInput) .ok
    else bytes.toText?.elim (.error .inputNotText) .ok

/-- The stream that the bytes of the standard input hold. -/
def streamOfInput (settings : Settings) (bytes : Option Bytes) : Except FileError Stream := do
  let text ← textOfInput bytes
  (loadText settings text).mapError (FileError.during .loadingInput)

/-- Loads the standard input. -/
def loadInput (settings : Settings) : ExceptT FileError m Stream := do
  let bytes ← Machine.input? (m := m)
  ExceptT.mk (pure (streamOfInput settings bytes))

end LosslessYaml
