import LosslessYaml.Program

/-!
# The command line program

The machine that the program runs on: the real disk, standard input and standard output.
-/

namespace LosslessYaml

/-- Whether an action succeeds. -/
def succeeds (action : IO Unit) : IO Bool := do
  try
    action
    return true
  catch _ => return false

/-- The result of an action, if it succeeds. -/
def result? {α : Type} (action : IO α) : IO (Option α) := do
  try
    return some (← action)
  catch _ => return none

/-- The bytes of a file on the disk. -/
def bytesOnDisk (path : Text) : IO Bytes := return (← IO.FS.readBinFile (String.ofList path)).toList

/-- Writes a file on the disk. -/
def writeOnDisk (mode : IO.FS.Mode) (path : Text) (bytes : Bytes) : IO Unit := do
  let handle ← IO.FS.Handle.mk (String.ofList path) mode
  handle.write bytes.toByteArray
  handle.flush

/-- Reads a stream to its end. -/
partial def readAll (stream : IO.FS.Stream) (found : ByteArray) : IO ByteArray := do
  let bytes ← stream.read 65536
  if bytes.isEmpty then return found else readAll stream (found ++ bytes)

instance : Machine IO where
  exists? path := (System.mkFilePath [String.ofList path]).pathExists
  read? path := result? (bytesOnDisk path)
  write path bytes := succeeds (writeOnDisk .write path bytes)
  append path bytes := succeeds (writeOnDisk .append path bytes)
  copy source target := succeeds do writeOnDisk .write target (← bytesOnDisk source)
  rename source target := succeeds (IO.FS.rename (String.ofList source) (String.ofList target))
  makeDirectories path := succeeds do
    unless path.isEmpty do IO.FS.createDirAll (String.ofList path)
  input? := result? do return (← readAll (← IO.getStdin) .empty).toList
  print text := do
    let output ← IO.getStdout
    output.write text.toBytes.toByteArray
    output.flush

/-- What is told about a failure. -/
def FileError.report (failure : FileError) : String :=
  match failure.messages with
  | [] => "Error\n"
  | [first] => s!"Error: {first}\n"
  | first :: causes =>
    s!"Error: {first}\n\nCaused by:\n" ++
      String.join (causes.map fun cause => s!"    {cause}\n")

end LosslessYaml

open LosslessYaml in
/-- Runs the program on the disk, and tells of a failure on the standard error output. -/
def main (arguments : List String) : IO UInt32 := do
  let home ← IO.getEnv "HOME"
  let outcome ← runProgram (m := IO) (home.map String.toList) (arguments.map String.toList)
  match outcome with
  | .done => pure ()
  | .failed failure => (← IO.getStderr).putStr failure.report
  | .misused => (← IO.getStderr).putStr usage
  return outcome.code.toUInt32
