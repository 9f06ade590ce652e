import LosslessYaml.Bytes

/-!
# The machine

What the library asks of the machine that it runs on. The library's own work is written for any
machine: one with a real disk, or one that is a value, about which theorems can be stated.
-/

namespace LosslessYaml

/-- The operations of a machine. Any of them may be refused, and then answers `none` or `false`. -/
class Machine (m : Type → Type) where
  /-- Whether the path leads to a file or a directory. -/
  exists? : Text → m Bool
  /-- The bytes of a file. -/
  read? : Text → m (Option Bytes)
  /-- Makes the bytes those of the file, which is made if there is none. -/
  write : Text → Bytes → m Bool
  /-- Adds bytes at the end of a file. -/
  append : Text → Bytes → m Bool
  /-- Gives the second file the bytes of the first. -/
  copy : Text → Text → m Bool
  /-- Makes the first file the second, in one step. -/
  rename : Text → Text → m Bool
  /-- Makes a directory and those that it lies in. -/
  makeDirectories : Text → m Bool
  /-- The bytes of the standard input. -/
  input? : m (Option Bytes)
  /-- Writes a text to the standard output. -/
  print : Text → m Unit

end LosslessYaml
