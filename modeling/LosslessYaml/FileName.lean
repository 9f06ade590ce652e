import LosslessYaml.Text

/-!
# File names

Names of files as texts, with slashes between their parts. Nothing here looks at a disk.
-/

namespace LosslessYaml.FileName

open Text

/-- The parts of a path that count: neither empty ones nor dots that name the same place, except a
dot at its start. -/
def parts (path : Text) : List Text :=
  let counts (part : Text) : Bool := !part.isEmpty && part != ['.']
  match splitAt '/' path with
  | [] => []
  | first :: rest => (if first.isEmpty then [] else [first]) ++ rest.filter counts

/-- The name of the file that a path leads to. -/
def name? (path : Text) : Option Text :=
  match (parts path).getLast? with
  | none => none
  | some last => if last == ['.'] || last == ['.', '.'] then none else some last

/-- What follows the last dot in the name of the file, unless that dot is its first character. -/
def extension? (path : Text) : Option Text := do
  let name ← name? path
  match name.reverse.dropWhile (· != '.') with
  | [] => none
  | [_] => none
  | _ :: _ :: _ => some (name.reverse.takeWhile (· != '.')).reverse

/-- The reversed path without slashes and dots for the same place at its end. -/
def trimEnd : Text → Text
  | '/' :: c :: rest => trimEnd (c :: rest)
  | '.' :: '/' :: rest => if rest.isEmpty then ['/'] else trimEnd rest
  | path => path

/-- The directory that a path lies in: empty for the working directory, and none if the path leads
nowhere else. -/
def parent? (path : Text) : Option Text :=
  let trimmed := trimEnd path.reverse
  if trimmed.isEmpty || trimmed == ['/'] then none
  else some (trimEnd (trimmed.dropWhile (· != '/'))).reverse

/-- A path in the same directory whose name has a suffix after a dot. -/
def sibling? (path suffix : Text) : Option Text := do
  let name ← name? path
  let directory ← parent? path
  let base :=
    if directory.isEmpty || directory.getLast? == some '/' then directory else directory ++ ['/']
  some (base ++ name ++ '.' :: suffix)

end LosslessYaml.FileName
