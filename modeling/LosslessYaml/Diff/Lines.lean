import LosslessYaml.Text

/-!
# Lines of a text

A line keeps what ends it: a line feed, a carriage return, or both.
-/

namespace LosslessYaml.Diff

/-- The lines of a text, each with its end. -/
def lines : Text → List Text
  | [] => []
  | '\r' :: '\n' :: rest => ['\r', '\n'] :: lines rest
  | c :: rest =>
    if c == '\n' || c == '\r' then [c] :: lines rest
    else
      match lines rest with
      | [] => [[c]]
      | line :: more => (c :: line) :: more

/-- Whether a line has an end. -/
def isEnded (line : Text) : Bool := line.getLast? == some '\n' || line.getLast? == some '\r'

end LosslessYaml.Diff
