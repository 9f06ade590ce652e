import LosslessYaml.Diff.Compaction
import LosslessYaml.Diff.Lines

/-!
# Unified diffs

How two texts differ, line by line: hunks of changed lines with a few kept lines around them. Within
a change the removed lines come before the added ones.
-/

namespace LosslessYaml.Diff

/-- The number of kept lines that are shown around changes. -/
def context : Nat := 3

/-- A part of a diff: lines that both texts share, or lines of the one and the lines of the other
that take their place. -/
structure Change where
  /-- Whether both texts share the lines. -/
  isShared : Bool
  /-- Where the part starts in the old text. -/
  old : Nat
  /-- Where it starts in the new text. -/
  new : Nat
  /-- The number of its lines in the old text. -/
  removed : Nat
  /-- The number of its lines in the new text. -/
  added : Nat
deriving Repr, DecidableEq

namespace Change

/-- Lines that both texts share. -/
def shared (old new length : Nat) : Change := ⟨true, old, new, length, length⟩

/-- The change that a piece makes on its own. -/
def ofPiece (piece : Piece) : Change :=
  match piece.action with
  | .keep => shared piece.old piece.new piece.length
  | .remove => ⟨false, piece.old, piece.new, piece.length, 0⟩
  | .add => ⟨false, piece.old, piece.new, 0, piece.length⟩

/-- The change together with the piece right before it. The place in a text is that of the first
piece with lines of that text. -/
def after (change : Change) (piece : Piece) : Change :=
  match piece.action with
  | .keep => shared piece.old piece.new (piece.length + change.removed)
  | .remove =>
    { change with
      old := piece.old
      new := if change.added == 0 then piece.new else change.new
      removed := piece.length + change.removed }
  | .add =>
    { change with
      old := if change.removed == 0 then piece.old else change.old
      new := piece.new
      added := piece.length + change.added }

/-- The last lines of shared lines, at most `n`. -/
def last (n : Nat) (change : Change) : Change :=
  let skipped := change.removed - n
  shared (change.old + skipped) (change.new + skipped) (change.removed - skipped)

/-- The first lines of shared lines, at most `n`. -/
def first (n : Nat) (change : Change) : Change :=
  shared change.old change.new (min n change.removed)

end Change

/-- The script as a list in which shared and replaced lines alternate. -/
def changes : List Piece → List Change
  | [] => []
  | piece :: pieces =>
    match changes pieces with
    | [] => [.ofPiece piece]
    | change :: rest =>
      if change.isShared == (piece.action == .keep) then change.after piece :: rest
      else .ofPiece piece :: change :: rest

/-- Changes that are shown together. -/
abbrev Hunk := List Change

/-- The hunks of a diff. A new one starts wherever more lines are shared than are shown on both
sides of changes. `current` holds the changes of the hunk that is being made. -/
def hunks (current : Hunk) : List Change → List Hunk
  | [] => if current.any (!·.isShared) then [current] else []
  | change :: rest =>
    if !change.isShared then hunks (current ++ [change]) rest
    else if current.isEmpty then hunks [change.last context] rest
    else if rest.isEmpty then hunks (current ++ [change.first context]) rest
    else if 2 * context < change.removed then
      (current ++ [change.first context]) :: hunks [change.last context] rest
    else hunks (current ++ [change]) rest

/-- A range of lines as the header of a hunk gives it. An empty one lies after the line before
it. -/
def range (start stop : Nat) : String :=
  let length := stop - start
  if length == 1 then toString (start + 1)
  else if length == 0 then s!"{start},0"
  else s!"{start + 1},{length}"

/-- The header of a hunk: the lines from where its first change starts to where its last one
ends. -/
def header (hunk : Hunk) : String :=
  match hunk.head?, hunk.getLast? with
  | some first, some last =>
    let oldRange := range first.old (last.old + last.removed)
    let newRange := range first.new (last.new + last.added)
    s!"@@ -{oldRange} +{newRange} @@\n"
  | _, _ => ""

/-- A line with the sign that tells what becomes of it. -/
def signed (sign : Char) (line : Text) : Text :=
  sign :: line ++ if isEnded line then [] else "\n\\ No newline at end of file\n".toList

/-- The lines of a change. -/
def Change.print (sides : Sides) (change : Change) : Text :=
  let removed := (sides.old.extract change.old (change.old + change.removed)).toList
  let added := (sides.new.extract change.new (change.new + change.added)).toList
  if change.isShared then removed.flatMap (signed ' ')
  else removed.flatMap (signed '-') ++ added.flatMap (signed '+')

/-- The text of a hunk. -/
def printHunk (sides : Sides) (hunk : Hunk) : Text :=
  (header hunk).toList ++ hunk.flatMap (·.print sides)

/-- How two texts with the given names differ: nothing if they are the same. -/
def unified (oldName newName before after : Text) : Text :=
  let sides : Sides := ⟨(lines before).toArray, (lines after).toArray⟩
  match hunks [] (changes (compact sides (script sides))) with
  | [] => []
  | found =>
    "--- ".toList ++ oldName ++ "\n+++ ".toList ++ newName ++ ['\n'] ++
      found.flatMap (printHunk sides)

end LosslessYaml.Diff
