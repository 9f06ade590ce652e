import LosslessYaml.Diff.Script

/-!
# Compaction

The same lines can often be added at several places. Added lines are moved up and then down past
kept lines as far as the result stays the same, and pieces that come to touch are joined.
-/

namespace LosslessYaml.Diff

/-- A script with one piece in the focus. The pieces before it come in reverse. -/
structure Focus where
  before : List Piece
  piece : Piece
  after : List Piece

/-- The number of added lines that are the same as the last ones of a kept piece. -/
def slideUp (sides : Sides) (kept added : Piece) : Nat :=
  if added.action == .add then
    sides.sameBefore kept.oldEnd added.newEnd (min kept.length added.length)
  else 0

/-- The number of added lines that are the same as the first ones of a kept piece. -/
def slideDown (sides : Sides) (kept added : Piece) : Nat :=
  if added.action == .add then
    sides.sameAfter kept.old added.new (min kept.length added.length)
  else 0

/-- Moves the piece in the focus up as far as possible. -/
def Focus.up (sides : Sides) (fuel : Nat) (f : Focus) : Focus :=
  match fuel, f.before with
  | 0, _ => f
  | _, [] => f
  | fuel + 1, previous :: before =>
    if previous.action == f.piece.action then
      Focus.up sides fuel { f with before, piece :=
        { previous with length := previous.length + f.piece.length } }
    else if previous.action == .keep then
      let n := slideUp sides previous f.piece
      if n == 0 then if previous.length == 0 then Focus.up sides fuel { f with before } else f
      else
        let moved : Piece := ⟨.keep, previous.oldEnd - n, f.piece.newEnd - n, n⟩
        let after := match f.after with
          | next :: more =>
            if next.action == .keep then
              { next with old := next.old - n, new := next.new - n, length := next.length + n } ::
                more
            else moved :: next :: more
          | [] => [moved]
        let rest :=
          if previous.length == n then before
          else { previous with length := previous.length - n } :: before
        Focus.up sides fuel
          ⟨rest, { f.piece with old := f.piece.old - n, new := f.piece.new - n }, after⟩
    else Focus.up sides fuel ⟨before, f.piece, previous :: f.after⟩

/-- Moves the piece in the focus down as far as possible. -/
def Focus.down (sides : Sides) (fuel : Nat) (f : Focus) : Focus :=
  match fuel, f.after with
  | 0, _ => f
  | _, [] => f
  | fuel + 1, next :: after =>
    if next.action == f.piece.action then
      Focus.down sides fuel
        { f with after, piece := { f.piece with length := f.piece.length + next.length } }
    else if next.action == .keep then
      let n := slideDown sides next f.piece
      if n == 0 then if next.length == 0 then Focus.down sides fuel { f with after } else f
      else
        let moved : Piece := ⟨.keep, next.old, f.piece.new, n⟩
        let before := match f.before with
          | previous :: more =>
            if previous.action == .keep then { previous with length := previous.length + n } :: more
            else moved :: previous :: more
          | [] => [moved]
        let rest := if next.length == n then after
          else
            { next with old := next.old + n, new := next.new + n, length := next.length - n } ::
              after
        Focus.down sides fuel
          ⟨before, { f.piece with old := f.piece.old + n, new := f.piece.new + n }, rest⟩
    else Focus.down sides fuel ⟨next :: f.before, f.piece, after⟩

/-- Moves all pieces of an action, from the first on. -/
def moveAll (sides : Sides) (action : Action) (steps fuel : Nat) (before after : List Piece) :
    List Piece :=
  match fuel, after with
  | 0, _ => before.reverse ++ after
  | _, [] => before.reverse
  | fuel + 1, piece :: after =>
    if piece.action == action then
      let moved := (Focus.up sides steps ⟨before, piece, after⟩).down sides steps
      moveAll sides action steps fuel (moved.piece :: moved.before) moved.after
    else moveAll sides action steps fuel (piece :: before) after

/-- The script with its removed and added pieces joined and moved as far down as possible. -/
def compact (sides : Sides) (pieces : List Piece) : List Piece :=
  let steps := 2 * (sides.old.size + sides.new.size + pieces.length) + 2
  let joined := moveAll sides .remove steps (2 * steps) [] pieces
  moveAll sides .add steps (2 * steps) [] joined

end LosslessYaml.Diff
