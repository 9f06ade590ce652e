import LosslessYaml.Text

/-!
# Scripts

A script says how one list of lines becomes another: which lines are kept, removed and added. The
search is greedy from both ends at once: the region between two lists is cut where the furthest
paths from its two corners meet, and the parts on both sides are searched again.
-/

namespace LosslessYaml.Diff

/-- What a script does with lines. -/
inductive Action where
  | keep
  | remove
  | add
deriving Repr, DecidableEq

/-- A part of a script: what it does, where it starts in the two lists, and with how many lines. -/
structure Piece where
  action : Action
  old : Nat
  new : Nat
  length : Nat
deriving Repr, DecidableEq

namespace Piece

/-- Where a piece ends in the old list. -/
def oldEnd (piece : Piece) : Nat :=
  if piece.action == .add then piece.old else piece.old + piece.length

/-- Where a piece ends in the new list. -/
def newEnd (piece : Piece) : Nat :=
  if piece.action == .remove then piece.new else piece.new + piece.length

end Piece

/-- The two lists of lines. -/
structure Sides where
  old : Array Text
  new : Array Text

/-- The number of lines, up to a limit, that are the same from two places on. -/
def Sides.sameAfter (sides : Sides) (i j : Nat) : Nat → Nat
  | 0 => 0
  | n + 1 => if sides.old[i]? == sides.new[j]? then sides.sameAfter (i + 1) (j + 1) n + 1 else 0

/-- The number of lines, up to a limit, that are the same before two places. -/
def Sides.sameBefore (sides : Sides) (i j : Nat) : Nat → Nat
  | 0 => 0
  | n + 1 =>
    if sides.old[i - 1]? == sides.new[j - 1]? then sides.sameBefore (i - 1) (j - 1) n + 1 else 0

/-- A part of each of the two lists. -/
structure Region where
  oldStart : Nat
  oldEnd : Nat
  newStart : Nat
  newEnd : Nat

namespace Region

/-- The number of old lines in a region. -/
def oldLength (r : Region) : Nat := r.oldEnd - r.oldStart

/-- The number of new lines in a region. -/
def newLength (r : Region) : Nat := r.newEnd - r.newStart

/-- How many diagonals more lie towards the old list's end than towards the new one's. -/
def delta (r : Region) : Int := (r.oldLength : Int) - r.newLength

/-- A bound on the number of steps after which the paths from the two corners have met. -/
def bound (r : Region) : Nat := (r.oldLength + r.newLength + 1) / 2 + 1

end Region

/-! ## Where paths meet -/

/-- How far the paths on each diagonal have come. -/
structure Front where
  offset : Nat
  reached : Array Nat

namespace Front

/-- The front before the first step. -/
def start (bound : Nat) : Front := ⟨bound + 1, Array.replicate (2 * bound + 3) 0⟩

/-- How far the path on a diagonal has come. -/
def get (front : Front) (k : Int) : Nat := front.reached.getD (k + front.offset).toNat 0

/-- Notes how far the path on a diagonal has come. -/
def set (front : Front) (k : Int) (x : Nat) : Front :=
  { front with reached := front.reached.setIfInBounds (k + front.offset).toNat x }

/-- Where the path on a diagonal starts its `d`-th step: from the neighbour that has come
further. -/
def step (front : Front) (d : Nat) (k : Int) : Nat :=
  if k == -(d : Int) || (k != d && front.get (k - 1) < front.get (k + 1)) then front.get (k + 1)
  else front.get (k - 1) + 1

end Front

/-- The diagonals of the `d`-th step, from the last to the first. -/
def diagonals (d : Nat) : List Int := (List.range (d + 1)).map fun (i : Nat) => (d : Int) - 2 * i

/-- Takes the `d`-th step from the region's start. Gives the place where it meets a path from the
end, or how far it came. -/
def forward (sides : Sides) (r : Region) (d : Nat) (back : Front) :
    List Int → Front → Front × Option (Nat × Nat)
  | [], front => (front, none)
  | k :: ks, front =>
    let x := front.step d k
    let y := ((x : Int) - k).toNat
    let same := if x < r.oldLength && y < r.newLength then
        sides.sameAfter (r.oldStart + x) (r.newStart + y) (min (r.oldLength - x) (r.newLength - y))
      else 0
    let front := front.set k (x + same)
    if r.delta % 2 != 0 && (k - r.delta).natAbs + 1 ≤ d &&
        r.oldLength ≤ x + same + back.get (r.delta - k) then
      (front, some (r.oldStart + x, r.newStart + y))
    else forward sides r d back ks front

/-- Takes the `d`-th step from the region's end. Gives the place where it meets a path from the
start, or how far it came. -/
def backward (sides : Sides) (r : Region) (d : Nat) (front : Front) :
    List Int → Front → Front × Option (Nat × Nat)
  | [], back => (back, none)
  | k :: ks, back =>
    let x := back.step d k
    let y := ((x : Int) - k).toNat
    let same := if x < r.oldLength && y < r.newLength then
        sides.sameBefore (r.oldEnd - x) (r.newEnd - y) (min (r.oldLength - x) (r.newLength - y))
      else 0
    let back := back.set k (x + same)
    if r.delta % 2 == 0 && (k - r.delta).natAbs ≤ d &&
        r.oldLength ≤ x + same + front.get (r.delta - k) then
      (back, some (r.oldEnd - (x + same), r.newEnd - (y + same)))
    else backward sides r d front ks back

/-- The place where paths from the two corners of a region meet, from the `d`-th step on. -/
def meet (sides : Sides) (r : Region) (fuel d : Nat) (front back : Front) : Option (Nat × Nat) :=
  match fuel with
  | 0 => none
  | fuel + 1 =>
    match forward sides r d back (diagonals d) front with
    | (_, some place) => some place
    | (front, none) =>
      match backward sides r d front (diagonals d) back with
      | (_, some place) => some place
      | (back, none) => meet sides r fuel (d + 1) front back

/-! ## The script -/

/-- A piece, unless it has no lines. -/
def piece (action : Action) (old new length : Nat) : List Piece :=
  if length == 0 then [] else [⟨action, old, new, length⟩]

/-- The script of a region. Equal lines at its start and its end are kept, and what is between them
is cut in two. -/
def search (sides : Sides) (fuel : Nat) (r : Region) : List Piece :=
  let before := sides.sameAfter r.oldStart r.newStart (min r.oldLength r.newLength)
  let after := sides.sameBefore r.oldEnd r.newEnd (min r.oldLength r.newLength - before)
  let inner : Region :=
    ⟨r.oldStart + before, r.oldEnd - after, r.newStart + before, r.newEnd - after⟩
  let replaced := piece .remove inner.oldStart inner.newStart inner.oldLength ++
    piece .add inner.oldStart inner.newStart inner.newLength
  let middle :=
    if inner.oldLength == 0 || inner.newLength == 0 then replaced
    else
      match fuel with
      | 0 => replaced
      | fuel + 1 =>
        match meet sides inner inner.bound 0 (.start inner.bound) (.start inner.bound) with
        | none => replaced
        | some (x, y) =>
          search sides fuel { inner with oldEnd := x, newEnd := y } ++
            search sides fuel { inner with oldStart := x, newStart := y }
  piece .keep r.oldStart r.newStart before ++ middle ++ piece .keep inner.oldEnd inner.newEnd after

/-- The script that turns one list of lines into the other. -/
def script (sides : Sides) : List Piece :=
  search sides (sides.old.size + sides.new.size) ⟨0, sides.old.size, 0, sides.new.size⟩

end LosslessYaml.Diff
