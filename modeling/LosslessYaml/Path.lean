import LosslessYaml.Text

/-!
# Paths

A path selects positions of a document. A position is given by the steps that lead to it from the
root of the document; a path is a list of segments that steps are matched against.
-/

namespace LosslessYaml

/-- One step from a node to a node below it. -/
inductive Step where
  /-- To the value of a mapping entry with this key. -/
  | key (key : Text)
  /-- To an item of a sequence, with the number of items. -/
  | item (index length : Nat)
deriving Repr, DecidableEq

/-- A part of a path. -/
inductive Segment where
  /-- The entry with this key. -/
  | child (name : Text)
  /-- An entry with one of these keys. -/
  | anyOf (names : List Text)
  /-- The item at this index, counted from the end if it is negative. -/
  | index (index : Int64)
  /-- The items from one index to before another, each counted from the end if it is negative. -/
  | slice (start stop : Option Int64)
  /-- Any single step. -/
  | wildcard
  /-- Any number of steps. -/
  | descent
deriving Repr, DecidableEq

/-- A path. An anchored one starts at the root of the document; any other selects a position by its
last steps. -/
structure Path where
  anchored : Bool
  segments : List Segment
deriving Repr, DecidableEq

/-! ## Selection -/

namespace Segment

/-- The item that an index means in a sequence of the given length. -/
def resolve (index : Int64) (length : Nat) : Option Nat :=
  let i := index.toInt
  if 0 ≤ i then some i.toNat
  else if i.natAbs ≤ length then some (length - i.natAbs)
  else none

/-- The bound that an index means in a slice of a sequence of the given length. -/
def clamp (index : Int64) (length : Nat) : Nat :=
  let i := index.toInt
  if 0 ≤ i then min i.toNat length else length - i.natAbs

/-- Whether the segment selects the step. `descent` is not a matter of single steps. -/
def selects : Segment → Step → Bool
  | .wildcard, _ => true
  | .child name, .key key => name == key
  | .anyOf names, .key key => names.contains key
  | .index n, .item i length => resolve n length == some i
  | .slice start stop, .item i length =>
    (start.elim 0 (clamp · length)) ≤ i && i < (stop.elim length (clamp · length))
  | _, _ => false

end Segment

/-- Whether the segments match all of the steps. -/
def matchAll : List Segment → List Step → Bool
  | [], steps => steps.isEmpty
  | .descent :: segments, steps =>
    (List.range (steps.length + 1)).any fun n => matchAll segments (steps.drop n)
  | _ :: _, [] => false
  | segment :: segments, step :: steps => segment.selects step && matchAll segments steps

/-- Whether the path selects the position that the steps lead to. -/
def Path.selects (path : Path) (steps : List Step) : Bool :=
  if path.anchored then matchAll path.segments steps
  else (List.range (steps.length + 1)).any fun n => matchAll path.segments (steps.drop n)

end LosslessYaml
