import LosslessYaml.Text

/-!
# Data

What a node stands for once its tokens are understood. Two keys of a mapping are the same if they
stand for the same datum.
-/

namespace LosslessYaml.Strict

/-- What a node stands for. -/
inductive Datum where
  | null
  | bool (value : Bool)
  | integer (value : Int)
  /-- A number with a fraction, in a spelling that decides which numbers are the same. -/
  | real (text : Text)
  | text (text : Text)
  | list (items : List Datum)
  | table (fields : List (Datum × Datum))
  | tagged (name : Text) (datum : Datum)
  /-- A scalar that does not fit its tag, or a node within itself. -/
  | unknown
deriving Repr, Inhabited

namespace Datum

/-- A text with its length in front, so that it cannot run into what follows. -/
def sized (text : Text) : Text := (toString text.length).toList ++ ':' :: text

mutual

/-- A text that two data share only if they are the same. -/
def canonical : Datum → Text
  | .null => ['n']
  | .bool b => if b then ['t'] else ['f']
  | .integer n => 'i' :: sized (toString n).toList
  | .real t => 'r' :: sized t
  | .text t => 's' :: sized t
  | .list items => '[' :: (canonicalItems items ++ [']'])
  | .table fields => '(' :: (canonicalFields fields ++ [')'])
  | .tagged name datum => '!' :: (sized name ++ datum.canonical)
  | .unknown => ['?']

/-- The texts of items, one after the other. -/
def canonicalItems : List Datum → Text
  | [] => []
  | item :: items => item.canonical ++ canonicalItems items

/-- The texts of keys and values, one after the other. -/
def canonicalFields : List (Datum × Datum) → Text
  | [] => []
  | (key, value) :: fields => key.canonical ++ value.canonical ++ canonicalFields fields

end

end Datum

end LosslessYaml.Strict
