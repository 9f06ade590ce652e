import LosslessYaml.Value

/-!
# Tables of TOML

A file defines a table bit by bit: by keys and values, by dotted keys, by headers of tables and by
headers of arrays of tables. How a table came to be decides how it may be extended, so that nothing
is defined twice.
-/

namespace LosslessYaml.Toml

/-- How a table came to be. -/
inductive Origin where
  /-- On the way to a table with a header. -/
  | implicit
  /-- By a header of its own. -/
  | header
  /-- On the way to a value with a dotted key. -/
  | dotted
deriving Repr, DecidableEq

/-- What a key stands for while a file is read. -/
inductive Node where
  | value (value : Value)
  | table (origin : Origin) (fields : List (Text × Node))
  | tables (items : List (List (Text × Node)))
deriving Repr

/-- The fields of a table, in the order of their definition. -/
abbrev Fields := List (Text × Node)

namespace Fields

/-- Changes what the key stands for, and leaves its place. -/
def update (key : Text) (node : Node) (fields : Fields) : Fields :=
  fields.map fun field => if field.1 == key then (key, node) else field

/-- Changes the last table of an array of tables. -/
def updateLast (change : Fields → Option Fields) (items : List Fields) : Option (List Fields) := do
  let last ← items.getLast?
  let changed ← change last
  some (items.dropLast ++ [changed])

/-- Defines a value by a key whose parts before the last are `path`. A table on the way that has a
header cannot be extended so, and the table that holds the value must have come from dotted
keys. -/
def define (path : List Text) (key : Text) (value : Value) (fields : Fields) : Option Fields :=
  match path with
  | [] => if (fields.lookup key).isSome then none else some (fields ++ [(key, .value value)])
  | part :: parts =>
    let inner (origin : Origin) (fields : Fields) : Option Fields :=
      if parts.isEmpty && origin != .dotted then none else define parts key value fields
    match fields.lookup part with
    | none => do
      let new ← inner .dotted []
      some (fields ++ [(part, .table .dotted new)])
    | some (.value _) => none
    | some (.table .header _) => none
    | some (.table origin old) => do
      let new ← inner origin old
      some (fields.update part (.table origin new))
    | some (.tables items) => do
      let new ← updateLast (inner .header) items
      some (fields.update part (.tables new))

/-- Changes the fields at the end of a path of tables, which are made where they are missing. -/
def descend (path : List Text) (change : Fields → Option Fields) (fields : Fields) :
    Option Fields :=
  match path with
  | [] => change fields
  | part :: parts =>
    match fields.lookup part with
    | none => do
      let new ← descend parts change []
      some (fields ++ [(part, .table .implicit new)])
    | some (.value _) => none
    | some (.table origin old) => do
      let new ← descend parts change old
      some (fields.update part (.table origin new))
    | some (.tables items) => do
      let new ← updateLast (descend parts change) items
      some (fields.update part (.tables new))

/-- Opens the table of a header. -/
def openTable (key : Text) (fields : Fields) : Option Fields :=
  match fields.lookup key with
  | none => some (fields ++ [(key, .table .header [])])
  | some (.table .implicit old) => some (fields.update key (.table .header old))
  | some _ => none

/-- Opens the next table of an array of tables. -/
def openTables (key : Text) (fields : Fields) : Option Fields :=
  match fields.lookup key with
  | none => some (fields ++ [(key, .tables [[]])])
  | some (.tables items) => some (fields.update key (.tables (items ++ [[]])))
  | some _ => none

end Fields

mutual

/-- The value that a key stands for once a file is read. -/
def Node.toValue : Node → Value
  | .value value => value
  | .table _ fields => .table (fieldValues fields)
  | .tables items => .list (tableValues items)

/-- The values that the keys of a table stand for. -/
def fieldValues : List (Text × Node) → List (Text × Value)
  | [] => []
  | (key, node) :: fields => (key, node.toValue) :: fieldValues fields

/-- The values of the tables of an array. -/
def tableValues : List (List (Text × Node)) → List Value
  | [] => []
  | fields :: items => .table (fieldValues fields) :: tableValues items

end

end LosslessYaml.Toml
