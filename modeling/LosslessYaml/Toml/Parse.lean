import LosslessYaml.Toml.Table
import LosslessYaml.Toml.Token

/-!
# Reading TOML

Main definition: `Toml.parse`, which gives the table that a file defines, or nothing where the file
is malformed or defines something twice.
-/

namespace LosslessYaml.Toml

open Text

/-- The parts of a key before the last, and the last. -/
def splitLast (parts : List Text) : Option (List Text × Text) := do
  let last ← parts.getLast?
  some (parts.dropLast, last)

mutual

/-- Reads a value. `depth` is the number of brackets around it. -/
def value (fuel depth : Nat) (text : Text) : Option (Value × Text) :=
  match fuel with
  | 0 => none
  | fuel + 1 =>
    match string? text with
    | some read => do
      let (found, rest) ← read
      some (.text found, rest)
    | none =>
      match text with
      | '[' :: rest => do
        if depthLimit ≤ depth + 1 then none
        let (items, last) ← items fuel (depth + 1) rest
        some (.list items, last)
      | '\x7b' :: rest => do
        if depthLimit ≤ depth + 1 then none
        match skipBlanks rest with
        | '\x7d' :: last => some (.table [], last)
        | body =>
          let (fields, last) ← inlineFields fuel (depth + 1) [] body
          some (.table (fieldValues fields), last)
      | _ => word text

/-- Reads the items of an array and its closing bracket. -/
def items (fuel depth : Nat) (text : Text) : Option (List Value × Text) :=
  match fuel with
  | 0 => none
  | fuel + 1 => do
    match ← skipGap false text with
    | ']' :: rest => some ([], rest)
    | body =>
      let (first, rest) ← value fuel depth body
      match ← skipGap false rest with
      | ',' :: after =>
        let (more, last) ← items fuel depth after
        some (first :: more, last)
      | ']' :: last => some ([first], last)
      | _ => none

/-- Reads the fields of an inline table and its closing bracket. -/
def inlineFields (fuel depth : Nat) (fields : Fields) (text : Text) : Option (Fields × Text) :=
  match fuel with
  | 0 => none
  | fuel + 1 => do
    let (parts, afterKey) ← key text
    let (path, last) ← splitLast parts
    match afterKey with
    | '=' :: rest =>
      let (found, after) ← value fuel depth (skipBlanks rest)
      let fields ← Fields.define path last found fields
      match skipBlanks after with
      | ',' :: more => inlineFields fuel depth fields more
      | '\x7d' :: more => some (fields, more)
      | _ => none
    | _ => none

end

/-- What was read of a file: its table, and the path of the table that keys belong to. -/
structure Progress where
  root : Fields := []
  current : List Text := []

/-- Reads a header, from after its first bracket. -/
def header (progress : Progress) (text : Text) : Option (Progress × Text) :=
  match text with
  | '[' :: rest => do
    let (parts, after) ← key rest
    let (path, last) ← splitLast parts
    match after with
    | ']' :: ']' :: after =>
      let root ← Fields.descend path (Fields.openTables last) progress.root
      some (⟨root, parts⟩, after)
    | _ => none
  | _ => do
    let (parts, after) ← key text
    let (path, last) ← splitLast parts
    match after with
    | ']' :: after =>
      let root ← Fields.descend path (Fields.openTable last) progress.root
      some (⟨root, parts⟩, after)
    | _ => none

/-- Reads a key and its value. -/
def keyValue (progress : Progress) (text : Text) : Option (Progress × Text) := do
  let (parts, afterKey) ← key text
  let (path, last) ← splitLast parts
  match afterKey with
  | '=' :: rest =>
    let body := skipBlanks rest
    let (found, after) ← value body.length 0 body
    let root ← Fields.descend progress.current (Fields.define path last found) progress.root
    some ({ progress with root }, after)
  | _ => none

/-- Reads the lines of a file. -/
def lines (fuel : Nat) (progress : Progress) (text : Text) : Option Progress :=
  match fuel with
  | 0 => none
  | fuel + 1 =>
    match skipBlanks text with
    | [] => some progress
    | c :: rest =>
      if c == '#' || c == '\n' || c == '\r' then do
        let next ← afterLine? (c :: rest)
        lines fuel progress next
      else do
        let (progress, after) ←
          if c == '[' then header progress rest else keyValue progress (c :: rest)
        let next ← afterLine? after
        lines fuel progress next

/-- The table that a file defines. -/
def parse (text : Text) : Option Value := do
  let body := match text with
    | '\ufeff' :: rest => rest
    | _ => text
  let progress ← lines (body.length + 1) {} body
  some (.table (fieldValues progress.root))

end LosslessYaml.Toml
