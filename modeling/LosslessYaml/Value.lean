import LosslessYaml.Text.Hidden

/-!
# Structured values

Configuration comes as structured values: from a configuration file, or from a program that uses
the library. This module holds the values and the reading of fields from them, with the reasons
for which that fails.
-/

namespace LosslessYaml

/-- A structured value. `other` stands for numbers and dates that no configuration uses. -/
inductive Value where
  | null
  | bool (value : Bool)
  | integer (value : Int)
  | text (value : Text)
  | other
  | list (items : List Value)
  | table (fields : List (Text × Value))
deriving Repr, Inhabited

/-- Why a value does not fit what is read from it. -/
inductive DecodeError where
  | missingField (name : String)
  | duplicateField (name : String)
  | unknownVariant (name : Text) (known : String)
  | invalidType (found : Value) (expected : String)
  | invalidLength (length : Nat) (expected : String)
deriving Repr

/-- A lower-case hexadecimal number. -/
def hexText (n : Nat) : Text := Nat.toDigits 16 n

/-- A text in double quotes, with the escapes that show what cannot be seen. -/
def Text.inQuotes (text : Text) : Text :=
  '"' :: text.flatMap escape ++ ['"']
where
  escape (c : Char) : Text :=
    if c == '"' then ['\\', '"']
    else if c == '\\' then ['\\', '\\']
    else if c == '\n' then ['\\', 'n']
    else if c == '\r' then ['\\', 'r']
    else if c == '\t' then ['\\', 't']
    else if c.toNat == 0 then ['\\', '0']
    else if isHidden c then ['\\', 'u', '\x7b'] ++ hexText c.toNat ++ ['\x7d']
    else [c]

/-- What a value is called in an error. -/
def Value.describe : Value → String
  | .null => "null"
  | .bool value => s!"boolean `{value}`"
  | .integer value => s!"integer `{value}`"
  | .text value => s!"string {String.ofList value.inQuotes}"
  | .other => "floating point"
  | .list _ => "sequence"
  | .table _ => "map"

/-- The error, in words. -/
def DecodeError.message : DecodeError → String
  | .missingField name => s!"missing field `{name}`"
  | .duplicateField name => s!"duplicate field `{name}`"
  | .unknownVariant name known => s!"unknown variant `{String.ofList name}`, expected `{known}`"
  | .invalidType found expected => s!"invalid type: {found.describe}, expected {expected}"
  | .invalidLength length expected => s!"invalid length {length}, expected {expected}"

namespace Value

/-- The text that a value is. -/
def asText : Value → Except DecodeError Text
  | .text value => .ok value
  | value => .error (.invalidType value "a string")

/-- The truth value that a value is. -/
def asBool : Value → Except DecodeError Bool
  | .bool value => .ok value
  | value => .error (.invalidType value "a boolean")

end Value

end LosslessYaml
