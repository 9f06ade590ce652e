import LosslessYaml.Toml.Parse
import LosslessYaml.Toml.Print

/-!
# Settings

What a user can set once for all runs. Settings are kept in a TOML file; what it does not set has a
default.
-/

namespace LosslessYaml

/-- The settings of a user. -/
structure Settings where
  /-- Keep a copy of a file that is overwritten. -/
  createBackup : Bool := false
  /-- Take in only what is YAML by a strict reading. -/
  validateInput : Bool := true
  /-- Give out only what is YAML by a strict reading. -/
  validateOutput : Bool := true
  /-- Which messages are logged. -/
  logLevel : Text := "warn".toList
deriving Repr, DecidableEq

namespace Settings

/-- Where settings are kept, below the directory of the user. -/
def path (home : Text) : Text := home ++ "/.config/yamlrewrite/config.toml".toList

/-- Takes over the setting of a field. Fields with other names do not count. -/
def set (settings : Settings) (name : Text) (value : Value) : Except DecodeError Settings :=
  if name == "create_backup".toList then
    value.asBool.map fun b => { settings with createBackup := b }
  else if name == "validate_input".toList then
    value.asBool.map fun b => { settings with validateInput := b }
  else if name == "validate_output".toList then
    value.asBool.map fun b => { settings with validateOutput := b }
  else if name == "log_level".toList then value.asText.map fun t => { settings with logLevel := t }
  else .ok settings

/-- Reads settings from a table. -/
def decode : Value → Except DecodeError Settings
  | .table fields => fields.foldlM (fun settings (name, value) => settings.set name value) {}
  | value => .error (.invalidType value "struct Config")

/-- The settings that a file holds: the defaults if it does not hold any. -/
def ofText (text : Text) : Settings :=
  match Toml.parse text with
  | none => {}
  | some value => (decode value).toOption.getD {}

/-- The file that holds the settings. -/
def toText (settings : Settings) : Text :=
  Toml.line "create_backup" (Toml.truth settings.createBackup) ++
    Toml.line "validate_input" (Toml.truth settings.validateInput) ++
    Toml.line "validate_output" (Toml.truth settings.validateOutput) ++
    Toml.line "log_level" (Toml.quoted settings.logLevel)

end Settings

end LosslessYaml
