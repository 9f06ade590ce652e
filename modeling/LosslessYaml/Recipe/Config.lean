import LosslessYaml.Recipe.ChangeValue
import LosslessYaml.Value

/-!
# Recipes in configuration

A recipe is configured by its name and its options. This module reads such configurations from
structured values and describes the recipes that there are.
-/

namespace LosslessYaml

/-! ## Descriptions -/

/-- What a user is told about an option of a recipe. -/
structure OptionDescriptor where
  name : String
  displayName : String
  description : String
  sample : String
  required : Bool

/-- What a user is told about a recipe. -/
structure RecipeDescriptor where
  name : String
  displayName : String
  description : String
  options : List OptionDescriptor

/-- The description of the change of values. -/
def ChangeValue.descriptor : RecipeDescriptor where
  name := "change-value"
  displayName := "Change value"
  description := "Change a YAML mapping entry value leaving the key intact."
  options :=
    [{ name := "oldKeyPath"
       displayName := "Key path"
       description :=
         "A path expression to locate a YAML entry. " ++
         "Sequence items are path steps, as in `subjects/*/kind`."
       sample := "subjects/kind"
       required := true },
     { name := "value"
       displayName := "New value"
       description := "The new value to set for the key identified by oldKeyPath."
       sample := "Deployment"
       required := true }]

/-- The descriptions of all recipes. -/
def recipeDescriptors : List RecipeDescriptor := [ChangeValue.descriptor]

/-! ## Reading -/

namespace ChangeOptions

/-- The options found so far while fields are read in their order. -/
structure Draft where
  keyPath : Option Text := none
  value : Option Text := none

/-- Reads a field into the options found so far. The path has two spellings, and fields with other
names do not count. -/
def Draft.read (draft : Draft) (name : Text) (value : Value) : Except DecodeError Draft :=
  if name == "oldKeyPath".toList || name == "old_key_path".toList then
    if draft.keyPath.isSome then .error (.duplicateField "oldKeyPath")
    else value.asText.map fun text => { draft with keyPath := some text }
  else if name == "value".toList then
    if draft.value.isSome then .error (.duplicateField "value")
    else value.asText.map fun text => { draft with value := some text }
  else .ok draft

/-- The options, when all are found. -/
def Draft.finish (draft : Draft) : Except DecodeError ChangeOptions :=
  match draft.keyPath, draft.value with
  | none, _ => .error (.missingField "oldKeyPath")
  | _, none => .error (.missingField "value")
  | some keyPath, some value => .ok ⟨keyPath, value⟩

/-- Reads the options from named fields. -/
def ofFields (fields : List (Text × Value)) : Except DecodeError ChangeOptions := do
  let draft ← fields.foldlM (fun draft (name, value) => Draft.read draft name value) {}
  draft.finish

/-- Reads the options from their values in order. -/
def ofValues : List Value → Except DecodeError ChangeOptions
  | [] => .error (.invalidLength 0 "struct ChangeValueOptions with 2 elements")
  | [keyPath] => do
    let _ ← keyPath.asText
    .error (.invalidLength 1 "struct ChangeValueOptions with 2 elements")
  | keyPath :: value :: more => do
    let keyPath ← keyPath.asText
    let value ← value.asText
    if more.isEmpty then .ok ⟨keyPath, value⟩
    else .error (.invalidLength (more.length + 2) "2 elements in sequence")

/-- Checks the name of the recipe. -/
def checkName : Value → Except DecodeError Unit
  | .text name =>
    if name == "change-value".toList then .ok () else .error (.unknownVariant name "change-value")
  | value => .error (.invalidType value "variant identifier")

/-- Reads a recipe's configuration: a table with its name and options, or a list of them in
order. -/
def decode : Value → Except DecodeError ChangeOptions
  | .table fields =>
    match fields.lookup "name".toList with
    | none => .error (.missingField "name")
    | some name => do
      checkName name
      ofFields (fields.filter fun field => field.1 != "name".toList)
  | .list [] => .error (.missingField "name")
  | .list (name :: values) => do
    checkName name
    ofValues values
  | value => .error (.invalidType value "internally tagged enum RecipeConfig")

end ChangeOptions

end LosslessYaml
