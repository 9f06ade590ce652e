import LosslessYaml.File.Failure
import LosslessYaml.Machine
import LosslessYaml.Recipe.Config
import LosslessYaml.Toml.Parse

/-!
# Recipe files

A recipe file is a TOML file with a list of recipes, which are run in their order.
-/

namespace LosslessYaml

/-- The recipes of a file, as they are configured. -/
abbrev RecipeList := List ChangeOptions

namespace RecipeList

/-- Reads recipes from a table. Without a field for them there are none. -/
def decode : Value → Option RecipeList
  | .table fields =>
    match fields.lookup "recipe".toList with
    | none => some []
    | some (.list items) => items.mapM fun item => (ChangeOptions.decode item).toOption
    | some _ => none
  | _ => none

/-- Reads recipes from the text of a file. -/
def ofText (text : Text) : Option RecipeList := Toml.parse text >>= decode

/-- Builds all recipes, up to the first that cannot be built. -/
def build (recipes : RecipeList) : Except RecipeError (List ChangeValue) :=
  recipes.mapM ChangeValue.build

/-- The recipes that the bytes of a file hold. -/
def ofFile (path : Text) (bytes : Option Bytes) : Except FileError RecipeList :=
  match bytes.bind Bytes.toText? with
  | none => .error (.recipesUnreadable path)
  | some text => (ofText text).elim (.error (.recipesMalformed path)) .ok

/-- Loads a recipe file. -/
def load {m : Type → Type} [Monad m] [Machine m] (path : Text) :
    ExceptT FileError m RecipeList := do
  let bytes ← Machine.read? (m := m) path
  ExceptT.mk (pure (ofFile path bytes))

end RecipeList

end LosslessYaml
