import LosslessYaml.Diff.Unified
import LosslessYaml.File.Load
import LosslessYaml.File.Save
import LosslessYaml.Program.Arguments
import LosslessYaml.Recipe.File
import LosslessYaml.Settings.File

/-!
# The program

Runs recipes over files. Results are printed, or shown as diffs, or take the place of the files.
-/

namespace LosslessYaml

variable {m : Type → Type} [Monad m] [Machine m]

/-- The name of the program and its version. -/
def versionLine : String := "yamlrewrite 0.1.0\n"

/-- How the program is used. -/
def usage : String :=
  "Usage: yamlrewrite [-v] change-value --key-path PATH --value VALUE " ++
    "[-i] [-d] [--backup] [FILES]\n" ++
    "       yamlrewrite [-v] run --recipes FILE [-i] [-d] [--backup] [FILES]\n" ++
    "       yamlrewrite [-v] list\n"

/-- Prints the result of a run, or how it differs from what was loaded. A result is checked before
it is printed if the settings ask for that. -/
def emit (settings : Settings) (output : Output) (path : Text) (before after : Stream) :
    ExceptT FileError m Unit := do
  if output.diff then
    Machine.print (m := m)
      (Diff.unified ("a/".toList ++ path) ("b/".toList ++ path) before.print after.print)
  else
    if settings.validateOutput then checkOutput after.print
    Machine.print (m := m) after.print

/-- Runs recipes over one file. The file is overwritten only if that was asked for and something
changed. -/
def processFile (settings : Settings) (recipes : List ChangeValue) (output : Output) (path : Text) :
    ExceptT FileError m Unit := do
  let stream ← loadFile settings path
  let result := runAll recipes stream
  if output.inPlace && anyChanges recipes stream then
    (saveFile settings path result).adapt (FileError.during (.saving path))
  if !output.inPlace || output.diff then
    emit settings output path stream result

/-- Runs recipes over files, up to the first failure. Without files they run over the standard
input. -/
def processAll (settings : Settings) (recipes : List ChangeValue) (output : Output) :
    List Text → ExceptT FileError m Unit
  | [] => do
    if output.inPlace then throw .nothingInPlace
    let stream ← loadInput settings
    emit settings output "<stdin>".toList stream (runAll recipes stream)
  | files => files.forM (processFile settings recipes output)

/-- A text filled up with spaces to a width. -/
def padded (width : Nat) (text : String) : String :=
  text ++ String.ofList (List.replicate (width - text.length) ' ')

/-- What is told about an option of a recipe. -/
def OptionDescriptor.print (option : OptionDescriptor) : String :=
  s!"    {padded 12 option.name} {option.description} (example: {option.sample})\n"

/-- What is told about a recipe. -/
def RecipeDescriptor.print (recipe : RecipeDescriptor) : String :=
  s!"{recipe.name} ({recipe.displayName})\n    {recipe.description}\n" ++
    String.join (recipe.options.map OptionDescriptor.print)

/-- Does what a command asks for. -/
def Command.perform (settings : Settings) : Command → ExceptT FileError m Unit
  | .list =>
    Machine.print (m := m) (String.join (recipeDescriptors.map RecipeDescriptor.print)).toList
  | .changeValue options output files => do
    let recipe ← (ChangeValue.build options).mapError FileError.badRecipe
    let settings := { settings with createBackup := settings.createBackup || output.backup }
    processAll settings [recipe] output files
  | .run path output files => do
    let list ← RecipeList.load path
    let recipes ← list.build.mapError fun e =>
      FileError.during (.buildingRecipes path) (.badRecipe e)
    let settings := { settings with createBackup := settings.createBackup || output.backup }
    processAll settings recipes output files

/-- How a run of the program ended. -/
inductive Outcome where
  | done
  | failed (failure : FileError)
  | misused
deriving Repr, DecidableEq

/-- The number that the program gives back to the machine. -/
def Outcome.code : Outcome → Nat
  | .done => 0
  | .failed _ => 1
  | .misused => 2

/-- Runs the program. `home` is the directory of the user, if there is one. -/
def runProgram (home : Option Text) (arguments : List Text) : m Outcome := do
  match Arguments.parse arguments with
  | .error .misused => return .misused
  | .error .help => do
    Machine.print usage.toList
    return .done
  | .error .version => do
    Machine.print versionLine.toList
    return .done
  | .ok command =>
    let settings ← match home with
      | none => pure {}
      | some home => Settings.load (Settings.path home)
    match ← (command.perform settings).run with
    | .ok () => return .done
    | .error failure => return .failed failure

end LosslessYaml
