import LosslessYaml.Reading.Failure
import LosslessYaml.Recipe.ChangeValue

/-!
# Failures of work on files

Why a file could not be read, checked or written. A failure is told as a chain of messages, the
outermost first, and may go back to something outside the library.
-/

namespace LosslessYaml

/-- What was being done when something failed. -/
inductive Activity where
  | loading (path : Text)
  | loadingInput
  | saving (path : Text)
  | buildingRecipes (path : Text)
deriving Repr, DecidableEq

/-- Why work on files failed. -/
inductive FileError where
  /-- A file cannot be read as a text. -/
  | unreadable (path : Text)
  /-- A compressed file cannot be read. -/
  | unopened (path : Text)
  /-- A file is not what compression gives, or not of a text. -/
  | corrupted
  /-- The standard input cannot be read. -/
  | noInput
  /-- The standard input starts like compressed data and is none. -/
  | corruptedInput
  /-- The standard input is no text. -/
  | inputNotText
  /-- A text that was to be taken in is not YAML. -/
  | invalidInput
  /-- A text cannot be read into a tree. -/
  | unparsed (error : ParseError)
  /-- A text that was to be given out is not YAML, from the document with the number on. -/
  | invalidOutput (number : Nat)
  /-- A path does not lead to a file. -/
  | invalidName (path : Text)
  | backupFailed
  | creatingFailed
  | compressingFailed
  | finishingFailed
  | writingFailed
  | renamingFailed
  /-- The directory of the settings cannot be made. -/
  | directoryFailed (path : Text)
  /-- The settings cannot be written. -/
  | settingsFailed (path : Text)
  /-- A recipe file cannot be read as a text. -/
  | recipesUnreadable (path : Text)
  /-- A recipe file does not hold recipes. -/
  | recipesMalformed (path : Text)
  /-- A recipe cannot be built. -/
  | badRecipe (error : RecipeError)
  /-- No file was given that could be overwritten. -/
  | nothingInPlace
  /-- Something failed during an activity. -/
  | during (activity : Activity) (failure : FileError)
deriving Repr, DecidableEq

/-- What a failure goes back to. -/
inductive FileError.Origin where
  /-- The machine refused an operation. -/
  | machine
  /-- A text is not YAML. -/
  | yaml
  /-- A text is not TOML, or not of the right shape. -/
  | toml
  /-- Bytes are no text. -/
  | encoding
  /-- A text cannot be read into a tree. -/
  | reading
  /-- A recipe cannot be built. -/
  | recipe
deriving Repr, DecidableEq

/-- What was being done, in words. -/
def Activity.message : Activity → String
  | .loading path => s!"Failed to load YAML from {String.ofList path}"
  | .loadingInput => "Failed to load YAML from stdin"
  | .saving path => s!"Failed to save {String.ofList path}"
  | .buildingRecipes path => s!"Invalid recipe in {String.ofList path}"

namespace FileError

/-- The messages of a failure, the outermost first. -/
def messages : FileError → List String
  | .unreadable path => [s!"Failed to read file: {String.ofList path}"]
  | .unopened path => [s!"Failed to open gzipped file: {String.ofList path}"]
  | .corrupted => ["Failed to decompress gzipped file - file may be corrupted"]
  | .noInput => ["Failed to read from stdin"]
  | .corruptedInput => ["Failed to decompress gzipped input"]
  | .inputNotText => ["Invalid UTF-8 in input"]
  | .invalidInput => ["Input is not valid YAML"]
  | .unparsed error => ["Failed to parse YAML", error.message]
  | .invalidOutput number =>
    [s!"Generated invalid YAML in document {number} - refusing to write it"]
  | .invalidName path => [s!"Invalid file name: {String.ofList path}"]
  | .backupFailed => ["Failed to create backup"]
  | .creatingFailed => ["Failed to create temp file"]
  | .compressingFailed => ["Failed to write compressed data"]
  | .finishingFailed => ["Failed to finish compression"]
  | .writingFailed => ["Failed to write temp file"]
  | .renamingFailed => ["Failed to rename temp file"]
  | .directoryFailed path => [s!"Failed to create directory: {String.ofList path}"]
  | .settingsFailed path => [s!"Failed to write config: {String.ofList path}"]
  | .recipesUnreadable path => [s!"Failed to read recipe file: {String.ofList path}"]
  | .recipesMalformed path => [s!"Failed to parse recipe file: {String.ofList path}"]
  | .badRecipe error => [error.message]
  | .nothingInPlace => ["--in-place needs at least one file"]
  | .during activity failure => activity.message :: failure.messages

/-- The outermost message. -/
def message (failure : FileError) : String := failure.messages.headD ""

/-- What a failure goes back to. -/
def origin : FileError → Option Origin
  | .invalidInput => some .yaml
  | .invalidOutput _ => some .yaml
  | .inputNotText => some .encoding
  | .unparsed _ => some .reading
  | .recipesMalformed _ => some .toml
  | .badRecipe _ => some .recipe
  | .invalidName _ => none
  | .nothingInPlace => none
  | .during _ failure => failure.origin
  | _ => some .machine

end FileError

/-- Goes on if an operation did what was asked of it. -/
def require {m : Type → Type} [Monad m] (failure : FileError) (operation : m Bool) :
    ExceptT FileError m Unit := do
  unless ← operation do throw failure

end LosslessYaml
