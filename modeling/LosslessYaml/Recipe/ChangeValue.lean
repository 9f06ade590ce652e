import LosslessYaml.Edit
import LosslessYaml.Path.Expression
import LosslessYaml.Reading.Failure

/-!
# Changing values

The recipe that gives a new value to the mapping entries that a path selects. The new value is a
plain scalar, so it must read back as one wherever it is put; `ValueProblem.find?` says why a text
would not.
-/

namespace LosslessYaml

open Text

/-! ## Options -/

/-- Why a text would not read back as a plain scalar. -/
inductive ValueProblem where
  | severalLines
  | outerWhitespace
  | indicator
  | colon
  | comment
  | flowIndicator
deriving Repr, DecidableEq

namespace ValueProblem

/-- The problem, in words. -/
def message : ValueProblem → String
  | .severalLines => "must be a single line"
  | .outerWhitespace => "must not start or end with whitespace"
  | .indicator => "must not start with a YAML indicator character"
  | .colon => "must not contain ': ' or end with ':'"
  | .comment => "must not contain ' #'"
  | .flowIndicator => "must not contain flow indicators (, [ ] \x7b \x7d)"

/-- Whether a scalar that starts with the character is not a plain one. -/
def isIndicator (c : Char) : Bool :=
  ['#', '&', '*', '!', '|', '>', '%', '@', '\x60', '"', '\''].contains c

/-- Whether the text starts with a mark that is one only before a blank. -/
def startsWithMark : Text → Bool
  | c :: rest => (c == '-' || c == '?' || c == ':') && rest.head?.all isBlank
  | [] => false

/-- The first problem of a text as a plain scalar. -/
def find? (value : Text) : Option ValueProblem :=
  if value.contains '\n' || value.contains '\r' then some .severalLines
  else if trim value != value then some .outerWhitespace
  else if value.isEmpty then none
  else if value.head?.any isIndicator || startsWithMark value then some .indicator
  else if hasInfix [':', ' '] value || hasInfix [':', '\t'] value || value.getLast? == some ':' then
    some .colon
  else if hasInfix [' ', '#'] value || hasInfix ['\t', '#'] value then some .comment
  else if value.any isFlowIndicator then some .flowIndicator
  else none

end ValueProblem

/-- Why a recipe cannot be built. -/
inductive RecipeError where
  | emptyKeyPath
  | invalidValue (problem : ValueProblem)
  | invalidPath (expression : Text) (error : PathError)
deriving Repr, DecidableEq

/-- The error, in words. -/
def RecipeError.message : RecipeError → String
  | .emptyKeyPath => "invalid option 'oldKeyPath': must not be empty"
  | .invalidValue problem => s!"invalid option 'value': {problem.message}"
  | .invalidPath expression error =>
    s!"invalid path expression '{String.ofList expression}': {error.message}"

/-- What a change of values is configured with. -/
structure ChangeOptions where
  keyPath : Text
  value : Text
deriving Repr, DecidableEq

/-- A change of values that was found to be sound. -/
structure ChangeValue where
  options : ChangeOptions
  path : Path
deriving Repr, DecidableEq

namespace ChangeValue

/-- Checks the options: first that there is a path, then the value, then the path. -/
def build (options : ChangeOptions) : Except RecipeError ChangeValue :=
  if (trim options.keyPath).isEmpty then .error .emptyKeyPath
  else
    match ValueProblem.find? options.value with
    | some problem => .error (.invalidValue problem)
    | none =>
      match Path.parse options.keyPath with
      | .error error => .error (.invalidPath options.keyPath error)
      | .ok path => .ok ⟨options, path⟩

/-! ## The change -/

/-- Whether the value is the new one already. -/
def isNew (recipe : ChangeValue) : Block → Bool
  | .scalar s => s.style == .plain && s.anchor.isNone && s.text == recipe.options.value
  | _ => false

/-- The lead of a scalar that takes the place of the value, so that it stays nested under its
key. -/
def newLead (value : Block) : Text :=
  match value with
  | .sequence q =>
    if q.indentless && q.lead.contains '\n' then q.lead ++ [' ', ' ']
    else if q.lead.isEmpty then [' ']
    else q.lead
  | _ => if value.lead.isEmpty then [' '] else value.lead

/-- The scalar that takes the place of the value. -/
def newValue (recipe : ChangeValue) (value : Block) : Block :=
  .scalar { lead := newLead value, text := recipe.options.value }

/-- Replaces the values of the selected entries that do not have the new value already. -/
def visitor (recipe : ChangeValue) : Visitor where
  value cursor entry :=
    if recipe.path.selects cursor.steps && !recipe.isNew entry.value then
      some (recipe.newValue entry.value)
    else none

/-- What the recipe does to the roots of a stream's documents. -/
def edits (recipe : ChangeValue) (stream : Stream) : List Edit := recipe.visitor.editStream stream

/-- The stream after the recipe. -/
def run (recipe : ChangeValue) (stream : Stream) : Stream := stream.apply (recipe.edits stream)

/-- Whether the recipe changes the stream. -/
def changes (recipe : ChangeValue) (stream : Stream) : Bool := Edit.anyChange (recipe.edits stream)

end ChangeValue

/-! ## Several recipes -/

/-- The stream after the recipes, each run on the result of the one before it. -/
def runAll (recipes : List ChangeValue) (stream : Stream) : Stream :=
  recipes.foldl (fun current recipe => recipe.run current) stream

/-- Whether any of the recipes, each run on the result of the one before it, changes anything. -/
def anyChanges : List ChangeValue → Stream → Bool
  | [], _ => false
  | recipe :: recipes, stream => recipe.changes stream || anyChanges recipes (recipe.run stream)

end LosslessYaml
