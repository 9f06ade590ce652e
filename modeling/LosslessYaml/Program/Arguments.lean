import LosslessYaml.Recipe.ChangeValue

/-!
# Arguments

The command line: what a user asks for, and how the words of a command line say it. Options have
long names, some have a letter, and letters can be put together. Files may stand anywhere, and after
`--` all words are files.
-/

namespace LosslessYaml

/-! ## Commands -/

/-- What becomes of the result. -/
structure Output where
  inPlace : Bool := false
  diff : Bool := false
  backup : Bool := false
deriving Repr, DecidableEq

/-- What a user asks for. -/
inductive Command where
  | changeValue (options : ChangeOptions) (output : Output) (files : List Text)
  | run (recipes : Text) (output : Output) (files : List Text)
  | list
deriving Repr, DecidableEq

/-- Why a command line is no command. -/
inductive Stop where
  /-- The words are not understood. -/
  | misused
  /-- The user asks for help. -/
  | help
  /-- The user asks for the version. -/
  | version
deriving Repr, DecidableEq

namespace Arguments

/-! ## Options -/

/-- An option of the command line. -/
inductive Flag where
  | keyPath
  | value
  | recipes
  | inPlace
  | diff
  | backup
  | verbose
  | help
  | version
deriving Repr, DecidableEq

namespace Flag

/-- The long names of an option. -/
def names : Flag → List String
  | .keyPath => ["key-path", "old-key-path"]
  | .value => ["value"]
  | .recipes => ["recipes"]
  | .inPlace => ["in-place"]
  | .diff => ["diff"]
  | .backup => ["backup"]
  | .verbose => ["verbose"]
  | .help => ["help"]
  | .version => ["version"]

/-- The letter of an option. -/
def letter : Flag → Option Char
  | .recipes => some 'r'
  | .inPlace => some 'i'
  | .diff => some 'd'
  | .verbose => some 'v'
  | .help => some 'h'
  | .version => some 'V'
  | _ => none

/-- Whether an option comes with a value. -/
def takesValue : Flag → Bool
  | .keyPath => true
  | .value => true
  | .recipes => true
  | _ => false

/-- The options before the name of a command. -/
def general : List Flag := [.verbose, .help, .version]

/-- The options of a change of values. -/
def ofChangeValue : List Flag := [.keyPath, .value, .inPlace, .diff, .backup, .verbose, .help]

/-- The options of a run of recipes. -/
def ofRun : List Flag := [.recipes, .inPlace, .diff, .backup, .verbose, .help]

/-- The options of a listing. -/
def ofList : List Flag := [.verbose, .help]

end Flag

/-- What was found on the command line: options with their values, and files. -/
structure Found where
  values : List (Flag × Text) := []
  files : List Text := []

namespace Found

/-- Notes an option. It may come again only if it asks for more messages. -/
def add (found : Found) (flag : Flag) (value : Text) : Except Stop Found :=
  match flag with
  | .help => .error .help
  | .version => .error .version
  | .verbose => .ok found
  | _ =>
    if (found.values.lookup flag).isSome then .error .misused
    else if flag == .recipes && value.isEmpty then .error .misused
    else .ok { found with values := found.values ++ [(flag, value)] }

/-- Notes a file. -/
def addFile (found : Found) (file : Text) : Except Stop Found :=
  if file.isEmpty then .error .misused else .ok { found with files := found.files ++ [file] }

/-- Whether an option was found. -/
def has (found : Found) (flag : Flag) : Bool := (found.values.lookup flag).isSome

/-- The value of an option that has to be there. -/
def value (found : Found) (flag : Flag) : Except Stop Text :=
  (found.values.lookup flag).elim (.error .misused) .ok

/-- What the options say about the output. -/
def output (found : Found) : Output := ⟨found.has .inPlace, found.has .diff, found.has .backup⟩

end Found

/-! ## Words -/

/-- Reads the letters of a word. An option with a value takes the rest of the word, and if there is
none its value is the next word. -/
def letters (flags : List Flag) (found : Found) : Text → Except Stop (Found × Option Flag)
  | [] => .ok (found, none)
  | c :: rest =>
    match flags.find? fun flag => flag.letter == some c with
    | none => .error .misused
    | some flag =>
      if flag.takesValue then
        match rest with
        | [] => .ok (found, some flag)
        | '=' :: value => (found.add flag value).map fun found => (found, none)
        | value => (found.add flag value).map fun found => (found, none)
      else
        match found.add flag [] with
        | .error stop => .error stop
        | .ok found => letters flags found rest

/-- Reads a long option. Its value is after an equals sign, or is the next word. -/
def longOption (flags : List Flag) (found : Found) (word : Text) :
    Except Stop (Found × Option Flag) :=
  let name := String.ofList (word.takeWhile (· != '='))
  match flags.find? (fun flag => flag.names.contains name), word.dropWhile (· != '=') with
  | none, _ => .error .misused
  | some flag, [] =>
    if flag.takesValue then .ok (found, some flag)
    else (found.add flag []).map fun found => (found, none)
  | some flag, _ :: value =>
    if flag.takesValue then (found.add flag value).map fun found => (found, none)
    else .error .misused

/-- Reads a word that is an option. -/
def option? (flags : List Flag) (found : Found) : Text → Option (Except Stop (Found × Option Flag))
  | '-' :: '-' :: word => some (longOption flags found word)
  | '-' :: c :: word => some (letters flags found (c :: word))
  | _ => none

/-- Reads the words of a command line. `pending` is an option that waits for its value. -/
def words (flags : List Flag) (found : Found) (pending : Option Flag) :
    List Text → Except Stop Found
  | [] => if pending.isSome then .error .misused else .ok found
  | word :: rest =>
    if word == ['-', '-'] then
      if pending.isSome then .error .misused
      else rest.foldlM (fun found file => found.addFile file) found
    else
      match option? flags found word, pending with
      | some _, some _ => .error .misused
      | some (.error stop), none => .error stop
      | some (.ok (found, pending)), none => words flags found pending rest
      | none, some flag =>
        match found.add flag word with
        | .error stop => .error stop
        | .ok found => words flags found none rest
      | none, none =>
        match found.addFile word with
        | .error stop => .error stop
        | .ok found => words flags found none rest

/-- What the words after `help` ask for. A command has no others within it, so at most one name may
stand there. -/
def help : List Text → Stop
  | [] => .help
  | word :: rest =>
    let isCommand := ["change-value", "run", "list", "help"].contains (String.ofList word)
    if isCommand && rest.isEmpty then .help else .misused

/-- Reads a command from its name and the words after it. -/
def command (name : Text) (rest : List Text) : Except Stop Command :=
  if name == "change-value".toList then do
    let found ← words Flag.ofChangeValue {} none rest
    let keyPath ← found.value .keyPath
    let value ← found.value .value
    return .changeValue ⟨keyPath, value⟩ found.output found.files
  else if name == "run".toList then do
    let found ← words Flag.ofRun {} none rest
    let recipes ← found.value .recipes
    return .run recipes found.output found.files
  else if name == "list".toList then do
    let found ← words Flag.ofList {} none rest
    if found.files.isEmpty then return .list else throw .misused
  else if name == "help".toList then .error (help rest)
  else .error .misused

/-- Reads a command line. -/
def parse : List Text → Except Stop Command
  | [] => .error .misused
  | word :: rest =>
    match option? Flag.general {} word with
    | some (.error stop) => .error stop
    | some (.ok _) => parse rest
    | none => command word rest

end Arguments

end LosslessYaml
