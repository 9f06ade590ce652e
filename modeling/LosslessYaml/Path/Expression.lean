import LosslessYaml.Path
import LosslessYaml.Path.Failure
import LosslessYaml.Text.Alphanumeric

/-!
# Path expressions

Two ways to write a path. A dotted expression starts with `$` and is anchored: `$.a['b'][0]..c`.
Any other is a slash expression: `/a/b[0]//c` is anchored, and `b/c` is not. Both share what
stands in brackets: an index, a slice, `*`, or quoted keys.

Each function reads from the start of a text and gives what it read together with the rest.

Main definition: `Path.parse`.
-/

namespace LosslessYaml.PathExpression

open Text

/-! ## Tokens -/

/-- The text after white space. -/
def skipWhitespace (text : Text) : Text := text.dropWhile isWhitespace

/-- Reads the character, after white space. -/
def expect (c : Char) (text : Text) : Except PathFailure Text :=
  match skipWhitespace text with
  | [] => .error ⟨.ended (.char c), []⟩
  | d :: rest => if d == c then .ok rest else .error ⟨.unexpected d (.char c), d :: rest⟩

/-- A character of a bare name in a dotted expression. -/
def isNameChar (c : Char) : Bool := isAlphanumeric c || c == '_' || c == '-'

/-- Reads a bare name of a dotted expression, after white space. -/
def name (text : Text) : Except PathFailure (Text × Text) :=
  let start := skipWhitespace text
  match start.takeWhile isNameChar with
  | [] => .error ⟨.missingName, start⟩
  | found => .ok (found, start.dropWhile isNameChar)

/-- The character that a backslash and this one stand for in a quoted key. -/
def unescape : Char → Option Char
  | 'n' => some '\n'
  | 't' => some '\t'
  | 'r' => some '\r'
  | '\\' => some '\\'
  | '\'' => some '\''
  | '"' => some '"'
  | _ => none

/-- Reads a quoted key, from after its opening quote. -/
def quoted (quote : Char) : Text → Except PathFailure (Text × Text)
  | [] => .error ⟨.ended (.closingQuote quote), []⟩
  | '\\' :: rest =>
    match rest with
    | [] => .error ⟨.unknownEscape, []⟩
    | e :: after =>
      match unescape e with
      | none => .error ⟨.unknownEscape, e :: after⟩
      | some c => do
        let (key, last) ← quoted quote after
        .ok (c :: key, last)
  | c :: rest =>
    if c == quote then .ok ([], rest)
    else do
      let (key, last) ← quoted quote rest
      .ok (c :: key, last)

/-- Reads a quoted key with its opening quote. -/
def quotedKey : Text → Except PathFailure (Text × Text)
  | [] => .error ⟨.ended .openingQuote, []⟩
  | c :: rest =>
    if c == '"' || c == '\'' then quoted c rest else .error ⟨.unexpected c .openingQuote, rest⟩

/-- The value of decimal digits. -/
def digitsValue (digits : Text) : Nat := digits.foldl (fun n c => 10 * n + (c.toNat - 48)) 0

/-- Reads a number, after white space. -/
def number (text : Text) : Except PathFailure (Int64 × Text) :=
  let start := skipWhitespace text
  let negative := start.head? == some '-'
  let unsigned := if negative then start.drop 1 else start
  let digits := unsigned.takeWhile Char.isDigit
  let rest := unsigned.dropWhile Char.isDigit
  if digits.isEmpty then .error ⟨.missingNumber, rest⟩
  else
    let value : Int := if negative then -(digitsValue digits : Int) else digitsValue digits
    if Int64.minValue.toInt ≤ value ∧ value ≤ Int64.maxValue.toInt then
      .ok (Int64.ofInt value, rest)
    else .error ⟨.numberOutOfRange (if negative then '-' :: digits else digits), rest⟩

/-! ## Brackets -/

/-- Reads a bound of a slice, which is absent where `closing` comes first. -/
def bound (closing : Char) (text : Text) : Except PathFailure (Option Int64 × Text) :=
  let start := skipWhitespace text
  if start.head? == some closing then .ok (none, start)
  else do
    let (n, rest) ← number start
    .ok (some n, rest)

/-- Whether the bounds of a slice are not negative and the wrong way round. -/
def isReversed (start stop : Int64) : Bool :=
  0 ≤ start.toInt && 0 ≤ stop.toInt && stop.toInt < start.toInt

/-- Reads a slice and the closing bracket. -/
def slice (text : Text) : Except PathFailure (Segment × Text) := do
  let (start, afterStart) ← bound ':' text
  let afterColon ← expect ':' afterStart
  let (stop, afterStop) ← bound ']' afterColon
  let rest ← expect ']' afterStop
  match start, stop with
  | some s, some e =>
    if isReversed s e then .error ⟨.reversedSlice s e, rest⟩ else .ok (.slice start stop, rest)
  | _, _ => .ok (.slice start stop, rest)

/-- Reads quoted keys with commas between them. A comma may also follow the last key. -/
def keys (fuel : Nat) (text : Text) : Except PathFailure (List Text × Text) :=
  match fuel with
  | 0 => .ok ([], text)
  | fuel + 1 =>
    match skipWhitespace text with
    | c :: body =>
      if c == '"' || c == '\'' then do
        let (key, rest) ← quotedKey (c :: body)
        match skipWhitespace rest with
        | ',' :: after => do
          let (more, last) ← keys fuel after
          .ok (key :: more, last)
        | after => .ok ([key], after)
      else .ok ([], c :: body)
    | [] => .ok ([], [])

/-- Whether a colon stands before the closing bracket. -/
def isSlice (text : Text) : Bool := (text.takeWhile (· != ']')).contains ':'

/-- The segment for the keys between brackets. -/
def keysSegment : List Text → Segment
  | [key] => .child key
  | names => .anyOf names

/-- Reads what stands between brackets, and the brackets, after white space. -/
def bracket (text : Text) : Except PathFailure (Segment × Text) := do
  let opened ← expect '[' text
  match skipWhitespace opened with
  | [] => .error ⟨.ended (.char ']'), []⟩
  | c :: after =>
    let body := c :: after
    if c == '*' then do
      let rest ← expect ']' after
      .ok (.wildcard, rest)
    else if c == '"' || c == '\'' then do
      let (names, afterKeys) ← keys body.length body
      let rest ← expect ']' afterKeys
      .ok (keysSegment names, rest)
    else if c == '-' || c.isDigit then
      if isSlice body then slice body
      else do
        let (n, afterNumber) ← number body
        let rest ← expect ']' afterNumber
        .ok (.index n, rest)
    else if c == ':' then slice body
    else .error ⟨.unexpected c .bracketBody, body⟩

/-! ## Dotted expressions -/

/-- Reads what follows a dot: `*` or a name. -/
def afterDot (text : Text) : Except PathFailure (Segment × Text) :=
  match text with
  | '*' :: rest => .ok (.wildcard, rest)
  | _ => do
    let (found, rest) ← name text
    .ok (.child found, rest)

/-- Reads the segments of a dotted expression. -/
def dotted (fuel : Nat) (text : Text) : Except PathFailure (List Segment) :=
  match fuel with
  | 0 => .error ⟨.ended .segment, text⟩
  | fuel + 1 =>
    match skipWhitespace text with
    | [] => .ok []
    | '.' :: '.' :: '[' :: rest => do
      let more ← dotted fuel ('[' :: rest)
      .ok (.descent :: more)
    | '.' :: '.' :: rest => do
      let (segment, after) ← afterDot rest
      let more ← dotted fuel after
      .ok (.descent :: segment :: more)
    | '.' :: rest => do
      let (segment, after) ← afterDot rest
      let more ← dotted fuel after
      .ok (segment :: more)
    | '[' :: rest => do
      let (segment, after) ← bracket ('[' :: rest)
      let more ← dotted fuel after
      .ok (segment :: more)
    | c :: rest => .error ⟨.unexpected c .dotOrBracket, c :: rest⟩

/-! ## Slash expressions -/

/-- The segment for a bare name between slashes. -/
def slashName (text : Text) : Except PathFailure (Segment × Text) :=
  let found := text.takeWhile fun c => c != '/' && c != '['
  let rest := text.dropWhile fun c => c != '/' && c != '['
  if found.isEmpty then .error ⟨.emptySegment, text⟩
  else if found == ['*'] then .ok (.wildcard, rest)
  else if found.contains '*' then .error ⟨.partWildcard found, rest⟩
  else .ok (.child found, rest)

/-- Reads the brackets that follow each other at the start of the text. -/
def brackets (fuel : Nat) (text : Text) : Except PathFailure (List Segment × Text) :=
  match fuel with
  | 0 => .ok ([], text)
  | fuel + 1 =>
    if text.head? == some '[' then do
      let (segment, rest) ← bracket text
      let (more, last) ← brackets fuel rest
      .ok (segment :: more, last)
    else .ok ([], text)

/-- Reads one step of a slash expression: a name, `*`, a quoted key or brackets, and the brackets
after it. -/
def slashStep (text : Text) : Except PathFailure (List Segment × Text) :=
  match text with
  | [] => .error ⟨.ended .segment, []⟩
  | c :: _ =>
    if c == '[' then brackets text.length text
    else do
      let (segment, after) ←
        if c == '"' || c == '\'' then (quotedKey text).map fun (key, last) => (.child key, last)
        else slashName text
      let (more, last) ← brackets after.length after
      .ok (segment :: more, last)

/-- Reads the steps of a slash expression. -/
def slashed (fuel : Nat) (text : Text) : Except PathFailure (List Segment) :=
  match fuel with
  | 0 => .error ⟨.ended .segment, text⟩
  | fuel + 1 => do
    let (segments, rest) ← slashStep text
    match rest with
    | [] => .ok segments
    | ['/'] => .error ⟨.ended .segmentAfterSlash, []⟩
    | ['/', '/'] => .error ⟨.ended .segmentAfterSlash, []⟩
    | '/' :: '/' :: after => do
      let more ← slashed fuel after
      .ok (segments ++ .descent :: more)
    | '/' :: after => do
      let more ← slashed fuel after
      .ok (segments ++ more)
    | c :: after => .error ⟨.unexpected c (.char '/'), c :: after⟩

/-! ## Expressions -/

/-- Reads an expression without white space around it. -/
def path : Text → Except PathFailure Path
  | [] => .error ⟨.emptyExpression, []⟩
  | '$' :: rest => do
    let segments ← dotted (rest.length + 1) rest
    .ok ⟨true, segments⟩
  | '/' :: '/' :: rest => do
    let segments ← slashed (rest.length + 1) rest
    .ok ⟨true, .descent :: segments⟩
  | '/' :: rest => do
    let segments ← slashed (rest.length + 1) rest
    .ok ⟨true, segments⟩
  | text => do
    let segments ← slashed (text.length + 1) text
    .ok ⟨false, segments⟩

end LosslessYaml.PathExpression

namespace LosslessYaml

/-- The path that an expression stands for. White space around the expression does not count. -/
def Path.parse (expression : Text) : Except PathError Path :=
  let trimmed := Text.trim expression
  (PathExpression.path trimmed).mapError (·.locate trimmed)

/-- A path together with the expression it was read from. -/
structure Selector where
  expression : Text
  path : Path
deriving Repr, DecidableEq

/-- The selector of an expression. -/
def Selector.compile (expression : Text) : Except PathError Selector :=
  (Path.parse expression).map fun path => ⟨expression, path⟩

end LosslessYaml
