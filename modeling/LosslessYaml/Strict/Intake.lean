import LosslessYaml.Strict.Scalar
import LosslessYaml.Strict.Tag

/-!
# Tokens of texts that are taken in

The later revision of the format holds: tabs may stand wherever they are not indentation, keys may
be empty, a pair in square brackets is a mapping of its own, and between brackets an indicator may
start a plain scalar where it indicates nothing. What belongs to a value has to be indented more
than the mapping, also within quotes and brackets.
-/

namespace LosslessYaml.Strict.Intake

open Text Scanner

/-- How many brackets may be open at once. -/
def bracketLimit : Nat := 255

/-! ## White space -/

/-- Passes white space and comments. A tab is no indentation. -/
def skipSpace (fuel : Nat) : Scanner Unit :=
  match fuel with
  | 0 => failure
  | fuel + 1 => do
    let s ← get
    match s.spot.rest.head? with
    | none => pure ()
    | some c =>
      if c == '\t' && !s.enclosing.isEmpty && s.atLineStart && s.spot.column + 1 < s.floor then
        skipToLineEnd
        skipSpace fuel
      else if isBlank c then
        skipBlanks 1
        skipSpace fuel
      else if s.dialect.isBreak c then
        skipBreak
        if !s.inFlow then allowKeys true
        skipSpace fuel
      else if c == '#' then
        skipComment
        skipSpace fuel

/-- Passes the white space that has to follow a question mark, without tabs. `any` tells whether
there was some before. -/
def skipSpaceAfterMark (fuel : Nat) (any : Bool) : Scanner Unit :=
  match fuel with
  | 0 => failure
  | fuel + 1 => do
    let s ← get
    match s.spot.rest.head? with
    | some ' ' =>
      skipBlanks 1
      skipSpaceAfterMark fuel true
    | some '#' =>
      skipComment
      skipSpaceAfterMark fuel any
    | some c =>
      if s.dialect.isBreak c then
        skipBreak
        if !s.inFlow then allowKeys true
        skipSpaceAfterMark fuel true
      else guard (any && c != '\t')
    | none => guard any

/-! ## Brackets -/

/-- An opening bracket. -/
def bracketOpens (token : Token) : Scanner Unit := do
  saveKey
  guard ((← get).keys.length ≤ bracketLimit)
  modify fun s =>
    { s.indent with
      keys := none :: s.keys, keyAllowed := true, pairsOpen := s.pairsOpen || token == .openBrace }
  skip 1
  discard skipTrail
  push token

/-- Ends the pair that is open in square brackets. -/
def endPair : Scanner Unit := do
  if (← get).inPair then
    modify fun s => { s.push .closeBrace with inPair := false, pairsOpen := false }

/-- A closing bracket. -/
def bracketCloses (token : Token) : Scanner Unit := do
  dropKey
  modify fun s => { s with keys := if s.inFlow then s.keys.tail else s.keys, keyAllowed := false }
  endPair
  skip 1
  discard skipTrail
  modify fun s => if s.inFlow then { s with joint := s.spot.index } else s
  push token

/-- A comma between brackets. -/
def comma : Scanner Unit := do
  dropKey
  allowKeys true
  endPair
  skip 1
  discard skipTrail
  push .comma

/-! ## Block collections -/

/-- A dash before an item. -/
def dash : Scanner Unit := do
  let s ← get
  guard (!s.inFlow && s.keyAllowed)
  guard (!(s.tokens.head?.any Token.isProperty && s.spot.column == 0 && s.propertyColumn == 0 &&
    0 < s.floor))
  skip 1
  modify fun scan => scan.roll s.spot.column scan.count .sequenceStart
  let blanks ← skipTrail
  let next ← rest
  guard (!(blanks.contains '\t' && next.head? == some '-' && s.dialect.atSpace next.tail))
  if next.head?.any fun c => s.dialect.isBreak c || isFlowIndicator c then modify (·.indent)
  dropKey
  allowKeys true
  push .dash

/-- A question mark before a key. -/
def question : Scanner Unit := do
  let s ← get
  if s.inFlow then set { s with pairsOpen := true }
  else
    guard s.keyAllowed
    modify fun scan => scan.roll s.spot.column scan.count .mappingStart
  dropKey
  allowKeys (!s.inFlow)
  skip 1
  skipSpaceAfterMark (s.size + 1) false
  push .key

/-- A colon after a key. -/
def colon : Scanner Unit := do
  let s ← get
  let inPair := s.inFlow && !s.pairsOpen
  modify fun scan => { scan with inPair }
  skip 1
  if (← head?) == some '\t' then
    let blanks ← skipTrail
    guard (blanks.contains ' ' || !(← head?).any isWordChar)
  match s.keys.head?.join with
  | some candidate =>
    guard (!inPair || s.spot.line ≤ candidate.spot.line)
    modify fun scan => scan.insert candidate.number .key
    if inPair then modify fun scan => scan.insert candidate.number .openBrace
    modify fun scan =>
      { (scan.roll candidate.spot.column candidate.number .mappingStart).indent with
        keys := none :: scan.keys.tail, keyAllowed := false }
  | none =>
    if inPair then push .openBrace
    guard (s.inFlow || s.keyAllowed)
    modify fun scan =>
      { (scan.roll s.spot.column scan.count .mappingStart).indent with keyAllowed := !s.inFlow }
  push .colon

/-! ## Nodes -/

/-- An anchor or an alias. -/
def name (token : Text → Token) : Scanner Unit := do
  saveKey
  allowKeys false
  modify fun s => { s with propertyColumn := s.spot.column }
  let dialect := (← get).dialect
  skip 1
  let found ← takeWhile fun c => !dialect.isSpace c && !isFlowIndicator c && c != '\ufeff'
  guard (!found.isEmpty)
  push (token found)

/-- A literal or folded scalar. -/
def block (isFolded : Bool) : Scanner Unit := do
  saveKey
  allowKeys true
  push (.scalar false (← takenBlockScalar isFolded))

/-- A quoted scalar. On its line only a colon or the end of an item may follow. -/
def quotation (quote : Char) : Scanner Unit := do
  saveKey
  allowKeys false
  let start ← get
  let text ← quotedScalar quote
  discard skipTrail
  let s ← get
  guard (s.spot.rest.head?.all fun c =>
    s.dialect.isBreak c ||
      if s.inFlow then c == ',' || c == ']' || c == '\x7d' || c == ':'
      else c == ':' && start.spot.line == s.spot.line)
  skipSpace (s.size + 1)
  modify fun s => { s with joint := s.spot.index }
  push (.scalar false text)

/-- A plain scalar. -/
def plain : Scanner Unit := do
  saveKey
  allowKeys false
  push (.scalar true (← plainScalar))

/-! ## All tokens -/

/-- Passes a token that does not bound a document, which starts with the character. -/
def token (c : Char) (after : Text) : Scanner Unit := do
  let s ← get
  guard (s.floor ≤ s.spot.column + 1)
  let beforeSpace := s.dialect.atSpace after
  let isColon := c == ':' && (beforeSpace ||
    (s.inFlow && (after.head?.any isFlowIndicator || s.spot.index == s.joint)))
  if c == '[' then bracketOpens .openBracket
  else if c == '\x7b' then bracketOpens .openBrace
  else if c == ']' then bracketCloses .closeBracket
  else if c == '\x7d' then bracketCloses .closeBrace
  else if c == ',' then comma
  else if c == '-' && beforeSpace then dash
  else if c == '?' && beforeSpace then question
  else if isColon then colon
  else if c == '*' then name .aliasNode
  else if c == '&' then name .anchor
  else if c == '!' then tag
  else if (c == '|' || c == '>') && !s.inFlow then block (c == '>')
  else if c == '\'' || c == '"' then quotation c
  else
    guard (c != '%' && c != '@' && c != '\x60')
    plain

/-- Passes the next token. -/
def next : Scanner Unit := do
  skipSpace ((← get).size + 1)
  dropStaleKeys
  unrollHere
  let s ← get
  match s.spot.rest, s.documentMark? with
  | [], _ =>
    guard (s.keys.all fun key => key.all fun candidate => !candidate.required)
    leaveDocument
    push .ended
  | _, some mark =>
    documentMark mark
    if mark == '.' then skipToLineEnd
  | c :: after, none =>
    if s.spot.column == 0 && c == '%' then directive else token c after

/-- The tokens of a text. A character with the number zero ends it. -/
def tokens (text : Text) : List Token :=
  let body := text.takeWhile (· != '\x00')
  Scanner.run next (body.length + 2)
    { dialect := .intake, spot := { rest := body }, size := body.length }

end LosslessYaml.Strict.Intake
