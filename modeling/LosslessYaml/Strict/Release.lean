import LosslessYaml.Strict.Scalar
import LosslessYaml.Strict.Tag

/-!
# Tokens of texts that are given out

The earlier revision of the format holds: a tab is no white space where a key may start, indicators
between brackets always indicate, and names consist of letters, digits, underscores and dashes.
-/

namespace LosslessYaml.Strict.Release

open Text Scanner

/-- Passes white space and comments, and a byte order mark at the start of a line. -/
def skipSpace (fuel : Nat) : Scanner Unit :=
  match fuel with
  | 0 => failure
  | fuel + 1 => do
    if (← get).spot.column == 0 && (← head?) == some '\ufeff' then skip 1
    let s ← get
    discard (takeWhile fun c => c == ' ' || (c == '\t' && (s.inFlow || !s.keyAllowed)))
    if (← head?) == some '#' then skipComment
    if ← atBreak then
      skipBreak
      if !s.inFlow then allowKeys true
      skipSpace fuel

/-- An opening bracket. -/
def bracketOpens (token : Token) : Scanner Unit := do
  saveKey
  modify fun s => { s with keys := none :: s.keys, keyAllowed := true }
  skip 1
  push token

/-- A closing bracket. -/
def bracketCloses (token : Token) : Scanner Unit := do
  dropKey
  modify fun s => { s with keys := if s.inFlow then s.keys.tail else s.keys, keyAllowed := false }
  skip 1
  push token

/-- A comma. -/
def comma : Scanner Unit := do
  dropKey
  allowKeys true
  skip 1
  push .comma

/-- Starts a block collection here, unless one is open or this is between brackets. -/
def rollHere (token : Token) : Scanner Unit := do
  let s ← get
  guard (s.inFlow || s.keyAllowed)
  set (s.roll s.spot.column s.count token)

/-- A dash before an item. -/
def dash : Scanner Unit := do
  rollHere .sequenceStart
  dropKey
  allowKeys true
  skip 1
  push .dash

/-- A question mark before a key. -/
def question : Scanner Unit := do
  rollHere .mappingStart
  dropKey
  allowKeys (!(← get).inFlow)
  skip 1
  push .key

/-- A colon after a key. -/
def colon : Scanner Unit := do
  let s ← get
  match s.keys.head?.join with
  | some candidate =>
    set { (s.insert candidate.number .key).roll
        candidate.spot.column candidate.number .mappingStart with
      keys := none :: s.keys.tail, keyAllowed := false }
  | none =>
    rollHere .mappingStart
    allowKeys (!s.inFlow)
  skip 1
  push .colon

/-- An anchor or an alias. -/
def name (token : Text → Token) : Scanner Unit := do
  saveKey
  allowKeys false
  skip 1
  let found ← takeWhile isWordChar
  let next ← rest
  guard (!found.isEmpty && ((← get).dialect.atSpace next ||
    next.head?.any ['?', ':', ',', ']', '\x7d', '%', '@', '\x60'].contains))
  push (token found)

/-- A literal or folded scalar. -/
def block (isFolded : Bool) : Scanner Unit := do
  dropKey
  allowKeys true
  push (.scalar false (← releasedBlockScalar isFolded))

/-- A quoted scalar. -/
def quotation (quote : Char) : Scanner Unit := do
  saveKey
  allowKeys false
  push (.scalar false (← quotedScalar quote))

/-- A plain scalar. -/
def plain : Scanner Unit := do
  saveKey
  allowKeys false
  push (.scalar true (← plainScalar))

/-- Whether the character is an indicator with which no plain scalar starts. -/
def isIndicator (c : Char) : Bool :=
  isFlowIndicator c ||
    ['-', '?', ':', '#', '&', '*', '!', '|', '>', '\'', '"', '%', '@', '\x60'].contains c

/-- Passes a token that does not bound a document, which starts with the character. -/
def token (c : Char) (after : Text) : Scanner Unit := do
  let s ← get
  let beforeSpace := s.dialect.atSpace after
  if c == '[' then bracketOpens .openBracket
  else if c == '\x7b' then bracketOpens .openBrace
  else if c == ']' then bracketCloses .closeBracket
  else if c == '\x7d' then bracketCloses .closeBrace
  else if c == ',' then comma
  else if c == '-' && beforeSpace then dash
  else if c == '?' && (s.inFlow || beforeSpace) then question
  else if c == ':' && (s.inFlow || beforeSpace) then colon
  else if c == '*' then name .aliasNode
  else if c == '&' then name .anchor
  else if c == '!' then tag
  else if (c == '|' || c == '>') && !s.inFlow then block (c == '>')
  else if c == '\'' || c == '"' then quotation c
  else
    guard (c == '-' || c == '?' || c == ':' || !(s.dialect.isSpace c || isIndicator c))
    plain

/-- Passes the next token. -/
def next : Scanner Unit := do
  skipSpace ((← get).size + 1)
  dropStaleKeys
  unrollHere
  let s ← get
  match s.spot.rest, s.documentMark? with
  | [], _ =>
    leaveDocument
    push .ended
  | _, some mark => documentMark mark
  | c :: after, none =>
    if s.spot.column == 0 && c == '%' then directive else token c after

/-- The tokens of a text. None can be read if it holds a character that must not stand in it. -/
def tokens (text : Text) : List Token :=
  if text.all (Dialect.allows .release) then
    Scanner.run next (text.length + 2)
      { dialect := .release, spot := { rest := text }, size := text.length }
  else [.malformed]

end LosslessYaml.Strict.Release
