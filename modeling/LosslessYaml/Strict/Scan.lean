import LosslessYaml.Strict.Dialect
import LosslessYaml.Strict.Token

/-!
# Scans

A scan is how far a text was cut into tokens: the place that was reached, the collections that are
open there, the places where keys may have started, and the tokens. A `Scanner` moves a scan on, and
stops where the text is malformed.
-/

namespace LosslessYaml.Strict

open Text

/-! ## Spots -/

/-- A place in a text. -/
structure Spot where
  rest : Text
  line : Nat := 0
  column : Nat := 0
  /-- The number of characters before this place. -/
  index : Nat := 0
  /-- The number of bytes before this place. -/
  bytes : Nat := 0
deriving Repr

namespace Spot

/-- The spot after the next `n` characters of the line. -/
def skip (spot : Spot) (n : Nat) : Spot :=
  let passed := spot.rest.take n
  { rest := spot.rest.drop n
    line := spot.line
    column := spot.column + passed.length
    index := spot.index + passed.length
    bytes := passed.foldl (fun bytes c => bytes + c.utf8Size) spot.bytes }

/-- The spot after the line break that stands here. -/
def skipBreak (spot : Spot) : Spot :=
  let width := match spot.rest with
    | '\r' :: '\n' :: _ => 2
    | _ => 1
  { spot.skip width with line := spot.line + 1, column := 0 }

end Spot

/-! ## The state of a scan -/

/-- A place where a key may have started that is known as one only by the colon after it. -/
structure Candidate where
  /-- The number of tokens before the key. -/
  number : Nat
  /-- Whether the text is malformed if there is no key. -/
  required : Bool
  spot : Spot

/-- What was open before the innermost collection was. -/
structure Enclosing where
  floor : Nat
  /-- Whether the innermost one is a block collection, and not only an indentation. -/
  isBlock : Bool
deriving Repr, DecidableEq

/-- How far a text was cut into tokens. -/
structure Scan where
  dialect : Dialect
  spot : Spot
  /-- The length of the text, which bounds all loops over it. -/
  size : Nat
  /-- The least column right of the innermost collection. -/
  floor : Nat := 0
  enclosing : List Enclosing := []
  /-- Whether a key may start here. -/
  keyAllowed : Bool := true
  /-- For each pair of brackets around this place, and for what is outside all of them, where its
  latest key may have started. -/
  keys : List (Option Candidate) := [none]
  /-- The tokens that were found, the last one first. -/
  tokens : List Token := []
  /-- How many they are. -/
  count : Nat := 0
  /-- Whether only blanks stand before this place on its line. -/
  atLineStart : Bool := true
  /-- The column of the latest anchor or tag. -/
  propertyColumn : Nat := 0
  /-- The index after the latest key in brackets to which a colon may be joined. -/
  joint : Nat := 0
  /-- Whether the latest bracket or question mark makes pairs those of a mapping. -/
  pairsOpen : Bool := false
  /-- Whether a pair in square brackets is open, which is a mapping of its own. -/
  inPair : Bool := false

namespace Scan

/-- Whether brackets are open. -/
def inFlow (s : Scan) : Bool := 1 < s.keys.length

/-- Adds a token. -/
def push (s : Scan) (token : Token) : Scan :=
  { s with tokens := token :: s.tokens, count := s.count + 1 }

/-- Puts a token in before the one with the given number. -/
def insert (s : Scan) (number : Nat) (token : Token) : Scan :=
  { s with tokens := s.tokens.insertIdx (s.count - number) token, count := s.count + 1 }

/-- The mark of a document's start or end that stands here. -/
def documentMark? (s : Scan) : Option Char :=
  match s.spot.rest with
  | a :: b :: c :: rest =>
    if s.spot.column == 0 && a == b && b == c && (a == '-' || a == '.') && s.dialect.atSpace rest
    then some a
    else none
  | _ => none

/-- Ends the collections right of the column before `limit`. -/
def unroll (limit : Nat) : List Enclosing → Scan → Scan
  | [], s => s
  | ⟨floor, isBlock⟩ :: enclosing, s =>
    if limit < s.floor then
      unroll limit enclosing { (if isBlock then s.push .blockEnd else s) with floor, enclosing }
    else s

/-- Ends the indentations that are no block collections. -/
def dropIndentations : List Enclosing → Scan → Scan
  | ⟨floor, false⟩ :: enclosing, s => dropIndentations enclosing { s with floor, enclosing }
  | _, s => s

/-- Starts a block collection at the column, if none is open there. An indentation that is no block
collection gives way to it. The token goes before the one with the given number. -/
def roll (s : Scan) (column number : Nat) (token : Token) : Scan :=
  if s.inFlow then s
  else
    let s := match s.enclosing with
      | ⟨floor, false⟩ :: enclosing =>
        if s.floor ≤ column + 1 then { s with floor, enclosing } else s
      | _ => s
    if s.floor < column + 1 then
      { s.insert number token with
        floor := column + 1, enclosing := ⟨s.floor, true⟩ :: s.enclosing }
    else s

/-- Indents what follows by one column more than the block collection it is in. -/
def indent (s : Scan) : Scan :=
  match s.enclosing with
  | ⟨_, true⟩ :: _ =>
    if s.inFlow then s
    else { s with floor := s.floor + 1, enclosing := ⟨s.floor, false⟩ :: s.enclosing }
  | _ => s

end Scan

/-! ## Scanners -/

/-- A step of a scan, which gives something or finds the text malformed. -/
abbrev Scanner := StateT Scan Option

namespace Scanner

/-- What is left of the text. -/
def rest : Scanner Text := return (← get).spot.rest

/-- The next character. -/
def head? : Scanner (Option Char) := return (← rest).head?

/-- Whether a line break comes next. -/
def atBreak : Scanner Bool := do
  let s ← get
  return s.spot.rest.head?.any s.dialect.isBreak

/-- Whether a line break or the end of the text comes next. -/
def atLineEnd : Scanner Bool := return (← get).dialect.atLineEnd (← rest)

/-- Adds a token. -/
def push (token : Token) : Scanner Unit := modify (·.push token)

/-- Passes `n` characters of the line, not only blanks. -/
def skip (n : Nat) : Scanner Unit :=
  modify fun s => { s with spot := s.spot.skip n, atLineStart := s.atLineStart && n == 0 }

/-- Passes `n` blanks. -/
def skipBlanks (n : Nat) : Scanner Unit := modify fun s => { s with spot := s.spot.skip n }

/-- Passes a line break. -/
def skipBreak : Scanner Unit :=
  modify fun s => { s with spot := s.spot.skipBreak, atLineStart := true }

/-- Passes the characters that have the property, and gives them. -/
def takeWhile (p : Char → Bool) : Scanner Text := do
  let found := (← rest).takeWhile p
  skip found.length
  return found

/-- Passes blanks, and gives them. -/
def takeBlanks : Scanner Text := do
  let found := (← rest).takeWhile isBlank
  skipBlanks found.length
  return found

/-- Passes a comment, up to the end of its line. -/
def skipComment : Scanner Unit := do
  let dialect := (← get).dialect
  discard (takeWhile fun c => !dialect.isBreak c)

/-- Passes blanks and a comment, and gives the blanks. In a text that is taken in, a comment needs a
blank before it. -/
def skipTrail : Scanner Text := do
  let blanks ← takeBlanks
  if (← head?) == some '#' then
    guard ((← get).dialect == .release || !blanks.isEmpty)
    skipComment
  return blanks

/-- Passes blanks and a comment, after which the line has to end. -/
def skipToLineEnd : Scanner Unit := do
  discard skipTrail
  guard (← atLineEnd)

/-- Passes a line break, and gives what it stands for in a scalar. -/
def takeBreak : Scanner Text := do
  let c ← head?
  skipBreak
  return [if c == some '\u2028' || c == some '\u2029' then c.getD '\n' else '\n']

/-! ## Keys -/

/-- Lets keys start here, or not. -/
def allowKeys (allowed : Bool) : Scanner Unit := modify fun s => { s with keyAllowed := allowed }

/-- Forgets where the latest key may have started. -/
def dropKey : Scanner Unit := do
  let s ← get
  match s.keys with
  | some candidate :: keys =>
    guard (!candidate.required)
    set { s with keys := none :: keys }
  | _ => pure ()

/-- Whether a key that may have started is on another line, or too long ago. -/
def isStale (s : Scan) (candidate : Candidate) : Bool :=
  match s.dialect with
  | .intake =>
    !s.inFlow &&
      (candidate.spot.line < s.spot.line || candidate.spot.index + 1024 < s.spot.index)
  | .release => candidate.spot.line < s.spot.line || candidate.spot.bytes + 1024 < s.spot.bytes

/-- Forgets the places of keys that are stale. -/
def dropStaleKeys : Scanner Unit := do
  let s ← get
  guard (s.keys.all fun key =>
    key.all fun candidate => !(isStale s candidate && candidate.required))
  set { s with keys := s.keys.map (Option.filter fun candidate => !isStale s candidate) }

/-- Notes that a key may start here. -/
def saveKey : Scanner Unit := do
  if (← get).keyAllowed then
    if (← get).dialect == .release then dropKey
    let s ← get
    let isOwn := s.enclosing.head?.any Enclosing.isBlock && s.floor == s.spot.column + 1
    let candidate : Candidate := ⟨s.count, !s.inFlow && isOwn, s.spot⟩
    set { s with keys := some candidate :: s.keys.tail }

/-! ## Collections -/

/-- Ends the block collections that this place does not belong to. -/
def unrollHere : Scanner Unit :=
  modify fun s => if s.inFlow then s else s.unroll (s.spot.column + 1) s.enclosing

/-- Ends all block collections, before the bound of a document. -/
def leaveDocument : Scanner Unit := do
  modify fun s => if s.inFlow then s else s.unroll 0 s.enclosing
  dropKey
  allowKeys false

/-- Passes the mark of a document's start or end. -/
def documentMark (mark : Char) : Scanner Unit := do
  leaveDocument
  skip 3
  push (if mark == '-' then .documentStart else .documentEnd)

/-! ## All tokens -/

/-- The tokens up to where a text is malformed. What may be a key is not known as a token before the
text is read to where it is decided. -/
def cut (s : Scan) : List Token :=
  let undecided := s.keys.filterMap (Option.filter fun candidate =>
    candidate.required || !isStale s candidate)
  let count := undecided.foldl (fun count candidate => min count candidate.number) s.count
  s.tokens.reverse.take count ++ [.malformed]

/-- Finds tokens until the text ends or is malformed. -/
def run (next : Scanner Unit) (fuel : Nat) (s : Scan) : List Token :=
  match fuel with
  | 0 => cut s
  | fuel + 1 =>
    match next s with
    | none => cut s
    | some (_, s) => if s.tokens.head? == some .ended then s.tokens.reverse else run next fuel s

end Scanner

end LosslessYaml.Strict
