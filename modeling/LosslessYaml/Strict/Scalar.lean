import LosslessYaml.Strict.Scan
import LosslessYaml.Text.Numeral

/-!
# Strict scalars

The contents of quoted, plain, literal and folded scalars. The two dialects share how lines are
folded, and differ in how far lines have to be indented.
-/

namespace LosslessYaml.Strict

open Text

/-! ## Gaps between words -/

/-- The space between two words of a scalar. -/
structure Gap where
  isBroken : Bool := false
  /-- The blanks, if no line is broken. -/
  blanks : Text := []
  /-- The first line break. -/
  first : Text := []
  /-- The line breaks after the first. -/
  more : Text := []
deriving Repr

/-- What a gap stands for. The first line break is a space unless others follow it. -/
def Gap.text (gap : Gap) : Text :=
  if !gap.isBroken then gap.blanks
  else if gap.first.head? == some '\n' then if gap.more.isEmpty then [' '] else gap.more
  else gap.first ++ gap.more

namespace Scanner

/-- Passes a blank in the indentation of a plain scalar's line. A tab is none, unless nothing but a
comment follows it on the line. -/
def indentPlain : Scanner Unit := do
  let s ← get
  if s.spot.rest.head? == some '\t' && s.spot.column < s.floor then
    guard (s.dialect == .intake)
    skipToLineEnd
  else skipBlanks 1

/-- Passes a blank in the indentation of a quoted scalar's line. -/
def indentQuoted : Scanner Unit := do
  let s ← get
  guard (s.dialect == .release || s.spot.rest.head? != some '\t' || s.floor ≤ s.spot.column + 1)
  skipBlanks 1

/-- Passes the space between two words. -/
def takeGap (isPlain : Bool) (fuel : Nat) (gap : Gap) : Scanner Gap :=
  match fuel with
  | 0 => failure
  | fuel + 1 => do
    if ← atBreak then
      let found ← takeBreak
      takeGap isPlain fuel
        (if gap.isBroken then { gap with more := gap.more ++ found }
        else { gap with isBroken := true, blanks := [], first := found })
    else if (← head?).any isBlank then
      if gap.isBroken then
        if isPlain then
          indentPlain
          takeGap isPlain fuel { gap with isBroken := (← get).atLineStart }
        else
          indentQuoted
          takeGap isPlain fuel gap
      else
        let found ← takeBlanks
        takeGap isPlain fuel { gap with blanks := gap.blanks ++ found }
    else return gap

/-! ## Quoted scalars -/

/-- The character that a backslash and this one stand for. -/
def escape? : Char → Option Char
  | '0' => some '\x00'
  | 'a' => some '\x07'
  | 'b' => some '\x08'
  | 't' => some '\t'
  | '\t' => some '\t'
  | 'n' => some '\n'
  | 'v' => some '\x0b'
  | 'f' => some '\x0c'
  | 'r' => some '\r'
  | 'e' => some '\x1b'
  | ' ' => some ' '
  | '"' => some '"'
  | '/' => some '/'
  | '\\' => some '\\'
  | 'N' => some '\u0085'
  | '_' => some '\u00a0'
  | 'L' => some '\u2028'
  | 'P' => some '\u2029'
  | _ => none

/-- The number of hexadecimal digits after an escape. -/
def hexDigits? : Char → Option Nat
  | 'x' => some 2
  | 'u' => some 4
  | 'U' => some 8
  | _ => none

/-- Passes an escape, and gives what it stands for. -/
def takeEscape : Scanner Char := do
  match (← rest).drop 1 with
  | [] => failure
  | c :: digits =>
    match hexDigits? c with
    | some n =>
      guard ((digits.take n).length == n)
      let found ← charOfHex? (digits.take n)
      skip (n + 2)
      return found
    | none =>
      let found ← escape? c
      skip 2
      return found

/-- Passes a word of a quoted scalar, up to a blank, a line break or the closing quote, and gives it
from its end on. The flag tells whether it ends with a line break that is escaped. -/
def quotedWord (quote : Char) (fuel : Nat) (found : Text) : Scanner (Text × Bool) :=
  match fuel with
  | 0 => failure
  | fuel + 1 => do
    let dialect := (← get).dialect
    match ← rest with
    | [] => return (found, false)
    | c :: after =>
      if dialect.isSpace c then return (found, false)
      else if c == '\'' && quote == '\'' && after.head? == some '\'' then
        skip 2
        quotedWord quote fuel ('\'' :: found)
      else if c == quote then return (found, false)
      else if c == '\\' && quote == '"' then
        if after.head?.any dialect.isBreak then
          skip 1
          skipBreak
          return (found, true)
        else
          let found' ← takeEscape
          quotedWord quote fuel (found' :: found)
      else
        skip 1
        quotedWord quote fuel (c :: found)

/-- Passes the words of a quoted scalar and its closing quote. `found` holds the parts before them,
the last one first. -/
def quotedWords (quote : Char) (fuel : Nat) (found : List Text) : Scanner Text :=
  match fuel with
  | 0 => failure
  | fuel + 1 => do
    let s ← get
    guard (s.documentMark?.isNone && !s.spot.rest.isEmpty)
    guard (s.dialect == .release || s.floor ≤ s.spot.column + 1)
    let (word, isBroken) ← quotedWord quote (s.size + 1) []
    if (← head?) == some quote then
      skip 1
      return (word.reverse :: found).reverse.flatten
    else
      let gap ← takeGap false (s.size + 1) { isBroken }
      quotedWords quote fuel (gap.text :: word.reverse :: found)

/-- Passes a quoted scalar, and gives its text. -/
def quotedScalar (quote : Char) : Scanner Text := do
  skip 1
  quotedWords quote ((← get).size + 1) []

/-! ## Plain scalars -/

/-- Whether a plain scalar ends before the character. -/
def endsPlain (dialect : Dialect) (inFlow : Bool) (c : Char) (rest : Text) : Bool :=
  dialect.isSpace c ||
    (c == ':' && (dialect.atSpace rest ||
      (inFlow && dialect == .intake && rest.head?.any isFlowIndicator))) ||
    (inFlow && isFlowIndicator c)

/-- Whether a plain scalar holds a colon that it must not hold. -/
def badColon (dialect : Dialect) (inFlow : Bool) (c : Char) (rest : Text) : Bool :=
  inFlow && dialect == .release && c == ':' &&
    (rest.head?.any fun d => isFlowIndicator d || d == '?')

/-- The word of a plain scalar that a text starts with, or nothing where it is malformed. -/
def plainWord (dialect : Dialect) (inFlow : Bool) (found : Text) : Text → Option Text
  | [] => some found.reverse
  | c :: rest =>
    if badColon dialect inFlow c rest then none
    else if endsPlain dialect inFlow c rest then some found.reverse
    else plainWord dialect inFlow (c :: found) rest

/-- Whether no more words of a plain scalar follow. -/
def plainEnds (s : Scan) : Bool :=
  s.documentMark?.isSome || s.spot.rest.head? == some '#' ||
    match s.spot.rest with
    | [] => true
    | c :: rest => !badColon s.dialect s.inFlow c rest && endsPlain s.dialect s.inFlow c rest

/-- Passes the words of a plain scalar. `found` holds the parts before them, the last one first. The
flag tells whether a line break follows the last word. -/
def plainWords (fuel : Nat) (found : List Text) (gap : Gap) : Scanner (Text × Bool) :=
  match fuel with
  | 0 => failure
  | fuel + 1 => do
    let s ← get
    if plainEnds s then return (found.reverse.flatten, gap.isBroken)
    else
      guard (!(s.dialect == .intake && s.inFlow && s.spot.rest.head? == some '-' &&
        (s.spot.rest.drop 1).head?.any isFlowIndicator))
      let word ← plainWord s.dialect s.inFlow [] s.spot.rest
      skip word.length
      let found := word :: gap.text :: found
      let gap ← takeGap true (s.size + 1) {}
      let next ← get
      if (gap.isBroken || !gap.blanks.isEmpty) && (s.inFlow || s.floor ≤ next.spot.column) then
        plainWords fuel found gap
      else return (found.reverse.flatten, gap.isBroken)

/-- Passes a plain scalar, and gives its text. -/
def plainScalar : Scanner Text := do
  modify fun s => s.dropIndentations s.enclosing
  let s ← get
  guard (s.dialect == .release || !s.inFlow || s.floor ≤ s.spot.column)
  let (text, isBroken) ← plainWords (s.size + 1) [] {}
  if isBroken then allowKeys true
  return text

/-! ## Literal and folded scalars -/

/-- What becomes of the line breaks at the end of a scalar. -/
inductive Chomping where
  | strip
  | clip
  | keep
deriving Repr, DecidableEq

/-- Passes a mark that says what becomes of the last line breaks, if there is one. -/
def takeChomping : Scanner (Option Chomping) := do
  match ← head? with
  | some '-' => skip 1; return some .strip
  | some '+' => skip 1; return some .keep
  | _ => return none

/-- Passes a digit that says how far a scalar is indented, zero if there is none. -/
def takeIndentation : Scanner Nat := do
  match ← head? with
  | some c =>
    if c.isDigit then
      guard (c != '0')
      skip 1
      return c.toNat - 48
    else return 0
  | none => return 0

/-- Passes the header of a literal or folded scalar. -/
def blockHeader : Scanner (Chomping × Nat) := do
  skip 1
  let before ← takeChomping
  let indentation ← takeIndentation
  let after ← if before.isNone then takeChomping else pure none
  skipToLineEnd
  return ((before.or after).getD .clip, indentation)

/-- Passes blank lines and the indentation after them, at most up to the column `limit`. Gives the
greatest column that was reached and the line breaks. -/
def blankLines (limit : Option Nat) (fuel most : Nat) (found : List Text) :
    Scanner (Nat × Text) :=
  match fuel with
  | 0 => failure
  | fuel + 1 => do
    let s ← get
    let spaces := indentation s.spot.rest
    skipBlanks (limit.elim spaces fun limit => min spaces (limit - s.spot.column))
    let column := (← get).spot.column
    guard (s.dialect == .intake || (← head?) != some '\t' || limit.any (· ≤ column))
    if ← atBreak then
      let lineBreak ← takeBreak
      blankLines limit fuel (max most column) (lineBreak :: found)
    else return (max most column, found.reverse.flatten)

/-- The lines of a literal or folded scalar: what was read, from its end on, the line break after it
and the breaks of blank lines after that. -/
structure BlockLines where
  found : List Text := []
  lineBreak : Text := []
  blank : Text := []
  /-- Whether the last line starts with a blank. -/
  isIndented : Bool := false

/-- Passes the lines of a literal or folded scalar that is indented up to the given column. -/
def blockLines (isFolded : Bool) (column : Nat) (fuel : Nat) (lines : BlockLines) :
    Scanner BlockLines :=
  match fuel with
  | 0 => failure
  | fuel + 1 => do
    let s ← get
    if s.spot.column != column || s.spot.rest.isEmpty || s.documentMark? == some '.' then
      return lines
    else
      let isIndented := s.spot.rest.head?.any isBlank
      let isJoined := isFolded && lines.lineBreak.head? == some '\n' && !lines.isIndented &&
        !isIndented
      let between :=
        if !isJoined then lines.lineBreak ++ lines.blank
        else if lines.blank.isEmpty then [' ']
        else lines.blank
      let line ← takeWhile fun c => !s.dialect.isBreak c
      let lineBreak ← if ← atBreak then takeBreak else pure []
      let (_, blank) ← blankLines (some column) (s.size + 1) 0 []
      blockLines isFolded column fuel
        { found := line :: between :: lines.found, lineBreak, blank, isIndented }

/-- The column of a literal or folded scalar whose header asks for an indentation. -/
def askedColumn (floor indentation : Nat) : Nat := max floor 1 - 1 + indentation

/-- The text of the lines, with the line breaks at their end that are kept. -/
def BlockLines.text (lines : BlockLines) (chomping : Chomping) : Text :=
  let text := lines.found.reverse.flatten
  match chomping with
  | .strip => text
  | .clip => text ++ lines.lineBreak
  | .keep => text ++ lines.lineBreak ++ lines.blank

/-- Passes a literal or folded scalar of a text that is given out. -/
def releasedBlockScalar (isFolded : Bool) : Scanner Text := do
  let (chomping, indentation) ← blockHeader
  if ← atBreak then skipBreak
  let s ← get
  let asked := askedColumn s.floor indentation
  let (most, blank) ← blankLines (if indentation == 0 then none else some asked) (s.size + 1) 0 []
  let column := if indentation == 0 then max most (max s.floor 1) else asked
  let lines ← blockLines isFolded column (s.size + 1) { blank }
  return lines.text chomping

/-- Passes a literal or folded scalar of a text that is taken in. A last line without a line break
counts as one with it. -/
def takenBlockScalar (isFolded : Bool) : Scanner Text := do
  modify fun s => s.dropIndentations s.enclosing
  let (chomping, indentation) ← blockHeader
  let hasLines ← atBreak
  if hasLines then skipBreak
  guard ((← head?) != some '\t')
  let s ← get
  let asked := askedColumn s.floor indentation
  let (most, blank) ← blankLines (if indentation == 0 then none else some asked) (s.size + 1) 0 []
  let column := if indentation == 0 then max most s.floor else asked
  let start ← get
  if start.spot.rest.isEmpty then
    match chomping with
    | .strip => return []
    | .clip => return if hasLines then ['\n'] else []
    | .keep => return if !blank.isEmpty then blank else if hasLines then ['\n'] else []
  else
    guard (!(start.spot.column < column && s.floor ≤ start.spot.column))
    let lines ← blockLines isFolded column (s.size + 1) { blank }
    let last ← get
    let isCut := last.spot.rest.isEmpty && max column 1 ≤ last.spot.column
    return { lines with lineBreak := if isCut then lines.lineBreak ++ ['\n'] else lines.lineBreak }
      |>.text chomping

end Scanner

end LosslessYaml.Strict
