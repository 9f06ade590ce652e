import LosslessYaml.Text

/-!
# Looking ahead

What a text starts with. Each function answers for the text that remains to be read and consumes
nothing: it gives a length, or decides a question. A reader then cuts the text at that length, so
that nothing is lost whatever the length is.
-/

namespace LosslessYaml.Lookahead

open Text

/-! ## Single marks -/

/-- Whether an indicator may end here: the text is at its end, or starts with white space. -/
def atBreak : Text → Bool
  | [] => true
  | c :: _ => c == ' ' || c == '\t' || c == '\r' || c == '\n'

/-- Whether the text starts with the end of a flow entry. -/
def atFlowEnd : Text → Bool
  | [] => false
  | c :: _ => c == ',' || c == '\x7d' || c == ']'

/-- Whether the text starts with the colon of a mapping entry. -/
def atColon : Text → Bool
  | ':' :: rest => atBreak rest
  | _ => false

/-- Whether the text starts with the dash of a sequence item. -/
def atDash : Text → Bool
  | '-' :: rest => atBreak rest
  | _ => false

/-- Whether the text starts with the mark of a document's start. -/
def atDashes : Text → Bool
  | '-' :: '-' :: '-' :: rest => atBreak rest
  | _ => false

/-- Whether the text starts with the mark of a document's end. -/
def atDots : Text → Bool
  | '.' :: '.' :: '.' :: rest => atBreak rest
  | _ => false

/-- Whether a blank stands before a comment here. -/
def atComment (c : Char) (rest : Text) : Bool := isBlank c && rest.head? == some '#'

/-! ## Trivia -/

/-- The length of the trivia that the text starts with, within a comment or not. -/
def triviaFrom (comment : Bool) : Text → Nat
  | [] => 0
  | c :: rest =>
    if c == '\n' then triviaFrom false rest + 1
    else if comment || c == '#' then triviaFrom true rest + 1
    else if isTrailing c then triviaFrom false rest + 1
    else 0

/-- The length of the white space and the comments that the text starts with. -/
def triviaLength (text : Text) : Nat := triviaFrom false text

/-- The length of the trivia and the directives that the text starts with. A directive is a line
that starts with `%`; `lineStart` tells whether the text starts a line, and `skipping` whether it
starts within a comment or a directive. -/
def preambleLength (lineStart skipping : Bool) : Text → Nat
  | [] => 0
  | c :: rest =>
    if c == '\n' then preambleLength true false rest + 1
    else if skipping || c == '#' || (c == '%' && lineStart) then preambleLength false true rest + 1
    else if isTrailing c then preambleLength false false rest + 1
    else 0

/-- The length of the spaces and tabs that the text starts with. -/
def blankLength (text : Text) : Nat := (text.takeWhile isBlank).length

/-! ## Names and scalars on one line -/

/-- The length of the anchor or alias name that the text starts with. -/
def nameLength (text : Text) : Nat :=
  runLength
    (fun c _ => c == ' ' || c == '\t' || c == '\n' || c == '\r' || c == '\x0c' || isFlowIndicator c)
    (fun _ => false) text

/-- The length of the plain scalar on this line, in block context. -/
def plainLineLength (text : Text) : Nat :=
  runLength (fun c rest => c == '\n' || atComment c rest) isTrailing text

/-- The length of the plain scalar on this line, in flow context. -/
def plainFlowLength (text : Text) : Nat :=
  runLength
    (fun c rest =>
      c == '\n' || isFlowIndicator c || (c == ':' && (atBreak rest || atFlowEnd rest)) ||
        atComment c rest)
    isTrailing text

/-- The length of the plain mapping key that the text starts with, in block context. -/
def plainKeyLength (text : Text) : Nat :=
  runLength (fun c rest => c == '\n' || (c == ':' && atBreak rest)) isBlank text

/-- The length of a quoted text up to its closing quote, if there is one. The text starts after
the opening quote. A backslash takes the next character with it in double quotes, and two quotes
stand for one in single quotes. With `oneLine` the closing quote has to be found before a line
break that is not escaped. -/
def quotedLength (oneLine : Bool) (quote : Char) : Text → Option Nat
  | [] => none
  | [c] => if c == quote then some 0 else none
  | c :: d :: rest =>
    if oneLine && c == '\n' then none
    else if (c == '\\' && quote == '"') || (c == '\'' && quote == '\'' && d == '\'') then
      (quotedLength oneLine quote rest).map (· + 2)
    else if c == quote then some 0
    else (quotedLength oneLine quote (d :: rest)).map (· + 1)

/-! ## Mapping keys -/

/-- Whether a colon ends the plain key that the text starts with, on this line and before any
comment. -/
def plainKeyCloses : Text → Bool
  | [] => false
  | c :: rest =>
    if c == '\n' then false
    else if c == ':' && atBreak rest then true
    else if atComment c rest then false
    else plainKeyCloses rest

/-- Whether a key without an anchor, and its colon, start here. -/
def atBareKey : Text → Bool
  | [] => false
  | c :: rest =>
    if c == '"' || c == '\'' then
      match quotedLength true c rest with
      | none => false
      | some n => atColon ((rest.drop (n + 1)).dropWhile isBlank)
    else if c == '[' || c == '\x7b' || c == '|' || c == '>' || c == '*' || c == '!' || c == '#' ||
        c == '\n' || c == '&' then false
    else if c == '?' && atBreak rest then false
    else if atDash (c :: rest) then false
    else plainKeyCloses (c :: rest)

/-- Whether a mapping key, with or without an anchor, and its colon start here. -/
def atKey : Text → Bool
  | '&' :: rest => atBareKey ((rest.drop (nameLength rest)).dropWhile isBlank)
  | text => atBareKey text

/-! ## Scalars over several lines -/

/-- The length of a scalar that may go on over several lines. `next` is asked at the start of each
line that is not blank: it gives how much of the line belongs to the scalar, and whether the
scalar may go on after it, or `none` where the scalar has ended before the line. Blank lines belong
to the scalar when a later line does. `reached` is the length known so far, and `offset` how much
of the scalar was walked. -/
def extendLines (next : Text → Option (Nat × Bool)) : Nat → Nat → Text → Nat
  | reached, _, [] => reached
  | reached, offset, c :: rest =>
    if c == '\n' then
      if isBlankLine rest then extendLines next reached (offset + 1) rest
      else
        match next rest with
        | none => reached
        | some (n, true) => extendLines next (offset + 1 + n) (offset + 1) rest
        | some (n, false) => offset + 1 + n
    else extendLines next reached (offset + 1) rest

/-- How much of a line belongs to a literal or folded scalar whose lines are indented by at least
`floor` spaces. -/
def literalLine (floor : Nat) (line : Text) : Option (Nat × Bool) :=
  if indentation line < floor || atDashes line || atDots line then none
  else some (lineLength line, true)

/-- The length of a literal or folded scalar, from after its indicator. -/
def literalLength (floor : Nat) (text : Text) : Nat :=
  extendLines (literalLine floor) (lineLength text) 0 text

/-- Whether nothing but blanks stands before the end of the line. -/
def lineEnds (text : Text) : Bool :=
  match text.dropWhile isTrailing with
  | [] => true
  | c :: _ => c == '\n'

/-- How much of a line continues a plain scalar whose lines are indented by at least `floor`
spaces. -/
def plainLine (floor : Nat) (line : Text) : Option (Nat × Bool) :=
  let indent := indentation line
  let body := line.drop indent
  if indent < floor || body.head? == some '#' || atDashes line || atDots line ||
      atKey body then none
  else some (indent + plainLineLength body, lineEnds (body.drop (plainLineLength body)))

/-- The length of a plain scalar in block context, with its continuation lines. -/
def plainBlockLength (floor : Nat) (text : Text) : Nat :=
  let first := plainLineLength text
  if lineEnds (text.drop first) then extendLines (plainLine floor) first 0 text else first

/-! ## What a block node starts with -/

/-- The forms of a node in block context, told apart by how it starts. -/
inductive Opening where
  | anchor
  | aliasNode
  | tag
  | complexKey
  | flow
  | literal
  | folded
  | quoted (quote : Char)
  | item
  | key
  | plain
deriving Repr, DecidableEq

/-- The form of the node that starts here. -/
def opening : Text → Opening
  | [] => .plain
  | c :: rest =>
    let text := c :: rest
    if c == '&' && !atKey text then .anchor
    else if c == '*' then .aliasNode
    else if c == '!' then .tag
    else if c == '?' && atBreak rest then .complexKey
    else if c == '[' || c == '\x7b' then .flow
    else if c == '|' then .literal
    else if c == '>' then .folded
    else if (c == '"' || c == '\'') && !atKey text then .quoted c
    else if atDash text then .item
    else if atKey text then .key
    else .plain

end LosslessYaml.Lookahead
