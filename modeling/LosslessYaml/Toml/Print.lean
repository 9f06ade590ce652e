import LosslessYaml.Text

/-!
# Writing TOML strings

A string is written in the first kind of quotes in which it needs no escapes. One with line breaks
is written over several lines.
-/

namespace LosslessYaml.Toml

/-- A digit of a hexadecimal number, in upper case. -/
def upperHex (n : Nat) : Char := (Nat.digitChar n).toUpper

/-- A character within double quotes, with an escape where it needs one in any string. -/
def escaped (c : Char) : Text :=
  let n := c.toNat
  if c == '\t' then ['\\', 't']
  else if c == '\r' then ['\\', 'r']
  else if n == 8 then ['\\', 'b']
  else if n == 12 then ['\\', 'f']
  else if c == '\\' then ['\\', '\\']
  else if n < 32 || n == 127 then ['\\', 'u', '0', '0', upperHex (n / 16), upperHex (n % 16)]
  else [c]

/-- A text within double quotes on one line. -/
def escapedLine (text : Text) : Text :=
  text.flatMap fun c =>
    if c == '"' then ['\\', '"'] else if c == '\n' then ['\\', 'n'] else escaped c

/-- A text within three double quotes, which may go over several lines. At most two double quotes
stand in a row without an escape; `quotes` counts those right before the text. -/
def escapedLines (quotes : Nat) : Text → Text
  | [] => []
  | '"' :: rest =>
    if quotes < 2 then '"' :: escapedLines (quotes + 1) rest
    else '\\' :: '"' :: escapedLines 0 rest
  | '\n' :: rest => '\n' :: escapedLines 0 rest
  | c :: rest => escaped c ++ escapedLines 0 rest

/-- The greatest number of times that a character stands in a row, `current` of them right before
the text and `most` somewhere before it. -/
def longestRun (c : Char) (current most : Nat) : Text → Nat
  | [] => most
  | d :: rest =>
    if d == c then longestRun c (current + 1) (max most (current + 1)) rest
    else longestRun c 0 most rest

/-- A control character that has to be escaped in any string. -/
def needsEscape (c : Char) : Bool :=
  c != '\t' && c != '\n' && (c.toNat < 32 || c.toNat == 127)

/-- What a string is written in. -/
inductive Quotes where
  | double
  | single
  | threeDouble
  | threeSingle
deriving Repr, DecidableEq

/-- The quotes for a text: the first that need no escapes, or double ones. -/
def Quotes.choose (text : Text) : Quotes :=
  let isPrintable := !text.any needsEscape
  let severalLines := text.contains '\n'
  let hasBackslash := text.contains '\\'
  let singles := longestRun '\'' 0 0 text
  let doubles := longestRun '"' 0 0 text
  if isPrintable && !hasBackslash && doubles == 0 && !severalLines then .double
  else if isPrintable && singles == 0 && !severalLines then .single
  else if isPrintable && !hasBackslash && doubles ≤ 2 then .threeDouble
  else if isPrintable && singles ≤ 2 then .threeSingle
  else if severalLines then .threeDouble
  else .double

/-- A string as it is written. Over several lines it starts on the next one. -/
def quoted (text : Text) : Text :=
  let start := if text.contains '\n' then ['\n'] else []
  match Quotes.choose text with
  | .double => '"' :: escapedLine text ++ ['"']
  | .single => '\'' :: text ++ ['\'']
  | .threeDouble => ['"', '"', '"'] ++ start ++ escapedLines 0 text ++ ['"', '"', '"']
  | .threeSingle => ['\'', '\'', '\''] ++ start ++ text ++ ['\'', '\'', '\'']

/-- A truth value as it is written. -/
def truth (value : Bool) : Text := if value then "true".toList else "false".toList

/-- A key and its value on a line. -/
def line (key : String) (value : Text) : Text := key.toList ++ [' ', '=', ' '] ++ value ++ ['\n']

end LosslessYaml.Toml
