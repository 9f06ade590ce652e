import LosslessYaml.Text.Decimal
import LosslessYaml.Value

/-!
# Tokens of TOML

Keys, strings, numbers and dates. Each function reads from the start of a text and gives what it
read together with the rest, or nothing where the text is malformed.
-/

namespace LosslessYaml.Toml

open Text

/-! ## Space -/

/-- A control character other than a tab. None may stand in a TOML file outside line ends. -/
def isControl (c : Char) : Bool := (c.toNat < 32 && c != '\t') || c.toNat == 127

/-- The text after blanks. -/
def skipBlanks (text : Text) : Text := text.dropWhile isBlank

/-- The text after a line end. -/
def afterNewline? : Text → Option Text
  | '\n' :: rest => some rest
  | '\r' :: '\n' :: rest => some rest
  | _ => none

/-- The text after the rest of a line that holds nothing but a comment. -/
def afterLine? (text : Text) : Option Text :=
  let rest := match skipBlanks text with
    | '#' :: comment => comment.dropWhile fun c => !isControl c
    | other => other
  if rest.isEmpty then some [] else afterNewline? rest

/-- The text after blanks, line ends and comments, from within a comment or not. -/
def skipGap (comment : Bool) : Text → Option Text
  | [] => some []
  | '\n' :: rest => skipGap false rest
  | '\r' :: '\n' :: rest => skipGap false rest
  | c :: rest =>
    if comment then if isControl c then none else skipGap true rest
    else if isBlank c then skipGap false rest
    else if c == '#' then skipGap true rest
    else some (c :: rest)

/-! ## Strings -/

/-- The character that a backslash and this one stand for. -/
def simpleEscape : Char → Option Char
  | 'b' => some '\x08'
  | 't' => some '\t'
  | 'n' => some '\n'
  | 'f' => some '\x0c'
  | 'r' => some '\r'
  | '"' => some '"'
  | '\\' => some '\\'
  | _ => none

/-- A character in front of what was read after it. -/
def pushed (c : Option Char) (read : Option (Text × Text)) : Option (Text × Text) := do
  let c ← c
  let (text, rest) ← read
  some (c :: text, rest)

/-- Reads a string on one line, from after its opening quote. -/
def basicString : Text → Option (Text × Text)
  | [] => none
  | '"' :: rest => some ([], rest)
  | '\\' :: 'u' :: a :: b :: c :: d :: rest => pushed (charOfHex? [a, b, c, d]) (basicString rest)
  | '\\' :: 'U' :: a :: b :: c :: d :: e :: f :: g :: h :: rest =>
    pushed (charOfHex? [a, b, c, d, e, f, g, h]) (basicString rest)
  | '\\' :: e :: rest => pushed (simpleEscape e) (basicString rest)
  | c :: rest => if isControl c then none else pushed (some c) (basicString rest)

/-- Reads a literal string on one line, from after its opening quote. -/
def literalString (text : Text) : Option (Text × Text) :=
  match text.dropWhile fun c => c != '\'' && !isControl c with
  | '\'' :: rest => some (text.takeWhile fun c => c != '\'' && !isControl c, rest)
  | _ => none

/-- Whether nothing but blanks stands before the end of the line. -/
def lineEnds (text : Text) : Bool := (afterNewline? (skipBlanks text)).isSome

/-- Reads a string over several lines, from after its opening quotes. A backslash before a line end
takes all white space after it away; `trimming` tells that this is going on. -/
def basicLines (trimming : Bool) : Text → Option (Text × Text)
  | [] => none
  | '"' :: '"' :: '"' :: '"' :: '"' :: rest => some (['"', '"'], rest)
  | '"' :: '"' :: '"' :: '"' :: rest => some (['"'], rest)
  | '"' :: '"' :: '"' :: rest => some ([], rest)
  | '\r' :: '\n' :: rest =>
    if trimming then basicLines true rest else pushed (some '\n') (basicLines false rest)
  | '\n' :: rest =>
    if trimming then basicLines true rest else pushed (some '\n') (basicLines false rest)
  | '\\' :: 'u' :: a :: b :: c :: d :: rest =>
    pushed (charOfHex? [a, b, c, d]) (basicLines false rest)
  | '\\' :: 'U' :: a :: b :: c :: d :: e :: f :: g :: h :: rest =>
    pushed (charOfHex? [a, b, c, d, e, f, g, h]) (basicLines false rest)
  | '\\' :: e :: rest =>
    if lineEnds (e :: rest) then basicLines true (e :: rest)
    else pushed (simpleEscape e) (basicLines false rest)
  | c :: rest =>
    if isControl c then none
    else if trimming && isBlank c then basicLines true rest
    else pushed (some c) (basicLines false rest)

/-- Reads a literal string over several lines, from after its opening quotes. -/
def literalLines : Text → Option (Text × Text)
  | [] => none
  | '\'' :: '\'' :: '\'' :: '\'' :: '\'' :: rest => some (['\'', '\''], rest)
  | '\'' :: '\'' :: '\'' :: '\'' :: rest => some (['\''], rest)
  | '\'' :: '\'' :: '\'' :: rest => some ([], rest)
  | '\r' :: '\n' :: rest => pushed (some '\n') (literalLines rest)
  | '\n' :: rest => pushed (some '\n') (literalLines rest)
  | c :: rest => if isControl c then none else pushed (some c) (literalLines rest)

/-- The text after a line end that follows the opening quotes at once. -/
def skipFirstNewline (text : Text) : Text := (afterNewline? text).getD text

/-- Reads a string of any of the four forms, if the text starts with one. -/
def string? : Text → Option (Option (Text × Text))
  | '"' :: '"' :: '"' :: rest => some (basicLines false (skipFirstNewline rest))
  | '\'' :: '\'' :: '\'' :: rest => some (literalLines (skipFirstNewline rest))
  | '"' :: rest => some (basicString rest)
  | '\'' :: rest => some (literalString rest)
  | _ => none

/-! ## Keys -/

/-- A character of a key that is not quoted. -/
def isBareKeyChar (c : Char) : Bool := c.isAlphanum || c == '_' || c == '-'

/-- Reads one part of a key. -/
def keyPart : Text → Option (Text × Text)
  | '"' :: rest => basicString rest
  | '\'' :: rest => literalString rest
  | text =>
    match text.takeWhile isBareKeyChar with
    | [] => none
    | part => some (part, text.dropWhile isBareKeyChar)

/-- The number of brackets within each other, or of parts in a key, at which reading stops. -/
def depthLimit : Nat := 80

/-- Reads parts of a key with dots between them. -/
def keyParts (fuel : Nat) (text : Text) : Option (List Text × Text) :=
  match fuel with
  | 0 => none
  | fuel + 1 => do
    let (part, rest) ← keyPart (skipBlanks text)
    match skipBlanks rest with
    | '.' :: after =>
      let (parts, last) ← keyParts fuel after
      some (part :: parts, last)
    | after => some ([part], after)

/-- Reads a key. -/
def key (text : Text) : Option (List Text × Text) := do
  let (parts, rest) ← keyParts text.length text
  if parts.length < depthLimit then some (parts, rest) else none

/-! ## Numbers and dates -/

/-- Whether the text is digits, with single underscores between them. -/
def isDigits (isDigit : Char → Bool) : Text → Bool
  | [] => false
  | [c] => isDigit c
  | c :: '_' :: rest => isDigit c && isDigits isDigit rest
  | c :: rest => isDigit c && isDigits isDigit rest

/-- A digit of a number that is written in base sixteen. -/
def isHexDigit (c : Char) : Bool := c.isDigit || ('a' ≤ c && c ≤ 'f') || ('A' ≤ c && c ≤ 'F')

/-- Whether the text is a decimal number without a sign and without a leading zero. -/
def isDecimal (text : Text) : Bool :=
  isDigits Char.isDigit text && (text.head? != some '0' || text.length == 1)

/-- The integer that the text is. It has to fit into 64 bits. -/
def integer? (text : Text) : Option Int := do
  let value : Int ← match text with
    | '0' :: 'x' :: digits =>
      if isDigits isHexDigit digits then some ↑(digitsValue 16 digits) else none
    | '0' :: 'o' :: digits =>
      if isDigits (fun c => '0' ≤ c && c ≤ '7') digits then some ↑(digitsValue 8 digits) else none
    | '0' :: 'b' :: digits =>
      if isDigits (fun c => c == '0' || c == '1') digits then some ↑(digitsValue 2 digits) else none
    | '-' :: digits => if isDecimal digits then some (-(digitsValue 10 digits : Int)) else none
    | digits =>
      if isDecimal (unsigned digits) then some ↑(digitsValue 10 (unsigned digits)) else none
  if Int64.minValue.toInt ≤ value ∧ value ≤ Int64.maxValue.toInt then some value else none

/-- Whether the text is the exponent of a floating point number, or is empty. -/
def isExponent : Text → Bool
  | [] => true
  | c :: rest => (c == 'e' || c == 'E') && isDigits Char.isDigit (unsigned rest)

/-- Whether the text is written like a floating point number. -/
def isFloatText (text : Text) : Bool :=
  let body := unsigned text
  let whole := body.takeWhile fun c => c.isDigit || c == '_'
  let rest := body.drop whole.length
  body == "inf".toList || body == "nan".toList ||
    (isDecimal whole &&
      match rest with
      | '.' :: fraction =>
        let digits := fraction.takeWhile fun c => c.isDigit || c == '_'
        isDigits Char.isDigit digits && isExponent (fraction.drop digits.length)
      | [] => false
      | exponent => isExponent exponent)

/-- Whether the text is a floating point number. Digits must not make it too great for one. -/
def isFloat (text : Text) : Bool :=
  isFloatText text &&
    ((Decimal.ofText? (text.filter (· != '_'))).map Decimal.toDouble).all (· != .infinite false)

/-- The number that two digits are, if it lies in the range. -/
def twoDigits? (low high : Nat) : Text → Option Nat
  | [a, b] =>
    if a.isDigit && b.isDigit then
      let n := digitsValue 10 [a, b]
      if low ≤ n && n ≤ high then some n else none
    else none
  | _ => none

/-- The number of days in a month. -/
def daysIn (year month : Nat) : Nat :=
  if month == 2 then
    if (year % 4 == 0 && year % 100 != 0) || year % 400 == 0 then 29 else 28
  else if month == 4 || month == 6 || month == 9 || month == 11 then 30
  else 31

/-- Whether the text is a date. -/
def isDate : Text → Bool
  | [a, b, c, d, '-', e, f, '-', g, h] =>
    [a, b, c, d].all Char.isDigit &&
      ((twoDigits? 1 12 [e, f]).any fun month =>
        (twoDigits? 1 (daysIn (digitsValue 10 [a, b, c, d]) month) [g, h]).isSome)
  | _ => false

/-- Whether the text is a fraction of a second, or is empty. -/
def isFraction : Text → Bool
  | [] => true
  | '.' :: digits => !digits.isEmpty && digits.all Char.isDigit
  | _ => false

/-- Whether the text is a time of day. -/
def isTime : Text → Bool
  | a :: b :: ':' :: c :: d :: ':' :: e :: f :: rest =>
    (twoDigits? 0 23 [a, b]).isSome && (twoDigits? 0 59 [c, d]).isSome &&
      (twoDigits? 0 60 [e, f]).isSome && isFraction rest
  | _ => false

/-- Whether the text is an offset from universal time. -/
def isOffset : Text → Bool
  | [z] => z == 'Z' || z == 'z'
  | [sign, a, b, ':', c, d] =>
    (sign == '+' || sign == '-') && (twoDigits? 0 23 [a, b]).isSome &&
      (twoDigits? 0 59 [c, d]).isSome
  | _ => false

/-- Whether the text is a time of day with or without an offset. -/
def isTimeWithOffset (text : Text) : Bool :=
  let time := text.takeWhile fun c => c.isDigit || c == ':' || c == '.'
  let offset := text.drop time.length
  isTime time && (offset.isEmpty || isOffset offset)

/-- Whether the text is a date, a time, or both. -/
def isDateTime (text : Text) : Bool :=
  isDate text || isTime text ||
    (isDate (text.take 10) &&
      match text.drop 10 with
      | c :: time => (c == 'T' || c == 't' || c == ' ') && isTimeWithOffset time
      | [] => false)

/-- A character of a number, a date or a word. -/
def isWordChar (c : Char) : Bool :=
  c.isAlphanum || c == '_' || c == '+' || c == '-' || c == '.' || c == ':'

/-- Reads a number, a date or a truth value. A date and a time may have a space between them. -/
def word (text : Text) : Option (Value × Text) :=
  let first := text.takeWhile isWordChar
  let rest := text.dropWhile isWordChar
  let (found, after) :=
    match rest with
    | ' ' :: more =>
      if isDate first && more.head?.any Char.isDigit then
        (first ++ ' ' :: more.takeWhile isWordChar, more.dropWhile isWordChar)
      else (first, rest)
    | _ => (first, rest)
  if found == "true".toList then some (.bool true, after)
  else if found == "false".toList then some (.bool false, after)
  else
    match integer? found with
    | some n => some (.integer n, after)
    | none => if isFloat found || isDateTime found then some (.other, after) else none

end LosslessYaml.Toml
