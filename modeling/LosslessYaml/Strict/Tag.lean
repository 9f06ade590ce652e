import LosslessYaml.Strict.Scan
import LosslessYaml.Text.Numeral

/-!
# Tags and directives

A tag has a handle and a suffix; directives declare handles and the version of the format. Both may
hold bytes in hexadecimal digits after a percent sign.
-/

namespace LosslessYaml.Strict

open Text

/-- A character of a tag between angle brackets, or of what a handle stands for. -/
def Dialect.isUriChar (dialect : Dialect) (c : Char) : Bool :=
  isWordChar c || (dialect == .intake && c == '#') ||
    [';', '/', '?', ':', '@', '&', '=', '+', '$', ',', '.', '!', '~', '*', '\'', '(', ')', '[', ']',
      '%'].contains c

/-- A character of a tag's suffix. -/
def Dialect.isTagChar (dialect : Dialect) (c : Char) : Bool :=
  dialect.isUriChar c && !isFlowIndicator c && (dialect == .release || c != '!')

namespace Scanner

/-! ## Escapes -/

/-- Passes a byte that is written in hexadecimal digits. -/
def escapedByte : Scanner Nat := do
  match ← rest with
  | '%' :: high :: low :: _ =>
    let byte ← hexValue? [high, low]
    skip 3
    return byte
  | _ => failure

/-- How many bytes follow the first byte of a character. -/
def trailingBytes? (first : Nat) : Option Nat :=
  if first < 0x80 then some 0
  else if 0xC0 ≤ first && first < 0xE0 then some 1
  else if 0xE0 ≤ first && first < 0xF0 then some 2
  else if 0xF0 ≤ first && first < 0xF8 then some 3
  else none

/-- Passes `n` bytes in the middle of a character. -/
def escapedBytes : Nat → Scanner (List Nat)
  | 0 => return []
  | n + 1 => do
    let byte ← escapedByte
    guard (0x80 ≤ byte && byte < 0xC0)
    return byte :: (← escapedBytes n)

/-- Passes the bytes of a character. In a text that is taken in, they are the digits of its number
to base 256. -/
def escapedChar : Scanner Bytes := do
  let first ← escapedByte
  let count ← trailingBytes? first
  let bytes := first :: (← escapedBytes count)
  match (← get).dialect with
  | .release => return bytes.map UInt8.ofNat
  | .intake =>
    let number := bytes.foldl (fun n byte => 256 * n + byte) 0
    guard (decide number.isValidChar)
    return Text.toBytes [Char.ofNat number]

/-- Passes characters with the property and escapes, and gives their bytes. -/
def uri (isPart : Char → Bool) (fuel : Nat) (found : List Bytes) : Scanner Bytes :=
  match fuel with
  | 0 => failure
  | fuel + 1 => do
    match ← head? with
    | some c =>
      if !isPart c then return found.reverse.flatten
      else if c == '%' then uri isPart fuel ((← escapedChar) :: found)
      else
        skip 1
        uri isPart fuel (Text.toBytes [c] :: found)
    | none => return found.reverse.flatten

/-! ## Tags -/

/-- Passes a handle: exclamation marks, and a name between them. Without the second mark it is the
start of a suffix, which a declaration must not have. -/
def tagHandle (isDeclared : Bool) : Scanner Text := do
  guard ((← head?) == some '!')
  skip 1
  let name ← takeWhile isWordChar
  if (← head?) == some '!' then
    skip 1
    return '!' :: (name ++ ['!'])
  else
    guard (!isDeclared || name.isEmpty)
    return '!' :: name

/-- Passes the handle and the suffix of a tag. A tag in angle brackets has no handle. -/
def tagParts : Scanner (Text × Bytes) := do
  let s ← get
  if (s.spot.rest.drop 1).head? == some '<' then
    skip 2
    let suffix ← uri s.dialect.isUriChar (s.size + 1) []
    guard (s.dialect == .intake || !suffix.isEmpty)
    guard ((← head?) == some '>')
    skip 1
    return ([], suffix)
  else
    let handle ← tagHandle false
    let last ← uri s.dialect.isTagChar (s.size + 1) []
    if 2 ≤ handle.length && handle.getLast? == some '!' then
      guard (!last.isEmpty)
      return (handle, last)
    else
      let suffix := Text.toBytes handle.tail ++ last
      if suffix.head?.all (· == 0) then return ([], Text.toBytes ['!']) else return (['!'], suffix)

/-- Passes a tag, after which there has to be a space. -/
def tag : Scanner Unit := do
  saveKey
  allowKeys false
  modify fun s => { s with propertyColumn := s.spot.column }
  let (handle, suffix) ← tagParts
  let s ← get
  guard (s.dialect.atSpace s.spot.rest ||
    (s.inFlow && s.spot.rest.head?.any fun c =>
      c == ',' || (s.dialect == .intake && isFlowIndicator c)))
  push (.tag handle suffix)

/-! ## Directives -/

/-- Passes a number of at most nine digits. -/
def versionNumber : Scanner Nat := do
  let digits ← takeWhile Char.isDigit
  guard (!digits.isEmpty && digits.length ≤ 9)
  return digitsValue 10 digits

/-- Passes a version. -/
def version : Scanner Directive := do
  discard takeBlanks
  let major ← versionNumber
  guard ((← head?) == some '.')
  skip 1
  return .version major (← versionNumber)

/-- Passes the declaration of a handle. -/
def handleDeclaration : Scanner Directive := do
  discard takeBlanks
  let name ← tagHandle true
  let s ← get
  let blanks ← takeBlanks
  let first ← head?
  if s.dialect == .intake then guard (first.any fun c => c == '!' || s.dialect.isTagChar c)
  else guard (!blanks.isEmpty && first.any s.dialect.isUriChar)
  let start ← uri s.dialect.isUriChar (s.size + 1) []
  guard (s.dialect.atSpace (← rest))
  return .handle name start

/-- Passes a directive of an unknown kind. In a text that is taken in it declares the empty handle
as empty. -/
def unknownDirective : Scanner Directive := do
  guard ((← get).dialect == .intake)
  skipComment
  return .handle [] []

/-- Passes a directive. -/
def directive : Scanner Unit := do
  leaveDocument
  skip 1
  let name ← takeWhile isWordChar
  let s ← get
  guard (!name.isEmpty && s.dialect.atSpace s.spot.rest)
  let found ←
    if name == "YAML".toList then version
    else if name == "TAG".toList then handleDeclaration
    else unknownDirective
  skipToLineEnd
  if ← atBreak then skipBreak
  push (.directive found)

end Scanner

end LosslessYaml.Strict
