/-!
# Text

Sources, keys, scalar values and file names are handled as lists of characters, so that reading is
recursion on what remains and printing is concatenation.

Besides the type this module holds the character classes of the format, the byte column that a
text leads to, and the few searches that the rest of the library shares.
-/

namespace LosslessYaml

/-- A text is the list of its characters. -/
abbrev Text := List Char

namespace Text

/-! ## Character classes -/

/-- The white space of Unicode (property `White_Space`). -/
def isWhitespace (c : Char) : Bool :=
  let n := c.toNat
  (9 ≤ n && n ≤ 13) || n == 0x20 || n == 0x85 || n == 0xA0 || n == 0x1680 ||
    (0x2000 ≤ n && n ≤ 0x200A) || n == 0x2028 || n == 0x2029 || n == 0x202F || n == 0x205F ||
    n == 0x3000

/-- A space or a tab: what may separate tokens within a line. -/
def isBlank (c : Char) : Bool := c == ' ' || c == '\t'

/-- A space, a tab or a carriage return: what may follow a plain scalar on its line. -/
def isTrailing (c : Char) : Bool := c == ' ' || c == '\t' || c == '\r'

/-- The characters that end a name and separate the parts of a flow collection. -/
def isFlowIndicator (c : Char) : Bool :=
  c == ',' || c == '[' || c == ']' || c == '\x7b' || c == '\x7d'

/-! ## Trimming and searching -/

/-- The text without white space at its start and its end. -/
def trim (text : Text) : Text :=
  (((text.dropWhile isWhitespace).reverse).dropWhile isWhitespace).reverse

/-- A trimmed text ends with a visible character. -/
theorem visibleEnd_of_trim {text : Text} (h : trim text = text) :
    ∀ c ∈ text.getLast?, isWhitespace c = false := by
  intro c hc
  rw [← h, trim, List.getLast?_reverse] at hc
  have hhead := List.head?_dropWhile_not isWhitespace (text.dropWhile isWhitespace).reverse
  rw [Option.mem_def.mp hc] at hhead
  exact hhead

/-- Whether `part` stands somewhere in the text. -/
def hasInfix (part : Text) : Text → Bool
  | [] => part.isEmpty
  | c :: rest => part.isPrefixOf (c :: rest) || hasInfix part rest

/-- The text cut at every occurrence of `separator`; one part more than there are occurrences. -/
def splitAt (separator : Char) : Text → List Text
  | [] => [[]]
  | c :: rest =>
    match splitAt separator rest with
    | [] => [[c]]
    | part :: parts => if c == separator then [] :: part :: parts else (c :: part) :: parts

/-! ## Lines -/

/-- The number of characters before the end of the line. -/
def lineLength (text : Text) : Nat := (text.takeWhile (· != '\n')).length

/-- Whether the line at the start of the text holds nothing but white space. -/
def isBlankLine (text : Text) : Bool := (text.takeWhile (· != '\n')).all isWhitespace

/-- The number of spaces that the text starts with. -/
def indentation (text : Text) : Nat := (text.takeWhile (· == ' ')).length

/-- The byte column reached from `column` by reading the text: bytes since the last line break. -/
def columnAfter (column : Nat) : Text → Nat
  | [] => column
  | c :: rest => columnAfter (if c == '\n' then 0 else column + c.utf8Size) rest

/-! ## Runs -/

/-- The length of the run that the text starts with. The run ends where `stop` holds of a character
and what follows it, and `loose` characters at its end do not count. -/
def runLength (stop : Char → Text → Bool) (loose : Char → Bool) : Text → Nat
  | [] => 0
  | c :: rest =>
    if stop c rest then 0
    else
      match runLength stop loose rest with
      | 0 => if loose c then 0 else 1
      | n + 1 => n + 2

end Text

end LosslessYaml
