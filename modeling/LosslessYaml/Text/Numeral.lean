import LosslessYaml.Text

/-!
# Numerals

The values of digits, as escapes and numbers in several notations share them.
-/

namespace LosslessYaml.Text

/-- The value of hexadecimal digits. -/
def hexValue? (digits : Text) : Option Nat :=
  digits.foldlM (fun n c =>
    if c.isDigit then some (16 * n + (c.toNat - 48))
    else if 'a' ≤ c && c ≤ 'f' then some (16 * n + (c.toNat - 87))
    else if 'A' ≤ c && c ≤ 'F' then some (16 * n + (c.toNat - 55))
    else none) 0

/-- The character with the code point that the digits give. -/
def charOfHex? (digits : Text) : Option Char := do
  let n ← hexValue? digits
  if n.isValidChar then some (Char.ofNat n) else none

/-- The value of digits in a base, underscores left out. -/
def digitsValue (base : Nat) (text : Text) : Nat :=
  text.foldl (fun n c =>
    if c == '_' then n
    else if c.isDigit then base * n + (c.toNat - 48)
    else if 'a' ≤ c then base * n + (c.toNat - 87)
    else base * n + (c.toNat - 55)) 0

/-- The value of a digit in a base. -/
def digit? (base : Nat) (c : Char) : Option Nat := (hexValue? [c]).filter (· < base)

/-- The value of a numeral in a base: at least one digit, and nothing else. -/
def numeral? (base : Nat) (text : Text) : Option Nat :=
  if text.isEmpty then none
  else text.foldlM (fun n c => (digit? base c).map (base * n + ·)) 0

/-- The text without a sign. -/
def unsigned : Text → Text
  | '+' :: rest => rest
  | '-' :: rest => rest
  | text => text

end LosslessYaml.Text
