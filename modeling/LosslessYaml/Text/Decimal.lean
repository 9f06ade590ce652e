import LosslessYaml.Text.Numeral

/-!
# Decimal numbers

Numbers with a point and an exponent, and the floating point numbers of 64 bits next to them. The
nearest one is found in exact arithmetic; of two that are equally near, the one with the even
mantissa is taken.
-/

namespace LosslessYaml.Text

/-- A decimal number: `digits` times ten to the power `exponent`. -/
structure Decimal where
  isNegative : Bool
  digits : Nat
  exponent : Int
deriving Repr, DecidableEq

/-- A floating point number: `mantissa` times two to the power `exponent`. The mantissa has 53 bits,
or fewer if the exponent is the least one. -/
inductive Double where
  | finite (isNegative : Bool) (mantissa : Nat) (exponent : Int)
  | infinite (isNegative : Bool)
deriving Repr, DecidableEq

namespace Decimal

/-- The exponent that a text gives, zero if there is none. -/
def exponent? : Text → Option Int
  | [] => some 0
  | c :: rest =>
    let digits := unsigned rest
    if (c == 'e' || c == 'E') && !digits.isEmpty && digits.all Char.isDigit then
      let n : Int := digitsValue 10 digits
      some (if rest.head? == some '-' then -n else n)
    else none

/-- The decimal number that the text is: digits, among which there may be a point, and perhaps a
sign before and an exponent after them. -/
def ofText? (text : Text) : Option Decimal := do
  let body := unsigned text
  let whole := body.takeWhile Char.isDigit
  let (fraction, rest) := match body.dropWhile Char.isDigit with
    | '.' :: rest => (rest.takeWhile Char.isDigit, rest.dropWhile Char.isDigit)
    | rest => ([], rest)
  if whole.isEmpty && fraction.isEmpty then none
  let exponent ← exponent? rest
  some ⟨text.head? == some '-', digitsValue 10 (whole ++ fraction), exponent - fraction.length⟩

/-- The quotient, rounded to the nearest integer, and to the even one if two are equally near. -/
def roundedQuotient (n d : Nat) : Nat :=
  let q := n / d
  let twice := 2 * (n % d)
  if d < twice || (twice == d && q % 2 == 1) then q + 1 else q

/-- The integer logarithm to base two of a quotient. -/
def logQuotient (n d : Nat) : Int :=
  let estimate : Int := (Nat.log2 n : Int) - Nat.log2 d
  let isBelow :=
    if 0 ≤ estimate then n < d * Nat.pow 2 estimate.toNat else n * Nat.pow 2 (-estimate).toNat < d
  if isBelow then estimate - 1 else estimate

/-- The floating point number next to a positive quotient. -/
def nearest (isNegative : Bool) (n d : Nat) : Double :=
  let exponent := max (-1074) (logQuotient n d - 52)
  let mantissa :=
    if 0 ≤ exponent then roundedQuotient n (d * Nat.pow 2 exponent.toNat)
    else roundedQuotient (n * Nat.pow 2 (-exponent).toNat) d
  let (mantissa, exponent) :=
    if mantissa == Nat.pow 2 53 then (Nat.pow 2 52, exponent + 1) else (mantissa, exponent)
  if 971 < exponent then .infinite isNegative else .finite isNegative mantissa exponent

/-- The floating point number next to a decimal number. Exponents far out of range are not raised
to, as they decide the result. -/
def toDouble (decimal : Decimal) : Double :=
  let magnitude : Int := (Nat.toDigits 10 decimal.digits).length + decimal.exponent
  if decimal.digits == 0 || magnitude < -330 then .finite decimal.isNegative 0 (-1074)
  else if 330 < magnitude then .infinite decimal.isNegative
  else if 0 ≤ decimal.exponent then
    nearest decimal.isNegative (decimal.digits * Nat.pow 10 decimal.exponent.toNat) 1
  else nearest decimal.isNegative decimal.digits (Nat.pow 10 (-decimal.exponent).toNat)

end Decimal

end LosslessYaml.Text
