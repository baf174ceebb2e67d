import ModelSource.Number.Binary64

/-!
# Decimal digits of a positive ratio

`Scientific` is a decimal in scientific form: its digits, the first of which
stands before the point, and a power of ten. Both ways to write a number start
from one, and both end in `split`, which puts the point where the exponent says.

`scaleOf` finds the power of ten of the leading digit of a ratio by comparing
digit counts, so it is exact where a logarithm would not be.
-/

namespace ModelSource

/-- The number of decimal digits of `n`. -/
def digitCount (n : Nat) : Nat :=
  (Nat.toDigits 10 n).length

/-- A decimal `d₀.d₁d₂… * 10 ^ exponent`. -/
structure Scientific where
  digits : List Char
  exponent : Int
deriving DecidableEq

/-- The text without its trailing zeros. -/
def dropTrailingZeros (digits : List Char) : List Char :=
  (digits.reverse.dropWhile (· == '0')).reverse

namespace Scientific

/-- The decimal `coefficient * 10 ^ exponent`. -/
def ofCoefficient (coefficient : Nat) (exponent : Int) : Scientific :=
  { digits := Nat.toDigits 10 coefficient
    exponent := exponent + digitCount coefficient - 1 }

/-- The digits before and after the point in positional form. A number below one
has a single zero before the point; a number with fewer digits than its
magnitude asks for is padded with zeros. -/
def split (s : Scientific) : List Char × List Char :=
  if s.exponent < 0 then
    (['0'], List.replicate (-s.exponent - 1).toNat '0' ++ s.digits)
  else
    let whole := s.exponent.toNat + 1
    (s.digits.take whole ++ List.replicate (whole - s.digits.length) '0', s.digits.drop whole)

/-- The digits alone, with the point after the first of them. -/
def mantissa (s : Scientific) : Scientific :=
  { s with exponent := 0 }

end Scientific

/-- The power of ten `e` with `10 ^ e ≤ num / den < 10 ^ (e + 1)`. -/
def scaleOf (num den : Nat) : Int :=
  let e : Int := (digitCount num : Int) - digitCount den
  if den * Nat.pow 10 e.toNat ≤ num * Nat.pow 10 (-e).toNat then e else e - 1

end ModelSource
