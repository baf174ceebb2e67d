import ModelSource.Number.Digits
import ModelSource.Number.Shortest

/-!
# A number to so many significant digits

`rounded` takes the exact value of a double to `precision` significant decimal
digits, a half to even. A carry such as `9.99` to `10.0` moves the leading digit,
so the exponent is read off the rounded decimal. `text` lays the rounded decimal
out: positional while the exponent is at least `-4` and below the precision, with
an exponent of two or more digits otherwise, and never a trailing zero after the
point.
-/

namespace ModelSource.Significant

/-- The positive ratio `num / den` to `precision` significant digits. -/
def rounded (precision : Nat) (num den : Nat) : Scientific :=
  let top := scaleOf num den
  let grid := top - (precision - 1 : Nat)
  let coefficient :=
    roundQuotient .toEven (num * Nat.pow 10 (-grid).toNat) (den * Nat.pow 10 grid.toNat)
  Scientific.ofCoefficient coefficient grid

/-- Whole and fractional digits with the fraction's trailing zeros dropped. -/
def trimmed (parts : List Char × List Char) : String :=
  let fraction := dropTrailingZeros parts.2
  String.ofList parts.1 ++ if fraction.isEmpty then "" else "." ++ String.ofList fraction

/-- An exponent: its sign and at least two digits. -/
def exponentText (e : Int) : String :=
  let digits := toString e.natAbs
  (if e < 0 then "e-" else "e+") ++ (if digits.length < 2 then "0" ++ digits else digits)

/-- A rounded decimal laid out. -/
def layout (precision : Nat) (s : Scientific) : String :=
  if s.exponent < -4 ∨ (precision : Int) ≤ s.exponent then
    trimmed s.mantissa.split ++ exponentText s.exponent
  else
    trimmed s.split

/-- The number to `digits` significant digits, at least one. Zeros and numbers
without digits have fixed texts. -/
def text (x : Binary64) (digits : Nat) : String :=
  let precision := max digits 1
  if x.isFinite then
    (if x.isNegative then "-" else "") ++
      if x.isZero then "0"
      else layout precision (rounded precision x.magnitude.1 x.magnitude.2)
  else x.nonFiniteName

end ModelSource.Significant
