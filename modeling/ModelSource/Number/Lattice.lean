import ModelSource.Number.Binary64

/-!
# Rounding to even and to odd integers

Grid coordinates are even or odd integers. Both roundings halve the number,
round the half and double again: to the nearest integer with a half going to
even, or down to the integer below with one added. Halving is exact except among
the subnormal numbers, where the lost bit is rounded to even; there the half can
become zero, and a negative zero is not below zero.

The rounded half is put into a word of sixty-four bits, and the rest is done with
words. A half that does not fit is cut off at the nearest word, and doubling wraps
around where the product does not fit, without a check. Neither happens to a number
below `2 ^ 62`.
-/

namespace ModelSource.Binary64

/-- Significand and exponent of half the number. -/
def half (x : Binary64) : Nat × Int :=
  if 1 < x.exponentField then (x.significand, x.exponent - 1)
  else (roundQuotient .toEven x.significand 2, x.exponent)

/-- Half the absolute value, as a numerator and a denominator. -/
def halfMagnitude (x : Binary64) : Nat × Nat :=
  ratio x.half.1 x.half.2

/-- The half rounded to the nearest integer, and to the even one of two. -/
def halfNearest (x : Binary64) : Int :=
  x.withSign (roundQuotient .toEven x.halfMagnitude.1 x.halfMagnitude.2)

/-- The integer below half the number. -/
def halfFloor (x : Binary64) : Int :=
  let (num, den) := x.halfMagnitude
  x.withSign num / den

/-- What became of the number, as a word: the nearest one to the integer `n` of a
finite number, the first or the last one of an infinity, and zero of a NaN. -/
def toWord (x : Binary64) (n : Int) : Int64 :=
  if x.isFinite then .ofIntClamp n
  else if x.isNaN then 0
  else if x.isNegative then .minValue
  else .maxValue

/-- The nearest even integer; an odd integer goes to the neighbour divisible by
four. -/
def roundEven (x : Binary64) : Int :=
  (x.toWord x.halfNearest * 2).toInt

/-- The odd integer of the half-open lattice cell `[n - 1, n + 1)` that holds the
number. -/
def roundOdd (x : Binary64) : Int :=
  (x.toWord x.halfFloor * 2 + 1).toInt

end ModelSource.Binary64
