import ModelSource.Number.Digits

/-!
# The fewest digits that read back

Among the decimals that round to a given double, the one with the fewest digits
is written, and of those the one nearest to the double. The reals that round to
`m * 2 ^ q` form an interval around it; in quarters of the last place it is
`[4m - 2, 4m + 2]`, except that below a power of two the doubles stand twice as
close and the lower end is `4m - 1`. The ends belong to it when `m` is even.

Grids of powers of ten are tried from coarse to fine. If any point of a grid
lies in the interval, then one of the double's two neighbours on that grid does,
so each grid costs two comparisons of naturals.

`NumberStyle` holds what a text format decides on top: where positional writing
ends, how an exponent is written and which of two equally near decimals to take.
-/

namespace ModelSource

/-- The reals that round to `significand * 2 ^ exponent`. -/
structure RoundingInterval where
  significand : Nat
  exponent : Int
  /-- The next double below is half as far away as the next above. -/
  narrowBelow : Bool
deriving DecidableEq

namespace RoundingInterval

/-- The interval of a finite number. -/
def ofBinary64 (x : Binary64) : RoundingInterval :=
  { significand := x.significand
    exponent := x.exponent
    narrowBelow := x.fractionField == 0 && decide (1 < x.exponentField) }

/-- Numerator of the value over `10 ^ grid` in quarters of the last place, and
the factors by which a number of quarters and a number of grid steps are made
comparable. -/
def scales (r : RoundingInterval) (grid : Int) : Nat × Nat :=
  let quarter := Binary64.ratio 1 (r.exponent - 2)
  (quarter.1 * Nat.pow 10 (-grid).toNat, quarter.2 * Nat.pow 10 grid.toNat)

/-- The point `n * 10 ^ grid` rounds to the number. -/
def contains (r : RoundingInterval) (grid : Int) (n : Nat) : Bool :=
  let (quarter, step) := r.scales grid
  let low := (4 * r.significand - if r.narrowBelow then 1 else 2) * quarter
  let high := (4 * r.significand + 2) * quarter
  if r.significand % 2 = 0 then
    decide (low ≤ n * step ∧ n * step ≤ high)
  else
    decide (low < n * step ∧ n * step < high)

/-- The point of the grid that is in the interval and nearest to the number, if
the grid has one. -/
def nearest? (tie : Tie) (r : RoundingInterval) (grid : Int) : Option Nat :=
  let (quarter, step) := r.scales grid
  let value := 4 * r.significand * quarter
  let lower := value / step
  match r.contains grid lower, r.contains grid (lower + 1) with
  | true, true => some (roundQuotient tie value step)
  | true, false => some lower
  | false, true => some (lower + 1)
  | false, false => none

/-- The shortest decimal in the interval. Seventeen digits always reach one; the
last grid's lower neighbour stands in for the impossible case. -/
def shortest (tie : Tie) (r : RoundingInterval) : Scientific :=
  let value := Binary64.ratio r.significand r.exponent
  let top := scaleOf value.1 value.2
  let grids := (List.range 17).map fun (i : Nat) => top - (i : Int)
  let found := grids.findSome? fun grid => (r.nearest? tie grid).map fun n => (n, grid)
  let (n, grid) := found.getD (value.1 / value.2, 0)
  let s := Scientific.ofCoefficient n grid
  { s with digits := dropTrailingZeros s.digits }

end RoundingInterval

/-- How a finite number is written. -/
structure NumberStyle where
  /-- Numbers whose leading digit stands below this power of ten get an exponent. -/
  leastPlain : Int
  /-- Numbers whose leading digit stands at this power of ten or above get an exponent. -/
  plainBelow : Int
  /-- A non-negative exponent is written with its plus sign. -/
  plusSign : Bool
  /-- Which of two equally near shortest decimals is written. -/
  tie : Tie
deriving DecidableEq

namespace NumberStyle

/-- An exponent mark and the exponent. -/
def exponentText (style : NumberStyle) (e : Int) : String :=
  if e < 0 then "e-" ++ toString e.natAbs
  else (if style.plusSign then "e+" else "e") ++ toString e.natAbs

/-- A positive number: positional with at least one decimal, or digits and exponent. -/
def positiveText (style : NumberStyle) (s : Scientific) : String :=
  if style.leastPlain ≤ s.exponent ∧ s.exponent < style.plainBelow then
    let (whole, fraction) := s.split
    String.ofList whole ++ "." ++ (if fraction.isEmpty then "0" else String.ofList fraction)
  else
    let (whole, fraction) := s.mantissa.split
    String.ofList whole ++ (if fraction.isEmpty then "" else "." ++ String.ofList fraction)
      ++ style.exponentText s.exponent

/-- The text of a finite number. -/
def finiteText (style : NumberStyle) (x : Binary64) : String :=
  (if x.isNegative then "-" else "") ++
    if x.isZero then "0.0"
    else style.positiveText ((RoundingInterval.ofBinary64 x).shortest style.tie)

end NumberStyle

/-- The name of a number that has no digits: a NaN has no sign, an infinity has. -/
def Binary64.nonFiniteName (x : Binary64) : String :=
  if x.isNaN then "NaN" else if x.isNegative then "-inf" else "inf"

end ModelSource
