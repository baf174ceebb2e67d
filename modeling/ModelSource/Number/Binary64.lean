import ModelSource.Number.Rounding

/-!
# Double-precision numbers by their bits

A real is kept as the sixty-four bits of its IEEE 754 double. Whatever the
library decides about a number, its text, whether it is whole, which lattice
point it rounds to, is decided by natural-number arithmetic on the decoded
fields: a finite number is `± significand * 2 ^ exponent`, and nothing about it
is left to the machine. The four operations of arithmetic are the machine's; no
decision rests on more of them than their result.
-/

namespace ModelSource

/-- A double-precision number, as its bits. -/
structure Binary64 where
  bits : UInt64
deriving DecidableEq, Inhabited

namespace Binary64

/-- The sign bit; also set on the negative zero. -/
def isNegative (x : Binary64) : Bool :=
  decide (Nat.pow 2 63 ≤ x.bits.toNat)

/-- The eleven exponent bits. -/
def exponentField (x : Binary64) : Nat :=
  x.bits.toNat / Nat.pow 2 52 % 2048

/-- The fifty-two fraction bits. -/
def fractionField (x : Binary64) : Nat :=
  x.bits.toNat % Nat.pow 2 52

/-- Neither infinite nor a NaN. -/
def isFinite (x : Binary64) : Bool :=
  decide (x.exponentField < 2047)

def isNaN (x : Binary64) : Bool :=
  decide (x.exponentField = 2047 ∧ x.fractionField ≠ 0)

/-- Either of the two zeros. -/
def isZero (x : Binary64) : Bool :=
  decide (x.exponentField = 0 ∧ x.fractionField = 0)

/-- The integer significand of a finite number: the hidden bit is there unless
the number is subnormal. -/
def significand (x : Binary64) : Nat :=
  if x.exponentField = 0 then x.fractionField else Nat.pow 2 52 + x.fractionField

/-- The power of two that scales `significand`. Subnormals share the exponent
of the least normal numbers. -/
def exponent (x : Binary64) : Int :=
  (max x.exponentField 1 : Nat) - 1075

/-- `m * 2 ^ q` as a numerator and a positive denominator. -/
def ratio (m : Nat) (q : Int) : Nat × Nat :=
  if 0 ≤ q then (m * Nat.pow 2 q.toNat, 1) else (m, Nat.pow 2 (-q).toNat)

/-- The absolute value of a finite number, as a numerator and a denominator. -/
def magnitude (x : Binary64) : Nat × Nat :=
  ratio x.significand x.exponent

/-- `magnitude` under the sign of `x`. -/
def withSign (x : Binary64) (n : Nat) : Int :=
  if x.isNegative then -(n : Int) else n

/-- The number with the other sign. -/
def neg (x : Binary64) : Binary64 :=
  ⟨x.bits ^^^ 0x8000000000000000⟩

/-- The number without its sign. -/
def abs (x : Binary64) : Binary64 :=
  ⟨x.bits &&& 0x7fffffffffffffff⟩

/-- The double nearest to a natural below `2 ^ 1023`, ties to even. The
significand is rounded to fifty-three bits; a carry out of it lands in the
exponent, where it belongs. -/
def ofNat (n : Nat) : Binary64 :=
  if n = 0 then ⟨0⟩
  else
    let top := n.log2
    let significand :=
      if top ≤ 52 then n * Nat.pow 2 (52 - top)
      else roundQuotient .toEven n (Nat.pow 2 (top - 52))
    ⟨UInt64.ofNat ((top + 1022) * Nat.pow 2 52 + significand)⟩

/-- The double nearest to an integer, ties to even. -/
def ofInt : Int → Binary64
  | .ofNat n => ofNat n
  | .negSucc n => (ofNat (n + 1)).neg

def toFloat (x : Binary64) : Float :=
  Float.ofBits x.bits

def ofFloat (x : Float) : Binary64 :=
  ⟨x.toBits⟩

def add (x y : Binary64) : Binary64 := ofFloat (x.toFloat + y.toFloat)
def sub (x y : Binary64) : Binary64 := ofFloat (x.toFloat - y.toFloat)
def mul (x y : Binary64) : Binary64 := ofFloat (x.toFloat * y.toFloat)
def div (x y : Binary64) : Binary64 := ofFloat (x.toFloat / y.toFloat)

instance : Neg Binary64 := ⟨neg⟩
instance : Add Binary64 := ⟨add⟩
instance : Sub Binary64 := ⟨sub⟩
instance : Mul Binary64 := ⟨mul⟩
instance : Div Binary64 := ⟨div⟩
instance (n : Nat) : OfNat Binary64 n := ⟨ofNat n⟩
instance : OfScientific Binary64 := ⟨fun m s e => ofFloat (OfScientific.ofScientific m s e)⟩

/-- Numerical order; a NaN is below nothing. -/
def less (x y : Binary64) : Bool :=
  decide (x.toFloat < y.toFloat)

/-- Numerical equality: the zeros are equal and a NaN equals nothing. -/
def same (x y : Binary64) : Bool :=
  x.toFloat == y.toFloat

/-- The integer a finite number equals, if it is whole. -/
def toInt? (x : Binary64) : Option Int :=
  let (num, den) := x.magnitude
  if x.isFinite ∧ num % den = 0 then some (x.withSign (num / den)) else none

end Binary64

end ModelSource
