import Mathlib.Data.Nat.Cast.Field
import ModelSource.Proofs.SignificantDigits
import ModelSource.Value.Scalar

/-!
# Whole numbers

Whether a number is whole is decided by a division of naturals, and the integer is the
quotient under the sign. What that comes to is a statement about values: the integer is
there if the number is finite and has the value of an integer (`toInt?_eq_some_iff`).

The two zeros have one value. Any other value has at most one number: its sign is that of
the number and its absolute value is the number's, which is in the interval of no second
one.
-/

namespace ModelSource

namespace Binary64

variable {x y : Binary64} {n : Int}

/-- The value of a finite number. -/
def value (x : Binary64) : ℚ :=
  if x.isNegative then -x.size else x.size

theorem size_nonneg (x : Binary64) : 0 ≤ x.size := by
  rw [size]
  positivity

theorem abs_value (x : Binary64) : |x.value| = x.size := by
  rw [value]
  split
  · rw [abs_neg, abs_of_nonneg x.size_nonneg]
  · exact abs_of_nonneg x.size_nonneg

theorem cast_withSign (x : Binary64) (quotient : Nat) :
    ((x.withSign quotient : Int) : ℚ) = if x.isNegative then -(quotient : ℚ) else quotient := by
  rw [withSign]
  split
  · rw [Int.cast_neg, Int.cast_natCast]
  · exact Int.cast_natCast quotient

theorem toInt?_eq (x : Binary64) :
    x.toInt? =
      if x.isFinite = true ∧ x.magnitude.1 % x.magnitude.2 = 0 then
        some (x.withSign (x.magnitude.1 / x.magnitude.2))
      else none :=
  rfl

theorem toInt?_eq_some_iff : x.toInt? = some n ↔ x.isFinite = true ∧ x.value = n := by
  have hpos : 0 < x.magnitude.2 := ratio_pos _ _
  have hden : (x.magnitude.2 : ℚ) ≠ 0 := Nat.cast_ne_zero.2 hpos.ne'
  rw [toInt?_eq]
  constructor
  · intro h
    split at h
    · next hwhole =>
        refine ⟨hwhole.1, ?_⟩
        rw [← Option.some.inj h, cast_withSign,
          Nat.cast_div (Nat.dvd_of_mod_eq_zero hwhole.2) hden, magnitude_div]
        rfl
    · cases h
  · intro h
    have hsize : x.size = n.natAbs := by
      rw [← abs_value, h.2, Nat.cast_natAbs, Int.cast_abs]
    have hnum : x.magnitude.1 = n.natAbs * x.magnitude.2 := by
      have hratio := x.magnitude_div
      rw [hsize, div_eq_iff hden] at hratio
      exact_mod_cast hratio
    have hsigned : x.withSign n.natAbs = n := by
      have hcast : ((x.withSign n.natAbs : Int) : ℚ) = n := by
        rw [cast_withSign, ← hsize, ← h.2]
        rfl
      exact_mod_cast hcast
    rw [hnum, if_pos ⟨h.1, Nat.mul_mod_left _ _⟩, Nat.mul_div_cancel _ hpos, hsigned]

theorem value_eq_zero_iff : x.value = 0 ↔ x.isZero = true := by
  constructor
  · intro h
    by_contra hzero
    have hpos := size_pos (Bool.not_eq_true _ ▸ hzero)
    rw [← abs_value, h, abs_zero] at hpos
    exact lt_irrefl 0 hpos
  · intro h
    obtain ⟨hexponent, hfraction⟩ : x.exponentField = 0 ∧ x.fractionField = 0 := by
      simpa [isZero] using h
    have hsignificand : x.significand = 0 := by rw [significand, if_pos hexponent, hfraction]
    rw [← abs_eq_zero, abs_value, size, hsignificand, Nat.cast_zero, zero_mul]

/-- The integer of the zeros is zero, and of no other number. -/
theorem toInt?_eq_zero_iff : x.toInt? = some 0 ↔ x.isZero = true := by
  rw [toInt?_eq_some_iff, Int.cast_zero, value_eq_zero_iff, and_iff_right_iff_imp]
  intro h
  have hexponent : x.exponentField = 0 := (of_decide_eq_true h).1
  simp [isFinite, hexponent]

/-- A number is in its own interval. -/
theorem holds_size (hzero : x.isZero = false) :
    (RoundingInterval.ofBinary64 x).Holds x.size := by
  have hproper := proper_interval hzero
  have hunit : (0 : ℚ) < 2 ^ (x.exponent - 2) := by positivity
  have hsize : x.size = (4 * x.significand : ℚ) * 2 ^ (x.exponent - 2) := by
    rw [size, zpow_sub₀ (by norm_num)]
    ring
  have hbelow : 0 < (RoundingInterval.ofBinary64 x).below := by
    rcases (RoundingInterval.ofBinary64 x).below_cases with hwide | ⟨hnarrow, -⟩ <;> omega
  rw [hsize]
  refine RoundingInterval.holds_of_lt (mul_lt_mul_of_pos_right ?_ hunit)
    (mul_lt_mul_of_pos_right ?_ hunit)
  · have hpos : 0 < x.significand := hproper.pos
    have hlt : 4 * x.significand - (RoundingInterval.ofBinary64 x).below < 4 * x.significand := by
      omega
    exact_mod_cast hlt
  · have hlt : 4 * x.significand < 4 * x.significand + 2 := by omega
    exact_mod_cast hlt

theorem isNegative_iff (hzero : x.isZero = false) : x.isNegative = true ↔ x.value < 0 := by
  have hpos := size_pos hzero
  rw [value]
  split
  · next hsign => simp [hsign, hpos]
  · next hsign => simp [hsign, hpos.le]

/-- Of the numbers other than zero, no two have the same value. -/
theorem eq_of_value_eq (hx : x.value ≠ 0) (h : x.value = y.value) : x = y := by
  have hnonzero : ∀ z : Binary64, z.value = x.value → z.isZero = false := by
    intro z hz
    rw [← Bool.not_eq_true, ← value_eq_zero_iff, hz]
    exact hx
  have hxzero := hnonzero x rfl
  have hyzero := hnonzero y h.symm
  have hxholds := holds_size hxzero
  rw [← abs_value, h, abs_value] at hxholds
  obtain ⟨hsignificand, hexponent⟩ :=
    hxholds.unique (proper_interval hxzero) (proper_interval hyzero) (holds_size hyzero)
  refine eq_of_fields (Bool.eq_iff_iff.2 ?_) hsignificand hexponent
  rw [isNegative_iff hxzero, isNegative_iff hyzero, h]

/-- Of the numbers other than zero, no two are the same integer. -/
theorem toInt?_injective (hx : x.toInt? = some n) (hy : y.toInt? = some n) (hn : n ≠ 0) :
    x = y := by
  have hxvalue := (toInt?_eq_some_iff.1 hx).2
  have hyvalue := (toInt?_eq_some_iff.1 hy).2
  refine eq_of_value_eq ?_ (hxvalue.trans hyvalue.symm)
  rw [hxvalue]
  exact Int.cast_ne_zero.2 hn

end Binary64

namespace Scalar

variable {x : Binary64}

theorem number_eq_integer {n : Int} :
    number x = .integer n ↔ x.toInt? = some n ∧ n.natAbs < 10 ^ 15 := by
  rw [number]
  split
  · next whole hwhole =>
      rw [hwhole, Option.some.injEq]
      split
      · next hsmall =>
          rw [integer.injEq, iff_self_and]
          intro heq
          exact heq ▸ hsmall
      · next hlarge =>
          refine ⟨fun h => (nomatch h), fun h => ?_⟩
          exact absurd h.2 (h.1 ▸ hlarge)
  · next hnone => simp [hnone]

theorem number_eq_zero_iff : number x = .integer 0 ↔ x.isZero = true := by
  rw [number_eq_integer, and_iff_left (by decide), Binary64.toInt?_eq_zero_iff]

theorem number_eq_one_iff : number x = .integer 1 ↔ x = 1 := by
  have hone : (1 : Binary64).toInt? = some 1 := by decide
  rw [number_eq_integer, and_iff_left (by decide)]
  refine ⟨fun h => Binary64.toInt?_injective h hone one_ne_zero, ?_⟩
  rintro rfl
  exact hone

end Scalar

end ModelSource
