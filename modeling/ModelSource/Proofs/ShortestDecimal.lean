import Mathlib.Algebra.Order.Field.Power
import Mathlib.Data.List.TakeWhile
import Mathlib.Data.Rat.Cast.Order
import Mathlib.Tactic.FieldSimp
import Mathlib.Tactic.Linarith
import Mathlib.Tactic.NormNum
import Mathlib.Tactic.Ring
import ModelSource.Number.Shortest

/-!
# The shortest decimal rounds back, and to one number only

The decimal that is written for a double is picked by comparisons of naturals. Here
they are read as what they stand for: the interval of a double is a set of rationals
(`Holds`), a grid point is in it if `contains` says so, and `shortest` picks a point
that is.

Two facts carry the rest. Seventeen digits are always enough, because a number below
`2 ^ 53` units is cut into `10 ^ 16` steps or more, so that a step is shorter than the
unit and a neighbour is less than half a unit away. And the intervals of two doubles do
not meet: where one ends and the next one starts, one of the two significands is odd,
and its interval lacks the point.
-/

namespace ModelSource

/-! ## The value of a decimal -/

namespace Scientific

/-- The number that the decimal stands for. -/
def value (s : Scientific) : ℚ :=
  Nat.ofDigitChars 10 s.digits 0 * 10 ^ (s.exponent + 1 - s.digits.length)

theorem value_ofCoefficient (n : Nat) (grid : Int) :
    (ofCoefficient n grid).value = n * 10 ^ grid := by
  rw [value, ofCoefficient, Nat.ofDigitChars_ten_toDigits, digitCount]
  simp only
  congr 2
  omega

end Scientific

theorem dropTrailingZeros_append (digits : List Char) :
    ∃ count, digits = dropTrailingZeros digits ++ List.replicate count '0' := by
  refine ⟨(digits.reverse.takeWhile (· == '0')).length, ?_⟩
  have hzeros : digits.reverse.takeWhile (· == '0') =
      List.replicate (digits.reverse.takeWhile (· == '0')).length '0' :=
    List.eq_replicate_of_mem fun c hc => by simpa using List.mem_takeWhile_imp hc
  have h := List.takeWhile_append_dropWhile (p := (· == '0')) (l := digits.reverse)
  rw [dropTrailingZeros, ← List.reverse_replicate, ← hzeros, ← List.reverse_append, h,
    List.reverse_reverse]

theorem mem_of_mem_dropTrailingZeros {digits : List Char} {c : Char}
    (h : c ∈ dropTrailingZeros digits) : c ∈ digits := by
  have hmem := (List.dropWhile_sublist _).subset (List.mem_reverse.1 h)
  exact List.mem_reverse.1 hmem

/-- Zeros behind the point are worth nothing. -/
theorem ofDigitChars_append_zeros (digits : List Char) (count : Nat) (place : Int) :
    (Nat.ofDigitChars 10 (digits ++ List.replicate count '0') 0 : ℚ) * 10 ^ (place - count) =
      Nat.ofDigitChars 10 digits 0 * 10 ^ place := by
  rw [Nat.ofDigitChars_append, Nat.ofDigitChars_replicate_zero]
  push_cast
  rw [mul_comm ((10 : ℚ) ^ count), mul_assoc, ← zpow_natCast, ← zpow_add₀ (by norm_num),
    add_sub_cancel]

theorem Scientific.value_dropTrailingZeros (s : Scientific) :
    { s with digits := dropTrailingZeros s.digits }.value = s.value := by
  obtain ⟨count, hdigits⟩ := dropTrailingZeros_append s.digits
  have hlength : s.digits.length = (dropTrailingZeros s.digits).length + count := by
    conv_lhs => rw [hdigits]
    simp
  have hzeros := ofDigitChars_append_zeros (dropTrailingZeros s.digits) count
    (s.exponent + 1 - (dropTrailingZeros s.digits).length)
  rw [← hdigits] at hzeros
  rw [value, value, hlength, Nat.cast_add, ← sub_sub, hzeros]

/-! ## Ratios and grids -/

theorem lt_ten_pow_digitCount (n : Nat) : n < 10 ^ digitCount n :=
  (Nat.length_toDigits_le_iff (by decide) Nat.length_toDigits_pos).1 (Nat.le_refl _)

theorem ten_pow_digitCount_le {n : Nat} (h : 0 < n) : 10 ^ (digitCount n - 1) ≤ n := by
  by_cases hone : digitCount n - 1 = 0
  · rw [hone]
    exact h
  · have hcount := Nat.length_toDigits_le_iff (b := 10) (n := n) (by decide)
      (Nat.pos_of_ne_zero hone)
    rw [← Nat.not_lt, ← hcount, ← digitCount]
    omega

theorem Binary64.ratio_pos (m : Nat) (q : Int) : 0 < (ratio m q).2 := by
  rw [ratio]
  split
  · exact Nat.one_pos
  · exact Nat.pow_pos (by decide)

theorem Binary64.ratio_eq (m : Nat) (q : Int) :
    ((ratio m q).1 : ℚ) = m * 2 ^ q * (ratio m q).2 := by
  rw [ratio]
  split
  · next hq =>
      obtain ⟨n, rfl⟩ := Int.eq_ofNat_of_zero_le hq
      simp
  · next hq =>
      obtain ⟨n, rfl⟩ := Int.exists_eq_neg_ofNat (by omega : q ≤ 0)
      simp

/-- A power of ten as a quotient of two natural ones. -/
theorem ten_zpow_toNat (grid : Int) :
    ((10 ^ (-grid).toNat : Nat) : ℚ) * 10 ^ grid = (10 ^ grid.toNat : Nat) := by
  rcases Int.le_total 0 grid with h | h
  · obtain ⟨n, rfl⟩ := Int.eq_ofNat_of_zero_le h
    simp
  · obtain ⟨n, rfl⟩ := Int.exists_eq_neg_ofNat h
    simp

/-- The leading digit of a ratio stands where `scaleOf` says, or above. -/
theorem ten_zpow_scaleOf_le {num : Nat} (hnum : 0 < num) (den : Nat) :
    (10 : ℚ) ^ scaleOf num den * den ≤ num := by
  have hfactor : ((10 ^ (-((digitCount num : Int) - digitCount den)).toNat : Nat) : ℚ) > 0 := by
    positivity
  have hgrid := ten_zpow_toNat ((digitCount num : Int) - digitCount den)
  rw [scaleOf]
  simp only [Nat.pow_eq]
  split
  · next hle =>
      rw [← @Nat.cast_le ℚ, Nat.cast_mul, Nat.cast_mul, ← hgrid] at hle
      refine le_of_mul_le_mul_right ?_ hfactor
      linarith
  · have hden : (den : ℚ) ≤ 10 ^ (digitCount den : Int) := by
      exact_mod_cast (lt_ten_pow_digitCount den).le
    have hlead : (10 : ℚ) ^ ((digitCount num : Int) - 1) ≤ num := by
      have hcount : 0 < digitCount num := Nat.length_toDigits_pos
      have hcast : (digitCount num : Int) - 1 = ((digitCount num - 1 : Nat) : Int) := by omega
      rw [hcast, zpow_natCast]
      exact_mod_cast ten_pow_digitCount_le hnum
    calc (10 : ℚ) ^ ((digitCount num : Int) - digitCount den - 1) * den
        ≤ 10 ^ ((digitCount num : Int) - digitCount den - 1) * 10 ^ (digitCount den : Int) := by
          gcongr
      _ = 10 ^ ((digitCount num : Int) - 1) := by
          rw [← zpow_add₀ (by norm_num)]
          congr 1
          omega
      _ ≤ num := hlead

theorem roundQuotient_cases (tie : Tie) (num den : Nat) :
    roundQuotient tie num den = num / den ∨ roundQuotient tie num den = num / den + 1 := by
  rw [roundQuotient]
  grind

namespace RoundingInterval

variable {r : RoundingInterval} {v : ℚ}

theorem step_pos (r : RoundingInterval) (grid : Int) : 0 < (r.scales grid).2 :=
  Nat.mul_pos (Binary64.ratio_pos 1 _) (Nat.pow_pos (by decide))

/-- Quarters of the last place and grid steps are made comparable. -/
theorem scales_eq (r : RoundingInterval) (grid : Int) :
    ((r.scales grid).1 : ℚ) * 10 ^ grid = 2 ^ (r.exponent - 2) * (r.scales grid).2 := by
  have hquarter := Binary64.ratio_eq 1 (r.exponent - 2)
  have hgrid := ten_zpow_toNat grid
  simp only [scales, Nat.pow_eq]
  push_cast at hgrid ⊢
  rw [mul_assoc, hgrid, hquarter]
  push_cast
  ring

theorem quarters_le_iff (r : RoundingInterval) (grid : Int) (a n : Nat) :
    a * (r.scales grid).1 ≤ n * (r.scales grid).2 ↔
      (a : ℚ) * 2 ^ (r.exponent - 2) ≤ n * 10 ^ grid := by
  have hstep : (0 : ℚ) < (r.scales grid).2 := Nat.cast_pos.2 (r.step_pos grid)
  have hten : (0 : ℚ) < 10 ^ grid := by positivity
  rw [← @Nat.cast_le ℚ, Nat.cast_mul, Nat.cast_mul, ← mul_le_mul_iff_left₀ hten,
    mul_assoc, scales_eq, ← mul_assoc, mul_right_comm (n : ℚ), mul_le_mul_iff_left₀ hstep]

theorem le_quarters_iff (r : RoundingInterval) (grid : Int) (a n : Nat) :
    n * (r.scales grid).2 ≤ a * (r.scales grid).1 ↔
      (n : ℚ) * 10 ^ grid ≤ a * 2 ^ (r.exponent - 2) := by
  have hstep : (0 : ℚ) < (r.scales grid).2 := Nat.cast_pos.2 (r.step_pos grid)
  have hten : (0 : ℚ) < 10 ^ grid := by positivity
  rw [← @Nat.cast_le ℚ, Nat.cast_mul, Nat.cast_mul, ← mul_le_mul_iff_left₀ hten,
    mul_assoc (a : ℚ), scales_eq, ← mul_assoc, mul_right_comm, mul_le_mul_iff_left₀ hstep]

/-- The distance from the number to the lower end, in quarters of the last place. -/
def below (r : RoundingInterval) : Nat :=
  if r.narrowBelow then 1 else 2

/-- The number rounds to the significand and exponent. -/
structure Holds (r : RoundingInterval) (v : ℚ) : Prop where
  low : ((4 * r.significand - r.below : Nat) : ℚ) * 2 ^ (r.exponent - 2) ≤ v
  high : v ≤ ((4 * r.significand + 2 : Nat) : ℚ) * 2 ^ (r.exponent - 2)
  /-- The ends belong to an even significand only. -/
  inner : r.significand % 2 = 1 →
    ((4 * r.significand - r.below : Nat) : ℚ) * 2 ^ (r.exponent - 2) < v ∧
      v < ((4 * r.significand + 2 : Nat) : ℚ) * 2 ^ (r.exponent - 2)

theorem contains_iff (grid : Int) (n : Nat) :
    r.contains grid n = true ↔ r.Holds (n * 10 ^ grid) := by
  rw [contains]
  dsimp only
  split
  · next heven =>
      rw [decide_eq_true_iff, quarters_le_iff, le_quarters_iff]
      exact ⟨fun h => ⟨h.1, h.2, fun hodd => by omega⟩, fun h => ⟨h.low, h.high⟩⟩
  · next hodd =>
      rw [decide_eq_true_iff, ← not_le, ← not_le, quarters_le_iff, le_quarters_iff, not_le, not_le]
      exact ⟨fun h => ⟨h.1.le, h.2.le, fun _ => h⟩, fun h => h.inner (by omega)⟩

/-- Strictly between the ends. -/
theorem holds_of_lt (hlow : ((4 * r.significand - r.below : Nat) : ℚ) * 2 ^ (r.exponent - 2) < v)
    (hhigh : v < ((4 * r.significand + 2 : Nat) : ℚ) * 2 ^ (r.exponent - 2)) : r.Holds v :=
  ⟨hlow.le, hhigh.le, fun _ => ⟨hlow, hhigh⟩⟩

/-- A point that is found is one that rounds to the number. -/
theorem holds_of_nearest? {tie : Tie} {grid : Int} {n : Nat} (h : r.nearest? tie grid = some n) :
    r.Holds (n * 10 ^ grid) := by
  rw [← contains_iff]
  rw [nearest?] at h
  dsimp only at h
  split at h
  · next hlower hupper =>
      cases h
      rcases roundQuotient_cases tie (4 * r.significand * (r.scales grid).1) (r.scales grid).2 with
        hdown | hup
      · rwa [hdown]
      · rwa [hup]
  · next hlower _ =>
      cases h
      exact hlower
  · next _ hupper =>
      cases h
      exact hupper
  · cases h

/-! ## Seventeen digits are enough -/

/-- The interval is that of a positive finite number. -/
structure Proper (r : RoundingInterval) : Prop where
  least : -1074 ≤ r.exponent
  pos : 0 < r.significand
  lt : r.significand < 2 ^ 53
  narrow : r.narrowBelow = true → r.significand = 2 ^ 52
  /-- Above the least exponent the leading bit is there, and the doubles below a power
  of two stand closer. -/
  normal : -1074 < r.exponent →
    2 ^ 52 ≤ r.significand ∧ (r.significand = 2 ^ 52 → r.narrowBelow = true)

theorem below_cases (r : RoundingInterval) :
    r.below = 2 ∨ r.below = 1 ∧ r.narrowBelow = true := by
  rw [below]
  cases r.narrowBelow with
  | false => exact .inl rfl
  | true => exact .inr ⟨rfl, rfl⟩

theorem Proper.cast_low (h : r.Proper) :
    ((4 * r.significand - r.below : Nat) : ℚ) = 4 * r.significand - r.below := by
  have hpos := h.pos
  have hbelow := r.below_cases
  rw [Nat.cast_sub (by omega)]
  push_cast
  rfl

theorem two_zpow_exponent (r : RoundingInterval) :
    (2 : ℚ) ^ r.exponent = 4 * 2 ^ (r.exponent - 2) := by
  rw [zpow_sub₀ (by norm_num)]
  ring

theorem exists_nearest?_of_contains {tie : Tie} {grid : Int} {lower : Nat}
    (hlower : lower = 4 * r.significand * (r.scales grid).1 / (r.scales grid).2)
    (h : r.contains grid lower = true ∨ r.contains grid (lower + 1) = true) :
    ∃ n, r.nearest? tie grid = some n := by
  subst hlower
  rw [nearest?]
  dsimp only
  split
  · exact ⟨_, rfl⟩
  · exact ⟨_, rfl⟩
  · exact ⟨_, rfl⟩
  · next hno hnot =>
      rw [hno, hnot] at h
      simp at h

/-- On a grid with ten to the sixteen steps up to the number, a step is shorter than
the last place, so one of the two neighbours of the number is near enough. -/
theorem exists_nearest? (h : r.Proper) (tie : Tie) {grid : Int}
    (hgrid : (10 : ℚ) ^ grid * 10 ^ 16 ≤ r.significand * 2 ^ r.exponent) :
    ∃ n, r.nearest? tie grid = some n := by
  obtain ⟨lower, hlower⟩ :
      ∃ lower, lower = 4 * r.significand * (r.scales grid).1 / (r.scales grid).2 := ⟨_, rfl⟩
  refine exists_nearest?_of_contains hlower ?_
  have hbelow : (lower : ℚ) * 10 ^ grid ≤ 4 * r.significand * 2 ^ (r.exponent - 2) := by
    have hle := (r.le_quarters_iff grid (4 * r.significand) lower).1
      (hlower ▸ Nat.div_mul_le_self _ _)
    exact_mod_cast hle
  have habove : 4 * r.significand * 2 ^ (r.exponent - 2) < ((lower : ℚ) + 1) * 10 ^ grid := by
    have hlt : ¬ (lower + 1) * (r.scales grid).2 ≤ 4 * r.significand * (r.scales grid).1 := by
      rw [hlower, Nat.mul_comm, Nat.not_le]
      exact Nat.lt_mul_div_succ _ (r.step_pos grid)
    rw [le_quarters_iff, not_le] at hlt
    exact_mod_cast hlt
  simp only [contains_iff]
  have hunit : (0 : ℚ) < 2 ^ (r.exponent - 2) := by positivity
  have hstep : (10 : ℚ) ^ grid < 4 * 2 ^ (r.exponent - 2) := by
    have hlt : (r.significand : ℚ) < 2 ^ 53 := by exact_mod_cast h.lt
    have hprod := mul_lt_mul_of_pos_right hlt hunit
    rw [two_zpow_exponent] at hgrid
    linarith
  by_cases hnear : ((lower : ℚ) + 1) * 10 ^ grid < (4 * r.significand + 2) * 2 ^ (r.exponent - 2)
  · -- the neighbour above is nearer than half the last place
    right
    have hends : (0 : ℚ) < r.below * 2 ^ (r.exponent - 2) := by
      rcases r.below_cases with hwide | ⟨hnarrow, -⟩
      · rw [hwide]
        positivity
      · rw [hnarrow]
        positivity
    refine holds_of_lt ?_ ?_
    · rw [h.cast_low]
      push_cast
      linarith
    · push_cast
      linarith
  · -- the neighbour below is, and then there is room enough below
    left
    have hwide : r.below = 2 := by
      rcases r.below_cases with hwide | ⟨-, hnarrow⟩
      · exact hwide
      · have hpower : (r.significand : ℚ) = 2 ^ 52 := by exact_mod_cast h.narrow hnarrow
        rw [two_zpow_exponent] at hgrid
        rw [hpower] at hgrid hbelow hnear
        exact absurd (by linarith) hnear
    refine holds_of_lt ?_ ?_
    · rw [h.cast_low, hwide]
      push_cast
      linarith
    · push_cast
      linarith

/-- Seventeen grids down from the leading digit, a point is found. -/
theorem exists_findSome? (h : r.Proper) (tie : Tie) {top : Int}
    (htop : (10 : ℚ) ^ top ≤ r.significand * 2 ^ r.exponent) :
    ∃ (n : Nat) (grid : Int), r.Holds (n * 10 ^ grid) ∧
      ((List.range 17).map fun (i : Nat) => top - (i : Int)).findSome?
        (fun grid => (r.nearest? tie grid).map fun n => (n, grid)) = some (n, grid) := by
  have hgrid : (10 : ℚ) ^ (top - 16) * 10 ^ 16 ≤ r.significand * 2 ^ r.exponent := by
    rwa [zpow_sub₀ (by norm_num), zpow_ofNat, div_mul_cancel₀ _ (by norm_num)]
  obtain ⟨last, hlast⟩ := exists_nearest? h tie hgrid
  have hmem : top - 16 ∈ (List.range 17).map fun (i : Nat) => top - (i : Int) :=
    List.mem_map.2 ⟨16, List.mem_range.2 (by decide), rfl⟩
  have hfound : (((List.range 17).map fun (i : Nat) => top - (i : Int)).findSome?
      fun grid => (r.nearest? tie grid).map fun n => (n, grid)).isSome = true :=
    List.findSome?_isSome_iff.2 ⟨top - 16, hmem, by rw [hlast]; rfl⟩
  obtain ⟨⟨n, grid⟩, hfound⟩ := Option.isSome_iff_exists.1 hfound
  obtain ⟨there, -, hthere⟩ := List.exists_of_findSome?_eq_some hfound
  obtain ⟨point, hpoint, heq⟩ := Option.map_eq_some_iff.1 hthere
  obtain ⟨rfl, rfl⟩ := Prod.mk.inj heq
  exact ⟨point, there, holds_of_nearest? hpoint, hfound⟩

/-- The decimal that is written rounds to the number. -/
theorem shortest_holds (h : r.Proper) (tie : Tie) : r.Holds (r.shortest tie).value := by
  have hratio := Binary64.ratio_eq r.significand r.exponent
  have hden : (0 : ℚ) < (Binary64.ratio r.significand r.exponent).2 :=
    Nat.cast_pos.2 (Binary64.ratio_pos _ _)
  have hnum : 0 < (Binary64.ratio r.significand r.exponent).1 := by
    have hpos : (0 : ℚ) < r.significand := Nat.cast_pos.2 h.pos
    rw [← @Nat.cast_pos ℚ, hratio]
    positivity
  have htop := ten_zpow_scaleOf_le hnum (Binary64.ratio r.significand r.exponent).2
  rw [hratio, mul_le_mul_iff_left₀ hden] at htop
  obtain ⟨n, grid, hholds, hfound⟩ := exists_findSome? h tie htop
  rw [shortest]
  simp only [hfound, Option.getD_some]
  rw [Scientific.value_dropTrailingZeros, Scientific.value_ofCoefficient]
  exact hholds

/-! ## No number rounds to two -/

theorem Holds.pos (h : r.Proper) (hv : r.Holds v) : 0 < v := by
  have hpos : (1 : ℚ) ≤ r.significand := by exact_mod_cast h.pos
  have hbelow : (r.below : ℚ) ≤ 2 := by
    rcases r.below_cases with hwide | ⟨hnarrow, -⟩
    · rw [hwide]
      norm_num
    · rw [hnarrow]
      norm_num
  have hunit : (0 : ℚ) < 2 ^ (r.exponent - 2) := by positivity
  have hlow := hv.low
  rw [h.cast_low] at hlow
  exact (mul_pos (by linarith) hunit).trans_le hlow

variable {r' : RoundingInterval}

/-- On one exponent, an interval that starts above another one starts at its end, and
then only one of the two has its ends. -/
theorem Holds.significand_le (hexponent : r.exponent = r'.exponent) (hv : r.Holds v)
    (hv' : r'.Holds v) : r'.significand ≤ r.significand := by
  have hunit : (0 : ℚ) < 2 ^ (r.exponent - 2) := by positivity
  have hlow := hv'.low
  have hinner' := hv'.inner
  rw [← hexponent] at hlow hinner'
  have hends : 4 * r'.significand - r'.below ≤ 4 * r.significand + 2 := by
    exact_mod_cast le_of_mul_le_mul_right (hlow.trans hv.high) hunit
  have hodd : r.significand % 2 = 1 ∨ r'.significand % 2 = 1 →
      4 * r'.significand - r'.below < 4 * r.significand + 2 := by
    rintro (hfirst | hsecond)
    · exact_mod_cast lt_of_mul_lt_mul_right (hlow.trans_lt (hv.inner hfirst).2) hunit.le
    · exact_mod_cast lt_of_mul_lt_mul_right ((hinner' hsecond).1.trans_le hv.high) hunit.le
  have hbelow := r'.below_cases
  -- of two neighbouring significands one is odd, so the ends do not meet
  omega

/-- Below a greater exponent an interval ends before the other one starts: the greatest
significand is odd, and the least one is narrow below. -/
theorem Holds.exponent_le (h : r.Proper) (h' : r'.Proper) (hv : r.Holds v) (hv' : r'.Holds v) :
    r'.exponent ≤ r.exponent := by
  by_contra hlt
  rw [not_le] at hlt
  have hleast := h.least
  have hunit : (0 : ℚ) < 2 ^ (r.exponent - 2) := by positivity
  have hbefore : v < ((2 ^ 54 - 1 : Nat) : ℚ) * (2 * 2 ^ (r.exponent - 2)) := by
    have hmax := h.lt
    rw [← mul_assoc]
    by_cases hodd : r.significand % 2 = 1
    · refine (hv.inner hodd).2.trans_le (mul_le_mul_of_nonneg_right ?_ hunit.le)
      have hend : 4 * r.significand + 2 ≤ (2 ^ 54 - 1) * 2 := by omega
      exact_mod_cast hend
    · refine hv.high.trans_lt (mul_lt_mul_of_pos_right ?_ hunit)
      have hend : 4 * r.significand + 2 < (2 ^ 54 - 1) * 2 := by omega
      exact_mod_cast hend
  have hafter : ((2 ^ 54 - 1 : Nat) : ℚ) * 2 ^ (r'.exponent - 2) ≤ v := by
    refine le_trans (mul_le_mul_of_nonneg_right ?_ (by positivity)) hv'.low
    obtain ⟨hlead, hnarrow⟩ := h'.normal (by omega)
    have hbelow : r'.below = if r'.narrowBelow then 1 else 2 := rfl
    have hstart : 2 ^ 54 - 1 ≤ 4 * r'.significand - r'.below := by
      by_cases hpower : r'.significand = 2 ^ 52
      · rw [hbelow, hnarrow hpower, hpower]
        decide
      · have hle := r'.below_cases
        omega
    exact_mod_cast hstart
  have hdouble : (2 : ℚ) * 2 ^ (r.exponent - 2) ≤ 2 ^ (r'.exponent - 2) := by
    rw [← zpow_one_add₀ (by norm_num)]
    exact zpow_le_zpow_right₀ (by norm_num) (by omega)
  exact absurd (hafter.trans_lt hbefore) (not_lt.2 (by gcongr))

/-- No number rounds to two doubles. -/
theorem Holds.unique (h : r.Proper) (h' : r'.Proper) (hv : r.Holds v) (hv' : r'.Holds v) :
    r.significand = r'.significand ∧ r.exponent = r'.exponent := by
  have hexponent : r.exponent = r'.exponent :=
    le_antisymm (hv'.exponent_le h' h hv) (hv.exponent_le h h' hv')
  exact ⟨Nat.le_antisymm (hv'.significand_le hexponent.symm hv) (hv.significand_le hexponent hv'),
    hexponent⟩

end RoundingInterval

namespace Binary64

variable {x y : Binary64}

theorem fractionField_lt (x : Binary64) : x.fractionField < 2 ^ 52 :=
  Nat.mod_lt _ (by decide)

/-- The fields make up the bits. -/
theorem bits_eq (x : Binary64) :
    x.bits.toNat =
      (if x.isNegative then 2 ^ 63 else 0) + x.exponentField * 2 ^ 52 + x.fractionField := by
  have hbits := x.bits.toNat_lt
  simp only [isNegative, exponentField, fractionField, Nat.pow_eq, decide_eq_true_eq]
  split <;> omega

/-- The interval of a finite number other than zero. -/
theorem proper_interval (hzero : x.isZero = false) : (RoundingInterval.ofBinary64 x).Proper := by
  have hfraction := x.fractionField_lt
  simp only [isZero, decide_eq_false_iff_not, not_and] at hzero
  have hsignificand : x.significand =
      if x.exponentField = 0 then x.fractionField else 2 ^ 52 + x.fractionField := rfl
  have hexponent : x.exponent = (max x.exponentField 1 : Nat) - 1075 := rfl
  refine ⟨?_, ?_, ?_, ?_, ?_⟩ <;> simp only [RoundingInterval.ofBinary64, hsignificand, hexponent,
    Bool.and_eq_true, beq_iff_eq, decide_eq_true_eq]
  · omega
  · split <;> omega
  · split <;> omega
  · split <;> omega
  · split <;> omega

/-- A number is its sign, its significand and its exponent. -/
theorem eq_of_fields (hsign : x.isNegative = y.isNegative)
    (hsignificand : x.significand = y.significand) (hexponent : x.exponent = y.exponent) :
    x = y := by
  have hfraction := x.fractionField_lt
  have hfraction' := y.fractionField_lt
  simp only [significand, exponent, Nat.pow_eq] at hsignificand hexponent
  have hfields : x.exponentField = y.exponentField ∧ x.fractionField = y.fractionField := by
    split at hsignificand <;> split at hsignificand <;> omega
  have hbits : x.bits.toNat = y.bits.toNat := by
    rw [x.bits_eq, y.bits_eq, hsign, hfields.1, hfields.2]
  have heq := UInt64.toNat_inj.1 hbits
  cases x
  cases y
  exact congrArg Binary64.mk heq

end Binary64

end ModelSource
