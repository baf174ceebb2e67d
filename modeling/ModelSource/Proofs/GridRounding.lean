import ModelSource.Geometry
import ModelSource.Proofs.WholeNumbers

/-!
# Coordinates on the grid

A coordinate is moved onto the even or the odd integers by way of its half. As long as the
half is exact, what is computed on bits is what the value asks for: twice the integer nearest
to the half, or twice the integer below it and one more (`roundEven_eq`, `roundOdd_eq`).
The words that this is computed in are wide enough (`toWord_exact`). Everything else follows
on rationals: how far a number is moved, that rounding keeps the order, and that it leaves
alone what is on the lattice.

The half is exact for zeros and from `2 ^ -1021` on. Below that, halving can lose a bit: the
half of the negative number next to zero is a zero, and so it gets the odd integer above zero.
The images of a map are numbers again, not integers; up to `2 ^ 53` nothing is lost by that
(`ofInt_exact`).
-/

namespace ModelSource

/-! ## The nearest integer -/

section

variable {q r : ℚ} {n : ℤ}

/-- Halfway between two integers, the even one is taken. -/
theorem even_nearestEven (h : |q - nearestEven q| = 1 / 2) : Even (nearestEven q) := by
  have hsplit := Int.self_sub_floor q
  have hnonneg := Int.fract_nonneg q
  have hlt := Int.fract_lt_one q
  rw [nearestEven] at h ⊢
  split at h
  · next hdown =>
      rw [if_pos hdown]
      rw [hsplit, abs_of_nonneg hnonneg] at h
      rcases hdown with hless | heven
      · exact absurd h hless.ne
      · exact Int.even_iff.2 heven.2
  · next hup =>
      rw [if_neg hup]
      have hhalf : Int.fract q = 1 / 2 := by
        rw [Int.cast_add, Int.cast_one, ← sub_sub, hsplit, abs_of_nonpos (by linarith)] at h
        linarith
      have hodd : ¬ ⌊q⌋ % 2 = 0 := fun heven => hup (.inr ⟨hhalf, heven⟩)
      rw [Int.even_iff]
      omega

theorem nearestEven_of_half (h : |q - n| = 1 / 2) (hn : Even n) : nearestEven q = n := by
  have hnear := abs_sub_nearestEven_le q
  by_contra hne
  -- the nearest integer is then the other neighbour, and both are even
  have hstep : (1 : ℚ) ≤ |(nearestEven q : ℚ) - n| := by
    exact_mod_cast Int.one_le_abs (sub_ne_zero.2 hne)
  have htriangle := abs_sub_le (nearestEven q : ℚ) q n
  rw [abs_sub_comm (nearestEven q : ℚ) q] at htriangle
  have heven := even_nearestEven (le_antisymm hnear (by linarith))
  have hnext : |(nearestEven q : ℚ) - n| ≤ 1 := by linarith
  have habs : |nearestEven q - n| ≤ 1 := by exact_mod_cast hnext
  rw [Int.even_iff] at heven hn
  rw [abs_le] at habs
  omega

theorem nearestEven_neg (q : ℚ) : nearestEven (-q) = -nearestEven q := by
  have hmirror : |-q - (-nearestEven q : ℤ)| = |q - nearestEven q| := by
    rw [Int.cast_neg, neg_sub_neg, abs_sub_comm]
  rcases (abs_sub_nearestEven_le q).lt_or_eq with hless | hhalf
  · exact nearestEven_eq (hmirror ▸ hless)
  · exact nearestEven_of_half (hmirror ▸ hhalf) (even_nearestEven hhalf).neg

theorem nearestEven_mono (h : q ≤ r) : nearestEven q ≤ nearestEven r := by
  have hq := (abs_le.1 (abs_sub_nearestEven_le q)).1
  have hr := (abs_le.1 (abs_sub_nearestEven_le r)).2
  by_contra hlt
  have hstep : (nearestEven r : ℚ) + 1 ≤ nearestEven q := by exact_mod_cast not_le.1 hlt
  obtain rfl : q = r := le_antisymm h (by linarith)
  exact hlt le_rfl

theorem nearestEven_intCast (n : ℤ) : nearestEven n = n :=
  le_antisymm (nearestEven_le le_rfl) (le_nearestEven le_rfl)

/-- Half of an odd integer lies halfway between two integers. -/
theorem even_nearestEven_of_odd (hn : Odd n) : Even (nearestEven (n / 2)) := by
  refine even_nearestEven ((abs_sub_nearestEven_le (n / 2 : ℚ)).eq_of_not_lt fun hless => ?_)
  rw [abs_lt] at hless
  have hlow : ((-1 : ℤ) : ℚ) < (n - 2 * nearestEven (n / 2) : ℤ) := by
    push_cast
    linarith
  have hhigh : ((n - 2 * nearestEven (n / 2) : ℤ) : ℚ) < (1 : ℤ) := by
    push_cast
    linarith
  rw [Int.cast_lt] at hlow hhigh
  rw [Int.odd_iff] at hn
  omega

end

namespace Binary64

variable {x y : Binary64} {n : ℤ}

/-! ## Rounding by the half -/

/-- Zero, or in size from `2 ^ -1021`, where halves are exact, to below `2 ^ 62`. -/
def OnScale (x : Binary64) : Prop :=
  x.isFinite = true ∧ (x.value = 0 ∨ 2 ^ (-1021 : ℤ) ≤ |x.value| ∧ |x.value| < 2 ^ 62)

theorem significand_lt (x : Binary64) : x.significand < 2 ^ 53 := by
  have hfraction := x.fractionField_lt
  rw [significand, Nat.pow_eq]
  split <;> omega

theorem OnScale.zero_or_normal (h : x.OnScale) : x.isZero = true ∨ 1 < x.exponentField := by
  rcases h.2 with hzero | ⟨hlow, -⟩
  · exact .inl (value_eq_zero_iff.1 hzero)
  · refine .inr (not_le.1 fun hfield => absurd hlow (not_le.2 ?_))
    have hexponent : x.exponent = -1074 := by
      rw [exponent]
      omega
    have hsignificand : (x.significand : ℚ) < 2 ^ (53 : ℤ) := by exact_mod_cast x.significand_lt
    calc |x.value| = x.significand * 2 ^ (-1074 : ℤ) := by rw [abs_value, size, hexponent]
      _ < 2 ^ (53 : ℤ) * 2 ^ (-1074 : ℤ) := by gcongr
      _ = 2 ^ (-1021 : ℤ) := (zpow_add₀ two_ne_zero 53 (-1074)).symm

/-- The half is exact. -/
theorem OnScale.halfMagnitude_div (h : x.OnScale) :
    (x.halfMagnitude.1 : ℚ) / x.halfMagnitude.2 = x.size / 2 := by
  have hden : (0 : ℚ) < x.halfMagnitude.2 := Nat.cast_pos.2 (ratio_pos _ _)
  have hhalf : (x.half.1 : ℚ) * 2 ^ x.half.2 = x.size / 2 := by
    rw [half, size]
    split
    · rw [zpow_sub_one₀ two_ne_zero]
      ring
    · next hfield =>
        have hzero := value_eq_zero_iff.2 (h.zero_or_normal.resolve_right hfield)
        have hsignificand : x.significand = 0 := by
          rw [← abs_eq_zero, abs_value, size, mul_eq_zero] at hzero
          exact_mod_cast hzero.resolve_right (by positivity)
        rw [hsignificand]
        simp [roundQuotient]
  rw [div_eq_iff hden.ne', ← hhalf]
  exact ratio_eq _ _

theorem OnScale.signed_half (h : x.OnScale) :
    (if x.isNegative then -((x.halfMagnitude.1 : ℚ) / x.halfMagnitude.2)
      else (x.halfMagnitude.1 : ℚ) / x.halfMagnitude.2) = x.value / 2 := by
  rw [h.halfMagnitude_div, value]
  split
  · rw [neg_div]
  · rfl

theorem OnScale.half_bounds (h : x.OnScale) :
    ((-2 ^ 61 : ℤ) : ℚ) ≤ x.value / 2 ∧ x.value / 2 < (2 ^ 61 : ℤ) := by
  have hvalue : |x.value| < 2 ^ 62 := by
    rcases h.2 with hzero | ⟨-, hlt⟩
    · rw [hzero, abs_zero]
      positivity
    · exact hlt
  rw [abs_lt] at hvalue
  push_cast
  constructor <;> linarith

/-- Neither the cut to a word nor the arithmetic of words is felt by a half of this size. -/
theorem toWord_exact (hfinite : x.isFinite = true) (hlow : -2 ^ 61 ≤ n) (hhigh : n ≤ 2 ^ 61) :
    (x.toWord n * 2).toInt = 2 * n ∧ (x.toWord n * 2 + 1).toInt = 2 * n + 1 := by
  have hword : (x.toWord n).toInt = n := by
    rw [toWord, if_pos hfinite]
    refine Int64.toInt_ofIntClamp ?_ ?_
    · show -2 ^ 63 ≤ n
      omega
    · show n ≤ 2 ^ 63 - 1
      omega
  have hdouble : (x.toWord n * 2).toInt = 2 * n := by
    rw [Int64.toInt_mul, hword]
    show (n * 2).bmod (2 ^ 64) = 2 * n
    rw [Int.bmod_eq_of_le (by omega) (by omega)]
    omega
  refine ⟨hdouble, ?_⟩
  rw [Int64.toInt_add, hdouble]
  show (2 * n + 1).bmod (2 ^ 64) = 2 * n + 1
  exact Int.bmod_eq_of_le (by omega) (by omega)

theorem roundEven_eq (h : x.OnScale) : x.roundEven = 2 * nearestEven (x.value / 2) := by
  have hden : 0 < x.halfMagnitude.2 := ratio_pos _ _
  have hnearest : x.halfNearest = nearestEven (x.value / 2) := by
    rw [halfNearest, ← h.signed_half, withSign, roundQuotient_toEven _ hden]
    split
    · rw [nearestEven_neg]
    · rfl
  obtain ⟨hlow, hhigh⟩ := h.half_bounds
  rw [roundEven, hnearest]
  exact (toWord_exact h.1 (le_nearestEven hlow) (nearestEven_le hhigh.le)).1

theorem roundOdd_eq (h : x.OnScale) : x.roundOdd = 2 * ⌊x.value / 2⌋ + 1 := by
  have hfloor : x.halfFloor = ⌊x.value / 2⌋ := by
    show x.withSign x.halfMagnitude.1 / (x.halfMagnitude.2 : ℤ) = _
    rw [← Rat.floor_intCast_div_natCast, cast_withSign, ← h.signed_half]
    congr 1
    split
    · rw [neg_div]
    · rfl
  obtain ⟨hlow, hhigh⟩ := h.half_bounds
  rw [roundOdd, hfloor]
  exact (toWord_exact h.1 (Int.le_floor.2 hlow) (Int.floor_lt.2 hhigh).le).2

theorem abs_roundEven_sub_le (h : x.OnScale) : |(x.roundEven : ℚ) - x.value| ≤ 1 := by
  have hnear := abs_le.1 (abs_sub_nearestEven_le (x.value / 2))
  rw [roundEven_eq h, abs_le]
  push_cast
  constructor <;> linarith

/-- The cell of an odd integer starts at the even one below it. -/
theorem roundOdd_cell (h : x.OnScale) :
    (x.roundOdd : ℚ) - 1 ≤ x.value ∧ x.value < x.roundOdd + 1 := by
  have hfloor := Int.floor_le (x.value / 2)
  have hnext := Int.lt_floor_add_one (x.value / 2)
  rw [roundOdd_eq h]
  push_cast
  constructor <;> linarith

theorem four_dvd_roundEven (h : x.OnScale) (hn : Odd n) (hvalue : x.value = n) :
    4 ∣ x.roundEven := by
  obtain ⟨k, hk⟩ := even_nearestEven_of_odd hn
  rw [roundEven_eq h, hvalue, hk]
  omega

theorem rounds_mono (hx : x.OnScale) (hy : y.OnScale) (h : x.value ≤ y.value) :
    x.roundEven ≤ y.roundEven ∧ x.roundOdd ≤ y.roundOdd := by
  have hhalf : x.value / 2 ≤ y.value / 2 := by linarith
  have heven := nearestEven_mono hhalf
  have hodd := Int.floor_mono hhalf
  rw [roundEven_eq hx, roundEven_eq hy, roundOdd_eq hx, roundOdd_eq hy]
  omega

theorem roundEven_of_even (h : x.OnScale) (hn : Even n) (hvalue : x.value = n) :
    x.roundEven = n := by
  obtain ⟨k, rfl⟩ := hn
  have hhalf : x.value / 2 = k := by
    rw [hvalue]
    push_cast
    ring
  rw [roundEven_eq h, hhalf, nearestEven_intCast, two_mul]

theorem roundOdd_of_odd (h : x.OnScale) (hn : Odd n) (hvalue : x.value = n) :
    x.roundOdd = n := by
  obtain ⟨k, rfl⟩ := hn
  have hfloor : ⌊x.value / 2⌋ = k := by
    rw [hvalue, Int.floor_eq_iff]
    push_cast
    constructor <;> linarith
  rw [roundOdd_eq h, hfloor]

theorem abs_rounds_le (h : x.OnScale) : |x.roundEven| ≤ 2 ^ 62 ∧ |x.roundOdd| ≤ 2 ^ 62 := by
  obtain ⟨hlow, hhigh⟩ := h.half_bounds
  have heven := le_nearestEven hlow
  have heven' := nearestEven_le hhigh.le
  have hodd := Int.le_floor.2 hlow
  have hodd' := Int.floor_lt.2 hhigh
  rw [roundEven_eq h, roundOdd_eq h, abs_le, abs_le]
  omega

/-! ## Integers as numbers -/

theorem fields_of_bits {negative : Bool} {e f : Nat} (he : e < 2048) (hf : f < 2 ^ 52)
    (h : x.bits.toNat = (if negative then 2 ^ 63 else 0) + e * 2 ^ 52 + f) :
    x.isNegative = negative ∧ x.exponentField = e ∧ x.fractionField = f := by
  simp only [isNegative, exponentField, fractionField, Nat.pow_eq]
  cases negative with
  | true =>
      rw [if_pos rfl] at h
      exact ⟨decide_eq_true (by omega), by omega, by omega⟩
  | false =>
      rw [if_neg Bool.false_ne_true, Nat.zero_add] at h
      exact ⟨decide_eq_false (by omega), by omega, by omega⟩

theorem fields_neg (x : Binary64) :
    x.neg.isNegative = !x.isNegative ∧ x.neg.exponentField = x.exponentField ∧
      x.neg.fractionField = x.fractionField := by
  have hbits : x.neg.bits.toNat = x.bits.toNat ^^^ 2 ^ 63 := UInt64.toNat_xor _ _
  have hlow : (x.bits.toNat ^^^ 2 ^ 63) % 2 ^ 63 = x.bits.toNat % 2 ^ 63 := by
    rw [Nat.xor_mod_two_pow, Nat.mod_self, Nat.xor_zero]
  have hhigh : (x.bits.toNat ^^^ 2 ^ 63) / 2 ^ 63 = x.bits.toNat / 2 ^ 63 ^^^ 1 := by
    rw [Nat.xor_div_two_pow, Nat.div_self (by decide)]
  have hexponent : x.exponentField < 2048 := Nat.mod_lt _ (by decide)
  have hfraction := x.fractionField_lt
  have hsplit := x.bits_eq
  refine fields_of_bits hexponent hfraction ?_
  rw [hbits]
  generalize x.bits.toNat ^^^ 2 ^ 63 = flipped at hlow hhigh ⊢
  cases hsign : x.isNegative with
  | true =>
      rw [hsign, if_pos rfl] at hsplit
      have htop : x.bits.toNat / 2 ^ 63 = 1 := by omega
      rw [htop, Nat.xor_self] at hhigh
      show flipped = 0 + x.exponentField * 2 ^ 52 + x.fractionField
      omega
  | false =>
      rw [hsign, if_neg Bool.false_ne_true] at hsplit
      have htop : x.bits.toNat / 2 ^ 63 = 0 := by omega
      rw [htop, Nat.zero_xor] at hhigh
      show flipped = 2 ^ 63 + x.exponentField * 2 ^ 52 + x.fractionField
      omega

theorem value_neg (x : Binary64) : x.neg.value = -x.value := by
  obtain ⟨hsign, hexponent, hfraction⟩ := x.fields_neg
  have hsize : x.neg.size = x.size := by
    simp only [size, significand, exponent, hexponent, hfraction]
  rw [value, value, hsign, hsize]
  cases x.isNegative <;> simp

theorem isFinite_neg (x : Binary64) : x.neg.isFinite = x.isFinite := by
  rw [isFinite, isFinite, x.fields_neg.2.1]

/-- The hidden bit of a significand is carried into the exponent field. -/
theorem fields_of_significand {top s : Nat} (htop : top ≤ 1023) (hlow : 2 ^ 52 ≤ s)
    (hhigh : s < 2 ^ 53) (h : x.bits.toNat = (top + 1022) * 2 ^ 52 + s) :
    x.isNegative = false ∧ x.isFinite = true ∧ x.significand = s ∧ x.exponent = top - 52 := by
  obtain ⟨f, rfl⟩ := Nat.exists_eq_add_of_le hlow
  have hpacked : x.bits.toNat = (if false then 2 ^ 63 else 0) + (top + 1023) * 2 ^ 52 + f := by
    rw [h, if_neg Bool.false_ne_true]
    ring
  obtain ⟨hsign, hexponent, hfraction⟩ := fields_of_bits (by omega) (by omega) hpacked
  refine ⟨hsign, decide_eq_true (by omega), ?_, ?_⟩
  · rw [significand, if_neg (by omega), hfraction, Nat.pow_eq]
  · rw [exponent, hexponent]
    omega

theorem ofNat_exact {k : Nat} (h : k < 2 ^ 53) :
    (ofNat k).isFinite = true ∧ (ofNat k).value = k := by
  rcases Nat.eq_zero_or_pos k with rfl | hpos
  · exact ⟨by decide, value_eq_zero_iff.2 (by decide)⟩
  · have hle : k.log2 ≤ 52 := by
      have hlt := (Nat.log2_lt hpos.ne').2 h
      omega
    have hlow : 2 ^ 52 ≤ k * 2 ^ (52 - k.log2) := by
      calc 2 ^ 52 = 2 ^ k.log2 * 2 ^ (52 - k.log2) := by rw [← Nat.pow_add]; congr 1; omega
        _ ≤ k * 2 ^ (52 - k.log2) := Nat.mul_le_mul_right _ (Nat.log2_self_le hpos.ne')
    have hhigh : k * 2 ^ (52 - k.log2) < 2 ^ 53 := by
      calc k * 2 ^ (52 - k.log2) < 2 ^ (k.log2 + 1) * 2 ^ (52 - k.log2) :=
            Nat.mul_lt_mul_of_pos_right Nat.lt_log2_self (Nat.two_pow_pos _)
        _ = 2 ^ 53 := by rw [← Nat.pow_add]; congr 1; omega
    have hbits : (ofNat k).bits.toNat = (k.log2 + 1022) * 2 ^ 52 + k * 2 ^ (52 - k.log2) := by
      have hfits : (k.log2 + 1022) * 2 ^ 52 + k * 2 ^ (52 - k.log2) < 2 ^ 64 := by omega
      rw [ofNat, if_neg hpos.ne']
      simp only [if_pos hle, Nat.pow_eq, UInt64.toNat_ofNat', Nat.mod_eq_of_lt hfits]
    obtain ⟨hsign, hfinite, hsignificand, hexponent⟩ :=
      fields_of_significand (by omega) hlow hhigh hbits
    have hscale : (ofNat k).exponent = -((52 - k.log2 : Nat) : ℤ) := by omega
    refine ⟨hfinite, ?_⟩
    rw [value, hsign, size, hsignificand, hscale, zpow_neg, zpow_natCast]
    push_cast
    field_simp

theorem ofInt_exact (h : n.natAbs < 2 ^ 53) :
    (ofInt n).isFinite = true ∧ (ofInt n).value = n := by
  cases n with
  | ofNat k => exact_mod_cast ofNat_exact h
  | negSucc k =>
      obtain ⟨hfinite, hvalue⟩ :
          (ofNat (k + 1)).isFinite = true ∧ (ofNat (k + 1)).value = (k + 1 : Nat) := ofNat_exact h
      show (ofNat (k + 1)).neg.isFinite = true ∧ (ofNat (k + 1)).neg.value = _
      refine ⟨(isFinite_neg _).trans hfinite, ?_⟩
      rw [value_neg, hvalue, Int.cast_negSucc]

end Binary64

/-! ## Maps onto the lattice -/

/-- The integers of a lattice. -/
def Lattice.Meets : Lattice → ℤ → Prop
  | .even, n => Even n
  | .odd, n => Odd n

/-- The image is an integer of the lattice, at most one away from the number. -/
def Lattice.Lands (lattice : Lattice) (x image : Binary64) : Prop :=
  ∃ n : ℤ, image.isFinite = true ∧ image.value = n ∧ lattice.Meets n ∧ |(n : ℚ) - x.value| ≤ 1

theorem Binary64.ofInt_near {x : Binary64} {n : ℤ} (hsmall : |x.value| < 2 ^ 52)
    (hnear : |(n : ℚ) - x.value| ≤ 1) : (ofInt n).isFinite = true ∧ (ofInt n).value = n := by
  refine ofInt_exact ?_
  rw [abs_lt] at hsmall
  rw [abs_le] at hnear
  have hlow : ((-2 ^ 53 : ℤ) : ℚ) < n := by
    push_cast
    linarith
  have hhigh : (n : ℚ) < (2 ^ 53 : ℤ) := by
    push_cast
    linarith
  rw [Int.cast_lt] at hlow hhigh
  omega

theorem Lattice.lands_round (lattice : Lattice) {x : Binary64} (h : x.OnScale)
    (hsmall : |x.value| < 2 ^ 52) : lattice.Lands x (lattice.round x) := by
  cases lattice with
  | even =>
      have hnear := Binary64.abs_roundEven_sub_le h
      obtain ⟨hfinite, hvalue⟩ := Binary64.ofInt_near hsmall hnear
      refine ⟨x.roundEven, hfinite, hvalue, ?_, hnear⟩
      exact ⟨_, (Binary64.roundEven_eq h).trans (two_mul _)⟩
  | odd =>
      have hcell := Binary64.roundOdd_cell h
      have hnear : |(x.roundOdd : ℚ) - x.value| ≤ 1 := by
        rw [abs_le]
        constructor <;> linarith
      obtain ⟨hfinite, hvalue⟩ := Binary64.ofInt_near hsmall hnear
      exact ⟨x.roundOdd, hfinite, hvalue, ⟨_, Binary64.roundOdd_eq h⟩, hnear⟩

/-- A number with an exact half is rounded to an even integer at most one away, to a multiple
of four if it is an odd integer itself, and to the odd integer in whose cell it lies. Neither
rounding leaves the integers of sixty-four bits, and both keep the order and leave the integers
of their lattice alone. What a map makes of a coordinate below `2 ^ 52` is such an integer too. -/
theorem rounding_lands_on_lattice :
    (∀ x : Binary64, x.OnScale →
      (Even x.roundEven ∧ |(x.roundEven : ℚ) - x.value| ≤ 1 ∧
        ∀ n : ℤ, Odd n → x.value = n → 4 ∣ x.roundEven) ∧
      (Odd x.roundOdd ∧ (x.roundOdd : ℚ) - 1 ≤ x.value ∧ x.value < x.roundOdd + 1) ∧
      |x.roundEven| ≤ 2 ^ 62 ∧ |x.roundOdd| ≤ 2 ^ 62) ∧
    (∀ x y : Binary64, x.OnScale → y.OnScale → x.value ≤ y.value →
      x.roundEven ≤ y.roundEven ∧ x.roundOdd ≤ y.roundOdd) ∧
    (∀ (x : Binary64) (n : ℤ), x.OnScale → x.value = n →
      (Even n → x.roundEven = n) ∧ (Odd n → x.roundOdd = n)) ∧
    ∀ (m : BoxMap) (p : Point) (lattice : Lattice), m.lattice = some lattice →
      ((m.linear p).x.OnScale → |(m.linear p).x.value| < 2 ^ 52 →
        lattice.Lands (m.linear p).x (m.apply p).x) ∧
      ((m.linear p).y.OnScale → |(m.linear p).y.value| < 2 ^ 52 →
        lattice.Lands (m.linear p).y (m.apply p).y) := by
  refine ⟨fun x h => ⟨⟨?_, ?_, ?_⟩, ⟨?_, ?_⟩, ?_⟩, fun x y => Binary64.rounds_mono,
    fun x n h hvalue => ⟨?_, ?_⟩, fun m p lattice hlattice => ?_⟩
  · exact ⟨_, (Binary64.roundEven_eq h).trans (two_mul _)⟩
  · exact Binary64.abs_roundEven_sub_le h
  · exact fun n => Binary64.four_dvd_roundEven h
  · exact ⟨_, Binary64.roundOdd_eq h⟩
  · exact Binary64.roundOdd_cell h
  · exact Binary64.abs_rounds_le h
  · exact fun hn => Binary64.roundEven_of_even h hn hvalue
  · exact fun hn => Binary64.roundOdd_of_odd h hn hvalue
  · have hpoint : m.apply p = ⟨lattice.round (m.linear p).x, lattice.round (m.linear p).y⟩ := by
      rw [BoxMap.apply, hlattice]
    rw [hpoint]
    exact ⟨lattice.lands_round, lattice.lands_round⟩

/-- A point of the unit square on a diagram of twenty by twenty: `-3.08` goes to `-4`. Three
lies between two even integers, and zero stays where it is. -/
theorem rounding_lands_on_lattice_diagram :
    let m : BoxMap := ⟨20, -10, 20, -10, some .even⟩
    let p : Point := ⟨⟨0x3fd624dd2f1a9fbe⟩, ⟨0x3fee6e978d4fdf3b⟩⟩
    let x : Binary64 := ⟨0xc008a3d70a3d70a4⟩
    BoxMap.ofBoxes ⟨⟨0, 0⟩, ⟨1, 1⟩⟩ ⟨⟨-10, -10⟩, ⟨10, 10⟩⟩ (some .even) = .ok m ∧
      (m.linear p).x = x ∧ x.OnScale ∧ (m.apply p).x = -4 ∧ Lattice.even.Lands x (-4) ∧
      |(x.roundEven : ℚ) - x.value| ≤ 1 ∧ x.roundEven ≤ Binary64.roundEven 0 ∧
      Binary64.roundEven 0 = 0 ∧ 4 ∣ Binary64.roundEven 3 := by
  intro m p x
  have hlinear : (m.linear p).x = x := by decide +kernel
  have himage : (m.apply p).x = -4 := by decide +kernel
  have hsize : x.size = 6935543426150564 * 2 ^ (-51 : ℤ) := by
    have hsignificand : x.significand = 6935543426150564 := by decide
    have hexponent : x.exponent = -51 := by decide
    rw [Binary64.size, hsignificand, hexponent, Nat.cast_ofNat]
  have hscale : ∀ z : Binary64, z.isFinite = true → 1 ≤ |z.value| ∧ |z.value| < 2 ^ 62 →
      z.OnScale := by
    intro z hfinite hbounds
    have hleast : (2 : ℚ) ^ (-1021 : ℤ) ≤ 1 := zpow_le_one_of_nonpos₀ one_le_two (by decide)
    exact ⟨hfinite, .inr ⟨hleast.trans hbounds.1, hbounds.2⟩⟩
  have hx : x.OnScale := by
    refine hscale x (by decide) ?_
    rw [Binary64.abs_value, hsize]
    norm_num
  have hbelow : |x.value| < 2 ^ 52 := by
    rw [Binary64.abs_value, hsize]
    norm_num
  have hzero : (0 : Binary64).value = (0 : ℤ) := Binary64.value_eq_zero_iff.2 (by decide)
  have hthree : (3 : Binary64).value = (3 : ℤ) := (Binary64.ofNat_exact (by decide)).2
  have hzeroScale : (0 : Binary64).OnScale := ⟨by decide, .inl hzero⟩
  have hthreeScale : (3 : Binary64).OnScale := by
    refine hscale 3 (by decide) ?_
    rw [hthree]
    norm_num
  have hnegative : x.value ≤ (0 : Binary64).value := by
    rw [hzero, Binary64.value, if_pos (by decide), hsize]
    norm_num
  obtain ⟨hround, hmono, hkeep, hmap⟩ := rounding_lands_on_lattice
  refine ⟨by decide +kernel, hlinear, hx, himage, ?_, (hround x hx).1.2.1,
    (hmono x 0 hx hzeroScale hnegative).1, (hkeep 0 0 hzeroScale hzero).1 Even.zero,
    (hround 3 hthreeScale).1.2.2 3 (by decide) hthree⟩
  have hlands := (hmap m p .even rfl).1
  rw [hlinear, himage] at hlands
  exact hlands hx hbelow

-- the negative number next to zero, whose half is no longer exact
example : Binary64.roundOdd ⟨0x8000000000000001⟩ = 1 := by decide +kernel

-- `2 ^ 63` and the negative infinity, where the words are too narrow
example : Binary64.roundEven ⟨0x43e0000000000000⟩ = -2 ^ 63 := by decide +kernel
example : Binary64.roundOdd ⟨0xfff0000000000000⟩ = 1 := by decide +kernel

end ModelSource
