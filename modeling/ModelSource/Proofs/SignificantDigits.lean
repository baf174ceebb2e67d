import Mathlib.Data.Int.Log
import Mathlib.Data.Rat.Floor
import ModelSource.Number.Significant
import ModelSource.Proofs.NumberText

/-!
# What is written to so many significant digits

The value that has to be written is said on rationals: `toPrecision` takes a number to
the nearest multiple of the place of its last significant digit, a half to even. The
digits that are laid out are found by counting digits and comparing naturals, and they
are those of that value.

The usual way to write a number in this form is to format it twice: with an exponent
first, only to see which exponent it has after rounding, and then again with a fixed
number of decimals, with the trailing zeros cut off the text. Each formatting rounds, and
the second one does so at another place if the first one carried. Nothing is lost by
that (`RoundsTo`): a carry leaves a power of ten, from which the number is at most a
twentieth of the coarser place away, so that it rounds to the same power again.
-/

namespace ModelSource

/-! ## Rounding a rational -/

/-- The integer nearest to a rational, and of two equally near ones the even one. -/
def nearestEven (q : ℚ) : ℤ :=
  if Int.fract q < 1 / 2 ∨ Int.fract q = 1 / 2 ∧ ⌊q⌋ % 2 = 0 then ⌊q⌋ else ⌊q⌋ + 1

/-- The place of the last of so many significant digits. -/
def lastPlace (precision : Nat) (v : ℚ) : ℤ :=
  Int.log 10 v - (precision - 1 : Nat)

/-- A positive rational to `precision` significant digits. -/
def toPrecision (precision : Nat) (v : ℚ) : ℚ :=
  nearestEven (v / 10 ^ lastPlace precision v) * 10 ^ lastPlace precision v

theorem abs_sub_nearestEven_le (q : ℚ) : |q - nearestEven q| ≤ 1 / 2 := by
  have hsplit := Int.self_sub_floor q
  have hnonneg := Int.fract_nonneg q
  have hlt := Int.fract_lt_one q
  rw [nearestEven, abs_le]
  split
  · next hdown =>
      have hle : Int.fract q ≤ 1 / 2 := hdown.elim le_of_lt fun h => h.1.le
      constructor <;> linarith
  · next hup =>
      have hge : 1 / 2 ≤ Int.fract q := le_of_not_gt fun h => hup (.inl h)
      push_cast
      constructor <;> linarith

theorem le_nearestEven {q : ℚ} {n : ℤ} (h : (n : ℚ) ≤ q) : n ≤ nearestEven q := by
  have hnear := (abs_le.1 (abs_sub_nearestEven_le q)).2
  have hlt : ((n - 1 : ℤ) : ℚ) < nearestEven q := by
    push_cast
    linarith
  rw [Int.cast_lt] at hlt
  omega

theorem nearestEven_le {q : ℚ} {n : ℤ} (h : q ≤ n) : nearestEven q ≤ n := by
  have hnear := (abs_le.1 (abs_sub_nearestEven_le q)).1
  have hlt : ((nearestEven q : ℤ) : ℚ) < (n + 1 : ℤ) := by
    push_cast
    linarith
  rw [Int.cast_lt] at hlt
  omega

/-- An integer that is nearer than a half is the nearest. -/
theorem nearestEven_eq {q : ℚ} {n : ℤ} (h : |q - n| < 1 / 2) : nearestEven q = n := by
  have hnear := abs_le.1 (abs_sub_nearestEven_le q)
  rw [abs_lt] at h
  have hbelow : ((nearestEven q : ℤ) : ℚ) < (n + 1 : ℤ) := by
    push_cast
    linarith
  have habove : ((n - 1 : ℤ) : ℚ) < nearestEven q := by
    push_cast
    linarith
  rw [Int.cast_lt] at hbelow habove
  omega

/-- Comparing naturals decides what the rational asks for. -/
theorem roundQuotient_toEven (num : Nat) {den : Nat} (hden : 0 < den) :
    (roundQuotient .toEven num den : ℤ) = nearestEven (num / den) := by
  have hpos : (0 : ℚ) < den := Nat.cast_pos.2 hden
  have hbelow : ((num % den : Nat) : ℚ) / den < 1 / 2 ↔ 2 * (num % den) < den := by
    rw [div_lt_div_iff₀ hpos two_pos, one_mul, mul_comm]
    exact_mod_cast Iff.rfl
  have hhalf : ((num % den : Nat) : ℚ) / den = 1 / 2 ↔ 2 * (num % den) = den := by
    rw [div_eq_div_iff hpos.ne' two_ne_zero, one_mul, mul_comm]
    exact_mod_cast Iff.rfl
  rw [nearestEven, Rat.floor_natCast_div_natCast, Int.fract_div_natCast_eq_div_natCast_mod,
    roundQuotient]
  simp only [hbelow, hhalf, Tie.takesUpper, beq_iff_eq]
  split_ifs <;> omega

/-! ## The leading digit -/

theorem log_ten_eq {v : ℚ} {e : ℤ} (hlow : (10 : ℚ) ^ e ≤ v) (hhigh : v < 10 ^ (e + 1)) :
    Int.log 10 v = e := by
  have hv : 0 < v := lt_of_lt_of_le (by positivity) hlow
  have hle := (Int.zpow_le_iff_le_log (b := 10) (by decide) hv).1 (by exact_mod_cast hlow)
  have hlt := (Int.lt_zpow_iff_log_lt (b := 10) (by decide) hv).1 (by exact_mod_cast hhigh)
  omega

/-- Counting digits finds the power of ten of the leading one. -/
theorem scaleOf_eq_log {num den : Nat} (hnum : 0 < num) (hden : 0 < den) :
    scaleOf num den = Int.log 10 (num / den : ℚ) := by
  have hpos : (0 : ℚ) < den := Nat.cast_pos.2 hden
  symm
  apply log_ten_eq
  · rw [le_div_iff₀ hpos]
    exact ten_zpow_scaleOf_le hnum den
  · rw [div_lt_iff₀ hpos, scaleOf]
    simp only [Nat.pow_eq]
    split
    · -- `den` has a digit at every place it was counted for
      have hlead : (10 : ℚ) ^ ((digitCount den : Int) - 1) ≤ den := by
        have hcount : 0 < digitCount den := Nat.length_toDigits_pos
        have hcast : (digitCount den : Int) - 1 = ((digitCount den - 1 : Nat) : Int) := by omega
        rw [hcast, zpow_natCast]
        exact_mod_cast ten_pow_digitCount_le hden
      calc (num : ℚ) < 10 ^ (digitCount num : Int) := by
            exact_mod_cast lt_ten_pow_digitCount num
        _ = 10 ^ ((digitCount num : Int) - digitCount den + 1) *
              10 ^ ((digitCount den : Int) - 1) := by
            rw [← zpow_add₀ (by norm_num)]
            congr 1
            omega
        _ ≤ 10 ^ ((digitCount num : Int) - digitCount den + 1) * den := by
            gcongr
    · next hlt =>
        have hfactor :
            ((10 ^ (-((digitCount num : Int) - digitCount den)).toNat : Nat) : ℚ) > 0 := by
          positivity
        have hgrid := ten_zpow_toNat ((digitCount num : Int) - digitCount den)
        rw [not_le, ← @Nat.cast_lt ℚ, Nat.cast_mul, Nat.cast_mul, ← hgrid] at hlt
        rw [sub_add_cancel]
        refine lt_of_mul_lt_mul_right ?_ hfactor.le
        linarith

/-! ## Rounding once and rounding again -/

variable {precision : Nat} {v : ℚ}

/-- A number is between two powers of ten of its last place. -/
theorem div_lastPlace_bounds (hprecision : 0 < precision) (hv : 0 < v) :
    (10 : ℚ) ^ (precision - 1) ≤ v / 10 ^ lastPlace precision v ∧
      v / 10 ^ lastPlace precision v ≤ 10 ^ precision := by
  have hunit : (0 : ℚ) < 10 ^ lastPlace precision v := by positivity
  have hlow := Int.zpow_log_le_self (b := 10) (by decide) hv
  have hhigh := Int.lt_zpow_succ_log_self (b := 10) (by decide) v
  rw [Nat.cast_ofNat] at hlow hhigh
  have hplace : ((precision - 1 : Nat) : Int) + lastPlace precision v = Int.log 10 v := by
    rw [lastPlace]
    omega
  have hnext : (precision : Int) + lastPlace precision v = Int.log 10 v + 1 := by omega
  rw [le_div_iff₀ hunit, div_le_iff₀ hunit, ← zpow_natCast, ← zpow_natCast,
    ← zpow_add₀ (by norm_num), ← zpow_add₀ (by norm_num), hplace, hnext]
  exact ⟨hlow, hhigh.le⟩

/-- With `precision` digits up to a place, this is the last place. -/
theorem lastPlace_coefficient {coefficient : Nat} (hprecision : 0 < precision)
    (hlow : 10 ^ (precision - 1) ≤ coefficient) (hhigh : coefficient < 10 ^ precision)
    (place : ℤ) : lastPlace precision (coefficient * 10 ^ place) = place := by
  have hten : (10 : ℚ) ≠ 0 := by norm_num
  have hunit : (0 : ℚ) < 10 ^ place := by positivity
  have hlog : Int.log 10 ((coefficient : ℚ) * 10 ^ place) =
      ((precision - 1 : Nat) : Int) + place := by
    apply log_ten_eq
    · rw [zpow_add₀ hten, zpow_natCast]
      have hcast : (10 : ℚ) ^ (precision - 1) ≤ coefficient := by exact_mod_cast hlow
      gcongr
    · have hnext : ((precision - 1 : Nat) : Int) + place + 1 = (precision : Int) + place := by omega
      rw [hnext, zpow_add₀ hten, zpow_natCast]
      have hcast : (coefficient : ℚ) < 10 ^ precision := by exact_mod_cast hhigh
      gcongr
  rw [lastPlace, hlog]
  omega

/-- The digits of a rounded number, and what the two roundings make of them: rounding
leaves the digits and as many `zeros` as it carried, and rounding at the last place of the
result leaves the digits. -/
structure RoundsTo (precision : Nat) (v : ℚ) (coefficient zeros : Nat) : Prop where
  low : 10 ^ (precision - 1) ≤ coefficient
  high : coefficient < 10 ^ precision
  value : toPrecision precision v =
    coefficient * 10 ^ lastPlace precision (toPrecision precision v)
  place : lastPlace precision (toPrecision precision v) = lastPlace precision v + zeros
  once : nearestEven (v / 10 ^ lastPlace precision v) = (coefficient * 10 ^ zeros : Nat)
  again : nearestEven (v / 10 ^ lastPlace precision (toPrecision precision v)) = coefficient

theorem toPrecision_eq {n : Nat} (hn : nearestEven (v / 10 ^ lastPlace precision v) = n) :
    toPrecision precision v = n * 10 ^ lastPlace precision v := by
  rw [toPrecision, hn]
  rfl

theorem exists_nearestEven (hprecision : 0 < precision) (hv : 0 < v) :
    ∃ n : Nat, nearestEven (v / 10 ^ lastPlace precision v) = n ∧
      10 ^ (precision - 1) ≤ n ∧ n ≤ 10 ^ precision := by
  obtain ⟨hlow, hhigh⟩ := div_lastPlace_bounds hprecision hv
  have hlower := le_nearestEven (n := (10 ^ (precision - 1) : Nat)) (by exact_mod_cast hlow)
  have hupper := nearestEven_le (n := (10 ^ precision : Nat)) (by exact_mod_cast hhigh)
  obtain ⟨n, hn⟩ := Int.eq_ofNat_of_zero_le ((Int.natCast_nonneg _).trans hlower)
  rw [hn] at hlower hupper
  exact ⟨n, hn, Int.ofNat_le.1 hlower, Int.ofNat_le.1 hupper⟩

/-- Without a carry both roundings are at the same place. -/
theorem roundsTo_of_lt {n : Nat} (hprecision : 0 < precision)
    (hn : nearestEven (v / 10 ^ lastPlace precision v) = n) (hlow : 10 ^ (precision - 1) ≤ n)
    (hhigh : n < 10 ^ precision) : RoundsTo precision v n 0 := by
  have hvalue := toPrecision_eq hn
  have hplace : lastPlace precision (toPrecision precision v) = lastPlace precision v := by
    rw [hvalue, lastPlace_coefficient hprecision hlow hhigh]
  refine ⟨hlow, hhigh, ?_, ?_, ?_, ?_⟩
  · rw [hplace, hvalue]
  · rw [hplace, Nat.cast_zero, add_zero]
  · rw [hn, Nat.pow_zero, Nat.mul_one]
  · rw [hplace, hn]

/-- After a carry the second rounding is at the next place, where the number is within a
twentieth of a power of ten. -/
theorem roundsTo_of_carry (hprecision : 0 < precision)
    (hn : nearestEven (v / 10 ^ lastPlace precision v) = (10 ^ precision : Nat)) :
    RoundsTo precision v (10 ^ (precision - 1)) 1 := by
  have hten : (10 : ℚ) ≠ 0 := by norm_num
  have hdigits : 10 ^ precision = 10 ^ (precision - 1) * 10 := by
    rw [← Nat.pow_succ, Nat.succ_eq_add_one, Nat.sub_add_cancel hprecision]
  have hless : 10 ^ (precision - 1) < 10 ^ precision :=
    Nat.pow_lt_pow_right (by decide) (by omega)
  have hvalue : toPrecision precision v =
      (10 ^ (precision - 1) : Nat) * 10 ^ (lastPlace precision v + 1) := by
    rw [toPrecision_eq hn, hdigits, zpow_add_one₀ hten]
    push_cast
    ring
  have hplace : lastPlace precision (toPrecision precision v) = lastPlace precision v + 1 := by
    rw [hvalue, lastPlace_coefficient hprecision (Nat.le_refl _) hless]
  refine ⟨Nat.le_refl _, hless, ?_, ?_, ?_, ?_⟩
  · rw [hplace, hvalue]
  · rw [hplace, Nat.cast_one]
  · rw [hn, hdigits, Nat.pow_one]
  · apply nearestEven_eq
    have hnear := abs_sub_nearestEven_le (v / 10 ^ lastPlace precision v)
    rw [hn, hdigits, abs_le] at hnear
    rw [hplace, zpow_add_one₀ hten, ← div_div, abs_lt]
    push_cast at hnear ⊢
    constructor <;> linarith

theorem exists_roundsTo (hprecision : 0 < precision) (hv : 0 < v) :
    ∃ coefficient zeros, RoundsTo precision v coefficient zeros := by
  obtain ⟨n, hn, hlow, hhigh⟩ := exists_nearestEven hprecision hv
  rcases Nat.lt_or_eq_of_le hhigh with hlt | rfl
  · exact ⟨n, 0, roundsTo_of_lt hprecision hn hlow hlt⟩
  · exact ⟨_, 1, roundsTo_of_carry hprecision hn⟩

/-! ## The digits -/

theorem toDigits_mul_ten_pow {n : Nat} (hn : 0 < n) (count : Nat) :
    Nat.toDigits 10 (n * 10 ^ count) = Nat.toDigits 10 n ++ List.replicate count '0' := by
  induction count with
  | zero => simp
  | succ count ih =>
      have hpos : 0 < n * 10 ^ count := Nat.mul_pos hn (Nat.pow_pos (by decide))
      have hstep := Nat.toDigits_append_toDigits (b := 10) (d := 0) (by decide) hpos (by decide)
      rw [Nat.pow_succ, ← Nat.mul_assoc, Nat.mul_comm _ 10, ← Nat.add_zero (10 * _), ← hstep, ih,
        List.append_assoc, List.replicate_succ']
      rfl

/-- No leading zeros. -/
theorem head?_toDigits_ne_zero {n : Nat} (hn : 0 < n) : (Nat.toDigits 10 n).head? ≠ some '0' := by
  induction n using Nat.strongRecOn with
  | _ n ih =>
      rw [Nat.toDigits_eq_if (by decide)]
      split
      · intro hzero
        have hchar : n.digitChar = '0' := Option.some.inj hzero
        rw [Nat.digitChar_eq_zero] at hchar
        omega
      · rw [List.head?_append_of_ne_nil _ Nat.toDigits_ne_nil]
        exact ih (n / 10) (by omega) (by omega)

theorem RoundsTo.pos {coefficient zeros : Nat} (h : RoundsTo precision v coefficient zeros) :
    0 < coefficient :=
  Nat.lt_of_lt_of_le (Nat.pow_pos (by decide)) h.low

theorem RoundsTo.digitCount_eq {coefficient zeros : Nat} (hprecision : 0 < precision)
    (h : RoundsTo precision v coefficient zeros) : digitCount coefficient = precision := by
  have hle : digitCount coefficient ≤ precision :=
    (Nat.length_toDigits_le_iff (by decide) hprecision).2 h.high
  have hlt : 10 ^ (precision - 1) < 10 ^ digitCount coefficient :=
    Nat.lt_of_le_of_lt h.low (lt_ten_pow_digitCount coefficient)
  rw [Nat.pow_lt_pow_iff_right (by decide)] at hlt
  omega

/-! ## Padding with zeros -/

namespace Scientific

/-- The same decimal with further zeros behind its digits. -/
def padded (s : Scientific) (count : Nat) : Scientific :=
  { s with digits := s.digits ++ List.replicate count '0' }

theorem split_padded {s : Scientific} (h : s.exponent < s.digits.length) (count : Nat) :
    (s.padded count).split = (s.split.1, s.split.2 ++ List.replicate count '0') := by
  rw [split, split, padded]
  by_cases hneg : s.exponent < 0
  · simp only [if_pos hneg, List.append_assoc]
  · have hwhole : s.exponent.toNat + 1 ≤ s.digits.length := by omega
    have hnone : s.exponent.toNat + 1 - s.digits.length = 0 := by omega
    have hpadded : s.exponent.toNat + 1 - (s.digits.length + count) = 0 := by omega
    simp only [if_neg hneg, List.take_append_of_le_length hwhole,
      List.drop_append_of_le_length hwhole, List.length_append, List.length_replicate, hnone,
      hpadded]

theorem ofCoefficient_mul_ten_pow {n : Nat} (hn : 0 < n) (count : Nat) (grid : Int) :
    ofCoefficient (n * 10 ^ count) grid = (ofCoefficient n (grid + count)).padded count := by
  have hdigits := toDigits_mul_ten_pow hn count
  have hcount : digitCount (n * 10 ^ count) = digitCount n + count := by
    rw [digitCount, hdigits, List.length_append, List.length_replicate, digitCount]
  rw [ofCoefficient, ofCoefficient, padded, hdigits, hcount]
  simp only [mk.injEq, true_and]
  omega

/-- Only a number below one has a zero in front. -/
theorem split_leading {s : Scientific} (hdigits : s.digits ≠ [])
    (hlead : s.digits.head? ≠ some '0') (h : s.split.1.head? = some '0') : s.split.1 = ['0'] := by
  rw [split] at h ⊢
  split
  · rfl
  · next hpos =>
      rw [if_neg hpos] at h
      obtain ⟨c, rest, hcons⟩ := List.exists_cons_of_ne_nil hdigits
      rw [hcons] at h hlead
      exact absurd h hlead

theorem split_mantissa {s : Scientific} (hdigits : s.digits ≠ []) :
    s.mantissa.split = (s.digits.take 1, s.digits.drop 1) := by
  have hlength := List.length_pos_of_ne_nil hdigits
  have hnone : 1 - s.digits.length = 0 := by omega
  simp only [split, mantissa, Int.lt_irrefl, if_false, Int.toNat_zero, Nat.zero_add, hnone,
    List.replicate_zero, List.append_nil]

end Scientific

theorem dropTrailingZeros_replicate (digits : List Char) (count : Nat) :
    dropTrailingZeros (digits ++ List.replicate count '0') = dropTrailingZeros digits := by
  rw [dropTrailingZeros, List.reverse_append, List.reverse_replicate,
    List.dropWhile_append_of_pos, dropTrailingZeros]
  intro c hc
  rw [(List.mem_replicate.1 hc).2]
  rfl

theorem getLast?_dropTrailingZeros (digits : List Char) :
    (dropTrailingZeros digits).getLast? ≠ some '0' := by
  intro hlast
  rw [dropTrailingZeros, List.getLast?_reverse] at hlast
  have hstop := List.head?_dropWhile_not (· == '0') digits.reverse
  rw [hlast] at hstop
  cases hstop

/-! ## The layout -/

namespace Significant

/-- A point with digits behind it, unless there are none. -/
def pointed (fraction : List Char) : List Char :=
  if fraction.isEmpty then [] else '.' :: fraction

/-- An exponent in at least `width` digits. -/
def exponentMark (plusSign : Bool) (width : Nat) (e : Int) : List Char :=
  'e' :: (if e < 0 then ['-'] else if plusSign then ['+'] else []) ++
    (Nat.toDigits 10 e.natAbs).leftpad width '0'

/-- Digits before and after the point, none of which is a needless zero. -/
structure Tidy (whole fraction : List Char) : Prop where
  isDigit_whole : ∀ c ∈ whole, c.isDigit = true
  isDigit_fraction : ∀ c ∈ fraction, c.isDigit = true
  front : whole ≠ []
  leading : whole.head? = some '0' → whole = ['0']
  trailing : fraction.getLast? ≠ some '0'

theorem toList_trimmed (parts : List Char × List Char) :
    (trimmed parts).toList = parts.1 ++ pointed (dropTrailingZeros parts.2) := by
  rw [trimmed, pointed, String.toList_append, String.toList_ofList]
  split
  · rfl
  · rw [String.toList_append, @String.toList_ofList (dropTrailingZeros parts.2)]
    rfl

theorem toList_exponentText (e : Int) : (exponentText e).toList = exponentMark true 2 e := by
  have hdigits : (toString e.natAbs).toList = Nat.toDigits 10 e.natAbs := Nat.toList_repr
  have hlength : (toString e.natAbs).length = (Nat.toDigits 10 e.natAbs).length := by
    rw [← hdigits, String.length_toList]
  have hpos : 0 < (Nat.toDigits 10 e.natAbs).length := Nat.length_toDigits_pos
  have hpad : (if (toString e.natAbs).length < 2 then "0" ++ toString e.natAbs
      else toString e.natAbs).toList = (Nat.toDigits 10 e.natAbs).leftpad 2 '0' := by
    rw [List.leftpad, hlength]
    split
    · have hone : 2 - (Nat.toDigits 10 e.natAbs).length = 1 := by omega
      rw [String.toList_append, hdigits, hone]
      rfl
    · have hnone : 2 - (Nat.toDigits 10 e.natAbs).length = 0 := by omega
      rw [hdigits, hnone]
      rfl
  rw [exponentText, exponentMark, String.toList_append, hpad]
  split <;> rfl

theorem isDigit_leftpad {width : Nat} {digits : List Char} (h : ∀ c ∈ digits, c.isDigit = true) :
    ∀ c ∈ digits.leftpad width '0', c.isDigit = true := by
  intro c hc
  rcases List.mem_append.1 hc with hzero | hdigit
  · rw [(List.mem_replicate.1 hzero).2]
    decide
  · exact h c hdigit

theorem power_exponentMark (plusSign : Bool) (width : Nat) (e : Int) :
    Reading.power (exponentMark plusSign width e) = e := by
  have hdigits := @isDigit_leftpad width _ (isDigit_toDigits e.natAbs)
  have hread : Nat.ofDigitChars 10 ((Nat.toDigits 10 e.natAbs).leftpad width '0') 0 = e.natAbs := by
    rw [List.leftpad, Nat.ofDigitChars_append, Nat.ofDigitChars_replicate_zero, Nat.mul_zero,
      Nat.ofDigitChars_ten_toDigits]
  have hsign : '-' ∈ 'e' :: (if e < 0 then ['-'] else if plusSign then ['+'] else []) ↔ e < 0 := by
    by_cases hneg : e < 0
    · simp [hneg]
    · cases plusSign <;> simp [hneg]
  rw [exponentMark, Reading.power_append ?_ hdigits, hread]
  · simp only [hsign]
    split <;> omega
  · cases plusSign <;> split <;> rfl

/-- The digits before and after the point: all of the number's, or those of its mantissa
where an exponent follows. -/
def parts (precision : Nat) (s : Scientific) : List Char × List Char :=
  if s.exponent < -4 ∨ (precision : Int) ≤ s.exponent then s.mantissa.split else s.split

theorem toList_layout (precision : Nat) (s : Scientific) :
    (layout precision s).toList =
      (parts precision s).1 ++ pointed (dropTrailingZeros (parts precision s).2) ++
        if s.exponent < -4 ∨ (precision : Int) ≤ s.exponent then exponentMark true 2 s.exponent
        else [] := by
  rw [layout, parts]
  split
  · rw [String.toList_append, toList_trimmed, toList_exponentText]
  · rw [toList_trimmed, List.append_nil]

theorem parts_padded {s : Scientific} (hlength : s.digits.length = precision)
    (hprecision : 0 < precision) (count : Nat) :
    parts precision (s.padded count) =
      ((parts precision s).1, (parts precision s).2 ++ List.replicate count '0') := by
  have hmantissa : (s.padded count).mantissa = s.mantissa.padded count := rfl
  have hexponent : (s.padded count).exponent = s.exponent := rfl
  rw [parts, parts, hexponent, hmantissa]
  by_cases hscaled : s.exponent < -4 ∨ (precision : Int) ≤ s.exponent
  · rw [if_pos hscaled, if_pos hscaled, Scientific.split_padded]
    show (0 : Int) < s.digits.length
    omega
  · rw [if_neg hscaled, if_neg hscaled, Scientific.split_padded]
    omega

/-- A carry is not seen in the layout. -/
theorem layout_padded {s : Scientific} (hlength : s.digits.length = precision)
    (hprecision : 0 < precision) (count : Nat) :
    (layout precision (s.padded count)).toList = (layout precision s).toList := by
  have hexponent : (s.padded count).exponent = s.exponent := rfl
  rw [toList_layout, toList_layout, parts_padded hlength hprecision, hexponent,
    dropTrailingZeros_replicate]

theorem value_parts (precision : Nat) (s : Scientific) :
    (Nat.ofDigitChars 10 ((parts precision s).1 ++ (parts precision s).2) 0 : ℚ) *
      10 ^ ((if s.exponent < -4 ∨ (precision : Int) ≤ s.exponent then s.exponent else 0) -
        ((parts precision s).2.length : Int)) = s.value := by
  rw [parts]
  split
  · rw [← s.value_mantissa, ← s.mantissa.value_split, mul_assoc, ← zpow_add₀ (by norm_num)]
    congr 2
    omega
  · rw [zero_sub, s.value_split]

theorem pointed_cases (fraction : List Char) :
    pointed fraction = '.' :: fraction ∨ pointed fraction = [] ∧ fraction = [] := by
  cases fraction with
  | nil => exact .inr ⟨rfl, rfl⟩
  | cons c rest => exact .inl rfl

/-- With an exponent, one digit stands before the point, and it is no zero. -/
theorem parts_of_scaled {s : Scientific} (hdigits : s.digits ≠ [])
    (hlead : s.digits.head? ≠ some '0')
    (hscaled : s.exponent < -4 ∨ (precision : Int) ≤ s.exponent) :
    (parts precision s).1.length = 1 ∧ (parts precision s).1 ≠ ['0'] := by
  have hhead : (s.digits.take 1).head? = s.digits.head? := by
    rw [List.head?_take, if_neg Nat.one_ne_zero]
  rw [parts, if_pos hscaled, Scientific.split_mantissa hdigits]
  constructor
  · have hlength := List.length_pos_of_ne_nil hdigits
    rw [List.length_take]
    omega
  · intro hone
    exact hlead (hhead ▸ congrArg List.head? hone)

theorem tidy_split {s : Scientific} (hdigits : s.digits ≠ [])
    (hlead : s.digits.head? ≠ some '0') (hisDigit : ∀ c ∈ s.digits, c.isDigit = true) :
    Tidy s.split.1 (dropTrailingZeros s.split.2) := by
  obtain ⟨hwhole, hfraction⟩ := Scientific.isDigit_split hisDigit
  exact
    { isDigit_whole := hwhole
      isDigit_fraction := fun c hc => hfraction c (mem_of_mem_dropTrailingZeros hc)
      front := s.split_whole_ne_nil
      leading := Scientific.split_leading hdigits hlead
      trailing := getLast?_dropTrailingZeros _ }

theorem parts_eq_split (precision : Nat) (s : Scientific) :
    ∃ t : Scientific, t.digits = s.digits ∧ parts precision s = t.split := by
  rw [parts]
  split
  · exact ⟨s.mantissa, rfl, rfl⟩
  · exact ⟨s, rfl, rfl⟩

theorem tidy_parts (precision : Nat) {s : Scientific} (hdigits : s.digits ≠ [])
    (hlead : s.digits.head? ≠ some '0') (hisDigit : ∀ c ∈ s.digits, c.isDigit = true) :
    Tidy (parts precision s).1 (dropTrailingZeros (parts precision s).2) := by
  obtain ⟨t, ht, hsplit⟩ := parts_eq_split precision s
  rw [← ht] at hdigits hlead hisDigit
  rw [hsplit]
  exact tidy_split hdigits hlead hisDigit

/-- Read as a number, the text is the decimal. -/
theorem decimal_layout (precision : Nat) {s : Scientific}
    (hisDigit : ∀ c ∈ s.digits, c.isDigit = true) :
    Reading.decimal (layout precision s).toList = s.value := by
  obtain ⟨t, hdigits, hsplit⟩ := parts_eq_split precision s
  obtain ⟨hwhole, hfraction⟩ := Scientific.isDigit_split (hdigits.symm ▸ hisDigit)
  have hmark : Reading.power (if s.exponent < -4 ∨ (precision : Int) ≤ s.exponent then
      exponentMark true 2 s.exponent else []) =
      if s.exponent < -4 ∨ (precision : Int) ≤ s.exponent then s.exponent else 0 := by
    split
    · exact power_exponentMark true 2 s.exponent
    · rfl
  obtain ⟨count, hcount⟩ := dropTrailingZeros_append t.split.2
  rw [toList_layout, ← value_parts precision s, hsplit,
    Reading.decimal_eq hwhole (fun c hc => hfraction c (mem_of_mem_dropTrailingZeros hc))
      (pointed_cases _) (by split <;> simp [exponentMark]), hmark]
  conv_rhs => rw [hcount]
  rw [List.length_append, List.length_replicate, ← List.append_assoc, Nat.cast_add, ← sub_sub,
    ofDigitChars_append_zeros]

end Significant

/-! ## The number that is laid out -/

/-- The absolute value of a finite number. -/
def Binary64.size (x : Binary64) : ℚ :=
  x.significand * 2 ^ x.exponent

theorem Binary64.magnitude_div (x : Binary64) :
    (x.magnitude.1 : ℚ) / x.magnitude.2 = x.size := by
  have hden : (0 : ℚ) < x.magnitude.2 := Nat.cast_pos.2 (ratio_pos _ _)
  rw [div_eq_iff hden.ne']
  exact ratio_eq _ _

theorem Binary64.size_pos {x : Binary64} (hzero : x.isZero = false) : 0 < x.size := by
  have hpos : (0 : ℚ) < x.significand := Nat.cast_pos.2 (proper_interval hzero).pos
  rw [size]
  positivity

namespace RoundsTo

variable {coefficient zeros : Nat}

/-- The decimal of a rounded number. -/
def decimal (precision : Nat) (v : ℚ) (coefficient : Nat) : Scientific :=
  .ofCoefficient coefficient (lastPlace precision (toPrecision precision v))

theorem length_decimal (hprecision : 0 < precision) (h : RoundsTo precision v coefficient zeros) :
    (decimal precision v coefficient).digits.length = precision :=
  h.digitCount_eq hprecision

theorem isDigit_decimal (precision : Nat) (v : ℚ) (coefficient : Nat) :
    ∀ c ∈ (decimal precision v coefficient).digits, c.isDigit = true :=
  isDigit_toDigits coefficient

theorem exponent_decimal (hprecision : 0 < precision)
    (h : RoundsTo precision v coefficient zeros) :
    (decimal precision v coefficient).exponent = Int.log 10 (toPrecision precision v) := by
  simp only [decimal, Scientific.ofCoefficient, h.digitCount_eq hprecision, lastPlace]
  omega

theorem value_decimal (h : RoundsTo precision v coefficient zeros) :
    (decimal precision v coefficient).value = toPrecision precision v := by
  rw [decimal, Scientific.value_ofCoefficient, ← h.value]

/-- What comparing naturals finds is the decimal, up to the zeros of a carry. -/
theorem rounded_eq {num den : Nat} (hnum : 0 < num) (hden : 0 < den)
    (h : RoundsTo precision (num / den) coefficient zeros) :
    Significant.rounded precision num den =
      (decimal precision (num / den) coefficient).padded zeros := by
  obtain ⟨grid, hgrid⟩ : ∃ grid, grid = lastPlace precision (num / den : ℚ) := ⟨_, rfl⟩
  have htop : scaleOf num den - (precision - 1 : Nat) = grid := by
    rw [scaleOf_eq_log hnum hden, hgrid, lastPlace]
  have hscaled : ((num * 10 ^ (-grid).toNat : Nat) : ℚ) / (den * 10 ^ grid.toNat : Nat) =
      num / den / 10 ^ grid := by
    have hfactor : ((10 ^ (-grid).toNat : Nat) : ℚ) ≠ 0 := by positivity
    have hunit : (10 : ℚ) ^ grid ≠ 0 := by positivity
    have hcast : (den : ℚ) ≠ 0 := by positivity
    rw [Nat.cast_mul, Nat.cast_mul, ← ten_zpow_toNat grid]
    field_simp
  have hcoefficient : roundQuotient .toEven (num * 10 ^ (-grid).toNat) (den * 10 ^ grid.toNat) =
      coefficient * 10 ^ zeros := by
    have honce := h.once
    have hpos : 0 < den * 10 ^ grid.toNat := Nat.mul_pos hden (Nat.pow_pos (by decide))
    rw [← hgrid, ← hscaled, ← roundQuotient_toEven _ hpos] at honce
    exact_mod_cast honce
  simp only [Significant.rounded, htop, Nat.pow_eq, hcoefficient]
  rw [Scientific.ofCoefficient_mul_ten_pow h.pos, decimal, h.place, ← hgrid]

end RoundsTo

/-! ## Formatting twice -/

namespace Significant

/-- A positive number with so many decimals. -/
def fixedText (decimals : Nat) (v : ℚ) : List Char :=
  let digits :=
    (Nat.toDigits 10 (nearestEven (v * 10 ^ decimals)).toNat).leftpad (decimals + 1) '0'
  let whole := digits.length - decimals
  digits.take whole ++ pointed (digits.drop whole)

/-- A positive number with one digit before the point, so many decimals and an exponent. -/
def scientificText (decimals : Nat) (v : ℚ) : List Char :=
  let r := toPrecision (decimals + 1) v
  let e := Int.log 10 r
  let digits := Nat.toDigits 10 ⌊r / 10 ^ (e - decimals)⌋₊
  digits.take 1 ++ pointed (digits.drop 1) ++ exponentMark false 1 e

/-- A text without the zeros at its end and the point before them, if it has a point. -/
def trimFraction (text : List Char) : List Char :=
  if '.' ∈ text then ((dropTrailingZeros text).reverse.dropWhile (· == '.')).reverse else text

/-- The number formatted with an exponent, and formatted again without one unless the
exponent is far from zero. -/
def twoPass (x : Binary64) (digits : Nat) : List Char :=
  let precision := max digits 1
  let sign := if x.isNegative then ['-'] else []
  let first := sign ++ scientificText (precision - 1) x.size
  let e := Reading.power (first.dropWhile (· != 'e'))
  if e < -4 ∨ (precision : Int) ≤ e then
    trimFraction (first.takeWhile (· != 'e')) ++ exponentMark true 2 e
  else
    trimFraction (sign ++ fixedText (precision - 1 - e).toNat x.size)

variable {coefficient zeros : Nat}

theorem fixedText_eq (hprecision : 0 < precision) (h : RoundsTo precision v coefficient zeros)
    {e : Int} (he : e = Int.log 10 (toPrecision precision v)) (hplain : e < precision) :
    fixedText (precision - 1 - e).toNat v =
      (RoundsTo.decimal precision v coefficient).split.1 ++
        pointed (RoundsTo.decimal precision v coefficient).split.2 := by
  obtain ⟨decimals, hdecimals⟩ : ∃ decimals : Nat, (precision : Int) - 1 - e = decimals :=
    Int.eq_ofNat_of_zero_le (by omega)
  have hplace : lastPlace precision (toPrecision precision v) = -decimals := by
    rw [lastPlace, ← he]
    omega
  have hagain : nearestEven (v * 10 ^ decimals) = coefficient := by
    rw [← h.again, hplace, zpow_neg, zpow_natCast, div_inv_eq_mul]
  have hlength : (Nat.toDigits 10 coefficient).length = precision := h.digitCount_eq hprecision
  have hexponent := h.exponent_decimal hprecision
  have hdigits : (RoundsTo.decimal precision v coefficient).digits = Nat.toDigits 10 coefficient :=
    rfl
  rw [hdecimals, Int.toNat_natCast, fixedText, hagain, Scientific.split, hexponent, ← he, hdigits]
  simp only [Int.toNat_natCast, List.leftpad, List.length_append, List.length_replicate, hlength]
  split
  · next hneg =>
      -- zeros are needed before the digits, one of them before the point
      have hzeros : decimals + 1 - precision = (-e - 1).toNat + 1 := by omega
      have hwhole : (-e - 1).toNat + 1 + precision - decimals = 1 := by omega
      rw [hzeros, hwhole, List.replicate_succ]
      rfl
  · next hpos =>
      have hnone : decimals + 1 - precision = 0 := by omega
      have hwhole : 0 + precision - decimals = e.toNat + 1 := by omega
      have hpad : e.toNat + 1 - precision = 0 := by omega
      rw [hnone, hwhole, hpad, List.replicate_zero, List.nil_append, List.append_nil]

/-- The second formatting rounds to the same value as the first. -/
theorem decimal_fixedText (hprecision : 0 < precision)
    (h : RoundsTo precision v coefficient zeros) {e : Int}
    (he : e = Int.log 10 (toPrecision precision v)) (hplain : e < precision) :
    Reading.decimal (fixedText (precision - 1 - e).toNat v) = toPrecision precision v := by
  obtain ⟨hwhole, hfraction⟩ :=
    Scientific.isDigit_split (RoundsTo.isDigit_decimal precision v coefficient)
  have hread := @Reading.decimal_eq _ _ _ [] hwhole hfraction (pointed_cases _) (.inl rfl)
  rw [fixedText_eq hprecision h he hplain, ← List.append_nil (_ ++ pointed _), hread,
    ← h.value_decimal, ← Scientific.value_split]
  congr 2
  rw [← zero_sub]
  rfl

theorem scientificText_eq (hprecision : 0 < precision)
    (h : RoundsTo precision v coefficient zeros) :
    scientificText (precision - 1) v =
      (RoundsTo.decimal precision v coefficient).mantissa.split.1 ++
        pointed (RoundsTo.decimal precision v coefficient).mantissa.split.2 ++
          exponentMark false 1 (Int.log 10 (toPrecision precision v)) := by
  have hdigits : (RoundsTo.decimal precision v coefficient).digits = Nat.toDigits 10 coefficient :=
    rfl
  have hunit : (10 : ℚ) ^ lastPlace precision (toPrecision precision v) ≠ 0 := by positivity
  have hfloor : ⌊toPrecision precision v / 10 ^ (Int.log 10 (toPrecision precision v) -
      ((precision - 1 : Nat) : Int))⌋₊ = coefficient := by
    rw [← lastPlace, div_eq_of_eq_mul hunit h.value, Nat.floor_natCast]
  rw [scientificText, Nat.sub_add_cancel hprecision,
    Scientific.split_mantissa (hdigits ▸ Nat.toDigits_ne_nil), hdigits]
  simp only [hfloor]

/-- Zeros are dropped up to the point and never beyond it. -/
theorem dropTrailingZeros_point (whole fraction : List Char) :
    dropTrailingZeros (whole ++ '.' :: fraction) = whole ++ '.' :: dropTrailingZeros fraction := by
  have hreverse : (whole ++ '.' :: fraction).reverse =
      fraction.reverse ++ '.' :: whole.reverse := by simp
  rw [dropTrailingZeros, hreverse, List.dropWhile_append, dropTrailingZeros]
  split
  · next hnone =>
      rw [List.isEmpty_iff.1 hnone, List.dropWhile_cons_of_neg (by decide)]
      simp
  · simp

theorem dropPoint_eq_self {text : List Char} (h : text.getLast? ≠ some '.') :
    (text.reverse.dropWhile (· == '.')).reverse = text := by
  rw [List.dropWhile_eq_self_iff.2, List.reverse_reverse]
  intro hpos hpoint
  rw [beq_iff_eq] at hpoint
  rw [← List.head?_reverse, List.head?_eq_getElem?, List.getElem?_eq_getElem hpos, hpoint] at h
  exact h rfl

/-- Only the fraction is cut; the digits before the point all stay. -/
theorem trimFraction_pointed {whole fraction : List Char} (hwhole : '.' ∉ whole)
    (hfraction : '.' ∉ fraction) :
    trimFraction (whole ++ pointed fraction) = whole ++ pointed (dropTrailingZeros fraction) := by
  rcases pointed_cases fraction with hpoint | ⟨hpoint, rfl⟩
  · have hmem : '.' ∈ whole ++ '.' :: fraction := List.mem_append_right _ List.mem_cons_self
    rw [hpoint, trimFraction, if_pos hmem, dropTrailingZeros_point]
    cases hdropped : dropTrailingZeros fraction with
    | nil =>
        have hlast : whole.getLast? ≠ some '.' := fun h => hwhole (List.mem_of_getLast? h)
        rw [List.reverse_append, List.reverse_singleton, List.singleton_append,
          List.dropWhile_cons_of_pos (by decide), dropPoint_eq_self hlast]
        exact (List.append_nil _).symm
    | cons c rest =>
        refine dropPoint_eq_self fun h => hfraction (mem_of_mem_dropTrailingZeros ?_)
        rw [List.getLast?_append_of_ne_nil _ (List.cons_ne_nil _ _), List.getLast?_cons_cons] at h
        rw [hdropped]
        exact List.mem_of_getLast? h
  · rw [hpoint, List.append_nil, trimFraction, if_neg hwhole]
    exact (List.append_nil _).symm

/-- A sign and digits hold nothing else. -/
theorem not_mem_signed {other : Char} (hdigit : other.isDigit = false) (hminus : other ≠ '-')
    (negative : Bool) {digits : List Char} (hdigits : ∀ c ∈ digits, c.isDigit = true) :
    other ∉ (if negative then ['-'] else []) ++ digits := by
  intro hmem
  rcases List.mem_append.1 hmem with hsign | hother
  · cases negative with
    | true => exact hminus (List.mem_singleton.1 hsign)
    | false => cases hsign
  · exact Reading.ne_of_isDigit (hdigits other hother) hdigit rfl

/-- The mantissa and the exponent are found again in a text that was made of them. -/
theorem split_first (negative : Bool) {whole fraction : List Char}
    (hwhole : ∀ c ∈ whole, c.isDigit = true) (hfraction : ∀ c ∈ fraction, c.isDigit = true)
    (plusSign : Bool) (width : Nat) (e : Int) :
    let sign := if negative then ['-'] else []
    let first := sign ++ (whole ++ pointed fraction ++ exponentMark plusSign width e)
    first.takeWhile (· != 'e') = sign ++ whole ++ pointed fraction ∧
      first.dropWhile (· != 'e') = exponentMark plusSign width e := by
  intro sign first
  have hpointed : 'e' ∉ pointed fraction := by
    rcases pointed_cases fraction with hpoint | ⟨hpoint, -⟩
    · rw [hpoint, List.mem_cons, not_or]
      exact ⟨by decide, not_mem_signed (by decide) (by decide) false hfraction⟩
    · rw [hpoint]
      exact List.not_mem_nil
  have hplain : ∀ c ∈ sign ++ whole ++ pointed fraction, (c != 'e') = true := by
    intro c hc
    rw [bne_iff_ne]
    rintro rfl
    rcases List.mem_append.1 hc with hfront | hback
    · exact not_mem_signed (by decide) (by decide) negative hwhole hfront
    · exact hpointed hback
  have hend : ∀ c ∈ (exponentMark plusSign width e).head?, (c != 'e') = false := by
    rintro c ⟨⟩
    rfl
  have hfirst : first = sign ++ whole ++ pointed fraction ++ exponentMark plusSign width e := by
    simp only [first, List.append_assoc]
  rw [hfirst]
  exact ⟨Reading.takeWhile_word hplain hend, Reading.dropWhile_word hplain hend⟩

/-- Formatting twice writes what is laid out at once. -/
theorem twoPass_eq {x : Binary64} {digits : Nat}
    (h : RoundsTo (max digits 1) x.size coefficient zeros) :
    twoPass x digits = (if x.isNegative then ['-'] else []) ++
      (layout (max digits 1) (RoundsTo.decimal (max digits 1) x.size coefficient)).toList := by
  have hprecision : 0 < max digits 1 := by omega
  obtain ⟨s, hs⟩ : ∃ s, s = RoundsTo.decimal (max digits 1) x.size coefficient := ⟨_, rfl⟩
  have hexponent := h.exponent_decimal hprecision
  have hfirst := scientificText_eq hprecision h
  rw [← hs] at hexponent hfirst ⊢
  rw [← hexponent] at hfirst
  have hisDigit : ∀ c ∈ s.digits, c.isDigit = true := by
    rw [hs]
    exact RoundsTo.isDigit_decimal _ _ _
  have htrim : ∀ t : Scientific, t.digits = s.digits →
      trimFraction ((if x.isNegative then ['-'] else []) ++ t.split.1 ++ pointed t.split.2) =
        (if x.isNegative then ['-'] else []) ++ t.split.1 ++
          pointed (dropTrailingZeros t.split.2) := by
    intro t ht
    obtain ⟨hwhole, hfraction⟩ := Scientific.isDigit_split (ht.symm ▸ hisDigit)
    exact trimFraction_pointed (not_mem_signed (by decide) (by decide) x.isNegative hwhole)
      (not_mem_signed (by decide) (by decide) false hfraction)
  obtain ⟨hwhole, hfraction⟩ := @Scientific.isDigit_split s.mantissa hisDigit
  obtain ⟨hmantissa, hmark⟩ := split_first x.isNegative hwhole hfraction false 1 s.exponent
  rw [twoPass, hfirst]
  simp only [hmantissa, hmark, power_exponentMark]
  rw [toList_layout, parts]
  by_cases hscaled : s.exponent < -4 ∨ ((max digits 1 : Nat) : Int) ≤ s.exponent
  · simp only [if_pos hscaled]
    rw [htrim s.mantissa rfl]
    simp only [List.append_assoc]
  · simp only [if_neg hscaled]
    rw [fixedText_eq hprecision h hexponent (by omega), ← hs, ← List.append_assoc, htrim s rfl]
    simp only [List.append_assoc, List.append_nil]

/-- The sign and the layout of the rounded number. -/
theorem toList_text {x : Binary64} {digits : Nat} (hfinite : x.isFinite = true)
    (hzero : x.isZero = false) (h : RoundsTo (max digits 1) x.size coefficient zeros) :
    (text x digits).toList = (if x.isNegative then ['-'] else []) ++
      (layout (max digits 1) (RoundsTo.decimal (max digits 1) x.size coefficient)).toList := by
  have hprecision : 0 < max digits 1 := by omega
  have hsign : (if x.isNegative then "-" else "").toList = if x.isNegative then ['-'] else [] := by
    cases x.isNegative <;> rfl
  have hden : 0 < x.magnitude.2 := Binary64.ratio_pos _ _
  have hnum : 0 < x.magnitude.1 := by
    have hsize := Binary64.size_pos hzero
    rw [← x.magnitude_div] at hsize
    have hcast : (0 : ℚ) < x.magnitude.2 := Nat.cast_pos.2 hden
    exact Nat.cast_pos.1 ((div_pos_iff_of_pos_right hcast).1 hsize)
  have hrounded : rounded (max digits 1) x.magnitude.1 x.magnitude.2 =
      (RoundsTo.decimal (max digits 1) x.size coefficient).padded zeros := by
    rw [← x.magnitude_div] at h ⊢
    exact h.rounded_eq hnum hden
  rw [text, if_pos hfinite, hzero, if_neg Bool.false_ne_true, String.toList_append, hsign, hrounded,
    layout_padded (h.length_decimal hprecision) hprecision]

/-- A finite number other than zero is written as its value `r` to so many significant
digits: with one digit before the point and an exponent of two digits or more if the
exponent of `r` is below `-4` or not below the precision, and positional otherwise, in
either case without needless zeros. Read as a number, the text is `r`. Formatting twice
gives the same text: the second formatting is of the value `r` too, and of both
formattings only zeros at the end of the fraction are cut. -/
theorem text_spells_rounded (x : Binary64) (digits : Nat) (hfinite : x.isFinite = true)
    (hzero : x.isZero = false) :
    let precision := max digits 1
    let r := toPrecision precision x.size
    let e := Int.log 10 r
    let sign := if x.isNegative then ['-'] else []
    ∃ whole fraction cut, Tidy whole fraction ∧
      (if e < -4 ∨ (precision : Int) ≤ e then
        whole.length = 1 ∧ whole ≠ ['0'] ∧
        (text x digits).toList = sign ++ whole ++ pointed fraction ++ exponentMark true 2 e ∧
        scientificText (precision - 1) x.size =
          whole ++ pointed (fraction ++ List.replicate cut '0') ++ exponentMark false 1 e
      else
        (text x digits).toList = sign ++ whole ++ pointed fraction ∧
        fixedText (precision - 1 - e).toNat x.size =
          whole ++ pointed (fraction ++ List.replicate cut '0') ∧
        Reading.decimal (fixedText (precision - 1 - e).toNat x.size) = r) ∧
      Reading.signed (text x digits).toList = (x.isNegative, r) ∧
      twoPass x digits = (text x digits).toList := by
  intro precision r e sign
  have hprecision : 0 < precision := by omega
  obtain ⟨coefficient, zeros, h⟩ := exists_roundsTo hprecision (Binary64.size_pos hzero)
  obtain ⟨s, hs⟩ : ∃ s, s = RoundsTo.decimal precision x.size coefficient := ⟨_, rfl⟩
  have htext := toList_text hfinite hzero h
  have htwice := twoPass_eq h
  have hexponent : s.exponent = e := hs ▸ h.exponent_decimal hprecision
  have hvalue : s.value = r := hs ▸ h.value_decimal
  have hisDigit : ∀ c ∈ s.digits, c.isDigit = true := hs ▸ RoundsTo.isDigit_decimal _ _ _
  have hdigits : s.digits ≠ [] := hs ▸ Nat.toDigits_ne_nil
  have hlead : s.digits.head? ≠ some '0' := hs ▸ head?_toDigits_ne_zero h.pos
  rw [← hs] at htext htwice
  obtain ⟨cut, hcut⟩ := dropTrailingZeros_append (parts precision s).2
  have htidy := tidy_parts precision hdigits hlead hisDigit
  have hlayout := toList_layout precision s
  rw [hexponent] at hlayout
  refine ⟨(parts precision s).1, dropTrailingZeros (parts precision s).2, cut, htidy, ?_, ?_,
    htwice.trans htext.symm⟩
  · by_cases hscaled : e < -4 ∨ (precision : Int) ≤ e
    · have hparts : parts precision s = s.mantissa.split := by
        rw [parts, hexponent, if_pos hscaled]
      obtain ⟨hone, hnonzero⟩ := parts_of_scaled hdigits hlead (hexponent.symm ▸ hscaled)
      rw [if_pos hscaled] at hlayout ⊢
      refine ⟨hone, hnonzero, ?_, ?_⟩
      · rw [htext, hlayout, ← List.append_assoc, ← List.append_assoc]
      · rw [← hcut, hparts, hs]
        exact scientificText_eq hprecision h
    · have hparts : parts precision s = s.split := by
        rw [parts, hexponent, if_neg hscaled]
      have hplain : e < precision := by omega
      rw [if_neg hscaled] at hlayout ⊢
      refine ⟨?_, ?_, decimal_fixedText hprecision h rfl hplain⟩
      · rw [htext, hlayout, List.append_nil, ← List.append_assoc]
      · rw [← hcut, hparts, hs]
        exact fixedText_eq hprecision h rfl hplain
  · have hfront : ∃ c rest, (layout precision s).toList = c :: rest ∧ c.isDigit = true := by
      obtain ⟨c, rest, hcons⟩ := List.exists_cons_of_ne_nil htidy.front
      rw [hlayout, hcons]
      exact ⟨c, _, rfl, htidy.isDigit_whole c (hcons ▸ List.mem_cons_self)⟩
    rw [htext, Reading.signed_append hfront, decimal_layout precision hisDigit, hvalue]

/-- `9.9999` to three digits: the first formatting carries, and the second one has a
decimal less than the digits asked for. -/
theorem text_spells_rounded_carry :
    (⟨0x4023fff2e48e8a72⟩ : Binary64).isFinite = true ∧
      (⟨0x4023fff2e48e8a72⟩ : Binary64).isZero = false ∧
      text ⟨0x4023fff2e48e8a72⟩ 3 = "10" ∧
      Reading.signed "10".toList = (false, toPrecision 3 (Binary64.size ⟨0x4023fff2e48e8a72⟩)) ∧
      twoPass ⟨0x4023fff2e48e8a72⟩ 3 = "10".toList := by
  have hfinite : (⟨0x4023fff2e48e8a72⟩ : Binary64).isFinite = true := by decide
  have hzero : (⟨0x4023fff2e48e8a72⟩ : Binary64).isZero = false := by decide
  have htext : text ⟨0x4023fff2e48e8a72⟩ 3 = "10" := by decide +kernel
  obtain ⟨-, -, -, -, -, hread, htwice⟩ := text_spells_rounded ⟨0x4023fff2e48e8a72⟩ 3 hfinite hzero
  rw [htext] at hread htwice
  exact ⟨hfinite, hzero, htext, hread, htwice⟩

end Significant

end ModelSource
