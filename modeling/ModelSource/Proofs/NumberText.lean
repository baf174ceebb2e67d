import ModelSource.Proofs.Literals
import ModelSource.Proofs.ShortestDecimal

/-!
# Numbers as text

The text of a number is a sign, digits, a point and an exponent, of which the last two
may be missing, but never both (`Spells`). Where the point stands is a matter of style,
and zeros are put in and left out for it; the value stays what it was. So the text can
be read as a rational, and since the rational rounds to one number only, no two numbers
have one text, in any style. That no real is taken for an integer follows from the same
make-up.
-/

namespace ModelSource

/-! ## Placing the point -/

namespace Scientific

variable {s : Scientific}

/-- Putting the point somewhere else needs zeros, but does not change the value. -/
theorem value_split (s : Scientific) :
    (Nat.ofDigitChars 10 (s.split.1 ++ s.split.2) 0 : ℚ) * 10 ^ (-(s.split.2.length : Int)) =
      s.value := by
  rw [value, split]
  split
  · next hneg =>
      simp only [List.length_append, List.length_replicate]
      rw [Nat.ofDigitChars_append, Nat.ofDigitChars_append, Nat.ofDigitChars_replicate_zero]
      congr 2
      omega
  · next hpos =>
      simp only [List.length_drop]
      rcases Nat.le_total s.digits.length (s.exponent.toNat + 1) with hle | hge
      · -- the digits end before the point
        rw [List.take_of_length_le hle, List.drop_of_length_le hle, List.append_nil,
          Nat.ofDigitChars_append, Nat.ofDigitChars_replicate_zero, Nat.sub_eq_zero_of_le hle]
        push_cast
        rw [mul_one, mul_comm, ← zpow_natCast]
        congr 2
        omega
      · have hnone : s.exponent.toNat + 1 - s.digits.length = 0 := Nat.sub_eq_zero_of_le hge
        rw [hnone, List.replicate_zero, List.append_nil, List.take_append_drop]
        congr 2
        omega

theorem split_whole_ne_nil (s : Scientific) : s.split.1 ≠ [] := by
  rw [split]
  split
  · exact List.cons_ne_nil _ _
  · refine List.ne_nil_of_length_pos ?_
    simp only [List.length_append, List.length_take, List.length_replicate]
    omega

theorem isDigit_split (h : ∀ c ∈ s.digits, c.isDigit = true) :
    (∀ c ∈ s.split.1, c.isDigit = true) ∧ ∀ c ∈ s.split.2, c.isDigit = true := by
  have hzeros : ∀ count, ∀ c ∈ List.replicate count '0', c.isDigit = true := by
    intro count c hc
    rw [(List.mem_replicate.1 hc).2]
    decide
  rw [split]
  split
  · refine ⟨hzeros 1, fun c hc => ?_⟩
    exact (List.mem_append.1 hc).elim (hzeros _ c) (h c)
  · refine ⟨fun c hc => ?_, fun c hc => h c (List.mem_of_mem_drop hc)⟩
    exact (List.mem_append.1 hc).elim (fun hc => h c (List.mem_of_mem_take hc)) (hzeros _ c)

theorem value_mantissa (s : Scientific) : s.mantissa.value * 10 ^ s.exponent = s.value := by
  rw [value, value, mantissa, mul_assoc, ← zpow_add₀ (by norm_num)]
  congr 2
  simp only
  omega

end Scientific

/-! ## Reading a number -/

namespace Reading

/-- The characters of numbers. -/
def isNumberChar (c : Char) : Bool :=
  c.isDigit || c == '-' || c == '+' || c == '.' || c == 'e'

/-- The power of ten that stands behind an exponent mark. -/
def power (mark : List Char) : Int :=
  let digits := Nat.ofDigitChars 10 (mark.filter Char.isDigit) 0
  if '-' ∈ mark then -digits else digits

/-- The number that digits with a point and an exponent stand for. -/
def decimal (text : List Char) : ℚ :=
  let plain := text.takeWhile (· != 'e')
  let fraction := plain.dropWhile (· != '.')
  Nat.ofDigitChars 10 (plain.filter Char.isDigit) 0 *
    10 ^ (power (text.dropWhile (· != 'e')) - (fraction.filter Char.isDigit).length)

/-- The sign and the number behind it. -/
def signed : List Char → Bool × ℚ
  | '-' :: rest => (true, decimal rest)
  | text => (false, decimal text)

theorem ne_of_isDigit {c other : Char} (h : c.isDigit = true) (hother : other.isDigit = false) :
    c ≠ other := by
  rintro rfl
  rw [h] at hother
  cases hother

/-- What starts with a digit has the sign that is put in front of it. -/
theorem signed_append {body : List Char} (h : ∃ c rest, body = c :: rest ∧ c.isDigit = true)
    (negative : Bool) :
    signed ((if negative then ['-'] else []) ++ body) = (negative, decimal body) := by
  cases negative with
  | true => rfl
  | false =>
      obtain ⟨c, rest, rfl, hc⟩ := h
      have hne := ne_of_isDigit hc (by decide : '-'.isDigit = false)
      exact signed.eq_2 _ fun _ heq => hne (List.cons.inj heq).1

theorem isNumberChar_of_isDigit {c : Char} (h : c.isDigit = true) : isNumberChar c = true := by
  simp [isNumberChar, h]

/-- The sign is told by what stands before the digits. -/
theorem power_append {mark digits : List Char} (hmark : mark.filter Char.isDigit = [])
    (hdigits : ∀ c ∈ digits, c.isDigit = true) :
    power (mark ++ digits) =
      if '-' ∈ mark then -(Nat.ofDigitChars 10 digits 0 : Int)
      else Nat.ofDigitChars 10 digits 0 := by
  have hminus : '-' ∉ digits := fun hmem => ne_of_isDigit (hdigits _ hmem) (by decide) rfl
  simp only [power, List.filter_append, hmark, List.nil_append, List.filter_eq_self.2 hdigits,
    List.mem_append, hminus, or_false]

/-- Digits, a point with further digits unless there are none, and an exponent. -/
theorem decimal_eq {whole point fraction mark : List Char}
    (hwhole : ∀ c ∈ whole, c.isDigit = true) (hfraction : ∀ c ∈ fraction, c.isDigit = true)
    (hpoint : point = '.' :: fraction ∨ point = [] ∧ fraction = [])
    (hmark : mark = [] ∨ mark.head? = some 'e') :
    decimal (whole ++ point ++ mark) =
      Nat.ofDigitChars 10 (whole ++ fraction) 0 * 10 ^ (power mark - fraction.length) := by
  have hplain : ∀ c ∈ whole ++ point, (c != 'e') = true := by
    intro c hc
    rw [bne_iff_ne]
    rcases List.mem_append.1 hc with hc | hc
    · exact ne_of_isDigit (hwhole c hc) (by decide)
    · rcases hpoint with rfl | ⟨rfl, -⟩
      · rcases List.mem_cons.1 hc with rfl | hc
        · decide
        · exact ne_of_isDigit (hfraction c hc) (by decide)
      · cases hc
  have hend : ∀ c ∈ mark.head?, (c != 'e') = false := by
    rcases hmark with rfl | hmark
    · exact nofun
    · intro c hc
      rw [hmark] at hc
      cases hc
      decide
  have hpart : (whole ++ point).dropWhile (· != '.') = point := by
    refine dropWhile_word (fun c hc => ?_) ?_
    · rw [bne_iff_ne]
      exact ne_of_isDigit (hwhole c hc) (by decide)
    · rcases hpoint with rfl | ⟨rfl, -⟩
      · rintro c ⟨⟩
        decide
      · exact nofun
  have hdigits : point.filter Char.isDigit = fraction := by
    rcases hpoint with rfl | ⟨rfl, rfl⟩
    · rw [List.filter_cons_of_neg (by decide), List.filter_eq_self.2 hfraction]
    · rfl
  rw [decimal]
  simp only [takeWhile_word hplain hend, dropWhile_word hplain hend, hpart, List.filter_append,
    List.filter_eq_self.2 hwhole, hdigits]

end Reading

theorem isDigit_toDigits (n : Nat) : ∀ c ∈ Nat.toDigits 10 n, c.isDigit = true :=
  fun _ hc => Nat.isDigit_of_mem_toDigits (by decide) (by decide) hc

/-! ## How numbers are written -/

namespace NumberStyle

variable (style : NumberStyle)

/-- The letter and the sign of an exponent. -/
def exponentMark (e : Int) : List Char :=
  if e < 0 then ['e', '-'] else if style.plusSign then ['e', '+'] else ['e']

theorem toList_exponentText (e : Int) :
    (style.exponentText e).toList = style.exponentMark e ++ Nat.toDigits 10 e.natAbs := by
  have hdigits : (toString e.natAbs).toList = Nat.toDigits 10 e.natAbs := Nat.toList_repr
  rw [exponentText, exponentMark]
  split
  · rw [String.toList_append, hdigits]
    rfl
  · split
    · rw [String.toList_append, hdigits]
      rfl
    · rw [String.toList_append, hdigits]
      rfl

theorem head?_exponentText (e : Int) : (style.exponentText e).toList.head? = some 'e' := by
  rw [toList_exponentText, exponentMark]
  split
  · rfl
  · split <;> rfl

theorem filter_exponentMark (e : Int) : (style.exponentMark e).filter Char.isDigit = [] := by
  rw [exponentMark]
  split
  · rfl
  · split <;> rfl

theorem minus_mem_exponentMark (e : Int) : '-' ∈ style.exponentMark e ↔ e < 0 := by
  rw [exponentMark]
  split
  · next hneg => simp [hneg]
  · next hpos => split <;> simp [hpos]

theorem power_exponentText (e : Int) : Reading.power (style.exponentText e).toList = e := by
  rw [toList_exponentText, Reading.power_append (filter_exponentMark style e) (isDigit_toDigits _)]
  simp only [minus_mem_exponentMark, Nat.ofDigitChars_ten_toDigits]
  split <;> omega

/-- How the text of a positive number is made up: digits and a point with digits behind
it, or digits with or without a point and an exponent. -/
inductive Spells : List Char → ℚ → Prop
  | plain {whole fraction : List Char} (front : whole ≠ [])
      (hwhole : ∀ c ∈ whole, c.isDigit = true) (hfraction : ∀ c ∈ fraction, c.isDigit = true) :
      Spells (whole ++ '.' :: fraction)
        (Nat.ofDigitChars 10 (whole ++ fraction) 0 * 10 ^ (-(fraction.length : Int)))
  | scaled {whole point fraction : List Char} (e : Int) (front : whole ≠ [])
      (hwhole : ∀ c ∈ whole, c.isDigit = true) (hfraction : ∀ c ∈ fraction, c.isDigit = true)
      (hpoint : point = '.' :: fraction ∨ point = [] ∧ fraction = []) :
      Spells (whole ++ point ++ (style.exponentText e).toList)
        (Nat.ofDigitChars 10 (whole ++ fraction) 0 * 10 ^ (e - fraction.length))

variable {style} {text : List Char} {v : ℚ}

theorem Spells.decimal_eq (h : style.Spells text v) : Reading.decimal text = v := by
  cases h with
  | plain _ hwhole hfraction =>
      have hread := @Reading.decimal_eq _ _ _ [] hwhole hfraction (.inl rfl) (.inl rfl)
      rw [List.append_nil] at hread
      rw [hread, Reading.power]
      simp
  | scaled e _ hwhole hfraction hpoint =>
      rw [Reading.decimal_eq hwhole hfraction hpoint (.inr (style.head?_exponentText e)),
        power_exponentText]

theorem isDigit_zero : ∀ c ∈ ['0'], c.isDigit = true :=
  List.forall_mem_singleton.2 rfl

/-- A zero behind the point moves the value by ten and back. -/
theorem ofDigitChars_zero_behind (whole : List Char) :
    (Nat.ofDigitChars 10 (whole ++ ['0']) 0 : ℚ) * 10 ^ (-(['0'].length : Int)) =
      Nat.ofDigitChars 10 whole 0 := by
  simpa using ofDigitChars_append_zeros whole 1 0

theorem spells_positiveText {s : Scientific} (h : ∀ c ∈ s.digits, c.isDigit = true) :
    style.Spells (style.positiveText s).toList s.value := by
  rw [positiveText]
  split
  · obtain ⟨hwhole, hfraction⟩ := Scientific.isDigit_split h
    have hfront := s.split_whole_ne_nil
    have hvalue := s.value_split
    by_cases hnone : s.split.2 = []
    · have hspells : style.Spells _ _ := .plain hfront hwhole isDigit_zero
      rw [ofDigitChars_zero_behind] at hspells
      rw [hnone] at hvalue
      simpa [hnone, ← hvalue] using hspells
    · have hspells : style.Spells _ _ := .plain hfront hwhole hfraction
      rw [hvalue] at hspells
      simpa [hnone] using hspells
  · have hmantissa : ∀ c ∈ s.mantissa.digits, c.isDigit = true := h
    obtain ⟨hwhole, hfraction⟩ := Scientific.isDigit_split hmantissa
    have hfront := s.mantissa.split_whole_ne_nil
    have hvalue : s.value = Nat.ofDigitChars 10 (s.mantissa.split.1 ++ s.mantissa.split.2) 0 *
        10 ^ (s.exponent - s.mantissa.split.2.length) := by
      rw [← s.value_mantissa, ← s.mantissa.value_split, mul_assoc, ← zpow_add₀ (by norm_num)]
      congr 2
      omega
    rw [hvalue]
    simp only [String.toList_append, String.toList_ofList]
    refine .scaled s.exponent hfront hwhole hfraction ?_
    by_cases hnone : s.mantissa.split.2 = []
    · exact .inr ⟨by simp [hnone], hnone⟩
    · exact .inl (by simp [hnone])

theorem Spells.front (h : style.Spells text v) : ∃ c rest, text = c :: rest ∧ c.isDigit = true := by
  cases h with
  | plain front hwhole hfraction =>
      obtain ⟨c, rest, rfl⟩ := List.exists_cons_of_ne_nil front
      exact ⟨c, _, rfl, hwhole c List.mem_cons_self⟩
  | scaled e front hwhole hfraction hpoint =>
      obtain ⟨c, rest, rfl⟩ := List.exists_cons_of_ne_nil front
      exact ⟨c, _, rfl, hwhole c List.mem_cons_self⟩

/-- A real is never taken for an integer. -/
theorem Spells.marked (h : style.Spells text v) : '.' ∈ text ∨ 'e' ∈ text := by
  cases h with
  | plain => exact .inl (List.mem_append_right _ List.mem_cons_self)
  | scaled e =>
      exact .inr (List.mem_append_right _ (List.mem_of_mem_head? (style.head?_exponentText e)))

theorem isNumberChar_exponentText (e : Int) :
    ∀ c ∈ (style.exponentText e).toList, Reading.isNumberChar c = true := by
  intro c hc
  rw [toList_exponentText] at hc
  rcases List.mem_append.1 hc with hmark | hdigit
  · have hchars : c = 'e' ∨ c = '-' ∨ c = '+' := by
      grind [exponentMark]
    rcases hchars with rfl | rfl | rfl <;> decide
  · exact Reading.isNumberChar_of_isDigit (isDigit_toDigits _ c hdigit)

theorem Spells.isNumberChar (h : style.Spells text v) :
    ∀ c ∈ text, Reading.isNumberChar c = true := by
  have hdigits : ∀ {digits : List Char}, (∀ c ∈ digits, c.isDigit = true) →
      ∀ c ∈ digits, Reading.isNumberChar c = true :=
    fun hall c hc => Reading.isNumberChar_of_isDigit (hall c hc)
  have hpoints : ∀ {fraction : List Char}, (∀ c ∈ fraction, c.isDigit = true) →
      ∀ c ∈ '.' :: fraction, Reading.isNumberChar c = true :=
    fun hall => List.forall_mem_cons.2 ⟨by decide, hdigits hall⟩
  cases h with
  | plain front hwhole hfraction =>
      exact List.forall_mem_append.2 ⟨hdigits hwhole, hpoints hfraction⟩
  | scaled e front hwhole hfraction hpoint =>
      refine List.forall_mem_append.2
        ⟨List.forall_mem_append.2 ⟨hdigits hwhole, ?_⟩, isNumberChar_exponentText e⟩
      rcases hpoint with rfl | ⟨rfl, -⟩
      · exact hpoints hfraction
      · exact nofun

end NumberStyle

theorem RoundingInterval.isDigit_shortest (r : RoundingInterval) (tie : Tie) :
    ∀ c ∈ (r.shortest tie).digits, c.isDigit = true := by
  intro c hc
  exact isDigit_toDigits _ c (mem_of_mem_dropTrailingZeros hc)

namespace NumberStyle

/-- What is written for a number: its sign, and a decimal that rounds to it. -/
theorem toList_finiteText (style : NumberStyle) (x : Binary64) :
    ∃ body v, (style.finiteText x).toList = (if x.isNegative then ['-'] else []) ++ body ∧
      style.Spells body v ∧
      if x.isZero then v = 0 else (RoundingInterval.ofBinary64 x).Holds v := by
  have hsign : (if x.isNegative then "-" else "").toList = if x.isNegative then ['-'] else [] := by
    cases x.isNegative <;> rfl
  rw [finiteText, String.toList_append, hsign]
  cases hzero : x.isZero with
  | true =>
      have hspells : style.Spells (['0'] ++ '.' :: ['0']) _ :=
        .plain (List.cons_ne_nil _ _) isDigit_zero isDigit_zero
      rw [ofDigitChars_zero_behind] at hspells
      exact ⟨"0.0".toList, 0, rfl, by simpa [Nat.ofDigitChars] using hspells, rfl⟩
  | false =>
      exact ⟨_, _, rfl, spells_positiveText (RoundingInterval.isDigit_shortest _ _),
        RoundingInterval.shortest_holds (Binary64.proper_interval hzero) style.tie⟩

theorem signed_of_spells {style : NumberStyle} {body : List Char} {v : ℚ}
    (h : style.Spells body v) (negative : Bool) :
    Reading.signed ((if negative then ['-'] else []) ++ body) = (negative, v) := by
  rw [Reading.signed_append h.front, h.decimal_eq]

/-- No two numbers have one text. -/
theorem finiteText_injective (style : NumberStyle) {x y : Binary64}
    (h : style.finiteText x = style.finiteText y) : x = y := by
  obtain ⟨body, v, hx, hspells, hv⟩ := style.toList_finiteText x
  obtain ⟨body', v', hy, hspells', hv'⟩ := style.toList_finiteText y
  have hread : (x.isNegative, v) = (y.isNegative, v') := by
    rw [← signed_of_spells hspells, ← signed_of_spells hspells', ← hx, ← hy, h]
  obtain ⟨hsign, rfl⟩ := Prod.mk.inj hread
  cases hzero : x.isZero with
  | true =>
      rw [hzero, if_pos rfl] at hv
      cases hzero' : y.isZero with
      | true =>
          simp only [Binary64.isZero, decide_eq_true_eq] at hzero hzero'
          refine Binary64.eq_of_fields hsign ?_ ?_
          · simp [Binary64.significand, hzero, hzero']
          · simp [Binary64.exponent, hzero, hzero']
      | false =>
          rw [hzero', if_neg Bool.false_ne_true] at hv'
          exact absurd hv (hv'.pos (Binary64.proper_interval hzero')).ne'
  | false =>
      rw [hzero, if_neg Bool.false_ne_true] at hv
      have hproper := Binary64.proper_interval hzero
      cases hzero' : y.isZero with
      | true =>
          rw [hzero', if_pos rfl] at hv'
          exact absurd hv' (hv.pos hproper).ne'
      | false =>
          rw [hzero', if_neg Bool.false_ne_true] at hv'
          obtain ⟨hsignificand, hexponent⟩ :=
            hv.unique hproper (Binary64.proper_interval hzero') hv'
          exact Binary64.eq_of_fields hsign hsignificand hexponent

end NumberStyle

end ModelSource
