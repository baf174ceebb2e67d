import ModelSource.Proofs.Culprit
import ModelSource.Proofs.Literals
import ModelSource.Proofs.WholeNumbers

/-!
# Numbers as literals

A number becomes an integer if it is whole and has at most fifteen digits before the
point, and stays a real otherwise. Either literal stands for the value of the number and
for nothing else, so two finite numbers have the same literal exactly if they have the same
value; that covers the two zeros, which differ as numbers and not as literals.

A number that is not finite has no value. It stays a real, and a real that is not finite
is where rendering stops.
-/

namespace ModelSource

/-- Digits for a value: a minus sign before them where it is negative, no needless zero,
no point and no exponent. -/
def Reading.IsNumeral (text : List Char) (v : ℚ) : Prop :=
  ∃ digits, text = (if v < 0 then ['-'] else []) ++ digits ∧ Significant.Tidy digits [] ∧
    (Nat.ofDigitChars 10 digits 0 : ℚ) = |v|

theorem Reading.isNumeral_integer (n : Int) : IsNumeral (toString n).toList n := by
  refine ⟨Nat.toDigits 10 n.natAbs, ?_, ?_, ?_⟩
  · simp only [toList_integer, Int.cast_lt_zero]
  · refine ⟨isDigit_toDigits _, nofun, Nat.toDigits_ne_nil, fun hlead => ?_, nofun⟩
    rcases Nat.eq_zero_or_pos n.natAbs with hzero | hpos
    · rw [hzero]
      rfl
    · exact absurd hlead (head?_toDigits_ne_zero hpos)
  · rw [Nat.ofDigitChars_ten_toDigits, Nat.cast_natAbs, Int.cast_abs]

namespace Scalar

variable {x y : Binary64} {n : Int}

/-- The number that a literal stands for, if it stands for one. -/
def denoted? : Scalar → Option ℚ
  | .integer n => some n
  | .real x => if x.isFinite then some x.value else none
  | .bool _ | .text _ => none

theorem number_cases (x : Binary64) : (∃ n, number x = .integer n) ∨ number x = .real x := by
  rw [number]
  split
  · next n _ =>
      split
      · exact .inl ⟨n, rfl⟩
      · exact .inr rfl
  · exact .inr rfl

theorem number_eq_integer_iff_value :
    number x = .integer n ↔ x.isFinite = true ∧ x.value = n ∧ n.natAbs < 10 ^ 15 := by
  rw [number_eq_integer, Binary64.toInt?_eq_some_iff, and_assoc]

theorem denoted?_number (h : x.isFinite = true) : (number x).denoted? = some x.value := by
  rcases number_cases x with ⟨n, hn⟩ | hreal
  · rw [hn, (number_eq_integer_iff_value.1 hn).2.1]
    rfl
  · rw [hreal, denoted?, if_pos h]

theorem exists_integer_iff :
    (∃ n, number x = .integer n) ↔
      x.isFinite = true ∧ (∃ n : Int, x.value = n) ∧ |x.value| < 10 ^ 15 := by
  have hsmall : ∀ n : Int, |(n : ℚ)| < 10 ^ 15 ↔ n.natAbs < 10 ^ 15 := by
    intro n
    rw [← Int.cast_abs, ← Nat.cast_natAbs]
    exact_mod_cast Iff.rfl
  constructor
  · intro ⟨n, hn⟩
    obtain ⟨hfinite, hvalue, hn⟩ := number_eq_integer_iff_value.1 hn
    exact ⟨hfinite, ⟨n, hvalue⟩, hvalue ▸ (hsmall n).2 hn⟩
  · intro ⟨hfinite, ⟨n, hvalue⟩, hlt⟩
    exact ⟨n, number_eq_integer_iff_value.2 ⟨hfinite, hvalue, (hsmall n).1 (hvalue ▸ hlt)⟩⟩

theorem number_of_not_finite (h : x.isFinite = false) : number x = .real x := by
  rcases number_cases x with ⟨n, hn⟩ | hreal
  · have hfinite := (number_eq_integer_iff_value.1 hn).1
    rw [h] at hfinite
    cases hfinite
  · exact hreal

theorem number_eq_number_iff (hx : x.isFinite = true) (hy : y.isFinite = true) :
    number x = number y ↔ x.value = y.value := by
  constructor
  · intro h
    have hdenoted := denoted?_number hx
    rw [h, denoted?_number hy] at hdenoted
    exact (Option.some.inj hdenoted).symm
  · intro h
    rcases number_cases x with ⟨n, hn⟩ | hreal
    · obtain ⟨-, hvalue, hlt⟩ := number_eq_integer_iff_value.1 hn
      rw [hn, number_eq_integer_iff_value.2 ⟨hy, h ▸ hvalue, hlt⟩]
    · -- the zeros are integers, and no other value has two numbers
      have hne : x.value ≠ 0 := by
        intro hzero
        have hinteger := number_eq_zero_iff.2 (Binary64.value_eq_zero_iff.1 hzero)
        rw [hreal] at hinteger
        cases hinteger
      rw [Binary64.eq_of_value_eq hne h]

end Scalar

/-- A document with a place that is refused has no text. -/
theorem exists_render_error_of_refused (ident : String) (ops : List Operation)
    (options : RenderOptions) {v : Visit} {e : Error}
    (hv : v ∈ (Document.run { ident } ops).visits) (h : v.Refused e) :
    ∃ e', render options (.document (Document.run { ident } ops)) = .error e' := by
  have hsome : (firstError (Document.run { ident } ops).visits).isSome = true := by
    rw [firstError, List.findSome?_isSome_iff]
    exact ⟨v, hv, h.error?_eq ▸ rfl⟩
  obtain ⟨first, hfirst⟩ := Option.isSome_iff_exists.1 hsome
  refine ⟨first, render_eq_error.2 ?_⟩
  rw [← hfirst]
  exact Printer.error?_document _ (Document.run_writable ident ops)

namespace Scalar

/-- The literal of a finite number stands for its value. It is an integer exactly if the
value is whole and below `10 ^ 15`; the integer is then the value itself, well inside sixty-four
bits, and is written as a plain numeral at any precision. A number that is not finite stays a
real, which has no source text, and no document in which it is to be written can be rendered.
Finite numbers have equal literals exactly if their values are equal. -/
theorem number_denotes_exactly (x : Binary64) :
    (x.isFinite = true → (number x).denoted? = some x.value) ∧
    ((∃ n, number x = .integer n) ↔
      x.isFinite = true ∧ (∃ n : Int, x.value = n) ∧ |x.value| < 10 ^ 15) ∧
    (∀ n, number x = .integer n → x.value = n ∧ -2 ^ 63 ≤ n ∧ n < 2 ^ 63 ∧
      ∀ precision, ∃ text, (number x).text? precision = .ok text ∧
        Reading.IsNumeral text.toList x.value) ∧
    (x.isFinite = false → number x = .real x ∧
      (∀ precision, (number x).text? precision = .error (.nonFinite x)) ∧
      ∀ ident ops path, ⟨path, .literal (number x)⟩ ∈ (Document.run { ident } ops).visits →
        ∀ options, ∃ e, render options (.document (Document.run { ident } ops)) = .error e) ∧
    ∀ y, x.isFinite = true → y.isFinite = true → (number x = number y ↔ x.value = y.value) := by
  refine ⟨denoted?_number, exists_integer_iff, fun n hn => ?_, fun hnot => ?_,
    fun y => number_eq_number_iff⟩
  · obtain ⟨-, hvalue, hlt⟩ := number_eq_integer_iff_value.1 hn
    refine ⟨hvalue, by omega, by omega, fun precision => ⟨toString n, ?_, ?_⟩⟩
    · rw [hn]
      rfl
    · rw [hvalue]
      exact Reading.isNumeral_integer n
  · have hreal := number_of_not_finite hnot
    refine ⟨hreal, fun precision => ?_, fun ident ops path hvisit options => ?_⟩
    · rw [hreal, text?, if_neg (by simp [hnot])]
    · rw [hreal] at hvisit
      exact exists_render_error_of_refused ident ops options hvisit (.nonFinite hnot)

/-- The least integer of fifteen digits is written as one, an infinite entry leaves a document
without a text, and the zeros have one literal. -/
theorem number_denotes_exactly_edges :
    let least : Binary64 := ⟨0xc30c6bf52633fff8⟩
    let infinite : Binary64 := ⟨0x7ff0000000000000⟩
    let annotated : List Operation := [.setAnnotations ⟨[("a", .scalar (number infinite))]⟩]
    (number least).denoted? = some least.value ∧
      number least = .integer (-999999999999999) ∧ least.value = (-999999999999999 : Int) ∧
      (number least).text? none = .ok "-999999999999999" ∧
      Reading.IsNumeral "-999999999999999".toList least.value ∧
      number infinite = .real infinite ∧
      (∃ e, render {} (.document (Document.run { ident := "M" } annotated)) = .error e) ∧
      number ⟨0⟩ = number ⟨0x8000000000000000⟩ ∧
      Binary64.value ⟨0⟩ = Binary64.value ⟨0x8000000000000000⟩ := by
  intro least infinite annotated
  have hleast : number least = .integer (-999999999999999) := by decide +kernel
  have htext : (number least).text? none = .ok "-999999999999999" := by decide +kernel
  obtain ⟨hdenoted, -, hinteger, -, -⟩ := number_denotes_exactly least
  obtain ⟨-, -, -, hinfinite, -⟩ := number_denotes_exactly infinite
  obtain ⟨-, -, -, -, hzeros⟩ := number_denotes_exactly ⟨0⟩
  obtain ⟨hvalue, -, -, hnumeral⟩ := hinteger _ hleast
  obtain ⟨text, hok, hread⟩ := hnumeral none
  obtain rfl : text = "-999999999999999" := Except.ok.inj (hok.symm.trans htext)
  obtain ⟨hreal, -, hrender⟩ := hinfinite (by decide)
  have hzero : number ⟨0⟩ = number ⟨0x8000000000000000⟩ := by decide +kernel
  refine ⟨hdenoted (by decide), hleast, hvalue, htext, hread, hreal,
    hrender "M" annotated ["M", "annotation", "a"] ?_ {}, hzero,
    (hzeros ⟨0x8000000000000000⟩ (by decide) (by decide)).1 hzero⟩
  exact List.mem_singleton.2 rfl

end Scalar

end ModelSource
