import BisayaPlus.Proofs.DecimalNumerals
/-!
# Integers from input

A field for an integer is read as an integer first. Where that fails, be it for
a fraction, an exponent or the range, it is read as a real, and the real is
taken if it is an integer. The second attempt sees the numeral only after it was
rounded, so `numero_input_exact_iff` says when a numeral is stored exactly, and
how far below the range an integer is still taken.
-/

set_option autoImplicit false

namespace BisayaPlus

namespace Binary64

/-! ## Rounding beyond 64 bits -/

/-- Rounding does not go below the power of two under a number. -/
theorem two_pow_log2_le_roundedNat {n : Nat} (hn : n ≠ 0) (hlog : 52 ≤ n.log2) : 2 ^ n.log2 ≤ roundedNat n := by
  have hsplit : 2 ^ n.log2 = 2 ^ 52 * 2 ^ (n.log2 - 52) := by rw [← Nat.pow_add, Nat.add_sub_cancel' hlog]
  have hself := Nat.log2_self_le hn
  rw [hsplit] at hself ⊢
  exact Nat.mul_le_mul_right _ (le_nearest (Nat.two_pow_pos _) hself)

/-- From `2 ^ 63` on, half a step and no more is rounded down to it. -/
theorem roundedNat_beyond {n : Nat} (h : 2 ^ 63 ≤ n) :
    2 ^ 63 ≤ roundedNat n ∧ (roundedNat n = 2 ^ 63 ↔ n ≤ 2 ^ 63 + 2 ^ 10) := by
  have hn : n ≠ 0 := by omega
  have hlog : 63 ≤ n.log2 := (Nat.le_log2 hn).2 h
  rcases Nat.eq_or_lt_of_le hlog with hlog | hlog
  · have hlt : n < 2 ^ 64 := (Nat.log2_lt hn).1 (by omega)
    rw [roundedNat, ← hlog]
    simp only [nearest, Bool.or_eq_true, Bool.and_eq_true, decide_eq_true_eq, beq_iff_eq]
    split <;> omega
  · have hlarge : 2 ^ 64 ≤ n := (Nat.le_log2 hn).1 hlog
    have hpow : 2 ^ 64 ≤ 2 ^ n.log2 := Nat.pow_le_pow_right (by decide) hlog
    have hrounded := two_pow_log2_le_roundedNat hn (by omega)
    omega

end Binary64

open Numeral Binary64

namespace Numeral.Decimal

/-! ## Plain numerals -/

/-- A plain numeral counts ones. -/
theorem scale_of_isPlain {n : Decimal} (h : n.isPlain = true) : n.scale = 0 := by
  simp only [isPlain, Bool.and_eq_true, Option.isNone_iff_eq_none] at h
  simp [scale, h.1, h.2]

/-- The value of a plain numeral. -/
theorem value_of_isPlain {n : Decimal} (h : n.isPlain = true) :
    n.value = withSign (isMinus n.sign) (number n.digits) := by
  rw [value, scale_of_isPlain h, zpow_zero, mul_one]

/-- The number that a numeral is rounded to. -/
def rounded (n : Decimal) : Binary64 := ofDecimal (isMinus n.sign) (number n.digits) n.scale

/-- Plain numerals in range are read as integers, and nothing else. -/
theorem int64?_spelling {n : Decimal} {i : Int64} :
    int64? n.spelling = some i ↔ n.isPlain = true ∧ n.value = (i.toInt : ℚ) := by
  rw [int64?, integer?_spelling]
  cases hplain : n.isPlain with
  | false => simp
  | true =>
    rw [value_of_isPlain hplain, withSign_natCast, Int.cast_inj]
    simpa using narrow_eq_some

/-- A plain numeral in the range of 64-bit integers. -/
def IsInt64 (n : Decimal) : Prop := n.isPlain = true ∧ -2 ^ 63 ≤ n.value ∧ n.value ≤ 2 ^ 63 - 1

theorem isSome_int64?_iff {n : Decimal} : (∃ i, int64? n.spelling = some i) ↔ n.IsInt64 := by
  constructor
  · rintro ⟨i, hi⟩
    obtain ⟨hplain, hvalue⟩ := int64?_spelling.1 hi
    have hlow : -2 ^ 63 ≤ i.toInt := i.minValue_le_toInt
    have hhigh : i.toInt ≤ 2 ^ 63 - 1 := i.toInt_le
    rw [IsInt64, hvalue]
    exact ⟨hplain, by exact_mod_cast hlow, by exact_mod_cast hhigh⟩
  · rintro ⟨hplain, hlow, hhigh⟩
    obtain ⟨j, hj⟩ : ∃ j : Int, n.value = j := ⟨_, (value_of_isPlain hplain).trans (withSign_natCast _ _)⟩
    rw [hj] at hlow hhigh
    have hlow' : -2 ^ 63 ≤ j := by exact_mod_cast hlow
    have hhigh' : j ≤ 2 ^ 63 - 1 := by exact_mod_cast hhigh
    refine ⟨Int64.ofInt j, int64?_spelling.2 ⟨hplain, ?_⟩⟩
    rw [hj, Int64.toInt_ofInt_of_le hlow' (by omega)]

/-- Any other numeral is read as a real first. -/
theorem readNumero?_spelling {n : Decimal} {i : Int64} :
    Value.readNumero? n.spelling = some i ↔
      int64? n.spelling = some i ∨
        int64? n.spelling = none ∧ n.rounded.isInfinite = false ∧ n.rounded.value = (i.toInt : ℚ) := by
  rw [Value.readNumero?]
  cases int64? n.spelling with
  | some j => simp
  | none =>
    rw [real?_spelling, ← rounded]
    cases hinfinite : n.rounded.isInfinite with
    | true => simp
    | false =>
      have hfinite : n.rounded.IsFinite := (nearest_ofDecimal hinfinite).1
      simp [exactInt?_eq_some, hfinite]

theorem rounded_of_isPlain {n : Decimal} (hplain : n.isPlain = true)
    (h : number n.digits = 0 ∨ (Text.ofNat (number n.digits)).length ≤ 310) :
    n.rounded = ofQuotient (isMinus n.sign) (number n.digits * one) 1 := by
  rw [rounded, scale_of_isPlain hplain, ofDecimal_eq _ (by omega)]
  simp

/-- A plain numeral is rounded to an integer. -/
theorem value_rounded {n : Decimal} (hplain : n.isPlain = true) (h : n.rounded.isInfinite = false) :
    n.rounded.value = withSign (isMinus n.sign) (roundedNat (number n.digits)) := by
  have hsize := size_of_not_isInfinite h
  rw [scale_of_isPlain hplain] at hsize
  have hquotient := rounded_of_isPlain hplain (by omega)
  have hfinite : n.rounded.IsFinite := (nearest_ofDecimal h).1
  rw [hquotient] at hfinite ⊢
  rw [value_eq, negative_ofQuotient, size_ofQuotient hfinite, unitsOf_rounded_nat, Nat.cast_mul,
    mul_div_cancel_right₀ _ cast_one_pos.ne']

/-- A plain numeral up to a little beyond 64 bits is not infinite. -/
theorem isInfinite_rounded {n : Decimal} (hplain : n.isPlain = true) (h : number n.digits ≤ 2 ^ 63 + 2 ^ 10) :
    n.rounded.isInfinite = false := by
  have hlength : (Text.ofNat (number n.digits)).length ≤ 20 := by
    rw [Text.ofNat, List.length_map, Nat.length_toDigits_le_iff (by decide) (by decide)]
    omega
  rw [rounded_of_isPlain hplain (by omega)]
  exact (isFinite_iff.1 (isFinite_ofQuotient_one _ (by omega))).2

theorem read_numero_iff {t : Text} {i : Int64} :
    Value.read .numero t = .ok (.numero i) ↔ Value.readNumero? t = some i := by
  rw [Value.read, Value.read?]
  cases Value.readNumero? t <;> simp

/-! ## What is stored -/

variable {n : Decimal} {i : Int64}

/-- What a numeral is stored as is nearest to its value. -/
theorem nearest_of_read (h : Value.read .numero n.spelling = .ok (.numero i)) (x : Binary64) (hx : x.IsFinite) :
    |(i.toInt : ℚ) - n.value| ≤ |x.value - n.value| := by
  rcases readNumero?_spelling.1 (read_numero_iff.1 h) with h | ⟨-, hinfinite, hvalue⟩
  · rw [(int64?_spelling.1 h).2, sub_self, abs_zero]
    exact abs_nonneg _
  · rw [← hvalue]
    exact (nearest_ofDecimal hinfinite).2 x hx

/-- A numeral is stored exactly if it is an integer in range, or if some number
of the binary format has its value. -/
theorem exact_iff_of_read (h : Value.read .numero n.spelling = .ok (.numero i)) :
    (i.toInt : ℚ) = n.value ↔ n.IsInt64 ∨ ∃ x : Binary64, x.IsFinite ∧ x.value = n.value := by
  constructor
  · intro hexact
    rcases readNumero?_spelling.1 (read_numero_iff.1 h) with h | ⟨-, hinfinite, hvalue⟩
    · exact .inl (isSome_int64?_iff.1 ⟨i, h⟩)
    · exact .inr ⟨n.rounded, (nearest_ofDecimal hinfinite).1, hvalue.trans hexact⟩
  · rintro (hint | ⟨x, hx, hvalue⟩)
    · obtain ⟨j, hj⟩ := isSome_int64?_iff.2 hint
      rcases readNumero?_spelling.1 (read_numero_iff.1 h) with h | ⟨hnone, -⟩
      · exact (int64?_spelling.1 h).2.symm
      · rw [hj] at hnone
        cases hnone
    · have hclose := nearest_of_read h x hx
      rw [hvalue, sub_self, abs_zero] at hclose
      exact sub_eq_zero.1 (abs_nonpos_iff.1 hclose)

/-- The digits of a plain numeral beyond the range. -/
theorem le_digits_of_not_isInt64 (hplain : n.isPlain = true) (h : ¬ n.IsInt64) : 2 ^ 63 ≤ number n.digits := by
  by_contra hsmall
  have hlt : (number n.digits : ℚ) + 1 ≤ 2 ^ 63 := by exact_mod_cast Nat.lt_of_not_le hsmall
  have hpos : (0 : ℚ) ≤ number n.digits := Nat.cast_nonneg _
  refine h ⟨hplain, ?_⟩
  rw [value_of_isPlain hplain, withSign]
  split <;> constructor <;> linarith

/-- Beyond the range, only negative integers that are rounded to its lower end
are accepted. -/
theorem accepts_beyond_iff (hplain : n.isPlain = true) (hbeyond : ¬ n.IsInt64) :
    (∃ i, Value.readNumero? n.spelling = some i) ↔ isMinus n.sign = true ∧ number n.digits ≤ 2 ^ 63 + 2 ^ 10 := by
  have hnone : int64? n.spelling = none := by
    rw [Option.eq_none_iff_forall_ne_some]
    exact fun i hi => hbeyond (isSome_int64?_iff.1 ⟨i, hi⟩)
  obtain ⟨hle, hend⟩ := roundedNat_beyond (le_digits_of_not_isInt64 hplain hbeyond)
  simp only [readNumero?_spelling, hnone, reduceCtorEq, false_or, true_and]
  constructor
  · rintro ⟨i, hinfinite, hi⟩
    have hlow : -2 ^ 63 ≤ i.toInt := i.minValue_le_toInt
    have hhigh : i.toInt ≤ 2 ^ 63 - 1 := i.toInt_le
    rw [value_rounded hplain hinfinite, withSign_natCast, Int.cast_inj] at hi
    split at hi
    · next hminus => exact ⟨hminus, hend.1 (by omega)⟩
    · omega
  · rintro ⟨hminus, hclose⟩
    have hinfinite := isInfinite_rounded hplain hclose
    refine ⟨Int64.minValue, hinfinite, ?_⟩
    rw [value_rounded hplain hinfinite, hend.2 hclose, hminus, withSign_natCast, Int64.toInt_minValue]
    norm_num

/-- The plain numerals that are accepted: those in range, and below it those that
are rounded to its end. -/
theorem accepts_plain_iff (hplain : n.isPlain = true) :
    (∃ i, Value.read .numero n.spelling = .ok (.numero i)) ↔
      -2 ^ 63 - 2 ^ 10 ≤ n.value ∧ n.value ≤ 2 ^ 63 - 1 := by
  simp only [read_numero_iff]
  by_cases hrange : n.IsInt64
  · obtain ⟨i, hi⟩ := isSome_int64?_iff.2 hrange
    obtain ⟨-, hlow, hhigh⟩ := hrange
    exact iff_of_true ⟨i, readNumero?_spelling.2 (.inl hi)⟩ ⟨by linarith, hhigh⟩
  · have hlarge := le_digits_of_not_isInt64 hplain hrange
    have hcast (j : Int) : (-2 ^ 63 - 2 ^ 10 ≤ (j : ℚ) ∧ (j : ℚ) ≤ 2 ^ 63 - 1) ↔
        -2 ^ 63 - 2 ^ 10 ≤ j ∧ j ≤ 2 ^ 63 - 1 := by
      norm_cast
    rw [accepts_beyond_iff hplain hrange, value_of_isPlain hplain, withSign_natCast, hcast]
    cases isMinus n.sign with
    | false =>
      simp only [Bool.false_eq_true, if_false, false_and, false_iff]
      omega
    | true =>
      simp only [if_true, true_and]
      omega

end Numeral.Decimal

/-- What a decimal numeral is stored as in an integer. An accepted numeral is
stored exactly if it is a plain one in range or if its value is one of the binary
format, and in any case nothing in the format is nearer to it. A plain numeral is
accepted in the range, and below it as far as rounding leads back to its end. -/
theorem numero_input_exact_iff (n : Decimal) :
    (∀ i, Value.read .numero n.spelling = .ok (.numero i) →
      ((i.toInt : ℚ) = n.value ↔ n.IsInt64 ∨ ∃ x : Binary64, x.IsFinite ∧ x.value = n.value) ∧
      ∀ x : Binary64, x.IsFinite → |(i.toInt : ℚ) - n.value| ≤ |x.value - n.value|) ∧
    (n.isPlain = true →
      ((∃ i, Value.read .numero n.spelling = .ok (.numero i)) ↔
        -2 ^ 63 - 2 ^ 10 ≤ n.value ∧ n.value ≤ 2 ^ 63 - 1)) :=
  ⟨fun _ h => ⟨Decimal.exact_iff_of_read h, Decimal.nearest_of_read h⟩, Decimal.accepts_plain_iff⟩

/-- The integer one below the range. -/
def belowRange : Decimal where
  sign := some .minus
  whole := [9, 2, 2, 3, 3, 7, 2, 0, 3, 6, 8, 5, 4, 7, 7, 5, 8, 0, 9]
  fraction := none
  exponent := none
  digits_ne_nil := by decide

theorem value_belowRange : belowRange.value = -2 ^ 63 - 1 := by
  have hdigits : number belowRange.digits = 2 ^ 63 + 1 := by decide
  rw [Decimal.value_of_isPlain rfl, hdigits]
  norm_num [withSign, belowRange, isMinus]

/-- No number of the binary format is the integer one below the range, since it
is accepted and something else is stored. -/
theorem numero_input_exact_iff_belowRange :
    Value.read .numero belowRange.spelling = .ok (.numero Int64.minValue) ∧
      belowRange.isPlain = true ∧ (∃ i, Value.read .numero belowRange.spelling = .ok (.numero i)) ∧
      ∀ x : Binary64, x.IsFinite → x.value ≠ belowRange.value := by
  have hread : Value.read .numero belowRange.spelling = .ok (.numero Int64.minValue) := by decide +kernel
  obtain ⟨hexact, hplain⟩ := numero_input_exact_iff belowRange
  refine ⟨hread, rfl, (hplain rfl).2 (by rw [value_belowRange]; norm_num), fun x hx hvalue => ?_⟩
  have hstored := (hexact _ hread).1.2 (.inr ⟨x, hx, hvalue⟩)
  rw [value_belowRange, Int64.toInt_minValue] at hstored
  norm_num at hstored

/-- An integer out of range is accepted, and another one is stored. -/
theorem numero_input_inexact :
    belowRange.spelling = Text.ofString "-9223372036854775809" ∧ belowRange.value < -2 ^ 63 ∧
      Value.read .numero belowRange.spelling = .ok (.numero Int64.minValue) ∧
      (Int64.minValue.toInt : ℚ) ≠ belowRange.value := by
  rw [value_belowRange, Int64.toInt_minValue]
  exact ⟨by decide, by norm_num, by decide +kernel, by norm_num⟩

example : Value.read .numero "9007199254740993.0" = .ok (.numero 9007199254740992) := by decide +kernel

end BisayaPlus
