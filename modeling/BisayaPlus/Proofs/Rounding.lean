import BisayaPlus.Number.Binary64
import Mathlib.Data.Rat.Floor
import Mathlib.Tactic.Linarith
/-!
# Rounding

A 64-bit binary number is a whole multiple of the least positive one. What an
operation gives is nearest to its exact result: no finite number is closer. What
stands before the point of a number is itself one of the format, so a comparison
tells if there is a fraction. A number that is narrowed to an integer keeps its
value.
-/

set_option autoImplicit false

namespace BisayaPlus.Binary64

/-! ## Bits -/

theorem binade_eq : binade = 2 ^ 52 := rfl

theorem infiniteMagnitude_eq : infiniteMagnitude = 2047 * 2 ^ 52 := rfl

theorem infiniteMagnitude_lt : infiniteMagnitude < 2 ^ 63 := by decide

theorem toNat_bits_ofMagnitude (negative : Bool) {m : Nat} (hm : m < 2 ^ 63) :
    (ofMagnitude negative m).bits.toNat = m + if negative then 2 ^ 63 else 0 := by
  have hbits : (ofMagnitude negative m).bits.toNat = (m + if negative then 2 ^ 63 else 0) % 2 ^ 64 := rfl
  rw [hbits]
  split <;> omega

theorem magnitude_ofMagnitude (negative : Bool) {m : Nat} (hm : m < 2 ^ 63) :
    (ofMagnitude negative m).magnitude = m := by
  have hmod : (ofMagnitude negative m).magnitude = (ofMagnitude negative m).bits.toNat % 2 ^ 63 := rfl
  rw [hmod, toNat_bits_ofMagnitude negative hm]
  split <;> omega

theorem negative_ofMagnitude (negative : Bool) {m : Nat} (hm : m < 2 ^ 63) :
    (ofMagnitude negative m).negative = negative := by
  have hle : (ofMagnitude negative m).negative = decide (2 ^ 63 ≤ (ofMagnitude negative m).bits.toNat) := rfl
  rw [hle, toNat_bits_ofMagnitude negative hm]
  cases negative
  · simpa using hm
  · simp

/-! ## Sizes -/

theorem stepOf_eq {k e m : Nat} (hk : k = e * binade + m) (hlow : e = 0 ∨ binade ≤ m) (hm : m < 2 * binade) :
    stepOf k = e := by
  rw [binade_eq] at hk hlow hm
  rw [stepOf, binade_eq]
  omega

/-- The size of a number from its step and its place in the binade, also where
the place carries into the next binade. -/
theorem unitsOf_add {e m : Nat} (hlow : e = 0 ∨ binade ≤ m) (hm : m ≤ 2 * binade) :
    unitsOf (e * binade + m) = m * 2 ^ e := by
  rcases Nat.lt_or_eq_of_le hm with hm | rfl
  · have hrest : e * binade + m - e * binade = m := Nat.add_sub_cancel_left ..
    rw [unitsOf, stepOf_eq rfl hlow hm, hrest]
    rfl
  · have hcarry : e * binade + 2 * binade = (e + 1) * binade + binade := by rw [binade_eq]; omega
    have hrest : (e + 1) * binade + binade - (e + 1) * binade = binade := Nat.add_sub_cancel_left ..
    have hstep : stepOf ((e + 1) * binade + binade) = e + 1 := stepOf_eq rfl (.inr (Nat.le_refl _)) (by decide)
    rw [hcarry, unitsOf, hstep, hrest, Nat.mul_comm 2, Nat.mul_assoc, ← Nat.pow_succ']
    rfl

/-- Every size is a multiple of its step, from a whole binade on unless the
step is the least. -/
theorem exists_unitsOf (k : Nat) :
    ∃ e m, k = e * binade + m ∧ (e = 0 ∨ binade ≤ m) ∧ m < 2 * binade ∧ unitsOf k = m * 2 ^ e := by
  have hk : k = stepOf k * binade + (k - stepOf k * binade) ∧ (stepOf k = 0 ∨ binade ≤ k - stepOf k * binade) ∧
      k - stepOf k * binade < 2 * binade := by
    rw [stepOf, binade_eq]
    omega
  exact ⟨_, _, hk.1, hk.2.1, hk.2.2, rfl⟩

/-! ## Rounding to whole numbers -/

theorem nearest_cases (num den : Nat) :
    nearest num den = num / den ∧ 2 * (num % den) ≤ den ∨ nearest num den = num / den + 1 ∧ den ≤ 2 * (num % den) := by
  simp only [nearest, Bool.or_eq_true, Bool.and_eq_true, decide_eq_true_eq, beq_iff_eq]
  split <;> omega

theorem le_nearest {num den a : Nat} (hden : 0 < den) (h : a * den ≤ num) : a ≤ nearest num den := by
  have hle : a ≤ num / den := (Nat.le_div_iff_mul_le hden).2 h
  rcases nearest_cases num den with ⟨heq, -⟩ | ⟨heq, -⟩ <;> omega

theorem nearest_le {num den a : Nat} (hden : 0 < den) (h : num < a * den) : nearest num den ≤ a := by
  have hlt : num / den < a := (Nat.div_lt_iff_lt_mul hden).2 h
  rcases nearest_cases num den with ⟨heq, -⟩ | ⟨heq, -⟩ <;> omega

/-- The nearest whole number is at most a half away. -/
theorem abs_nearest_sub_le (num : Nat) {den : Nat} (hden : 0 < den) : |(nearest num den : ℚ) - num / den| ≤ 1 / 2 := by
  have hpos : (0 : ℚ) < den := by exact_mod_cast hden
  have hrest : (num : ℚ) / den - (num / den : Nat) = (num % den : Nat) / den := by
    rw [eq_div_iff hpos.ne', sub_mul, div_mul_cancel₀ _ hpos.ne', sub_eq_iff_eq_add]
    exact_mod_cast (Nat.mod_add_div' num den).symm
  rcases nearest_cases num den with ⟨heq, hhalf⟩ | ⟨heq, hhalf⟩
  · have hle : ((num % den : Nat) : ℚ) / den ≤ 1 / 2 := by
      rw [div_le_div_iff₀ hpos two_pos]
      exact_mod_cast (by omega : num % den * 2 ≤ 1 * den)
    have hnonneg : (0 : ℚ) ≤ ((num % den : Nat) : ℚ) / den := by positivity
    rw [heq, abs_le]
    constructor <;> linarith
  · have hle : (1 : ℚ) / 2 ≤ ((num % den : Nat) : ℚ) / den := by
      rw [div_le_div_iff₀ two_pos hpos]
      exact_mod_cast (by omega : 1 * den ≤ num % den * 2)
    have hlt : ((num % den : Nat) : ℚ) / den < 1 := by
      rw [div_lt_one hpos]
      exact_mod_cast Nat.mod_lt num hden
    rw [heq, abs_le]
    push_cast
    constructor <;> linarith

theorem nearest_closest (num : Nat) {den : Nat} (hden : 0 < den) (z : Nat) :
    |(nearest num den : ℚ) - num / den| ≤ |(z : ℚ) - num / den| := by
  have herror := abs_nearest_sub_le num hden
  by_cases hz : z = nearest num den
  · rw [hz]
  · have hgap : (1 : ℚ) ≤ |(z : ℚ) - nearest num den| := by
      have : (1 : Int) ≤ |(z : Int) - nearest num den| := by
        have := abs_pos.2 (sub_ne_zero.2 (fun h => hz (by exact_mod_cast h)) : (z : Int) - nearest num den ≠ 0)
        omega
      exact_mod_cast this
    have := abs_sub_le (z : ℚ) (num / den) (nearest num den)
    rw [abs_sub_comm ((num : ℚ) / den)] at this
    linarith

/-! ## Rounding to the format -/

/-- The step of the numbers around `num / den` units. -/
def stepFor (num den : Nat) : Nat := (num / den).log2 - 52

/-- The bits below the sign of the number nearest to `num / den` units, were
there no largest number. -/
def rounded (num den : Nat) : Nat :=
  stepFor num den * binade + nearest num (den * 2 ^ stepFor num den)

theorem ofQuotient_eq (negative : Bool) (num den : Nat) :
    ofQuotient negative num den = ofMagnitude negative (min (rounded num den) infiniteMagnitude) := rfl

variable {num den : Nat}

theorem quotient_lt (hden : 0 < den) : num < 2 * binade * (den * 2 ^ stepFor num den) := by
  have hlog : num / den < 2 ^ ((num / den).log2 + 1) := Nat.lt_log2_self
  have hpow : 2 ^ ((num / den).log2 + 1) ≤ 2 * binade * 2 ^ stepFor num den := by
    rw [binade_eq, ← Nat.pow_succ', ← Nat.pow_add]
    exact Nat.pow_le_pow_right two_pos (by rw [stepFor]; omega)
  have hlt := (Nat.div_lt_iff_lt_mul hden).1 (Nat.lt_of_lt_of_le hlog hpow)
  rwa [Nat.mul_assoc, Nat.mul_comm _ den] at hlt

theorem le_quotient (hden : 0 < den) (hstep : stepFor num den ≠ 0) :
    binade * (den * 2 ^ stepFor num den) ≤ num := by
  have hlog : 52 + stepFor num den = (num / den).log2 := by rw [stepFor] at hstep ⊢; omega
  have hne : num / den ≠ 0 := by
    intro h
    rw [h, Nat.log2_zero] at hlog
    omega
  have hle : 2 ^ (52 + stepFor num den) ≤ num / den := hlog ▸ Nat.log2_self_le hne
  rw [Nat.pow_add, Nat.le_div_iff_mul_le hden] at hle
  rwa [binade_eq, Nat.mul_comm den, ← Nat.mul_assoc]

theorem unitsOf_rounded (hden : 0 < den) :
    unitsOf (rounded num den) = nearest num (den * 2 ^ stepFor num den) * 2 ^ stepFor num den := by
  have hpos : 0 < den * 2 ^ stepFor num den := Nat.mul_pos hden (Nat.two_pow_pos _)
  refine unitsOf_add ?_ (nearest_le hpos (quotient_lt hden))
  by_cases hstep : stepFor num den = 0
  · exact .inl hstep
  · exact .inr (le_nearest hpos (le_quotient hden hstep))

theorem abs_multiple_sub (num den step z : Nat) :
    |((z * 2 ^ step : Nat) : ℚ) - num / den| = |(z : ℚ) - num / (den * 2 ^ step : Nat)| * 2 ^ step := by
  have hpos : (0 : ℚ) < 2 ^ step := by positivity
  rw [← abs_of_pos hpos, ← abs_mul, sub_mul]
  push_cast
  rw [div_mul_eq_mul_div, mul_div_mul_right _ _ hpos.ne']

/-- No size is closer to `num / den` units than the rounded one. -/
theorem rounded_closest (hden : 0 < den) (k : Nat) :
    |(unitsOf (rounded num den) : ℚ) - num / den| ≤ |(unitsOf k : ℚ) - num / den| := by
  obtain ⟨e, m, -, hlow, hm, hk⟩ := exists_unitsOf k
  have hpos : 0 < den * 2 ^ stepFor num den := Nat.mul_pos hden (Nat.two_pow_pos _)
  -- among the multiples of the step the rounded size is the closest
  have hmultiple (z : Nat) : |(unitsOf (rounded num den) : ℚ) - num / den| ≤
      |((z * 2 ^ stepFor num den : Nat) : ℚ) - num / den| := by
    rw [unitsOf_rounded hden, abs_multiple_sub, abs_multiple_sub]
    exact mul_le_mul_of_nonneg_right (nearest_closest num hpos z) (by positivity)
  rcases Nat.lt_or_ge e (stepFor num den) with hstep | hstep
  · -- a size with a smaller step lies below a multiple of the step that is not above the quotient
    have hbelow : unitsOf k ≤ binade * 2 ^ stepFor num den := by
      have hle : m * 2 ^ e ≤ 2 * binade * 2 ^ e := Nat.mul_le_mul_right _ hm.le
      have hpow : 2 ^ (e + 1) ≤ 2 ^ stepFor num den := Nat.pow_le_pow_right two_pos hstep
      calc unitsOf k ≤ 2 * binade * 2 ^ e := hk ▸ hle
        _ = binade * 2 ^ (e + 1) := by rw [Nat.pow_succ']; ac_rfl
        _ ≤ binade * 2 ^ stepFor num den := Nat.mul_le_mul_left _ hpow
    have hquotient : ((binade * 2 ^ stepFor num den : Nat) : ℚ) ≤ num / den := by
      rw [le_div_iff₀ (by exact_mod_cast hden)]
      have hle := le_quotient hden (Nat.ne_of_gt (Nat.zero_lt_of_lt hstep))
      rw [Nat.mul_left_comm] at hle
      exact_mod_cast (Nat.mul_comm _ _).le.trans hle
    have hcast : (unitsOf k : ℚ) ≤ (binade * 2 ^ stepFor num den : Nat) := by exact_mod_cast hbelow
    refine (hmultiple binade).trans ?_
    rw [abs_of_nonpos (by linarith), abs_of_nonpos (by linarith)]
    linarith
  · have hsplit : unitsOf k = m * 2 ^ (e - stepFor num den) * 2 ^ stepFor num den := by
      rw [hk, Nat.mul_assoc, ← Nat.pow_add, Nat.sub_add_cancel hstep]
    rw [hsplit]
    exact hmultiple _

/-! ## Values -/

/-- A number with the sign of a numeral. -/
def withSign (negative : Bool) (v : ℚ) : ℚ := if negative then -v else v

/-- A number that is neither an infinity nor NaN. -/
def IsFinite (x : Binary64) : Prop := x.magnitude < infiniteMagnitude

/-- The exact value of a finite number. -/
def value (x : Binary64) : ℚ := x.units / one

/-- No finite number is closer to `v`. -/
def Nearest (v : ℚ) (x : Binary64) : Prop := ∀ y : Binary64, y.IsFinite → |x.value - v| ≤ |y.value - v|

theorem one_units_pos : 0 < one := by decide +kernel

theorem cast_one_pos : (0 : ℚ) < one := Nat.cast_pos.2 one_units_pos

theorem isFinite_iff {x : Binary64} : x.IsFinite ↔ x.isNaN = false ∧ x.isInfinite = false := by
  simp only [IsFinite, isNaN, isInfinite, decide_eq_false_iff_not, beq_eq_false_iff_ne]
  omega

theorem value_eq (x : Binary64) : x.value = withSign x.negative (x.size / one) := by
  rw [value, units, withSign]
  split
  · push_cast
    rw [neg_div]
  · rfl

theorem withSign_natCast (negative : Bool) (n : Nat) :
    withSign negative n = ((if negative then -(n : Int) else n : Int) : ℚ) := by
  rw [withSign]
  split <;> push_cast <;> rfl

theorem signed_natAbs (i : Int) : (if decide (i < 0) = true then -(i.natAbs : Int) else i.natAbs) = i := by
  simp only [decide_eq_true_eq]
  split <;> omega

/-- What is closest among the numbers from zero on is closest with a sign. -/
theorem abs_withSign_sub_le {u v w : ℚ} (hv : 0 ≤ v) (hw : 0 ≤ w) (hclose : |u - v| ≤ |w - v|)
    (hzero : |u - v| ≤ |0 - v|) (negative negative' : Bool) :
    |withSign negative u - withSign negative v| ≤ |withSign negative' w - withSign negative v| := by
  have hsame (b : Bool) (z : ℚ) : |withSign b z - withSign b v| = |z - v| := by
    cases b
    · rfl
    · rw [withSign, withSign, if_pos rfl, if_pos rfl, neg_sub_neg, abs_sub_comm]
  by_cases h : negative' = negative
  · rw [h, hsame, hsame]
    exact hclose
  · have hother : |withSign negative' w - withSign negative v| = w + v := by
      cases negative <;> cases negative' <;> simp [withSign] at h ⊢
      · rw [← abs_of_nonneg (add_nonneg hw hv), ← abs_neg]
        congr 1
        ring
      · exact add_nonneg hw hv
    rw [hsame, hother]
    rw [zero_sub, abs_neg, abs_of_nonneg hv] at hzero
    linarith

/-! ## Results of rounding -/

theorem magnitude_ofQuotient (negative : Bool) (num den : Nat) :
    (ofQuotient negative num den).magnitude = min (rounded num den) infiniteMagnitude :=
  magnitude_ofMagnitude negative (Nat.lt_of_le_of_lt (Nat.min_le_right _ _) infiniteMagnitude_lt)

theorem negative_ofQuotient (negative : Bool) (num den : Nat) : (ofQuotient negative num den).negative = negative :=
  negative_ofMagnitude negative (Nat.lt_of_le_of_lt (Nat.min_le_right _ _) infiniteMagnitude_lt)

theorem isNaN_ofQuotient (negative : Bool) (num den : Nat) : (ofQuotient negative num den).isNaN = false := by
  rw [isNaN, magnitude_ofQuotient, decide_eq_false_iff_not]
  omega

theorem isNaN_ofInt (i : Int) : (ofInt i).isNaN = false := isNaN_ofQuotient _ _ _

theorem isFinite_ofQuotient (negative : Bool) (hden : 0 < den) (h : stepFor num den < 2045) :
    (ofQuotient negative num den).IsFinite := by
  have hplace : nearest num (den * 2 ^ stepFor num den) ≤ 2 * binade :=
    nearest_le (Nat.mul_pos hden (Nat.two_pow_pos _)) (quotient_lt hden)
  have hrounded : rounded num den < infiniteMagnitude := by
    rw [rounded]
    rw [binade_eq] at hplace ⊢
    rw [infiniteMagnitude_eq]
    omega
  rw [IsFinite, magnitude_ofQuotient]
  omega

theorem size_ofQuotient {negative : Bool} (h : (ofQuotient negative num den).IsFinite) :
    (ofQuotient negative num den).size = unitsOf (rounded num den) := by
  rw [IsFinite, magnitude_ofQuotient] at h
  rw [size, magnitude_ofQuotient, Nat.min_eq_left (by omega)]

/-- A finite result of rounding is nearest to the exact value. -/
theorem nearest_ofQuotient {negative : Bool} (hden : 0 < den) (h : (ofQuotient negative num den).IsFinite) :
    Nearest (withSign negative (num / den / one)) (ofQuotient negative num den) := by
  intro y _
  have hclosest (k : Nat) : |(unitsOf (rounded num den) : ℚ) / one - num / den / one| ≤
      |(unitsOf k : ℚ) / one - num / den / one| := by
    rw [← sub_div, ← sub_div, abs_div, abs_div]
    exact div_le_div_of_nonneg_right (rounded_closest hden k) (abs_nonneg _)
  have hunits : unitsOf 0 = 0 := by decide
  have hzero : ((unitsOf 0 : Nat) : ℚ) / one = 0 := by rw [hunits, Nat.cast_zero, zero_div]
  rw [value_eq, value_eq, negative_ofQuotient, size_ofQuotient h]
  refine abs_withSign_sub_le (div_nonneg (div_nonneg num.cast_nonneg den.cast_nonneg) (Nat.cast_nonneg _))
    (div_nonneg (Nat.cast_nonneg _) (Nat.cast_nonneg _)) (hclosest y.magnitude) ?_ _ _
  rw [← hzero]
  exact hclosest 0

/-- Less than half a unit is rounded to zero. -/
theorem ofQuotient_eq_zero (negative : Bool) (h : 2 * num < den) : ofQuotient negative num den = zero negative := by
  have hdiv : num / den = 0 := Nat.div_eq_of_lt (by omega)
  have hmod : num % den = num := Nat.mod_eq_of_lt (by omega)
  have hrounded : rounded num den = 0 := by
    rw [rounded, stepFor, hdiv, Nat.log2_zero, Nat.zero_sub, Nat.zero_mul, Nat.zero_add, Nat.pow_zero, Nat.mul_one]
    rcases nearest_cases num den with ⟨heq, -⟩ | ⟨-, hle⟩ <;> omega
  rw [ofQuotient_eq, hrounded]
  rfl

/-! ## Rounding integers -/

theorem nearest_mul_right (num den : Nat) {c : Nat} (hc : 0 < c) : nearest (num * c) (den * c) = nearest num den := by
  have hmul (a b : Nat) : a * c < b * c ↔ a < b := Nat.mul_lt_mul_right hc
  have hinj (a b : Nat) : a * c = b * c ↔ a = b := ⟨Nat.eq_of_mul_eq_mul_right hc, congrArg (· * c)⟩
  simp only [nearest, Nat.mul_div_mul_right _ _ hc, Nat.mul_mod_mul_right, ← Nat.mul_assoc, hmul,
    Bool.beq_eq_decide_eq, hinj]

theorem nearest_mul_self (num : Nat) {den : Nat} (hden : 0 < den) : nearest (num * den) den = num := by
  rcases nearest_cases (num * den) den with ⟨heq, -⟩ | ⟨-, hrest⟩
  · rw [heq, Nat.mul_div_cancel _ hden]
  · rw [Nat.mul_mod_left] at hrest
    omega

/-- The natural number that a natural number is rounded to. -/
def roundedNat (n : Nat) : Nat := nearest n (2 ^ (n.log2 - 52)) * 2 ^ (n.log2 - 52)

theorem log2_mul_two_pow {n : Nat} (hn : n ≠ 0) (p : Nat) : (n * 2 ^ p).log2 = n.log2 + p := by
  have hpos := Nat.two_pow_pos p
  rw [Nat.log2_eq_iff (Nat.mul_ne_zero hn hpos.ne'), Nat.pow_add, Nat.add_right_comm, Nat.pow_add]
  exact ⟨Nat.mul_le_mul_right _ (Nat.log2_self_le hn), Nat.mul_lt_mul_of_pos_right Nat.lt_log2_self hpos⟩

theorem unitsOf_rounded_nat (n : Nat) : unitsOf (rounded (n * one) 1) = roundedNat n * one := by
  by_cases hn : n = 0
  · subst hn
    decide +kernel
  obtain ⟨p, hp, hone⟩ : ∃ p, p = 1074 ∧ one = 2 ^ p := ⟨1074, rfl, by decide +kernel⟩
  have hstep : stepFor (n * one) 1 = n.log2 + p - 52 := by rw [stepFor, Nat.div_one, hone, log2_mul_two_pow hn]
  rw [unitsOf_rounded Nat.one_pos, hstep, Nat.one_mul, hone, roundedNat]
  rcases Nat.lt_or_ge n.log2 52 with hsmall | hlarge
  · -- all bits of a small number are kept
    have hsplit : n * 2 ^ p = n * 2 ^ (52 - n.log2) * 2 ^ (n.log2 + p - 52) := by
      have hsum : 52 - n.log2 + (n.log2 + p - 52) = p := by omega
      rw [Nat.mul_assoc, ← Nat.pow_add, hsum]
    have hself := nearest_mul_self n Nat.one_pos
    rw [hsplit, nearest_mul_self _ (Nat.two_pow_pos _), Nat.sub_eq_zero_of_le hsmall.le, Nat.pow_zero]
    rw [Nat.mul_one] at hself ⊢
    rw [hself, hsplit]
  · have hsplit : n.log2 + p - 52 = n.log2 - 52 + p := by omega
    rw [hsplit, Nat.pow_add, nearest_mul_right _ _ (Nat.two_pow_pos p), Nat.mul_assoc]

theorem roundedNat_of_small {n : Nat} (hn : n ≤ 2 ^ 53) : roundedNat n = n := by
  rw [roundedNat]
  rcases Nat.lt_or_eq_of_le hn with hlt | rfl
  · have hstep : n.log2 - 52 = 0 := by
      by_cases hzero : n = 0
      · rw [hzero, Nat.log2_zero]
      · have hlog := (Nat.log2_lt hzero).2 hlt
        omega
    have hself := nearest_mul_self n Nat.one_pos
    rw [Nat.mul_one] at hself
    rw [hstep, Nat.pow_zero, Nat.mul_one, hself]
  · rfl

/-- The integers of 64 bits, with or without a sign, are in the finite range. -/
theorem isFinite_ofQuotient_one (negative : Bool) {n : Nat} (hn : n < 2 ^ 64) :
    (ofQuotient negative (n * one) 1).IsFinite := by
  obtain ⟨p, hp, hone⟩ : ∃ p, p = 1074 ∧ one = 2 ^ p := ⟨1074, rfl, by decide +kernel⟩
  refine isFinite_ofQuotient _ Nat.one_pos ?_
  rw [stepFor, Nat.div_one]
  by_cases hzero : n = 0
  · rw [hzero, Nat.zero_mul, Nat.log2_zero]
    omega
  · have hlog : n.log2 < 64 := (Nat.log2_lt hzero).2 hn
    rw [hone, log2_mul_two_pow hzero]
    omega

/-! ## Cutting off a fraction -/

/-- Rounding keeps the sizes of the format. -/
theorem rounded_unitsOf (k : Nat) : rounded (unitsOf k) 1 = k := by
  obtain ⟨e, m, hk, hlow, hm, hunits⟩ := exists_unitsOf k
  rw [binade_eq] at hlow hm
  have hstep : stepFor (unitsOf k) 1 = e := by
    rw [stepFor, Nat.div_one, hunits]
    by_cases hzero : m = 0
    · rw [hzero, Nat.zero_mul, Nat.log2_zero]
      omega
    · have hhigh : m.log2 < 53 := (Nat.log2_lt hzero).2 (by omega)
      have hplace : e = 0 ∨ 52 ≤ m.log2 := hlow.imp_right (Nat.le_log2 hzero).2
      rw [log2_mul_two_pow hzero]
      omega
  rw [rounded, hstep, Nat.one_mul, hunits, nearest_mul_self _ (Nat.two_pow_pos e), ← hk]

variable {x : Binary64}

theorem trunc_of_isFinite (h : x.IsFinite) : x.trunc = ofQuotient x.negative (x.size / one * one) 1 := by
  obtain ⟨hnan, hinfinite⟩ := isFinite_iff.1 h
  rw [trunc, hnan, hinfinite]
  rfl

/-- What stands before the point of a number is a size of the format. -/
theorem size_trunc (h : x.IsFinite) : x.trunc.IsFinite ∧ x.trunc.size = x.size / one * one := by
  rw [trunc_of_isFinite h]
  obtain ⟨p, hp, hone⟩ : ∃ p, p = 1074 ∧ one = 2 ^ p := ⟨1074, rfl, by decide +kernel⟩
  obtain ⟨e, m, -, -, hm, hsize⟩ := exists_unitsOf x.magnitude
  rw [← size] at hsize
  rcases Nat.lt_or_ge e p with hstep | hstep
  · -- the point lies within the 53 bits, and fewer stand before it
    have hsmall : x.size / one < 2 ^ 53 := by
      rw [hone, Nat.div_lt_iff_lt_mul (Nat.two_pow_pos p), hsize]
      calc m * 2 ^ e ≤ m * 2 ^ p := Nat.mul_le_mul_left m (Nat.pow_le_pow_right two_pos hstep.le)
        _ < 2 ^ 53 * 2 ^ p := Nat.mul_lt_mul_of_pos_right hm (Nat.two_pow_pos p)
    have hfinite := isFinite_ofQuotient_one x.negative (Nat.lt_trans hsmall (by decide))
    refine ⟨hfinite, ?_⟩
    rw [size_ofQuotient hfinite, unitsOf_rounded_nat, roundedNat_of_small hsmall.le]
  · -- the step is a whole number, so nothing is cut off
    have hwhole : x.size / one * one = x.size := by
      refine Nat.div_mul_cancel ⟨m * 2 ^ (e - p), ?_⟩
      rw [hsize, hone, Nat.mul_left_comm, ← Nat.pow_add, Nat.add_sub_cancel' hstep]
    have hmagnitude : (ofQuotient x.negative x.size 1).magnitude = x.magnitude := by
      rw [magnitude_ofQuotient, size, rounded_unitsOf, Nat.min_eq_left (Nat.le_of_lt h)]
    rw [hwhole]
    exact ⟨hmagnitude.trans_lt h, congrArg unitsOf hmagnitude⟩

theorem units_trunc (h : x.IsFinite) : x.trunc.units = x.units.tdiv one * one := by
  have hnegative : x.trunc.negative = x.negative := by rw [trunc_of_isFinite h, negative_ofQuotient]
  rw [units, units, hnegative, (size_trunc h).2]
  split
  · rw [Int.neg_tdiv, Int.neg_mul, Nat.cast_mul, Int.ofNat_tdiv]
  · rw [Nat.cast_mul, Int.ofNat_tdiv]

/-- A finite number without a fraction is a whole number of ones. -/
theorem eq_trunc_iff (h : x.IsFinite) : x.eq x.trunc = true ↔ (one : Int) ∣ x.units := by
  have hnan := (isFinite_iff.1 h).1
  have hnan' := (isFinite_iff.1 (size_trunc h).1).1
  simp only [eq, hnan, hnan', units_trunc h, Bool.not_false, Bool.true_and, beq_iff_eq]
  exact ⟨fun heq => heq ▸ Int.dvd_mul_left _ _, fun hdvd => (Int.tdiv_mul_cancel hdvd).symm⟩

/-! ## Narrowing to integers -/

/-- An integer within 64 bits is kept, and no other is. -/
theorem narrow_eq_some {i : Int} {j : Int64} :
    (if Int64.minValue.toInt ≤ i && i ≤ Int64.maxValue.toInt then some (Int64.ofInt i) else none) = some j ↔
      i = j.toInt := by
  constructor
  · intro h
    split at h
    · next hrange =>
      simp only [Bool.and_eq_true, decide_eq_true_eq] at hrange
      obtain rfl := Option.some.inj h
      exact (Int64.toInt_ofInt_of_le hrange.1 (Int.lt_add_one_of_le hrange.2)).symm
    · cases h
  · rintro rfl
    have hrange : (Int64.minValue.toInt ≤ j.toInt && j.toInt ≤ Int64.maxValue.toInt) = true := by
      simpa using ⟨j.minValue_le_toInt, j.toInt_le⟩
    rw [if_pos hrange, Int64.ofInt_toInt]

theorem value_eq_int_iff {i : Int} : x.value = i ↔ x.units = i * one := by
  rw [value, div_eq_iff cast_one_pos.ne']
  exact_mod_cast Iff.rfl

theorem units_leastInt64 : leastInt64.units = -2 ^ 63 * one := by decide +kernel

/-- The upper bound is not in the format, and is rounded up. -/
theorem units_greatestInt64 : greatestInt64.units = 2 ^ 63 * one := by decide +kernel

theorem lt_eq_decide {y : Binary64} (hx : x.isNaN = false) (hy : y.isNaN = false) :
    x.lt y = decide (x.units < y.units) := by
  rw [lt, hx, hy]
  rfl

theorem le_eq_decide {y : Binary64} (hx : x.isNaN = false) (hy : y.isNaN = false) :
    x.le y = decide (x.units ≤ y.units) := by
  rw [le, lt_eq_decide hx hy, eq, hx, hy, Bool.eq_iff_iff]
  simp [le_iff_lt_or_eq]

/-- What the comparisons with the rounded bounds come to. -/
theorem exactInt?_eq_some_iff {i : Int64} (hnan : x.isNaN = false) :
    x.exactInt? = some i ↔
      x.eq x.trunc = true ∧ (-2 ^ 63 * one ≤ x.units ∧ x.units < 2 ^ 63 * one) ∧ x.toInt64 = i := by
  have hlow := lt_eq_decide hnan (isNaN_ofInt Int64.minValue.toInt)
  have hhigh := le_eq_decide (isNaN_ofInt Int64.maxValue.toInt) hnan
  rw [← leastInt64, units_leastInt64] at hlow
  rw [← greatestInt64, units_greatestInt64] at hhigh
  rw [exactInt?, hlow, hhigh, Option.ite_none_left_eq_some, Option.some.injEq]
  simp only [Bool.or_eq_true, Bool.not_eq_true', decide_eq_true_eq, not_or, Bool.not_eq_false, not_lt, not_le,
    and_assoc]

/-- The infinities lie beyond the bounds. -/
theorem isFinite_of_units (hnan : x.isNaN = false) (hlow : -2 ^ 63 * one ≤ x.units) (hhigh : x.units < 2 ^ 63 * one) :
    x.IsFinite := by
  refine isFinite_iff.2 ⟨hnan, Bool.eq_false_iff.2 fun hinfinite => ?_⟩
  have hsize : x.size = unitsOf infiniteMagnitude := by rw [size, beq_iff_eq.1 hinfinite]
  have hbeyond : (2 ^ 63 * one : Int) < unitsOf infiniteMagnitude := by decide +kernel
  rw [units, hsize] at hlow hhigh
  cases hsign : x.negative with
  | true =>
    rw [hsign, if_pos rfl] at hlow
    omega
  | false =>
    rw [hsign, if_neg Bool.false_ne_true] at hhigh
    omega

/-- The exact integer of a number is its value, if that is an integer of 64
bits. -/
theorem exactInt?_eq_some {i : Int64} : x.exactInt? = some i ↔ x.IsFinite ∧ x.value = (i.toInt : ℚ) := by
  have hone : (0 : Int) < one := Int.natCast_pos.2 one_units_pos
  have hrange (j : Int) : (-2 ^ 63 * one ≤ j * one ∧ j * one < 2 ^ 63 * one) ↔ -2 ^ 63 ≤ j ∧ j < 2 ^ 63 := by
    rw [Int.mul_le_mul_right hone, Int.mul_lt_mul_right hone]
  rw [value_eq_int_iff]
  constructor
  · intro hsome
    have hnan : x.isNaN = false := by
      refine Bool.eq_false_iff.2 fun hnan => ?_
      simp [exactInt?, eq, hnan] at hsome
    obtain ⟨hwhole, hbounds, rfl⟩ := (exactInt?_eq_some_iff hnan).1 hsome
    have hfinite := isFinite_of_units hnan hbounds.1 hbounds.2
    obtain ⟨j, hj⟩ := (eq_trunc_iff hfinite).1 hwhole
    rw [Int.mul_comm] at hj
    rw [hj, hrange] at hbounds
    rw [toInt64, hj, Int.mul_tdiv_cancel _ hone.ne', Int64.toInt_ofInt_of_le hbounds.1 hbounds.2]
    exact ⟨hfinite, rfl⟩
  · rintro ⟨hfinite, hunits⟩
    refine (exactInt?_eq_some_iff (isFinite_iff.1 hfinite).1).2 ⟨(eq_trunc_iff hfinite).2 ?_, ?_, ?_⟩
    · exact hunits ▸ Int.dvd_mul_left _ _
    · rw [hunits, hrange]
      exact ⟨i.minValue_le_toInt, i.toInt_lt⟩
    · rw [toInt64, hunits, Int.mul_tdiv_cancel _ hone.ne', Int64.ofInt_toInt]

end BisayaPlus.Binary64
