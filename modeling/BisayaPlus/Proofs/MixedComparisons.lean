import BisayaPlus.Proofs.Comparisons
/-!
# Comparing an integer with a real

An integer is converted to a real before it is compared with one, and a large
one is rounded on the way. Rounding keeps the order of numbers, so the answer is
that of the exact values as long as the real is not the very number that the
integer is rounded to. There the two count as equal, also if they differ, and so
equality may lead from an integer over a real to another integer.
-/

set_option autoImplicit false

namespace BisayaPlus

namespace Binary64

/-! ## Rounding an integer -/

theorem isFinite_ofInt (i : Int64) : (ofInt i.toInt).IsFinite := by
  have hlow := i.minValue_le_toInt
  have hhigh := i.toInt_le
  have hmin : Int64.minValue.toInt = -2 ^ 63 := rfl
  have hmax : Int64.maxValue.toInt = 2 ^ 63 - 1 := rfl
  exact isFinite_ofQuotient_one _ (by omega)

/-- An integer of 64 bits is converted to a number that is nearest to it. -/
theorem nearest_ofInt (i : Int64) : Nearest i.toInt (ofInt i.toInt) := by
  have hvalue : withSign (decide (i.toInt < 0)) (((i.toInt.natAbs * one : Nat) : ℚ) / (1 : Nat) / one) = i.toInt := by
    rw [Nat.cast_one, div_one, Nat.cast_mul, mul_div_cancel_right₀ _ cast_one_pos.ne', withSign_natCast,
      signed_natAbs]
  rw [← hvalue]
  exact nearest_ofQuotient Nat.one_pos (isFinite_ofInt i)

section Nearest

variable {v : ℚ} {x y : Binary64}

/-- A number that is itself a value of the format is kept. -/
theorem Nearest.eq_of_value (h : Nearest v x) (hy : y.IsFinite) (hv : y.value = v) : x.value = v := by
  have hclose := h y hy
  rw [hv, sub_self, abs_zero] at hclose
  exact sub_eq_zero.1 (abs_nonpos_iff.1 hclose)

/-- What is nearest to a smaller number is not beyond a larger value. -/
theorem Nearest.le_of_lt (h : Nearest v x) (hy : y.IsFinite) (hlt : v < y.value) : x.value ≤ y.value := by
  by_contra hbeyond
  have hclose := h y hy
  rw [abs_of_pos (by linarith), abs_of_pos (by linarith)] at hclose
  linarith

theorem Nearest.ge_of_gt (h : Nearest v x) (hy : y.IsFinite) (hgt : y.value < v) : y.value ≤ x.value := by
  by_contra hbeyond
  have hclose := h y hy
  rw [abs_of_neg (by linarith), abs_of_neg (by linarith)] at hclose
  linarith

/-- Unless a value is the one that a number is rounded to, it lies on the same
side of both. -/
theorem Nearest.compare_eq (h : Nearest v x) (hy : y.IsFinite) (hxy : x.value = v ∨ y.value ≠ x.value) :
    Ord.compare x.value y.value = Ord.compare v y.value := by
  rcases hxy with hx | hne
  · rw [hx]
  · rcases lt_trichotomy v y.value with hlt | heq | hgt
    · rw [compare_lt_iff_lt.2 hlt, compare_lt_iff_lt.2 (lt_of_le_of_ne (h.le_of_lt hy hlt) hne.symm)]
    · exact absurd (heq.symm.trans (h.eq_of_value hy heq.symm).symm) hne
    · rw [compare_gt_iff_gt.2 hgt, compare_gt_iff_gt.2 (lt_of_le_of_ne (h.ge_of_gt hy hgt) hne)]

end Nearest

/-- Integers of up to 53 bits are kept. -/
theorem value_ofInt_of_small {i : Int64} (hi : i.toInt.natAbs ≤ 2 ^ 53) : (ofInt i.toInt).value = i.toInt := by
  have hsize := size_ofQuotient (isFinite_ofInt i)
  rw [unitsOf_rounded_nat, roundedNat_of_small hi, ← ofInt] at hsize
  rw [value_eq, hsize, Nat.cast_mul, mul_div_cancel_right₀ _ cast_one_pos.ne', ofInt, negative_ofQuotient,
    withSign_natCast, signed_natAbs]

/-! ## Order of values -/

theorem compare_value (x y : Binary64) : Ord.compare x.value y.value = Ord.compare x.units y.units := by
  have hlt (a b : Int) : (a : ℚ) / one < b / one ↔ a < b := by
    rw [div_lt_div_iff_of_pos_right cast_one_pos, Int.cast_lt]
  rcases lt_trichotomy x.units y.units with h | h | h
  · rw [compare_lt_iff_lt.2 h, compare_lt_iff_lt]
    exact (hlt _ _).2 h
  · rw [compare_eq_iff_eq.2 h, compare_eq_iff_eq, value, value, h]
  · rw [compare_gt_iff_gt.2 h, compare_gt_iff_gt]
    exact (hlt _ _).2 h

theorem eq_iff {x y : Binary64} :
    x.eq y = true ↔ x.isNaN = false ∧ y.isNaN = false ∧ x.value = y.value := by
  have hvalue : x.value = y.value ↔ x.units = y.units := by
    rw [← compare_eq_iff_eq, compare_value, compare_eq_iff_eq]
  simp [eq, hvalue, and_assoc]

end Binary64

namespace Operation

/-! ## The operators -/

/-- The operators that compare. -/
def comparisons : List Kind := [.less, .lessEqual, .greater, .greaterEqual] ++ [.equalEqual, .notEqual]

/-- Whether a sign of comparison tells the truth about two numbers. -/
def relates (kind : Kind) (a b : ℚ) : Bool :=
  match kind with
  | .less => a < b
  | .lessEqual => a ≤ b
  | .greater => b < a
  | .greaterEqual => b ≤ a
  | .equalEqual => a = b
  | _ => a ≠ b

/-- The truth of a comparison depends on the order of the two numbers only. -/
theorem relates_congr (kind : Kind) {a b c d : ℚ} (h : Ord.compare a b = Ord.compare c d) :
    relates kind a b = relates kind c d := by
  have hlt : a < b ↔ c < d := by rw [← compare_lt_iff_lt, h, compare_lt_iff_lt]
  have hgt : b < a ↔ d < c := by rw [← compare_gt_iff_gt, h, compare_gt_iff_gt]
  have heq : a = b ↔ c = d := by rw [← compare_eq_iff_eq, h, compare_eq_iff_eq]
  have hle : a ≤ b ↔ c ≤ d := by rw [← not_lt, hgt, not_lt]
  have hge : b ≤ a ↔ d ≤ c := by rw [← not_lt, hlt, not_lt]
  cases kind <;> simp only [relates, hlt, hgt, heq, hle, hge, ne_eq]

/-- Two reals are compared by their exact values. -/
theorem binary_reals {operator : Token} {a b : Value} {l r : Binary64} (hpair : numbers? a b = some (.reals l r))
    (hl : l.isNaN = false) (hr : r.isNaN = false) (hkind : operator.kind ∈ comparisons) :
    binary operator a b = .ok (.tinuod (relates operator.kind l.value r.value)) := by
  have hequal : isEqual a b = decide (l.value = r.value) := by
    rw [isEqual, hpair, Bool.eq_iff_iff]
    simp [Binary64.eq_iff, hl, hr]
  rcases List.mem_append.1 hkind with horder | hequality
  · rw [binary_order hpair horder, order_reals hl hr, ← Binary64.compare_value]
    simp only [List.mem_cons, List.not_mem_nil, or_false] at horder
    rcases lt_trichotomy l.value r.value with h | h | h
    · rw [compare_lt_iff_lt.2 h]
      rcases horder with hk | hk | hk | hk <;> simp [hk, satisfies, relates, h, h.le, h.not_gt, h.not_ge]
    · rw [compare_eq_iff_eq.2 h]
      rcases horder with hk | hk | hk | hk <;> simp [hk, satisfies, relates, h]
    · rw [compare_gt_iff_gt.2 h]
      rcases horder with hk | hk | hk | hk <;> simp [hk, satisfies, relates, h, h.le, h.not_gt, h.not_ge]
  · simp only [List.mem_cons, List.not_mem_nil, or_false] at hequality
    rcases hequality with hk | hk
    · rw [binary_equal hk, hequal, hk, relates]
    · rw [binary_notEqual hk, hequal, hk]
      simp [relates]

/-! ## Equality -/

theorem holds_equal {operator : Token} (hkind : operator.kind = .equalEqual) (a b : Value) :
    Holds operator a b ↔ isEqual a b = true := by
  simp [Holds, binary_equal hkind]

theorem eq_trans_real {x y z : Binary64} (h : x.eq y = true) (h' : y.eq z = true) : x.eq z = true := by
  rw [Binary64.eq_iff] at h h' ⊢
  exact ⟨h.1, h'.2.1, h.2.2.trans h'.2.2⟩

theorem isEqual_integers {i j : Int64} : isEqual (.numero i) (.numero j) = true ↔ i = j := by
  simp [isEqual, numbers?]

/-- Two numbers that are both equal to a third are equal, unless they are two
integers that are rounded to one real. -/
theorem isEqual_trans {a b c : Value} (ha : a.IsNumber) (hb : b.IsNumber) (hc : c.IsNumber)
    (hab : isEqual a b = true) (hbc : isEqual b c = true) :
    isEqual a c = true ∨ ∃ i j x, a = .numero i ∧ b = .tipik x ∧ c = .numero j ∧ i ≠ j ∧
      (Binary64.ofInt i.toInt).value = x.value ∧ (Binary64.ofInt j.toInt).value = x.value := by
  cases hb with
  | numero j =>
    -- an integer in the middle is the end that is an integer too, or is rounded like it
    cases ha with
    | numero i =>
      obtain rfl := isEqual_integers.1 hab
      exact .inl hbc
    | tipik x =>
      cases hc with
      | numero k =>
        obtain rfl := isEqual_integers.1 hbc
        exact .inl hab
      | tipik z => exact .inl (eq_trans_real hab hbc)
  | tipik y =>
    cases ha with
    | tipik x => cases hc <;> exact .inl (eq_trans_real hab hbc)
    | numero i =>
      cases hc with
      | tipik z => exact .inl (eq_trans_real hab hbc)
      | numero k =>
        by_cases hik : i = k
        · exact .inl (isEqual_integers.2 hik)
        · obtain ⟨-, -, hleft⟩ := Binary64.eq_iff.1 hab
          obtain ⟨-, -, hright⟩ := Binary64.eq_iff.1 hbc
          exact .inr ⟨i, k, y, rfl, rfl, rfl, hik, hleft, hright.symm⟩

/-- An integer and a finite real are compared, in either order, as the real that
the integer is rounded to and the other one, by their exact values. The rounded
value is nearest to the integer, and it is the integer itself up to 53 bits.
Unless the other real is that value and the integer is not, the answer is that
of the exact values of the two. Equality leads from one number over another to a
third, unless it leads from an integer over a real to another integer that is
rounded to it too. -/
theorem mixed_comparison_rounds (sign : Kind → Token) (hsign : ∀ kind, (sign kind).kind = kind) :
    (∀ (i : Int64) (f : Binary64), f.IsFinite →
      let rounded := Binary64.ofInt i.toInt
      rounded.IsFinite ∧ Binary64.Nearest i.toInt rounded ∧
      (i.toInt.natAbs ≤ 2 ^ 53 → rounded.value = i.toInt) ∧
      ∀ kind ∈ comparisons,
        binary (sign kind) (.numero i) (.tipik f) = .ok (.tinuod (relates kind rounded.value f.value)) ∧
        binary (sign kind) (.tipik f) (.numero i) = .ok (.tinuod (relates kind f.value rounded.value)) ∧
        (rounded.value = i.toInt ∨ f.value ≠ rounded.value →
          binary (sign kind) (.numero i) (.tipik f) = .ok (.tinuod (relates kind i.toInt f.value)) ∧
          binary (sign kind) (.tipik f) (.numero i) = .ok (.tinuod (relates kind f.value i.toInt)))) ∧
    ∀ a b c : Value, a.IsNumber → b.IsNumber → c.IsNumber →
      Holds (sign .equalEqual) a b → Holds (sign .equalEqual) b c →
      Holds (sign .equalEqual) a c ∨ ∃ i j x, a = .numero i ∧ b = .tipik x ∧ c = .numero j ∧ i ≠ j ∧
        (Binary64.ofInt i.toInt).value = x.value ∧ (Binary64.ofInt j.toInt).value = x.value := by
  refine ⟨fun i f hf => ?_, fun a b c ha hb hc hab hbc => ?_⟩
  · intro rounded
    have hnearest : Binary64.Nearest i.toInt rounded := Binary64.nearest_ofInt i
    have hnan : f.isNaN = false := (Binary64.isFinite_iff.1 hf).1
    refine ⟨Binary64.isFinite_ofInt i, hnearest, Binary64.value_ofInt_of_small, fun kind hkind => ?_⟩
    rw [← hsign kind] at hkind
    have hleft := binary_reals (a := .numero i) (b := .tipik f) rfl (Binary64.isNaN_ofInt _) hnan hkind
    have hright := binary_reals (a := .tipik f) (b := .numero i) rfl hnan (Binary64.isNaN_ofInt _) hkind
    rw [hsign] at hleft hright
    refine ⟨hleft, hright, fun hapart => ?_⟩
    have horder := hnearest.compare_eq hf hapart
    have hswap (a b : ℚ) : Ord.compare a b = (Ord.compare b a).swap := Std.OrientedCmp.eq_swap
    have hother : Ord.compare f.value rounded.value = Ord.compare f.value (i.toInt : ℚ) := by
      rw [hswap, horder, ← hswap]
    exact ⟨hleft.trans (by rw [relates_congr kind horder]), hright.trans (by rw [relates_congr kind hother])⟩
  · rw [holds_equal (hsign _)] at hab hbc ⊢
    exact isEqual_trans ha hb hc hab hbc

/-- An integer of 63 bits that is rounded, and the real one: the smaller is told
from the larger. Equality leads from a real over an integer to a real. -/
theorem mixed_comparison_rounds_apart :
    let sign (kind : Kind) : Token := { kind := kind, lexeme := [], line := 1 }
    let large : Int64 := 2 ^ 62 + 1
    let small := Binary64.ofInt 1
    (∀ kind, (sign kind).kind = kind) ∧ small.IsFinite ∧ small.value ≠ (Binary64.ofInt large.toInt).value ∧
      binary (sign .less) (.tipik small) (.numero large) = .ok (.tinuod (relates .less small.value large.toInt)) ∧
      Holds (sign .equalEqual) (.tipik small) (.numero 1) ∧ Holds (sign .equalEqual) (.tipik small) (.tipik small) := by
  intro sign large small
  have hsmall : small.IsFinite := Binary64.isFinite_ofInt 1
  have hapart : small.value ≠ (Binary64.ofInt large.toInt).value := by
    rw [Ne, ← compare_eq_iff_eq, Binary64.compare_value]
    decide +kernel
  have hequal : Holds (sign .equalEqual) (.tipik small) (.numero 1) := by decide +kernel
  have hequal' : Holds (sign .equalEqual) (.numero 1) (.tipik small) := by decide +kernel
  obtain ⟨hcompares, htrans⟩ := mixed_comparison_rounds sign fun _ => rfl
  obtain ⟨-, -, -, hkinds⟩ := hcompares large small hsmall
  obtain ⟨-, -, hexact⟩ := hkinds .less (by decide)
  refine ⟨fun _ => rfl, hsmall, hapart, (hexact (.inr hapart)).2, hequal, ?_⟩
  rcases htrans _ _ _ (.tipik _) (.numero _) (.tipik _) hequal hequal' with h | ⟨i, j, x, h, -⟩
  · exact h
  · cases h

/-- An integer of 54 bits is equal to the even integer next to it, written as a
real, and equality then fails to lead on from the one integer to the other. -/
theorem mixed_comparison_inexact :
    let sign (kind : Kind) : Token := { kind := kind, lexeme := [], line := 1 }
    let even : Int64 := 2 ^ 53
    let odd : Int64 := 2 ^ 53 + 1
    let real := Binary64.ofInt even.toInt
    real.IsFinite ∧ real.value ≠ odd.toInt ∧
      Holds (sign .equalEqual) (.numero odd) (.tipik real) ∧ relates .equalEqual odd.toInt real.value = false ∧
      Holds (sign .equalEqual) (.numero even) (.tipik real) ∧ Holds (sign .equalEqual) (.tipik real) (.numero odd) ∧
      ¬ Holds (sign .equalEqual) (.numero even) (.numero odd) := by
  intro sign even odd real
  have hvalue : real.value = 2 ^ 53 := by
    have hsmall : real.value = even.toInt := Binary64.value_ofInt_of_small (by decide)
    have heven : even.toInt = 2 ^ 53 := rfl
    rw [hsmall, heven]
    norm_num
  have hodd : odd.toInt = 2 ^ 53 + 1 := rfl
  have hne : real.value ≠ odd.toInt := by
    rw [hvalue, hodd]
    norm_num
  refine ⟨Binary64.isFinite_ofInt even, hne, by decide +kernel, decide_eq_false hne.symm, by decide +kernel,
    by decide +kernel, by decide +kernel⟩

end Operation

end BisayaPlus
