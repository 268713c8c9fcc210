import BisayaPlus.Operation
import BisayaPlus.Value.Conversion
import BisayaPlus.Proofs.Rounding
/-!
# Comparison operators

The operators of order ask for the place of one number before, with or after
another, and the operators of equality ask for equality. The two questions have
answers that fit, except for NaN: it is equal to nothing, but neither before nor
after anything, and so it is with everything. `comparisons_agree` says which laws
of the operators hold for all numbers, and that the other two hold exactly
without NaN.
-/

set_option autoImplicit false

namespace BisayaPlus

/-- A value is NaN. -/
def Value.isNaN : Value → Bool
  | .tipik x => x.isNaN
  | _ => false

/-- A value is a number, an integer or a real. -/
inductive Value.IsNumber : Value → Prop where
  | numero (i : Int64) : IsNumber (.numero i)
  | tipik (x : Binary64) : IsNumber (.tipik x)

namespace Operation

/-- A comparison holds: its operator gives OO. -/
def Holds (operator : Token) (left right : Value) : Prop := binary operator left right = .ok (.tinuod true)

instance (operator : Token) (left right : Value) : Decidable (Holds operator left right) :=
  inferInstanceAs (Decidable (_ = _))

/-! ## Two numbers of one kind -/

namespace Numbers

/-- The numbers in the other order. -/
def swap : Numbers → Numbers
  | integers l r => integers r l
  | reals l r => reals r l

/-- The numbers are equal. -/
def areEqual : Numbers → Bool
  | integers l r => l == r
  | reals l r => l.eq r

/-- One of the numbers is NaN. -/
def hasNaN : Numbers → Bool
  | integers _ _ => false
  | reals l r => l.isNaN || r.isNaN

end Numbers

theorem threeWay_eq (a b : Int) :
    (if a < b then Ordering.lt else if b < a then .gt else .eq) = Ord.compare a b := by
  rcases lt_trichotomy a b with h | h | h
  · rw [if_pos h, compare_lt_iff_lt.2 h]
  · rw [if_neg h.not_lt, if_neg h.not_gt, compare_eq_iff_eq.2 h]
  · rw [if_neg h.not_gt, if_pos h, compare_gt_iff_gt.2 h]

theorem order_integers (l r : Int64) : order (.integers l r) = Ord.compare l.toInt r.toInt := by
  simp only [order, Int64.lt_iff_toInt_lt]
  exact threeWay_eq l.toInt r.toInt

theorem order_reals {l r : Binary64} (hl : l.isNaN = false) (hr : r.isNaN = false) :
    order (.reals l r) = Ord.compare l.units r.units := by
  simp only [order, Binary64.lt, hl, hr, Bool.not_false, Bool.true_and, decide_eq_true_eq]
  exact threeWay_eq l.units r.units

/-- NaN is neither before nor after anything. -/
theorem order_of_hasNaN {pair : Numbers} (h : pair.hasNaN = true) : order pair = .eq := by
  cases pair with
  | integers l r => cases h
  | reals l r =>
    have hnan : l.isNaN = true ∨ r.isNaN = true := by simpa [Numbers.hasNaN] using h
    rcases hnan with h | h <;> simp [order, Binary64.lt, h]

/-- The other order is the opposite one, with NaN too. -/
theorem order_swap (pair : Numbers) : order pair.swap = (order pair).swap := by
  by_cases h : pair.hasNaN = true
  · have hswap : pair.swap.hasNaN = true := by cases pair <;> simp_all [Numbers.swap, Numbers.hasNaN, or_comm]
    rw [order_of_hasNaN h, order_of_hasNaN hswap]
    rfl
  · cases pair with
    | integers l r =>
      rw [Numbers.swap, order_integers, order_integers]
      exact Std.OrientedCmp.eq_swap
    | reals l r =>
      obtain ⟨hl, hr⟩ : l.isNaN = false ∧ r.isNaN = false := by simpa [Numbers.hasNaN] using h
      rw [Numbers.swap, order_reals hl hr, order_reals hr hl]
      exact Std.OrientedCmp.eq_swap

/-- The order puts two numbers in one place if they are equal, and also if one
of them is NaN, which is equal to nothing. -/
theorem areEqual_iff (pair : Numbers) : pair.areEqual = true ↔ order pair = .eq ∧ pair.hasNaN = false := by
  cases pair with
  | integers l r => simp [Numbers.areEqual, Numbers.hasNaN, order_integers, Int64.toInt_inj]
  | reals l r =>
    cases hnan : Numbers.hasNaN (.reals l r) with
    | true =>
      have h : l.isNaN = true ∨ r.isNaN = true := by simpa [Numbers.hasNaN] using hnan
      rcases h with h | h <;> simp [Numbers.areEqual, Binary64.eq, h]
    | false =>
      obtain ⟨hl, hr⟩ : l.isNaN = false ∧ r.isNaN = false := by simpa [Numbers.hasNaN] using hnan
      simp [Numbers.areEqual, Binary64.eq, order_reals hl hr, hl, hr]

/-! ## Two values -/

variable {a b : Value}

/-- Two values that are numbers are compared as two numbers of one kind. -/
theorem exists_numbers (ha : a.IsNumber) (hb : b.IsNumber) :
    ∃ pair, numbers? a b = some pair ∧ numbers? b a = some pair.swap ∧ isEqual a b = pair.areEqual ∧
      pair.hasNaN = (a.isNaN || b.isNaN) := by
  cases ha with
  | numero i =>
    cases hb with
    | numero j =>
      refine ⟨_, rfl, rfl, ?_, rfl⟩
      simp only [isEqual, numbers?, Numbers.areEqual]
      rw [Bool.eq_iff_iff]
      simp
    | tipik y =>
      refine ⟨_, rfl, rfl, rfl, ?_⟩
      simp [Numbers.hasNaN, Value.isNaN, Binary64.isNaN_ofInt]
  | tipik x =>
    cases hb with
    | numero j =>
      refine ⟨_, rfl, rfl, rfl, ?_⟩
      simp [Numbers.hasNaN, Value.isNaN, Binary64.isNaN_ofInt]
    | tipik y => exact ⟨_, rfl, rfl, rfl, rfl⟩

/-- What an operator of order gives for two numbers. -/
theorem binary_order {operator : Token} {pair : Numbers} (hpair : numbers? a b = some pair)
    (hkind : operator.kind ∈ [Kind.less, .lessEqual, .greater, .greaterEqual]) :
    binary operator a b = .ok (.tinuod (satisfies operator.kind (order pair))) := by
  have hbinary : binary operator a b = compare operator a b := by
    simp only [List.mem_cons, List.not_mem_nil, or_false] at hkind
    rcases hkind with h | h | h | h <;> simp only [binary, h]
  rw [hbinary, compare, hpair]

theorem holds_order {operator : Token} {pair : Numbers} (hpair : numbers? a b = some pair)
    (hkind : operator.kind ∈ [Kind.less, .lessEqual, .greater, .greaterEqual]) :
    Holds operator a b ↔ satisfies operator.kind (order pair) = true := by
  simp [Holds, binary_order hpair hkind]

theorem binary_equal {operator : Token} (hkind : operator.kind = .equalEqual) (a b : Value) :
    binary operator a b = .ok (.tinuod (isEqual a b)) := by
  simp only [binary, hkind]

theorem binary_notEqual {operator : Token} (hkind : operator.kind = .notEqual) (a b : Value) :
    binary operator a b = .ok (.tinuod (!isEqual a b)) := by
  simp only [binary, hkind]

/-- Every comparison of two numbers gives a truth value. -/
theorem exists_truth {operator : Token} (ha : a.IsNumber) (hb : b.IsNumber)
    (hkind : operator.kind ∈ [Kind.less, .lessEqual, .greater, .greaterEqual] ++ [.equalEqual, .notEqual]) :
    ∃ truth, binary operator a b = .ok (.tinuod truth) := by
  obtain ⟨pair, hpair, -⟩ := exists_numbers ha hb
  rcases List.mem_append.1 hkind with horder | hequality
  · exact ⟨_, binary_order hpair horder⟩
  · simp only [List.mem_cons, List.not_mem_nil, or_false] at hequality
    rcases hequality with h | h
    · exact ⟨_, binary_equal h a b⟩
    · exact ⟨_, binary_notEqual h a b⟩

/-- The laws of the comparison operators on two numbers, integers or reals. Every
operator gives a truth value, the strict ones are each other's opposite, equality
and its negation too, and no two of before, equal and after hold. The operators
that allow equality are the strict ones or equality exactly if neither number is
NaN. -/
theorem comparisons_agree (sign : Kind → Token) (hsign : ∀ kind, (sign kind).kind = kind) (a b : Value)
    (ha : a.IsNumber) (hb : b.IsNumber) :
    (∀ kind ∈ [Kind.less, .lessEqual, .greater, .greaterEqual] ++ [.equalEqual, .notEqual],
      ∃ truth, binary (sign kind) a b = .ok (.tinuod truth)) ∧
    (Holds (sign .less) a b ↔ Holds (sign .greater) b a) ∧
    (Holds (sign .notEqual) a b ↔ ¬ Holds (sign .equalEqual) a b) ∧
    ¬ (Holds (sign .less) a b ∧ Holds (sign .equalEqual) a b) ∧
    ¬ (Holds (sign .less) a b ∧ Holds (sign .greater) a b) ∧
    ¬ (Holds (sign .equalEqual) a b ∧ Holds (sign .greater) a b) ∧
    ((Holds (sign .lessEqual) a b ↔ Holds (sign .less) a b ∨ Holds (sign .equalEqual) a b) ↔
      a.isNaN = false ∧ b.isNaN = false) ∧
    ((Holds (sign .greaterEqual) a b ↔ Holds (sign .greater) a b ∨ Holds (sign .equalEqual) a b) ↔
      a.isNaN = false ∧ b.isNaN = false) := by
  obtain ⟨pair, hpair, hswapped, hequal, hnan⟩ := exists_numbers ha hb
  have hless : Holds (sign .less) a b ↔ order pair = .lt := by
    simp [holds_order hpair, hsign, satisfies]
  have hlessEqual : Holds (sign .lessEqual) a b ↔ order pair ≠ .gt := by
    simp [holds_order hpair, hsign, satisfies]
  have hgreater : Holds (sign .greater) a b ↔ order pair = .gt := by
    simp [holds_order hpair, hsign, satisfies]
  have hgreaterEqual : Holds (sign .greaterEqual) a b ↔ order pair ≠ .lt := by
    simp [holds_order hpair, hsign, satisfies]
  have hafter : Holds (sign .greater) b a ↔ order pair = .lt := by
    simp [holds_order hswapped, hsign, satisfies, order_swap, Ordering.swap_eq_gt]
  have hsame : Holds (sign .equalEqual) a b ↔ order pair = .eq ∧ pair.hasNaN = false := by
    rw [← areEqual_iff]
    simp [Holds, binary_equal (hsign _), hequal]
  have hdifferent : Holds (sign .notEqual) a b ↔ ¬ Holds (sign .equalEqual) a b := by
    simp [Holds, binary_equal (hsign _), binary_notEqual (hsign _)]
  have hnumbers : a.isNaN = false ∧ b.isNaN = false ↔ pair.hasNaN = false := by simp [hnan]
  have hnone : pair.hasNaN = true → order pair = .eq := order_of_hasNaN
  refine ⟨?_, ?_, hdifferent, ?_⟩
  · intro kind hkind
    exact exists_truth ha hb (by rwa [hsign])
  · rw [hless, hafter]
  · rw [hless, hlessEqual, hgreater, hgreaterEqual, hsame, hnumbers]
    cases hp : order pair <;> cases hn : pair.hasNaN <;> simp_all

/-- The laws at an integer that is rounded before it is compared. -/
theorem comparisons_agree_rounded :
    let sign (kind : Kind) : Token := { kind := kind, lexeme := [], line := 1 }
    let odd : Value := .numero (2 ^ 53 + 1)
    let even : Value := .tipik (Binary64.ofInt (2 ^ 53))
    (∀ kind, (sign kind).kind = kind) ∧ odd.IsNumber ∧ even.IsNumber ∧ Holds (sign .equalEqual) odd even ∧
      Holds (sign .lessEqual) odd even ∧ ¬ Holds (sign .less) odd even := by
  intro sign odd even
  obtain ⟨-, -, -, hless, -, -, hlessEqual, -⟩ :=
    comparisons_agree sign (fun _ => rfl) odd even (.numero _) (.tipik _)
  have hequal : Holds (sign .equalEqual) odd even := by decide +kernel
  have hnumber : even.isNaN = false := by decide +kernel
  exact ⟨fun _ => rfl, .numero _, .tipik _, hequal, (hlessEqual.2 ⟨rfl, hnumber⟩).2 (.inr hequal),
    fun h => hless ⟨h, hequal⟩⟩

/-- NaN, which can be read from input, is at most and at least one, but neither
less than it nor greater nor equal. -/
theorem comparisons_disagree_nan :
    let sign (kind : Kind) : Token := { kind := kind, lexeme := [], line := 1 }
    let nan : Value := .tipik .nan
    Value.read .tipik "nan" = .ok nan ∧ ¬ Holds (sign .equalEqual) nan (.numero 1) ∧
      Holds (sign .lessEqual) nan (.numero 1) ∧ ¬ Holds (sign .less) nan (.numero 1) ∧
      Holds (sign .greaterEqual) nan (.numero 1) ∧ ¬ Holds (sign .greater) nan (.numero 1) := by
  decide +kernel

end Operation

end BisayaPlus
