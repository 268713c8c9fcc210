import BisayaPlus.Proofs.Rounding
import BisayaPlus.Proofs.Targets
import BisayaPlus.Proofs.TypedStore
/-!
# Reals in integer variables

A real is stored in an integer variable if it has no fraction and lies in the
range. The ends of the range are compared with as numbers of the format, and the
upper one is not among them: it is rounded up to `2 ^ 63`, which the comparison
leaves out. `real_in_integer_exact` says, from the bits of the number on, that
just the integers of 64 bits are taken, and that they are stored as they are.
-/

set_option autoImplicit false

namespace BisayaPlus

namespace Binary64

variable {x : Binary64}

/-! ## What the bits stand for -/

/-- The eleven bits below the sign. -/
def exponentField (x : Binary64) : Nat := x.bits.toNat / 2 ^ 52 % 2 ^ 11

/-- The 52 bits at the end. -/
def fractionField (x : Binary64) : Nat := x.bits.toNat % 2 ^ 52

/-- The number that the fields stand for. The exponent counts from `2 ^ (-1023)`,
and a one stands before the fraction, unless the exponent is the least. The
greatest exponent is kept for the infinities and NaN. -/
def denoted? (x : Binary64) : Option ℚ :=
  if x.exponentField = 2047 then none
  else if x.exponentField = 0 then some (withSign x.negative (x.fractionField * 2 ^ (-1074 : Int)))
  else some (withSign x.negative ((2 ^ 52 + x.fractionField) * 2 ^ (x.exponentField - 1075 : Int)))

theorem magnitude_eq_fields (x : Binary64) : x.magnitude = x.exponentField * 2 ^ 52 + x.fractionField := by
  have hmod : x.magnitude = x.bits.toNat % 2 ^ 63 := rfl
  rw [hmod, exponentField, fractionField]
  omega

theorem fractionField_lt (x : Binary64) : x.fractionField < 2 ^ 52 := Nat.mod_lt _ (by decide)

theorem isFinite_iff_exponentField : x.IsFinite ↔ x.exponentField ≠ 2047 := by
  have hfraction := x.fractionField_lt
  have hexponent : x.exponentField < 2 ^ 11 := Nat.mod_lt _ (by decide)
  rw [IsFinite, magnitude_eq_fields, infiniteMagnitude_eq]
  omega

/-- Below the least binade the fraction counts units. -/
theorem size_of_exponentField_eq_zero (h : x.exponentField = 0) : x.size = x.fractionField := by
  have hfraction := x.fractionField_lt
  have hunits : unitsOf (0 * binade + x.fractionField) = x.fractionField * 2 ^ 0 := by
    refine unitsOf_add (.inl rfl) ?_
    rw [binade_eq]
    omega
  rw [size, magnitude_eq_fields, h, ← binade_eq, hunits, Nat.pow_zero, Nat.mul_one]

theorem size_of_exponentField_ne_zero (h : x.exponentField ≠ 0) :
    x.size = (2 ^ 52 + x.fractionField) * 2 ^ (x.exponentField - 1) := by
  have hfraction := x.fractionField_lt
  have hmagnitude : x.magnitude = (x.exponentField - 1) * binade + (2 ^ 52 + x.fractionField) := by
    rw [magnitude_eq_fields, binade_eq]
    omega
  rw [size, hmagnitude]
  refine unitsOf_add (.inr ?_) ?_ <;> rw [binade_eq] <;> omega

/-- The fields stand for the exact value of a finite number. -/
theorem denoted?_eq_some_iff {v : ℚ} : x.denoted? = some v ↔ x.IsFinite ∧ x.value = v := by
  obtain ⟨p, hp, hone⟩ : ∃ p, p = 1074 ∧ one = 2 ^ p := ⟨1074, rfl, by decide +kernel⟩
  rw [isFinite_iff_exponentField, value_eq, hone, denoted?]
  by_cases hmost : x.exponentField = 2047
  · simp [hmost]
  rw [if_neg hmost, and_iff_right hmost]
  -- in both cases the power of two is that of the step, divided by the units in one
  by_cases hleast : x.exponentField = 0
  · have hscale : (2 : ℚ) ^ (-1074 : Int) = ((2 ^ p : Nat) : ℚ)⁻¹ := by
      rw [Nat.cast_pow, Nat.cast_ofNat, ← zpow_natCast, ← zpow_neg, hp]
      rfl
    rw [if_pos hleast, size_of_exponentField_eq_zero hleast, hscale, ← div_eq_mul_inv, Option.some.injEq]
  · have hscale : (2 : ℚ) ^ (x.exponentField - 1075 : Int) = 2 ^ (x.exponentField - 1) / ((2 ^ p : Nat) : ℚ) := by
      have hexponent : (x.exponentField - 1075 : Int) = (x.exponentField - 1 : Nat) - (p : Nat) := by omega
      rw [hexponent, zpow_sub₀ two_ne_zero, zpow_natCast, zpow_natCast, Nat.cast_pow, Nat.cast_ofNat]
    rw [if_neg hleast, size_of_exponentField_ne_zero hleast, hscale, ← mul_div_assoc, Option.some.injEq]
    push_cast
    rfl

theorem denoted?_eq_intCast {n : Int} (hfinite : x.isNaN = false ∧ x.isInfinite = false) (h : x.units = n * one) :
    x.denoted? = some (n : ℚ) :=
  denoted?_eq_some_iff.2 ⟨isFinite_iff.2 hfinite, value_eq_int_iff.2 h⟩

theorem denoted?_eq_none_iff : x.denoted? = none ↔ x.isNaN = true ∨ x.isInfinite = true := by
  have hnone : x.denoted? = none ↔ ¬ x.IsFinite := by
    rw [Option.eq_none_iff_forall_ne_some]
    constructor
    · exact fun h hfinite => h x.value (denoted?_eq_some_iff.2 ⟨hfinite, rfl⟩)
    · exact fun h v hv => h (denoted?_eq_some_iff.1 hv).1
  rw [hnone, isFinite_iff, not_and_or, Bool.not_eq_false, Bool.not_eq_false]

/-! ## Narrowing -/

theorem exactInt?_eq_some_iff_denoted? {i : Int64} : x.exactInt? = some i ↔ x.denoted? = some (i.toInt : ℚ) :=
  exactInt?_eq_some.trans denoted?_eq_some_iff.symm

/-- A number is narrowed if it is an integer in the range, both ends of which
belong to it. -/
theorem exactInt?_ne_none_iff :
    x.exactInt? ≠ none ↔ ∃ n : Int, x.denoted? = some (n : ℚ) ∧ -2 ^ 63 ≤ n ∧ n ≤ 2 ^ 63 - 1 := by
  rw [Option.ne_none_iff_exists']
  constructor
  · rintro ⟨i, hi⟩
    exact ⟨i.toInt, exactInt?_eq_some_iff_denoted?.1 hi, i.minValue_le_toInt, i.toInt_le⟩
  · rintro ⟨n, hn, hlow, hhigh⟩
    refine ⟨Int64.ofInt n, exactInt?_eq_some_iff_denoted?.2 ?_⟩
    rw [Int64.toInt_ofInt_of_le hlow (by omega), hn]

end Binary64

/-! ## Storing -/

variable {x : Binary64} {i : Int64}

theorem Value.coerce_numero_tipik (h : x.denoted? = some (i.toInt : ℚ)) :
    Value.coerce .numero (.tipik x) = .ok (.numero i) := by
  simp only [coerce, Binary64.exactInt?_eq_some_iff_denoted?.2 h]

theorem Value.coerce_numero_refused (h : ∀ i : Int64, x.denoted? ≠ some (i.toInt : ℚ)) :
    Value.coerce .numero (.tipik x) = .error (.mismatch .numero (.tipik x)) := by
  have hnone : x.exactInt? = none :=
    Option.eq_none_iff_forall_ne_some.2 fun i hi => h i (Binary64.exactInt?_eq_some_iff_denoted?.1 hi)
  simp only [coerce, hnone]

namespace Scopes

variable {s : Scopes} {name : Token} {place : Nat} {old : Value}

/-- A variable for integers takes a real that is one, with its value. -/
theorem assign_tipik (h : s.lookup? name.lexeme = some (place, ⟨.numero, old⟩))
    (hi : x.denoted? = some (i.toInt : ℚ)) :
    ∃ t, s.assign name (.tipik x) = .ok (.numero i, t) ∧ t.get name = .ok (.numero i) := by
  obtain ⟨t, ht⟩ := assign_of_coerce h (Value.coerce_numero_tipik hi)
  exact ⟨t, ht, get_update ht⟩

theorem assign_tipik_refused (h : s.lookup? name.lexeme = some (place, ⟨.numero, old⟩))
    (hno : ∀ i : Int64, x.denoted? ≠ some (i.toInt : ℚ)) :
    s.assign name (.tipik x) = .error ⟨name, .mismatch .numero (.tipik x)⟩ := by
  rw [assign, update, h]
  dsimp only
  rw [Value.coerce_numero_refused hno]

end Scopes

open Execution Binary64

/-- A real that is stored in an integer. The bits of NaN and the infinities stand
for no number. Narrowing takes a number if it is an integer of 64 bits, and gives
this integer. An assignment and a declaration store it, and refuse any other
number. -/
theorem real_in_integer_exact (x : Binary64) :
    (x.denoted? = none ↔ x.isNaN = true ∨ x.isInfinite = true) ∧
    (∀ i : Int64, x.exactInt? = some i ↔ x.denoted? = some (i.toInt : ℚ)) ∧
    (x.exactInt? ≠ none ↔ ∃ n : Int, x.denoted? = some (n : ℚ) ∧ -2 ^ 63 ≤ n ∧ n ≤ 2 ^ 63 - 1) ∧
    (∀ (s : Scopes) (name : Token) (place : Nat) (old : Value),
      s.lookup? name.lexeme = some (place, ⟨.numero, old⟩) →
      (∀ i : Int64, x.denoted? = some (i.toInt : ℚ) →
        ∃ t, s.assign name (.tipik x) = .ok (.numero i, t) ∧ t.get name = .ok (.numero i)) ∧
      ((∀ i : Int64, x.denoted? ≠ some (i.toInt : ℚ)) →
        s.assign name (.tipik x) = .error ⟨name, .mismatch .numero (.tipik x)⟩)) ∧
    ∀ (e : Expr) (name : Token) (more : List (Token × Option Expr)) (m m' : Machine),
      value e m = (.ok (.tipik x), m') →
      (∀ i : Int64, x.denoted? = some (i.toInt : ℚ) →
        declare .numero ((name, some e) :: more) m =
          declare .numero more { m' with scopes := m'.scopes.define name.lexeme ⟨.numero, .numero i⟩ }) ∧
      ((∀ i : Int64, x.denoted? ≠ some (i.toInt : ℚ)) →
        declare .numero ((name, some e) :: more) m =
          (.error (.fault ⟨name, .mismatch .numero (.tipik x)⟩), m')) := by
  refine ⟨denoted?_eq_none_iff, fun i => exactInt?_eq_some_iff_denoted?, exactInt?_ne_none_iff,
    fun s name place old hname => ⟨fun i hi => ?_, fun hno => ?_⟩,
    fun e name more m m' he => ⟨fun i hi => ?_, fun hno => ?_⟩⟩
  · exact Scopes.assign_tipik hname hi
  · exact Scopes.assign_tipik_refused hname hno
  · rw [declare_initialized .numero name more he, Value.coerce_numero_tipik hi]
  · rw [declare_initialized .numero name more he, Value.coerce_numero_refused hno]

/-- The ends of the range as numbers of the format. The lower one is stored by an
assignment and by a declaration. The upper one is `2 ^ 63`, and is refused by
both. -/
theorem real_in_integer_exact_ends :
    let name : Token := { kind := .identifier, lexeme := "x", line := 1 }
    let s : Scopes := { arena := [{ bindings := [("x", ⟨.numero, .null⟩)] }], current := 0 }
    let m := Machine.fresh []
    let low := leastInt64
    let high := greatestInt64
    low.denoted? = some (-2 ^ 63) ∧ low.exactInt? = some Int64.minValue ∧
      (∃ t, s.assign name (.tipik low) = .ok (.numero Int64.minValue, t) ∧
        t.get name = .ok (.numero Int64.minValue)) ∧
      declare .numero [(name, some (.literal (.tipik low)))] m =
        declare .numero [] { m with scopes := m.scopes.define "x" ⟨.numero, .numero Int64.minValue⟩ } ∧
      high.denoted? = some (2 ^ 63) ∧ high.exactInt? = none ∧
      s.assign name (.tipik high) = .error ⟨name, .mismatch .numero (.tipik high)⟩ ∧
      declare .numero [(name, some (.literal (.tipik high)))] m =
        (.error (.fault ⟨name, .mismatch .numero (.tipik high)⟩), m) := by
  intro name s m low high
  have hlookup : s.lookup? name.lexeme = some (0, ⟨.numero, .null⟩) := by decide +kernel
  have hlow : low.denoted? = some (Int64.minValue.toInt : ℚ) := denoted?_eq_intCast (by decide +kernel) units_leastInt64
  have hhigh : high.denoted? = some ((2 ^ 63 : Int) : ℚ) := denoted?_eq_intCast (by decide +kernel) units_greatestInt64
  have hother {n : Int} (hn : high.denoted? = some (n : ℚ)) : n = 2 ^ 63 := by
    exact_mod_cast Option.some.inj (hn.symm.trans hhigh)
  have hbeyond : ∀ i : Int64, high.denoted? ≠ some (i.toInt : ℚ) := fun i hi => i.toInt_lt.ne (hother hi)
  obtain ⟨-, hexact, -, hassign, hdeclare⟩ := real_in_integer_exact low
  obtain ⟨-, -, hrange, hassign', hdeclare'⟩ := real_in_integer_exact high
  have hrefused : high.exactInt? = none := by
    refine Decidable.not_not.1 fun hne => ?_
    obtain ⟨n, hn, -, hle⟩ := hrange.1 hne
    rw [hother hn] at hle
    omega
  have hminimum : ((Int64.minValue.toInt : Int) : ℚ) = -2 ^ 63 := by
    rw [Int64.toInt_minValue]
    norm_num
  exact ⟨hminimum ▸ hlow, (hexact _).2 hlow, (hassign s name 0 .null hlookup).1 _ hlow,
    (hdeclare _ name [] m m rfl).1 _ hlow, by exact_mod_cast hhigh, hrefused,
    (hassign' s name 0 .null hlookup).2 hbeyond, (hdeclare' _ name [] m m rfl).2 hbeyond⟩

-- the neighbours of the ends, a negative zero and NaN
example : [0x43DFFFFFFFFFFFFF, 0xC3E0000000000001, 0x8000000000000000, 0x7FF8000000000000].map
    (fun bits => exactInt? ⟨bits⟩) = [some (2 ^ 63 - 2 ^ 10), none, some 0, none] := by
  decide +kernel

end BisayaPlus
