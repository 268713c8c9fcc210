import Mathlib.Tactic.LinearCombination
import BisayaPlus.Proofs.TypedStore
import BisayaPlus.Proofs.Targets
/-!
# Integer arithmetic

Integers are computed with as if they had no bounds, and a result is wrapped
into the range of 64 bits. A quotient is rounded toward zero, so only one
quotient of all needs wrapping, and quotient and remainder fit together for all
operands. The one fault there is belongs to a division by zero.
-/

set_option autoImplicit false

namespace BisayaPlus

/-! ## The range of 64 bits -/

/-- The integer in the range of 64 bits that differs from this one by a multiple
of `2 ^ 64`. -/
def wrapped (i : Int) : Int := (i + 2 ^ 63) % 2 ^ 64 - 2 ^ 63

theorem wrapped_of_bounds {i : Int} (hmin : -2 ^ 63 ≤ i) (hmax : i < 2 ^ 63) : wrapped i = i := by
  unfold wrapped
  omega

theorem dvd_wrapped_sub (i : Int) : 2 ^ 64 ∣ wrapped i - i := by
  unfold wrapped
  omega

theorem wrapped_congr {i j : Int} (h : 2 ^ 64 ∣ i - j) : wrapped i = wrapped j := by
  unfold wrapped
  omega

theorem bmod_eq_wrapped (i : Int) : i.bmod (2 ^ 64) = wrapped i := by
  unfold wrapped Int.bmod
  dsimp only
  split <;> omega

theorem wrapped_toInt (n : Int64) : wrapped n.toInt = n.toInt := wrapped_of_bounds n.le_toInt n.toInt_lt

theorem toInt_div_wrapped (l r : Int64) : (l / r).toInt = wrapped (l.toInt.tdiv r.toInt) := by
  rw [Int64.toInt_div, bmod_eq_wrapped]

/-- Quotient and remainder fit together, also where the quotient is wrapped: what
it loses is a multiple of `2 ^ 64`, and its product with the divisor loses one
too. -/
theorem wrapped_division {l : Int} (r : Int) (hl : wrapped l = l) :
    wrapped (wrapped (wrapped (l.tdiv r) * r) + l.tmod r) = l := by
  have hfits : r * l.tdiv r + l.tmod r = l := Int.mul_tdiv_add_tmod l r
  have hquotient : 2 ^ 64 ∣ (wrapped (l.tdiv r) - l.tdiv r) * r := (dvd_wrapped_sub (l.tdiv r)).mul_right r
  have hproduct := dvd_wrapped_sub (wrapped (l.tdiv r) * r)
  have hsum : wrapped (wrapped (l.tdiv r) * r) + l.tmod r - l =
      (wrapped (wrapped (l.tdiv r) * r) - wrapped (l.tdiv r) * r) + (wrapped (l.tdiv r) - l.tdiv r) * r := by
    linear_combination hfits
  refine (wrapped_congr ?_).trans hl
  rw [hsum]
  exact Int.dvd_add hproduct hquotient

/-- Only one quotient is out of range. -/
theorem wrapped_tdiv (l r : Int64) :
    wrapped (l.toInt.tdiv r.toInt) = l.toInt.tdiv r.toInt ∨ l.toInt = -2 ^ 63 ∧ r.toInt = -1 := by
  rw [← toInt_div_wrapped]
  by_cases hl : l = Int64.minValue
  · by_cases hr : r = -1
    · exact .inr ⟨by rw [hl]; decide, by rw [hr]; decide⟩
    · exact .inl (Int64.toInt_div_of_ne_right l r hr)
  · exact .inl (Int64.toInt_div_of_ne_left l r hl)

theorem natAbs_tmod_lt (l : Int) {r : Int} (hr : r ≠ 0) : (l.tmod r).natAbs < r.natAbs := by
  rw [Int.natAbs_tmod]
  exact Nat.mod_lt _ (Int.natAbs_pos.2 hr)

theorem sign_tmod_cases (l r : Int) : l.tmod r = 0 ∨ (l.tmod r).sign = l.sign := by
  by_cases h : r ∣ l
  · exact .inl (Int.tmod_eq_zero_of_dvd h)
  · exact .inr (by rw [Int.sign_tmod, if_neg h])

/-! ## Operations -/

namespace Operation

variable {operator : Token} (l r : Int64)

theorem binary_integers (h : operator.kind ∈ [Kind.plus, .minus, .star, .slash, .percent]) :
    binary operator (.numero l) (.numero r) = (blame operator (integerArithmetic operator l r)).map .numero := by
  simp only [List.mem_cons, List.not_mem_nil, or_false] at h
  rcases h with h | h | h | h | h <;> (rw [binary, h]; rfl)

end Operation

namespace Expr

/-- Evaluating the expression gives an integer with this value, and these scopes. -/
def Gives (e : Expr) (s : Scopes) (i : Int) (t : Scopes) : Prop :=
  ∃ n : Int64, n.toInt = i ∧ e.evaluate s = (.ok (.numero n), t)

variable {sign : Kind → Token} {x y : Expr} {s t u : Scopes} {l r : Int} {o : Token}

theorem evaluate_arithmetic {l r : Int64} (h : o.kind ∈ [Kind.plus, .minus, .star, .slash, .percent])
    (hx : x.evaluate s = (.ok (.numero l), t)) (hy : y.evaluate t = (.ok (.numero r), u)) :
    (binary x o y).evaluate s = ((Operation.blame o (Operation.integerArithmetic o l r)).map .numero, u) := by
  rw [evaluate_binary_ok o hx hy, Operation.binary_integers l r h]

/-- What is computed from two integers, once both operands are evaluated. -/
theorem gives_arithmetic {l r n : Int64} (h : o.kind ∈ [Kind.plus, .minus, .star, .slash, .percent])
    (hx : x.evaluate s = (.ok (.numero l), t)) (hy : y.evaluate t = (.ok (.numero r), u))
    (hn : Operation.integerArithmetic o l r = .ok n) : (binary x o y).Gives s n.toInt u := by
  refine ⟨n, rfl, ?_⟩
  rw [evaluate_arithmetic h hx hy, hn]
  rfl

theorem gives_sums (hsign : ∀ kind, (sign kind).kind = kind) (hx : x.Gives s l t) (hy : y.Gives t r u) :
    (binary x (sign .plus) y).Gives s (wrapped (l + r)) u ∧
      (binary x (sign .minus) y).Gives s (wrapped (l - r)) u ∧
      (binary x (sign .star) y).Gives s (wrapped (l * r)) u := by
  obtain ⟨l, rfl, hx⟩ := hx
  obtain ⟨r, rfl, hy⟩ := hy
  have hgives {kind : Kind} {n : Int64} (hkind : kind ∈ [Kind.plus, .minus, .star, .slash, .percent])
      (hn : Operation.integerArithmetic (sign kind) l r = .ok n) : (binary x (sign kind) y).Gives s n.toInt u :=
    gives_arithmetic (by rwa [hsign]) hx hy hn
  simp only [← bmod_eq_wrapped, ← Int64.toInt_add, ← Int64.toInt_sub, ← Int64.toInt_mul]
  refine ⟨hgives (by simp) ?_, hgives (by simp) ?_, hgives (by simp) ?_⟩ <;> rw [Operation.integerArithmetic, hsign]

theorem gives_negative (ho : o.kind = .minus) (hx : x.Gives s l t) : (unary o x).Gives s (wrapped (-l)) t := by
  obtain ⟨l, rfl, hx⟩ := hx
  refine ⟨-l, by rw [Int64.toInt_neg, bmod_eq_wrapped], ?_⟩
  rw [Expr.evaluate, Evaluation.run_bind, hx]
  dsimp only
  rw [Evaluation.run_ofExcept, Operation.unary, ho]
  rfl

/-! ## Division -/

theorem evaluate_division_by_zero (h : o.kind = .slash ∨ o.kind = .percent) (hx : x.Gives s l t) (hy : y.Gives t 0 u) :
    (binary x o y).evaluate s = (.error ⟨o, .divisionByZero⟩, u) := by
  obtain ⟨l, rfl, hx⟩ := hx
  obtain ⟨r, hr, hy⟩ := hy
  obtain rfl : r = 0 := Int64.toInt_inj.1 hr
  have hkind : o.kind ∈ [Kind.plus, .minus, .star, .slash, .percent] := by rcases h with h | h <;> simp [h]
  rw [evaluate_arithmetic hkind hx hy, Operation.integerArithmetic]
  rcases h with h | h <;> (rw [h]; rfl)

theorem gives_division (hsign : ∀ kind, (sign kind).kind = kind) (hx : x.Gives s l t) (hy : y.Gives t r u)
    (hr : r ≠ 0) :
    (binary x (sign .slash) y).Gives s (wrapped (l.tdiv r)) u ∧ (binary x (sign .percent) y).Gives s (l.tmod r) u := by
  obtain ⟨l, rfl, hx⟩ := hx
  obtain ⟨r, rfl, hy⟩ := hy
  have hne : r ≠ 0 := fun h => hr (by rw [h, Int64.toInt_zero])
  rw [← toInt_div_wrapped, ← Int64.toInt_mod]
  constructor
  · refine gives_arithmetic (by simp [hsign]) hx hy ?_
    rw [Operation.integerArithmetic, hsign]
    exact if_neg hne
  · refine gives_arithmetic (by simp [hsign]) hx hy ?_
    rw [Operation.integerArithmetic, hsign]
    exact if_neg hne

theorem Gives.wrapped_eq (h : x.Gives s l t) : wrapped l = l := by
  obtain ⟨n, rfl, -⟩ := h
  exact wrapped_toInt n

theorem Gives.equal (ho : o.kind = .equalEqual) (hx : x.Gives s l t) (hy : y.Gives t l u) :
    (binary x o y).evaluate s = (.ok (.tinuod true), u) := by
  obtain ⟨n, rfl, hx⟩ := hx
  obtain ⟨k, hk, hy⟩ := hy
  obtain rfl : k = n := Int64.toInt_inj.1 hk
  rw [evaluate_binary_ok o hx hy, Operation.binary, ho]
  simp [Operation.isEqual, Operation.numbers?]

/-- The identity of division, in the arithmetic it is about. -/
theorem evaluate_division_identity (hsign : ∀ kind, (sign kind).kind = kind) (hx : x.Gives s l s) (hy : y.Gives s r s)
    (hr : r ≠ 0) : (binary (binary (binary (binary x (sign .slash) y) (sign .star) y) (sign .plus)
      (binary x (sign .percent) y)) (sign .equalEqual) x).evaluate s = (.ok (.tinuod true), s) := by
  obtain ⟨hquotient, hremainder⟩ := gives_division hsign hx hy hr
  obtain ⟨-, -, hproduct⟩ := gives_sums hsign hquotient hy
  obtain ⟨hsum, -⟩ := gives_sums hsign hproduct hremainder
  rw [wrapped_division r hx.wrapped_eq] at hsum
  exact hsum.equal (hsign .equalEqual) hx

/-! ## Steps -/

/-- A step in front of a name or behind it gives the new integer or the old one.
The variable holds the new one then, and no other variable has changed. -/
def StepsTo (s : Scopes) (o name : Token) (old new : Int) : Prop :=
  ∀ before, ∃ t, (step o name before).Gives s (if before then new else old) t ∧ (var name).Gives t new t ∧
    Scopes.Confined [name.lexeme] s t

theorem stepsTo_of_step {name : Token} {place : Nat} {n k : Int64}
    (hname : s.lookup? name.lexeme = some (place, ⟨.numero, .numero n⟩))
    (hstep : Operation.step o (.numero n) = .ok (.numero k)) : StepsTo s o name n.toInt k.toInt := by
  intro before
  have hget : s.get name = .ok (.numero n) := Scopes.get_of_lookup? hname
  obtain ⟨t, ht⟩ : ∃ t, s.assign name (.numero k) = .ok (.numero k, t) := Scopes.assign_of_coerce hname rfl
  refine ⟨t, ⟨if before then k else n, by cases before <;> rfl, ?_⟩, ⟨k, rfl, ?_⟩, ?_⟩
  · rw [evaluate_step, hget]
    dsimp only
    rw [hstep]
    dsimp only
    rw [ht]
    cases before <;> rfl
  · rw [Expr.evaluate, Evaluation.run_get, Scopes.get_update ht]
  · exact (Scopes.Confined.refl _ s).update (by simp) ht

theorem stepsTo_wrapped (hsign : ∀ kind, (sign kind).kind = kind) {name : Token} {place : Nat} {n : Int64}
    (hname : s.lookup? name.lexeme = some (place, ⟨.numero, .numero n⟩)) :
    StepsTo s (sign .plusPlus) name n.toInt (wrapped (n.toInt + 1)) ∧
      StepsTo s (sign .minusMinus) name n.toInt (wrapped (n.toInt - 1)) := by
  have hup : wrapped (n.toInt + 1) = (n + 1).toInt := by
    rw [← bmod_eq_wrapped, Int64.toInt_add]
    rfl
  have hdown : wrapped (n.toInt - 1) = (n - 1).toInt := by
    rw [← bmod_eq_wrapped, Int64.toInt_sub]
    rfl
  rw [hup, hdown]
  exact ⟨stepsTo_of_step hname (by simp [Operation.step, hsign]),
    stepsTo_of_step hname (by simp [Operation.step, hsign])⟩

/-! ## All of it -/

/-- The arithmetic of integers, for all operands. Sums, differences, products
and negatives are wrapped into 64 bits, and so are the steps of a variable. A
division fails if and only if the divisor is zero. Otherwise the quotient is
rounded toward zero, and wrapped only for the least integer by -1; the remainder
is smaller than the divisor and has the sign of the dividend, or is zero; and the
identity between them holds when it is computed. -/
theorem integer_arithmetic_wraps (sign : Kind → Token) (hsign : ∀ kind, (sign kind).kind = kind) (x y : Expr)
    (s t u : Scopes) (l r : Int) (hx : x.Gives s l t) (hy : y.Gives t r u) :
    ((binary x (sign .plus) y).Gives s (wrapped (l + r)) u ∧
      (binary x (sign .minus) y).Gives s (wrapped (l - r)) u ∧
      (binary x (sign .star) y).Gives s (wrapped (l * r)) u ∧
      (unary (sign .minus) x).Gives s (wrapped (-l)) t) ∧
    (r = 0 → Cause.divisionByZero.message = ("Division by zero." : Text) ∧ ∀ kind ∈ [Kind.slash, .percent],
      (binary x (sign kind) y).evaluate s = (.error ⟨sign kind, .divisionByZero⟩, u)) ∧
    (r ≠ 0 →
      (binary x (sign .slash) y).Gives s (wrapped (l.tdiv r)) u ∧
      (wrapped (l.tdiv r) = l.tdiv r ∨ l = -2 ^ 63 ∧ r = -1) ∧
      (binary x (sign .percent) y).Gives s (l.tmod r) u ∧
      (l.tmod r).natAbs < r.natAbs ∧ (l.tmod r = 0 ∨ (l.tmod r).sign = l.sign) ∧
      (t = s → u = s → (binary (binary (binary (binary x (sign .slash) y) (sign .star) y) (sign .plus)
        (binary x (sign .percent) y)) (sign .equalEqual) x).evaluate s = (.ok (.tinuod true), s))) ∧
    (∀ (name : Token) (place : Nat) (n : Int64), s.lookup? name.lexeme = some (place, ⟨.numero, .numero n⟩) →
      StepsTo s (sign .plusPlus) name n.toInt (wrapped (n.toInt + 1)) ∧
      StepsTo s (sign .minusMinus) name n.toInt (wrapped (n.toInt - 1))) := by
  obtain ⟨hsum, hdifference, hproduct⟩ := gives_sums hsign hx hy
  refine ⟨⟨hsum, hdifference, hproduct, gives_negative (hsign .minus) hx⟩, ?_, fun hr => ?_,
    fun name place n hname => stepsTo_wrapped hsign hname⟩
  · rintro rfl
    refine ⟨rfl, fun kind hkind => evaluate_division_by_zero ?_ hx hy⟩
    simpa [hsign] using hkind
  · obtain ⟨hquotient, hremainder⟩ := gives_division hsign hx hy hr
    refine ⟨hquotient, ?_, hremainder, natAbs_tmod_lt l hr, sign_tmod_cases l r, ?_⟩
    · obtain ⟨n, rfl, -⟩ := hx
      obtain ⟨k, rfl, -⟩ := hy
      exact wrapped_tdiv n k
    · rintro rfl rfl
      exact evaluate_division_identity hsign hx hy hr

/-- The least integer divided by -1, and a variable that holds it. -/
theorem integer_arithmetic_wraps_least :
    let sign (kind : Kind) : Token := { kind := kind, lexeme := [], line := 1 }
    let name : Token := { kind := .identifier, lexeme := "x", line := 1 }
    let s : Scopes := { arena := [{ bindings := [("x", ⟨.numero, .numero Int64.minValue⟩)] }], current := 0 }
    let x := var name
    let y := literal (.numero (-1))
    x.Gives s (-2 ^ 63) s ∧ y.Gives s (-1) s ∧
      (binary x (sign .slash) y).Gives s (-2 ^ 63) s ∧ (binary x (sign .percent) y).Gives s 0 s ∧
      StepsTo s (sign .minusMinus) name (-2 ^ 63) (2 ^ 63 - 1) := by
  intro sign name s x y
  have hx : x.Gives s (-2 ^ 63) s := ⟨Int64.minValue, by decide, rfl⟩
  have hy : y.Gives s (-1) s := ⟨-1, by decide, rfl⟩
  obtain ⟨-, -, hdivision, hsteps⟩ := integer_arithmetic_wraps sign (fun _ => rfl) x y s s s _ _ hx hy
  obtain ⟨hquotient, -, hremainder, -⟩ := hdivision (by decide)
  obtain ⟨-, hdown⟩ := hsteps name 0 Int64.minValue rfl
  exact ⟨hx, hy, hquotient, hremainder, hdown⟩

end Expr

end BisayaPlus
