import BisayaPlus.Proofs.Lexemes
import BisayaPlus.Proofs.Rounding
import BisayaPlus.Value.Conversion
import Mathlib.Data.List.Induction
import Mathlib.Data.Nat.Digits.Defs
/-!
# Decimal numerals

A decimal numeral is an optional sign, digits with an optional fraction, and an
optional exponent. It has an exact value, and is read as a number nearest to
it; a numeral of digits alone is also read as an integer.
-/

set_option autoImplicit false

namespace BisayaPlus.Numeral

open Text

/-! ## Digits -/

/-- The byte of a digit. -/
def digitByte (d : Fin 10) : UInt8 := (48 + d.val).toUInt8

/-- The number that digits stand for. -/
def number (ds : List (Fin 10)) : Nat := Nat.ofDigits 10 (ds.reverse.map Fin.val)

theorem digitByte_facts (d : Fin 10) :
    isDigit (digitByte d) = true ∧ digitValue (digitByte d) = d.val ∧ digitByte d ≠ 43 ∧ digitByte d ≠ 45 := by
  revert d
  decide

theorem isDigit_of_mem {ds : List (Fin 10)} {b : UInt8} (h : b ∈ ds.map digitByte) : isDigit b = true := by
  obtain ⟨d, -, rfl⟩ := List.mem_map.1 h
  exact (digitByte_facts d).1

theorem number_append (ds : List (Fin 10)) (d : Fin 10) : number (ds ++ [d]) = number ds * 10 + d := by
  simp [number, Nat.ofDigits_cons]
  omega

theorem digitsValue_append (t : Text) (b : UInt8) :
    digitsValue 10 (t ++ [b]) = digitsValue 10 t * 10 + digitValue b := by
  simp [digitsValue]

theorem digitsValue_digits (ds : List (Fin 10)) : digitsValue 10 (ds.map digitByte) = number ds := by
  induction ds using List.reverseRecOn with
  | nil => rfl
  | append_singleton ds d ih =>
    rw [List.map_append, List.map_singleton, digitsValue_append, ih, (digitByte_facts d).2.1, number_append]

/-- The digits that a number is spelled with. -/
theorem exists_digits_ofNat (n : Nat) :
    ∃ ds : List (Fin 10), ds ≠ [] ∧ Text.ofNat n = ds.map digitByte ∧ number ds = n := by
  have hbyte : ∀ d : Fin 10, byte (Nat.digitChar d) = digitByte d := by decide
  induction n using Nat.strongRecOn with
  | _ n ih =>
    by_cases hn : n < 10
    · refine ⟨[⟨n, hn⟩], by simp, ?_, by simp [number]⟩
      rw [Text.ofNat, Nat.toDigits_of_lt_base hn]
      exact congrArg (fun b => [b]) (hbyte ⟨n, hn⟩)
    · obtain ⟨ds, -, htext, hnumber⟩ := ih (n / 10) (by omega)
      have hlast : n % 10 < 10 := Nat.mod_lt n (by decide)
      refine ⟨ds ++ [⟨n % 10, hlast⟩], by simp, ?_, ?_⟩
      · rw [Text.ofNat, Nat.toDigits_of_base_le (by decide) (by omega), List.map_append, ← Text.ofNat, htext,
          List.map_append]
        exact congrArg (fun b => ds.map digitByte ++ [b]) (hbyte ⟨n % 10, hlast⟩)
      · rw [number_append, hnumber]
        exact Nat.div_add_mod' n 10

theorem isDigit_of_mem_ofNat {n : Nat} {b : UInt8} (h : b ∈ Text.ofNat n) : isDigit b = true := by
  obtain ⟨ds, -, htext, -⟩ := exists_digits_ofNat n
  rw [htext] at h
  exact isDigit_of_mem h

/-! ## Signs -/

/-- The sign of a numeral. -/
inductive Sign where
  | plus
  | minus
  deriving DecidableEq

/-- The byte of a sign. -/
def Sign.byte : Sign → UInt8
  | plus => 43
  | minus => 45

/-- A sign, if there is one, in front of a text. -/
def withSignByte (sign : Option Sign) (t : Text) : Text := sign.elim t fun s => s.byte :: t

/-- Whether a sign is the minus sign. -/
def isMinus (sign : Option Sign) : Bool := sign == some .minus

theorem signed_withSignByte (sign : Option Sign) {t : Text} (ht : ∀ b ∈ t.head?, b ≠ 43 ∧ b ≠ 45) :
    signed (withSignByte sign t) = (isMinus sign, t) := by
  cases sign with
  | some s => cases s <;> rfl
  | none =>
    change signed t = (false, t)
    cases t with
    | nil => rfl
    | cons b t =>
      obtain ⟨hplus, hminus⟩ := ht b rfl
      unfold signed
      split <;> simp_all

/-! ## Integers -/

theorem head?_digits {ds : List (Fin 10)} : ∀ b ∈ (ds.map digitByte).head?, b ≠ 43 ∧ b ≠ 45 := by
  intro b hb
  obtain ⟨d, -, rfl⟩ := List.mem_map.1 (List.mem_of_mem_head? hb)
  exact (digitByte_facts d).2.2

theorem integer?_digits (sign : Option Sign) {ds : List (Fin 10)} (hds : ds ≠ []) :
    integer? (withSignByte sign (ds.map digitByte)) =
      some (if isMinus sign then -(number ds : Int) else number ds) := by
  have hall : (ds.map digitByte).all isDigit = true := List.all_eq_true.2 fun b hb => isDigit_of_mem hb
  have hne : (ds.map digitByte).isEmpty = false := by simpa using hds
  rw [integer?, signed_withSignByte sign head?_digits]
  simp only [hall, hne, digitsValue_digits]
  rfl

/-- The spelling of an integer is read as the integer. -/
theorem integer?_ofInt (i : Int) : integer? (Text.ofInt i) = some i := by
  cases i with
  | ofNat n =>
    obtain ⟨ds, hne, htext, hnumber⟩ := exists_digits_ofNat n
    have hread := integer?_digits none hne
    rw [hnumber] at hread
    rwa [Text.ofInt, htext]
  | negSucc n =>
    obtain ⟨ds, hne, htext, hnumber⟩ := exists_digits_ofNat (n + 1)
    have hread := integer?_digits (some .minus) hne
    rw [hnumber] at hread
    rwa [Text.ofInt, htext]

theorem int64?_ofInt (i : Int64) : int64? (Text.ofInt i.toInt) = some i := by
  rw [int64?, integer?_ofInt]
  exact Binary64.narrow_eq_some.2 rfl

/-! ## Decimal numerals -/

/-- An exponent: its mark, an optional sign and digits. -/
structure Exponent where
  capital : Bool
  sign : Option Sign
  digits : List (Fin 10)
  digits_ne_nil : digits ≠ []

/-- A decimal numeral: an optional sign, digits with an optional fraction, and
an optional exponent. -/
structure Decimal where
  sign : Option Sign
  whole : List (Fin 10)
  fraction : Option (List (Fin 10))
  exponent : Option Exponent
  digits_ne_nil : whole ++ fraction.getD [] ≠ []

/-- The text of an exponent. -/
def Exponent.spelling (e : Exponent) : Text :=
  byte (if e.capital then 'E' else 'e') :: withSignByte e.sign (e.digits.map digitByte)

/-- The number an exponent stands for. -/
def Exponent.value (e : Exponent) : Int := if isMinus e.sign then -(number e.digits : Int) else number e.digits

namespace Decimal

/-- The digits before and after the point. -/
def digits (n : Decimal) : List (Fin 10) := n.whole ++ n.fraction.getD []

/-- The text without the sign. -/
def unsigned (n : Decimal) : Text :=
  n.whole.map digitByte ++
    ((n.fraction.elim [] fun ds => byte '.' :: ds.map digitByte) ++ n.exponent.elim [] Exponent.spelling)

/-- The text of a numeral. -/
def spelling (n : Decimal) : Text := withSignByte n.sign n.unsigned

/-- The power of ten that the digits count. -/
def scale (n : Decimal) : Int := n.exponent.elim 0 Exponent.value - (n.fraction.getD []).length

theorem exponent?_spelling (e : Exponent) : exponent? 'e' e.spelling = some e.value := by
  have hmark : (lowerByte (byte (if e.capital then 'E' else 'e')) == byte 'e') = true := by
    cases e.capital <;> decide
  rw [Exponent.spelling, exponent?, if_pos hmark, integer?_digits e.sign e.digits_ne_nil]
  rfl

theorem not_digit_exponent (e : Option Exponent) : ∀ b ∈ (e.elim [] Exponent.spelling).head?, isDigit b = false := by
  cases e with
  | none => simp
  | some e =>
    intro b hb
    obtain rfl := Option.some.inj hb
    cases e.capital <;> decide

/-- The parts of digits without a point. -/
theorem parts?_whole {whole : Text} (hdigits : ∀ b ∈ whole, isDigit b = true) (hne : whole ≠ []) (e : Option Exponent) :
    parts? isDigit 'e' (some 0) (whole ++ e.elim [] Exponent.spelling) = some ⟨whole, [], e.elim 0 Exponent.value⟩ := by
  have htake := Scan.takeWhile_append_stop hdigits (not_digit_exponent e)
  have hdrop := Scan.dropWhile_append_stop hdigits (not_digit_exponent e)
  have hne' : whole.isEmpty = false := by simpa using hne
  simp only [parts?, htake, hdrop, hne', Bool.false_and, Bool.false_eq_true, if_false]
  cases e with
  | none => rfl
  | some e =>
    have hexponent := congrArg (Option.map (Parts.mk whole [])) (exponent?_spelling e)
    obtain ⟨capital, sign, ds, hds⟩ := e
    cases capital <;> exact hexponent

/-- The parts of digits with a point. -/
theorem parts?_point {whole fraction : Text} (hwhole : ∀ b ∈ whole, isDigit b = true)
    (hfraction : ∀ b ∈ fraction, isDigit b = true) (hne : whole ++ fraction ≠ []) (e : Option Exponent) :
    parts? isDigit 'e' (some 0) (whole ++ byte '.' :: (fraction ++ e.elim [] Exponent.spelling)) =
      some ⟨whole, fraction, e.elim 0 Exponent.value⟩ := by
  have hpoint : ∀ b ∈ (46 :: (fraction ++ e.elim [] Exponent.spelling)).head?, isDigit b = false := by
    intro b hb
    obtain rfl := Option.some.inj hb
    decide
  have htake := Scan.takeWhile_append_stop hwhole hpoint
  have hdrop := Scan.dropWhile_append_stop hwhole hpoint
  have htake' := Scan.takeWhile_append_stop hfraction (not_digit_exponent e)
  have hdrop' := Scan.dropWhile_append_stop hfraction (not_digit_exponent e)
  have hne' : (whole.isEmpty && fraction.isEmpty) = false := by
    rw [Bool.and_eq_false_iff]
    simpa [List.append_eq_nil_iff, ← not_and_or] using hne
  rw [show byte '.' = 46 from rfl]
  simp only [parts?, htake, hdrop, htake', hdrop', hne', Bool.false_eq_true, if_false]
  cases e with
  | none => rfl
  | some e => exact congrArg (Option.map (Parts.mk whole fraction)) (exponent?_spelling e)

theorem parts?_unsigned (n : Decimal) :
    parts? isDigit 'e' (some 0) n.unsigned =
      some ⟨n.whole.map digitByte, (n.fraction.getD []).map digitByte, n.exponent.elim 0 Exponent.value⟩ := by
  obtain ⟨sign, whole, fraction, exponent, hne⟩ := n
  cases fraction with
  | none => exact parts?_whole (fun b => isDigit_of_mem) (by simpa using hne) exponent
  | some ds => exact parts?_point (fun b => isDigit_of_mem) (fun b => isDigit_of_mem) (by simpa using hne) exponent

/-! ## Reading a numeral -/

/-- The bytes of a numeral that are not digits. -/
def marks : List UInt8 := [byte '.', byte 'e', byte 'E', byte '+', byte '-']

section Bytes

variable {p : UInt8 → Bool}

theorem forall_digits (hdigit : ∀ d, p (digitByte d) = true) (ds : List (Fin 10)) :
    ∀ b ∈ ds.map digitByte, p b = true := by
  intro b hb
  obtain ⟨d, -, rfl⟩ := List.mem_map.1 hb
  exact hdigit d

theorem forall_unsigned (n : Decimal) (hdigit : ∀ d, p (digitByte d) = true) (hmarks : marks.all p = true) :
    ∀ b ∈ n.unsigned, p b = true := by
  have hmark : ∀ b ∈ marks, p b = true := List.all_eq_true.1 hmarks
  have hfraction : ∀ b ∈ n.fraction.elim [] fun ds => byte '.' :: ds.map digitByte, p b = true := by
    cases n.fraction with
    | none => exact List.forall_mem_nil _
    | some ds => exact List.forall_mem_cons.2 ⟨hmark _ (by decide), forall_digits hdigit ds⟩
  have hexponent : ∀ b ∈ n.exponent.elim [] Exponent.spelling, p b = true := by
    cases n.exponent with
    | none => exact List.forall_mem_nil _
    | some e =>
      refine List.forall_mem_cons.2 ⟨?_, ?_⟩
      · cases e.capital <;> exact hmark _ (by decide)
      · cases e.sign with
        | none => exact forall_digits hdigit e.digits
        | some s =>
          refine List.forall_mem_cons.2 ⟨?_, forall_digits hdigit e.digits⟩
          cases s <;> exact hmark _ (by decide)
  simp only [unsigned, List.forall_mem_append]
  exact ⟨forall_digits hdigit n.whole, hfraction, hexponent⟩

/-- A numeral without its sign starts with a digit or with the point. -/
theorem exists_unsigned (n : Decimal) (hdigit : ∀ d, p (digitByte d) = true) (hpoint : p (byte '.') = true) :
    ∃ b t, n.unsigned = b :: t ∧ p b = true := by
  obtain ⟨sign, whole, fraction, exponent, hne⟩ := n
  cases whole with
  | cons d ds => exact ⟨_, _, rfl, hdigit d⟩
  | nil =>
    cases fraction with
    | none => exact absurd rfl hne
    | some ds => exact ⟨_, _, rfl, hpoint⟩

end Bytes

theorem signed_spelling (n : Decimal) : signed n.spelling = (isMinus n.sign, n.unsigned) := by
  refine signed_withSignByte n.sign fun b hb => ?_
  obtain ⟨c, t, ht, hc⟩ := n.exists_unsigned (p := fun b => b != 43 && b != 45) (by decide) (by decide)
  rw [ht] at hb
  obtain rfl := Option.some.inj hb
  simpa using hc

/-- No text that starts with another byte than a letter is one of these words. -/
theorem not_word {b : UInt8} (hb : isLetter b = false) (t : Text) :
    ∀ s ∈ ["inf", "infinity", "nan"], ((b :: t).map lowerByte == ofString s) = false := by
  have hlower : lowerByte b = b := by
    have hcapital : (65 ≤ b && b ≤ 90) = false := by
      simp only [isLetter, Bool.or_eq_false_iff] at hb
      exact hb.1.2
    rw [lowerByte, hcapital]
    rfl
  have hfirst : ∀ s ∈ ["inf", "infinity", "nan"], (ofString s).head?.any isLetter = true := by decide
  intro s hs
  have hs := hfirst s hs
  cases hword : ofString s with
  | nil => rfl
  | cons c u =>
    rw [hword] at hs
    have hc : isLetter c = true := by simpa using hs
    have hne : b ≠ c := by
      rintro rfl
      rw [hb] at hc
      cases hc
    simp [hlower, hne]

theorem word?_spelling (n : Decimal) : word? n.spelling = none := by
  obtain ⟨b, t, ht, hb⟩ := n.exists_unsigned (p := fun b => !isLetter b) (by decide) (by decide)
  have hword := not_word (by simpa using hb) t
  obtain ⟨c, u, hu, hc⟩ : ∃ c u, n.spelling = c :: u ∧ isLetter c = false := by
    rw [spelling, ht]
    cases n.sign with
    | none => exact ⟨_, _, rfl, by simpa using hb⟩
    | some s => exact ⟨_, _, rfl, by cases s <;> decide⟩
  have hnan := not_word hc u "nan" (by decide)
  rw [← hu] at hnan
  simp only [word?, signed_spelling, ht, hword "inf" (by decide), hword "infinity" (by decide), hnan]
  rfl

theorem hexMark_unsigned (n : Decimal) : hexMark n.unsigned = none := by
  have hx := n.forall_unsigned (p := fun b => lowerByte b != byte 'x') (by decide) (by decide)
  unfold hexMark
  split
  · next x b t ht =>
    have h := hx x (by rw [ht]; simp)
    rw [if_neg (by simpa using h)]
  · rfl

/-- A numeral is read as its rounded value, unless that is infinite. -/
theorem real?_spelling (n : Decimal) :
    real? n.spelling =
      if (ofDecimal (isMinus n.sign) (number n.digits) n.scale).isInfinite then none
      else some (ofDecimal (isMinus n.sign) (number n.digits) n.scale) := by
  have hplain := n.forall_unsigned (p := fun b => b != byte '_') (by decide) (by decide)
  have hcontains : n.unsigned.contains (byte '_') = false := by
    rw [List.contains_eq_mem, decide_eq_false_iff_not]
    exact fun h => absurd (hplain _ h) (by decide)
  have hfilter : n.unsigned.filter (· != byte '_') = n.unsigned := List.filter_eq_self.2 hplain
  have hdigits : n.whole.map digitByte ++ (n.fraction.getD []).map digitByte = n.digits.map digitByte :=
    List.map_append.symm
  have hunsigned : unsigned? (isMinus n.sign) n.unsigned =
      some (ofDecimal (isMinus n.sign) (number n.digits) n.scale) := by
    simp only [unsigned?, hexMark_unsigned, parts?_unsigned, Option.map_some, hdigits, digitsValue_digits,
      List.length_map]
    rfl
  simp only [real?, word?_spelling, signed_spelling, hcontains, hfilter, hunsigned, Bool.false_and, Bool.false_eq_true,
    if_false]

/-- A numeral is plain if it has neither point nor exponent. -/
def isPlain (n : Decimal) : Bool := n.fraction.isNone && n.exponent.isNone

theorem all_isDigit_unsigned (n : Decimal) : n.unsigned.all isDigit = n.isPlain := by
  obtain ⟨sign, whole, fraction, exponent, hne⟩ := n
  have hall : (whole.map digitByte).all isDigit = true := List.all_eq_true.2 fun b => isDigit_of_mem
  have hmark (e : Exponent) : isDigit (byte (if e.capital then 'E' else 'e')) = false := by
    cases e.capital <;> decide
  have hpoint : isDigit (byte '.') = false := by decide
  cases fraction <;> cases exponent <;>
    simp [unsigned, isPlain, hall, Exponent.spelling, hmark, hpoint]

/-- Only plain numerals are read as integers. -/
theorem integer?_spelling (n : Decimal) :
    integer? n.spelling =
      if n.isPlain then some (if isMinus n.sign then -(number n.digits : Int) else number n.digits) else none := by
  have hne : n.unsigned.isEmpty = false := by
    obtain ⟨b, t, ht, -⟩ := n.exists_unsigned (p := fun _ => true) (fun _ => rfl) rfl
    rw [ht]
    rfl
  simp only [integer?, signed_spelling, hne, all_isDigit_unsigned, Bool.false_or]
  cases hplain : n.isPlain with
  | false => rfl
  | true =>
    have hdigits : n.unsigned = n.digits.map digitByte := by
      obtain ⟨sign, whole, fraction, exponent, hne⟩ := n
      simp only [isPlain, Bool.and_eq_true, Option.isNone_iff_eq_none] at hplain
      obtain ⟨rfl, rfl⟩ := hplain
      simp [unsigned, digits]
    rw [hdigits, digitsValue_digits]
    rfl

/-! ## Values -/

/-- The exact value of a numeral. -/
def value (n : Decimal) : ℚ := Binary64.withSign (isMinus n.sign) (number n.digits * 10 ^ n.scale)

end Decimal

open Binary64

theorem isInfinite_infinity (negative : Bool) : (infinity negative).isInfinite = true := by
  rw [isInfinite, infinity, magnitude_ofMagnitude negative infiniteMagnitude_lt]
  exact beq_self_eq_true _

theorem lt_pow_length_ofNat (n : Nat) : n < 10 ^ (ofNat n).length := by
  rw [ofNat, List.length_map]
  exact (Nat.length_toDigits_le_iff (by decide) (Nat.length_toDigits_pos)).1 (Nat.le_refl _)

/-- Below the shortcut for small sizes there is less than half a unit. -/
theorem small_quotient {digits : Nat} {exponent : Int} (h : ((ofNat digits).length : Int) + exponent < -330) :
    2 * (digits * 10 ^ exponent.toNat * one) < 10 ^ (-exponent).toNat := by
  have hdigits := lt_pow_length_ofNat digits
  obtain ⟨p, hp, hunits⟩ : ∃ p, p = 330 ∧ 2 * one < 10 ^ p := ⟨330, rfl, by decide +kernel⟩
  have hzero : exponent.toNat = 0 := by omega
  calc 2 * (digits * 10 ^ exponent.toNat * one) = digits * (2 * one) := by
        rw [hzero, Nat.pow_zero, Nat.mul_one, Nat.mul_left_comm]
    _ ≤ 10 ^ (ofNat digits).length * (2 * one) := Nat.mul_le_mul_right _ hdigits.le
    _ < 10 ^ (ofNat digits).length * 10 ^ p := Nat.mul_lt_mul_of_pos_left hunits (Nat.pow_pos (by decide))
    _ = 10 ^ ((ofNat digits).length + p) := (Nat.pow_add ..).symm
    _ ≤ 10 ^ (-exponent).toNat := Nat.pow_le_pow_right (by decide) (by omega)

/-- The shortcuts for zero and for small sizes do not show. -/
theorem ofDecimal_eq (negative : Bool) {digits : Nat} {exponent : Int}
    (h : digits = 0 ∨ ((ofNat digits).length : Int) + exponent ≤ 310) :
    ofDecimal negative digits exponent =
      ofQuotient negative (digits * 10 ^ exponent.toNat * one) (10 ^ (-exponent).toNat) := by
  simp only [ofDecimal, Bool.or_eq_true, decide_eq_true_eq]
  split
  · next hsmall =>
    rw [ofQuotient_eq_zero]
    rcases hsmall with rfl | hsmall
    · rw [Nat.zero_mul, Nat.zero_mul]
      exact Nat.pow_pos (by decide)
    · exact small_quotient hsmall
  · next hsmall =>
    rw [if_neg (by omega)]
    rfl

/-- Only large sizes are infinite by the shortcut. -/
theorem size_of_not_isInfinite {negative : Bool} {digits : Nat} {exponent : Int}
    (h : (ofDecimal negative digits exponent).isInfinite = false) :
    digits = 0 ∨ ((ofNat digits).length : Int) + exponent ≤ 310 := by
  by_contra hlarge
  have hinfinity : ofDecimal negative digits exponent = infinity negative := by
    simp only [ofDecimal, Bool.or_eq_true, decide_eq_true_eq]
    rw [if_neg (by omega), if_pos (by omega)]
  rw [hinfinity, isInfinite_infinity] at h
  cases h

/-- What a numeral is read as is nearest to its exact value. -/
theorem nearest_ofDecimal {negative : Bool} {digits : Nat} {exponent : Int}
    (h : (ofDecimal negative digits exponent).isInfinite = false) :
    (ofDecimal negative digits exponent).IsFinite ∧
      Nearest (withSign negative (digits * 10 ^ exponent)) (ofDecimal negative digits exponent) := by
  have hquotient := ofDecimal_eq negative (size_of_not_isInfinite h)
  have hfinite : (ofDecimal negative digits exponent).IsFinite := by
    refine isFinite_iff.2 ⟨?_, h⟩
    rw [hquotient, isNaN_ofQuotient]
  have hpower : ((10 : ℚ) ^ exponent) = 10 ^ exponent.toNat / 10 ^ (-exponent).toNat := by
    rw [← zpow_natCast, ← zpow_natCast, ← zpow_sub₀ (by norm_num)]
    congr 1
    omega
  have hvalue : (digits : ℚ) * 10 ^ exponent =
      (digits * 10 ^ exponent.toNat * one : Nat) / (10 ^ (-exponent).toNat : Nat) / one := by
    rw [hpower, Nat.cast_mul, div_right_comm, mul_div_cancel_right₀ _ cast_one_pos.ne', ← mul_div_assoc]
    push_cast
    rfl
  refine ⟨hfinite, ?_⟩
  rw [hvalue]
  rw [hquotient] at hfinite ⊢
  exact nearest_ofQuotient (Nat.pow_pos (by decide)) hfinite

end BisayaPlus.Numeral
