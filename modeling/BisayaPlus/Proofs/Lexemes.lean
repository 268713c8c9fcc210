import Mathlib.Data.List.Find
import BisayaPlus.Proofs.Segments
/-!
# Lexemes stand for themselves

What a token is depends on its own bytes and little else. Cut out of its source
and put in front of a tab, of a minus sign or of nothing, a lexeme is the same
token again, with the same literal.
-/

set_option autoImplicit false

namespace BisayaPlus.Scan

open Text

/-! ## Stretches of a class -/

theorem exists_takeWhile (p : UInt8 → Bool) (t : Text) : ∃ u, t = t.takeWhile p ++ u ∧
    (∀ c ∈ t.takeWhile p, p c = true) ∧ ∀ c ∈ u.head?, p c = false := by
  refine ⟨t.dropWhile p, List.takeWhile_append_dropWhile.symm, List.all_eq_true.1 List.all_takeWhile, fun c hc => ?_⟩
  have hstop := List.head?_dropWhile_not p t
  rw [hc] at hstop
  exact hstop

theorem takeWhile_append_stop {p : UInt8 → Bool} {t u : Text} (ht : ∀ c ∈ t, p c = true)
    (hu : ∀ c ∈ u.head?, p c = false) : (t ++ u).takeWhile p = t := by
  rw [List.takeWhile_append_of_pos ht]
  cases u with
  | nil => simp
  | cons c u => simp [hu c rfl]

theorem dropWhile_append_stop {α : Type} {p : α → Bool} {t u : List α} (ht : ∀ c ∈ t, p c = true)
    (hu : ∀ c ∈ u.head?, p c = false) : (t ++ u).dropWhile p = u := by
  rw [List.dropWhile_append_of_pos ht]
  cases u with
  | nil => rfl
  | cons c u => simp [hu c rfl]

theorem take_succ_append (t u : Text) (b : UInt8) : (t ++ b :: u).take (t.length + 1) = t ++ [b] := by
  rw [List.take_length_add_append]
  rfl

/-! ## Quotes and brackets -/

section Closed

variable {t rest : Text} {kind : Kind} {literal : Option Value} {n : Nat}

theorem stringPiece_append (h : stringPiece t = (.token kind literal, n)) :
    stringPiece (t.take n ++ rest) = (.token kind literal, n) := by
  obtain ⟨u, ht, hbody, hu⟩ := exists_takeWhile (· != byte '"') t
  unfold stringPiece at h ⊢
  generalize t.takeWhile (· != byte '"') = body at ht hbody h
  subst ht
  cases u with
  | nil => simp at h
  | cons quote u =>
    have hclosed : (body ++ quote :: rest).takeWhile (· != byte '"') = body :=
      takeWhile_append_stop hbody hu
    have hsize : body.length < (body ++ quote :: u).length := by simp
    rw [if_pos hsize] at h
    obtain ⟨hpiece, rfl⟩ := Prod.mk.inj h
    rw [take_succ_append, List.append_assoc, List.singleton_append, hclosed, ← hpiece]
    simp

theorem charPiece_append (h : charPiece t = (.token kind literal, n)) :
    charPiece (t.take n ++ rest) = (.token kind literal, n) := by
  obtain ⟨u, ht, hbody, hu⟩ := exists_takeWhile (fun b => b != byte '\'' && b != lineFeed) t
  unfold charPiece at h ⊢
  generalize t.takeWhile (fun b => b != byte '\'' && b != lineFeed) = body at ht hbody h
  subst ht
  dsimp only at h ⊢
  rw [List.drop_left] at h
  split at h
  · next hquote =>
    obtain ⟨u, rfl⟩ : ∃ u', u = byte '\'' :: u' := by
      cases u with
      | nil => simp at hquote
      | cons quote u => exact ⟨u, by simpa using hquote⟩
    have hclosed : (body ++ byte '\'' :: rest).takeWhile (fun b => b != byte '\'' && b != lineFeed) = body :=
      takeWhile_append_stop hbody hu
    split at h
    · next c hc =>
      obtain ⟨hpiece, rfl⟩ := Prod.mk.inj h
      rw [take_succ_append, List.append_assoc, List.singleton_append, hclosed, List.drop_left, hc, ← hpiece]
      simp
    · cases h
  · cases h

/-- A closed pair of brackets may be followed by anything, but by a closing
bracket only if it was before. -/
theorem escapePiece_append (h : escapePiece t = (.token kind literal, n))
    (hrest : rest.head? = some (byte ']') → (t.drop n).head? = some (byte ']')) :
    escapePiece (t.take n ++ rest) = (.token kind literal, n) := by
  obtain ⟨u, ht, hbody, hu⟩ := exists_takeWhile (fun b => b != byte ']' && b != lineFeed) t
  unfold escapePiece at h ⊢
  generalize t.takeWhile (fun b => b != byte ']' && b != lineFeed) = body at ht hbody h
  subst ht
  dsimp only at h ⊢
  rw [List.drop_left] at h
  split at h
  · next u =>
    have hclosed (x : Text) : (body ++ 93 :: x).takeWhile (fun b => b != byte ']' && b != lineFeed) = body :=
      takeWhile_append_stop hbody hu
    split at h
    · split at h
      · next hdouble =>
        obtain ⟨hpiece, rfl⟩ := Prod.mk.inj h
        obtain ⟨u, rfl⟩ : ∃ u', u = byte ']' :: u' := by
          cases u with
          | nil => simp at hdouble
          | cons bracket u => exact ⟨u, by simpa using hdouble⟩
        rw [← hpiece]
        rfl
      · next hsingle =>
        obtain ⟨hpiece, rfl⟩ := Prod.mk.inj h
        have hopen : ¬(rest.head? == some (byte ']')) = true := fun hclosed =>
          hsingle (beq_iff_eq.2 (hrest (beq_iff_eq.1 hclosed)))
        have htext : ([] ++ 93 :: u : Text).take 1 ++ rest = [] ++ 93 :: rest := rfl
        rw [htext, hclosed, List.drop_left, ← hpiece]
        exact if_neg hopen
    · next b =>
      obtain ⟨hpiece, rfl⟩ := Prod.mk.inj h
      have htext : ([b] ++ 93 :: u : Text).take 2 ++ rest = [b] ++ 93 :: rest := rfl
      rw [htext, hclosed, List.drop_left, ← hpiece]
      rfl
    · cases h
  · cases h

end Closed

/-! ## Numbers -/

/-- Digits, a point and more digits. -/
theorem mantissa_fraction {whole fraction u : Text} (hwhole : ∀ c ∈ whole, isDigit c = true)
    (hfraction : ∀ c ∈ fraction, isDigit c = true) (hne : fraction ≠ []) (hu : ∀ c ∈ u.head?, isDigit c = false) :
    mantissa (whole ++ 46 :: (fraction ++ u)) = (whole.length + 1 + fraction.length, true) := by
  have hpoint : (whole ++ 46 :: (fraction ++ u)).takeWhile isDigit = whole :=
    takeWhile_append_stop hwhole fun c hc => by
      obtain rfl : 46 = c := by simpa using hc
      rfl
  unfold mantissa
  dsimp only
  rw [hpoint, List.drop_left]
  change (if ((fraction ++ u).takeWhile isDigit).isEmpty then _ else _) = _
  rw [takeWhile_append_stop hfraction hu]
  exact if_neg (by simpa using hne)

/-- Digits that no fraction follows. -/
theorem mantissa_whole {whole u : Text} (hwhole : ∀ c ∈ whole, isDigit c = true) (hu : ∀ c ∈ u.head?, isDigit c = false)
    (hpoint : ∀ r, u = 46 :: r → r.takeWhile isDigit = []) : mantissa (whole ++ u) = (whole.length, false) := by
  unfold mantissa
  dsimp only
  rw [takeWhile_append_stop hwhole hu, List.drop_left]
  split
  · next r => rw [hpoint r rfl]; rfl
  · rfl

/-- A mantissa ends in front of what neither is a digit nor starts a fraction. -/
theorem mantissa_append {s u : Text} (hu : ∀ c ∈ u.head?, isDigit c = false ∧ c ≠ 46) :
    mantissa (s.take (mantissa s).1 ++ u) = mantissa s := by
  have hu' : ∀ c ∈ u.head?, isDigit c = false := fun c hc => (hu c hc).1
  obtain ⟨v, hs, hwhole, hv⟩ := exists_takeWhile isDigit s
  generalize s.takeWhile isDigit = whole at hs hwhole
  subst hs
  by_cases hfraction : ∃ r, v = 46 :: r ∧ r.takeWhile isDigit ≠ []
  · obtain ⟨r, rfl, hne⟩ := hfraction
    obtain ⟨w, hr, hdigits, hw⟩ := exists_takeWhile isDigit r
    generalize r.takeWhile isDigit = fraction at hr hdigits hne
    subst hr
    have htake : (whole ++ 46 :: (fraction ++ w)).take (whole.length + 1 + fraction.length) ++ u =
        whole ++ 46 :: (fraction ++ u) := by
      rw [Nat.add_assoc, List.take_length_add_append, Nat.add_comm 1, List.take_succ_cons, List.take_left]
      simp
    rw [mantissa_fraction hwhole hdigits hne hw, htake, mantissa_fraction hwhole hdigits hne hu']
  · have hpoint : ∀ r, v = 46 :: r → r.takeWhile isDigit = [] := fun r hr =>
      Classical.byContradiction fun hne => hfraction ⟨r, hr, hne⟩
    have hnone : ∀ r, u = 46 :: r → r.takeWhile isDigit = [] := by
      rintro r rfl
      exact absurd rfl (hu 46 rfl).2
    rw [mantissa_whole hwhole hv hpoint, List.take_left, mantissa_whole hwhole hu' hnone]

/-- The letter of an exponent ends a mantissa. -/
theorem not_mantissa_of_exponent {e : UInt8} (he : (lowerByte e == byte 'e') = true) : isDigit e = false ∧ e ≠ 46 := by
  constructor
  · cases hdigit : isDigit e with
    | false => rfl
    | true =>
      simp only [isDigit, Bool.and_eq_true, decide_eq_true_eq] at hdigit
      have hlower : lowerByte e = e := if_neg (by simp; grind)
      rw [hlower] at he
      obtain rfl : e = byte 'e' := by simpa using he
      exact absurd hdigit.2 (by decide)
  · rintro rfl
    exact absurd he (by decide)

theorem numberPiece_plain {m u : Text} {hasFraction : Bool} (hm : mantissa (m ++ u) = (m.length, hasFraction))
    (hu : ∀ c ∈ u.head?, (lowerByte c == byte 'e') = false) :
    numberPiece (m ++ u) = (numeralPiece hasFraction m, m.length) := by
  unfold numberPiece
  rw [hm]
  dsimp only
  rw [List.drop_left, List.take_left]
  split
  · next e u => exact if_neg (by simp [hu e rfl])
  · rfl

/-- The size of the sign of an exponent. -/
def signSize (t : Text) : Nat := if t.head? == some (byte '+') || t.head? == some (byte '-') then 1 else 0

theorem signSize_le (t : Text) : signSize t ≤ t.length := by
  cases t with
  | nil => exact Nat.le_refl _
  | cons b t =>
    unfold signSize
    split <;> simp

theorem take_exponent (m sign digits u : Text) (e : UInt8) :
    (m ++ e :: (sign ++ (digits ++ u))).take (m.length + 1 + sign.length + digits.length) =
      m ++ e :: (sign ++ digits) := by
  rw [← List.append_assoc sign, ← List.cons_append, ← List.append_assoc]
  exact List.take_left' (by simp; omega)

theorem numberPiece_exponent {m sign digits u : Text} {e : UInt8} {hasFraction : Bool}
    (hm : mantissa (m ++ e :: (sign ++ (digits ++ u))) = (m.length, hasFraction))
    (he : (lowerByte e == byte 'e') = true) (hsign : signSize (sign ++ (digits ++ u)) = sign.length)
    (hdigits : ∀ c ∈ digits, isDigit c = true) (hu : ∀ c ∈ u.head?, isDigit c = false) :
    numberPiece (m ++ e :: (sign ++ (digits ++ u))) =
      (if digits.isEmpty then .fault .invalidExponent else numeralPiece true (m ++ e :: (sign ++ digits)),
        m.length + 1 + sign.length + digits.length) := by
  unfold signSize at hsign
  unfold numberPiece
  rw [hm]
  dsimp only
  rw [List.drop_left]
  dsimp only
  rw [if_pos he, hsign, List.drop_left, takeWhile_append_stop hdigits hu, take_exponent]
  split <;> rfl

/-- A number ends in front of a tab, of a minus sign or of nothing. -/
theorem numberPiece_append {s rest : Text} {kind : Kind} {literal : Option Value} {n : Nat}
    (h : numberPiece s = (.token kind literal, n)) (hrest : ∀ c ∈ rest.head?, c = 9 ∨ c = byte '-') :
    numberPiece (s.take n ++ rest) = (.token kind literal, n) := by
  have hdigit : ∀ c ∈ rest.head?, isDigit c = false := by
    intro c hc
    rcases hrest c hc with rfl | rfl <;> rfl
  obtain ⟨m, u, rfl, hm⟩ : ∃ m u, s = m ++ u ∧ mantissa s = (m.length, (mantissa s).2) := by
    refine ⟨s.take (mantissa s).1, s.drop (mantissa s).1, (List.take_append_drop ..).symm, ?_⟩
    rw [List.length_take, Nat.min_eq_left (mantissa_le s)]
  have hagain : ∀ x : Text, (∀ c ∈ x.head?, isDigit c = false ∧ c ≠ 46) →
      mantissa (m ++ x) = (m.length, (mantissa (m ++ u)).2) := by
    intro x hx
    have happend := mantissa_append (s := m ++ u) hx
    rwa [hm, List.take_left] at happend
  by_cases hexponent : ∃ e ∈ u.head?, (lowerByte e == byte 'e') = true
  · obtain ⟨e, heq, he⟩ := hexponent
    obtain ⟨v, rfl⟩ : ∃ v, u = e :: v := List.head?_eq_some_iff.1 heq
    obtain ⟨sign, w, rfl, hsign⟩ : ∃ sign w, v = sign ++ w ∧ signSize v = sign.length := by
      refine ⟨v.take (signSize v), v.drop (signSize v), (List.take_append_drop ..).symm, ?_⟩
      rw [List.length_take, Nat.min_eq_left (signSize_le v)]
    obtain ⟨x, hw, hdigits, hx⟩ := exists_takeWhile isDigit w
    generalize w.takeWhile isDigit = digits at hw hdigits
    subst hw
    rw [numberPiece_exponent hm he hsign hdigits hx] at h
    obtain ⟨hpiece, rfl⟩ := Prod.mk.inj h
    cases digits with
    | nil => cases hpiece
    | cons d digits =>
      have htext : m ++ e :: (sign ++ d :: digits) ++ rest = m ++ e :: (sign ++ (d :: digits ++ rest)) := by simp
      -- the sign of the exponent is told by the byte behind the letter, which is still there
      have hsign' : signSize (sign ++ (d :: digits ++ rest)) = sign.length := by
        rw [← hsign]
        unfold signSize
        cases sign <;> rfl
      rw [take_exponent, htext, numberPiece_exponent (hagain _ fun c hc => ?_) he hsign' hdigits hdigit, hpiece]
      obtain rfl : e = c := by simpa using hc
      exact not_mantissa_of_exponent he
  · have hu : ∀ c ∈ u.head?, (lowerByte c == byte 'e') = false := by
      intro c hc
      simpa using fun he => hexponent ⟨c, hc, by simpa using he⟩
    rw [numberPiece_plain hm hu] at h
    obtain ⟨hpiece, rfl⟩ := Prod.mk.inj h
    rw [List.take_left, numberPiece_plain (hagain rest ?_) ?_, hpiece]
    · intro c hc
      rcases hrest c hc with rfl | rfl <;> decide
    · intro c hc
      rcases hrest c hc with rfl | rfl <;> rfl

theorem takeWhile_le_mantissa (s : Text) : (s.takeWhile isDigit).length ≤ (mantissa s).1 := by
  unfold mantissa
  dsimp only
  split
  · split <;> (dsimp only; omega)
  · exact Nat.le_refl _

theorem mantissa_le_numberPiece (s : Text) : (mantissa s).1 ≤ (numberPiece s).2 := by
  unfold numberPiece
  dsimp only
  split
  · next e rest _ =>
    split
    · generalize (if rest.head? == some (byte '+') || rest.head? == some (byte '-') then 1 else 0) = size
      split <;> (dsimp only; omega)
    · exact Nat.le_refl _
  · exact Nat.le_refl _

/-- A mantissa takes its first byte, and a point takes the digit behind it too. -/
theorem mantissa_pos {b : UInt8} {t : Text} (h : (isDigit b || (b == byte '.' && t.head?.any isDigit)) = true) :
    0 < (mantissa (b :: t)).1 ∧ (isDigit b = false → 1 < (mantissa (b :: t)).1) := by
  cases hdigit : isDigit b with
  | true =>
    have hwhole := takeWhile_le_mantissa (b :: t)
    rw [List.takeWhile_cons_of_pos hdigit, List.length_cons] at hwhole
    exact ⟨by omega, nofun⟩
  | false =>
    simp only [hdigit, Bool.false_or, Bool.and_eq_true, beq_iff_eq] at h
    obtain ⟨rfl, hhead⟩ := h
    obtain ⟨u, ht, hdigits, hu⟩ := exists_takeWhile isDigit t
    have hne : t.takeWhile isDigit ≠ [] := by
      cases t with
      | nil => simp at hhead
      | cons d t => simp [show isDigit d = true by simpa using hhead]
    have hpoint : mantissa (byte '.' :: t) = (0 + 1 + (t.takeWhile isDigit).length, true) := by
      rw [ht, takeWhile_append_stop hdigits hu]
      have hfraction : mantissa ([] ++ 46 :: (t.takeWhile isDigit ++ u)) = _ :=
        mantissa_fraction (by simp) hdigits hne hu
      exact hfraction
    have hpos := List.length_pos_iff.2 hne
    rw [hpoint]
    exact ⟨by omega, fun _ => by omega⟩

theorem numberPiece_pos {b : UInt8} {t : Text} (h : (isDigit b || (b == byte '.' && t.head?.any isDigit)) = true) :
    0 < (numberPiece (b :: t)).2 ∧ (isDigit b = false → 1 < (numberPiece (b :: t)).2) := by
  have hsize := mantissa_le_numberPiece (b :: t)
  obtain ⟨hpos, hpoint⟩ := mantissa_pos h
  exact ⟨Nat.lt_of_lt_of_le hpos hsize, fun hdigit => Nat.lt_of_lt_of_le (hpoint hdigit) hsize⟩

/-! ## Words -/

theorem phrase?_space (word r : Text) : phrase? word (32 :: r) =
    (spelled? phrases (word ++ 32 :: r.takeWhile isWordByte)).map fun kind =>
      (kind, (r.takeWhile isWordByte).length + 1) := rfl

/-- A word ends in front of a tab, of a minus sign or of nothing. -/
theorem wordPiece_append {b : UInt8} {t rest : Text} {kind : Kind} {literal : Option Value} {n : Nat}
    (h : wordPiece b t = (.token kind literal, n)) (hrest : ∀ c ∈ rest.head?, c = 9 ∨ c = byte '-') :
    wordPiece b (t.take n ++ rest) = (.token kind literal, n) := by
  have hstop : ∀ c ∈ rest.head?, isWordByte c = false := by
    intro c hc
    rcases hrest c hc with rfl | rfl <;> rfl
  obtain ⟨u, ht, htail, hu⟩ := exists_takeWhile isWordByte t
  unfold wordPiece at h ⊢
  generalize t.takeWhile isWordByte = tail at ht htail h
  subst ht
  dsimp only at h ⊢
  rw [List.drop_left] at h
  split at h
  · next found size hphrase =>
    obtain ⟨hpiece, rfl⟩ := Prod.mk.inj h
    unfold phrase? at hphrase
    split at hphrase
    · next r =>
      obtain ⟨v, hr, hsecond, -⟩ := exists_takeWhile isWordByte r
      generalize r.takeWhile isWordByte = second at hr hsecond hphrase
      subst hr
      obtain ⟨k, hspelled, heq⟩ := Option.map_eq_some_iff.1 hphrase
      obtain ⟨rfl, rfl⟩ := Prod.mk.inj heq
      have htext : (tail ++ 32 :: (second ++ v)).take (tail.length + (second.length + 1)) ++ rest =
          tail ++ 32 :: (second ++ rest) := by
        rw [List.take_length_add_append, List.take_succ_cons, List.take_left]
        simp
      have hword : (tail ++ 32 :: (second ++ rest)).takeWhile isWordByte = tail := takeWhile_append_stop htail hu
      have hphrase' : phrase? (b :: tail) (32 :: (second ++ rest)) = some (k, second.length + 1) := by
        rw [phrase?_space, takeWhile_append_stop hsecond hstop, hspelled]
        rfl
      rw [htext, hword, List.drop_left, hphrase', ← hpiece]
    · cases hphrase
  · obtain ⟨hpiece, rfl⟩ := Prod.mk.inj h
    have hnone : phrase? (b :: tail) rest = none := by
      unfold phrase?
      split
      · next r => rcases hrest 32 rfl with h | h <;> exact absurd h (by decide)
      · rfl
    rw [List.take_left, takeWhile_append_stop htail hstop, List.drop_left, hnone, ← hpiece]

/-! ## Signs -/

theorem isPrefixOf_append {p q u : Text} (hq : q ≠ []) (hu : ∀ c ∈ u.head?, c ∉ p.tail) :
    p.isPrefixOf (q ++ u) = p.isPrefixOf q := by
  rw [Bool.eq_iff_iff, List.isPrefixOf_iff_prefix, List.isPrefixOf_iff_prefix]
  refine ⟨fun h => ?_, fun h => h.trans (List.prefix_append q u)⟩
  rcases Nat.le_total p.length q.length with hle | hle
  · exact List.prefix_of_prefix_length_le h (List.prefix_append q u) hle
  · obtain ⟨r, rfl⟩ := List.prefix_of_prefix_length_le (List.prefix_append q u) h hle
    cases r with
    | nil => simp
    | cons c r =>
      obtain ⟨v, rfl⟩ := (List.prefix_append_right_inj q).1 h
      obtain ⟨a, q, rfl⟩ := List.exists_cons_of_ne_nil hq
      exact absurd (by simp) (hu c rfl)

/-- No sign goes on with a tab or with a minus sign. -/
theorem sign?_append {q rest : Text} (hq : q ≠ []) (hrest : ∀ c ∈ rest.head?, c = 9 ∨ c = byte '-') :
    sign? (q ++ rest) = sign? q := by
  have htable : ∀ entry ∈ signs, 9 ∉ (ofString entry.1).tail ∧ byte '-' ∉ (ofString entry.1).tail := by decide
  unfold sign?
  rw [List.find?_congr fun entry hentry => isPrefixOf_append hq fun c hc => ?_]
  rcases hrest c hc with rfl | rfl
  · exact (htable entry hentry).1
  · exact (htable entry hentry).2

theorem sign?_eq_some {s : Text} {kind : Kind} {n : Nat} (h : sign? s = some (kind, n)) :
    ∃ spelling, (spelling, kind) ∈ signs ∧ n = (ofString spelling).length ∧ s.take n = ofString spelling := by
  obtain ⟨entry, hentry, heq⟩ := Option.map_eq_some_iff.1 h
  obtain ⟨rfl, rfl⟩ := Prod.mk.inj heq
  have hspelled : (ofString entry.1).isPrefixOf s = true := by simpa using List.find?_some hentry
  refine ⟨entry.1, List.mem_of_find?_eq_some hentry, rfl, ?_⟩
  exact (List.prefix_iff_eq_take.1 (List.isPrefixOf_iff_prefix.1 hspelled)).symm

/-- A sign ends in front of a tab, of a minus sign or of nothing. -/
theorem sign?_take_append {s rest : Text} {kind : Kind} {n : Nat} (h : sign? s = some (kind, n))
    (hrest : ∀ c ∈ rest.head?, c = 9 ∨ c = byte '-') : sign? (s.take n ++ rest) = some (kind, n) := by
  have htable : ∀ entry ∈ signs, ofString entry.1 ≠ [] ∧
      sign? (ofString entry.1) = some (entry.2, (ofString entry.1).length) := by decide
  obtain ⟨spelling, hmem, rfl, htake⟩ := sign?_eq_some h
  obtain ⟨hne, hsign⟩ := htable _ hmem
  rw [htake, sign?_append hne hrest, hsign]

/-! ## Any token -/

/-- How a token other than a decrement is cut from a first byte and what follows
it. -/
inductive Cuts (b : UInt8) (t : Text) (found : Piece × Nat) : Prop where
  | string : b = byte '"' → stringPiece t = found → Cuts b t found
  | char : b = byte '\'' → charPiece t = found → Cuts b t found
  | escape : b = byte '[' → escapePiece t = found → Cuts b t found
  | number {piece : Piece} {size : Nat} : (isDigit b || (b == byte '.' && t.head?.any isDigit)) = true →
      numberPiece (b :: t) = (piece, size) → (piece, size - 1) = found → Cuts b t found
  | word : isLetter b = true → wordPiece b t = found → Cuts b t found
  | sign {kind : Kind} {size : Nat} : sign? (b :: t) = some (kind, size) → (.token kind none, size - 1) = found →
      Cuts b t found

section Cuts

variable {before : Before} {b : UInt8} {t : Text} {kind : Kind} {literal : Option Value} {n : Nat}

theorem cuts_pieceAt (hminus : ¬(b == byte '-' && t.head? == some (byte '-')) = true)
    (h : pieceAt before b t = (.token kind literal, n)) : Cuts b t (.token kind literal, n) := by
  unfold pieceAt at h
  rw [if_neg hminus] at h
  split at h
  · cases h
  · split at h
    · next hb => exact .string (by simpa using hb) h
    · split at h
      · next hb => exact .char (by simpa using hb) h
      · split at h
        · next hb => exact .escape (by simpa using hb) h
        · split at h
          · next hb => exact .number hb rfl h
          · split at h
            · next hb => exact .word hb h
            · split at h
              · next hsign => exact .sign hsign h
              · cases h

/-- The bytes that decide at once what a segment is. -/
def marks : List UInt8 := [32, 13, 9, byte '"', byte '\'', byte '[']

theorem not_mem_marks {p : UInt8 → Bool} (hmarks : marks.any p = false) (hb : p b = true) : b ∉ marks := by
  intro hmem
  rw [List.any_eq_true.2 ⟨b, hmem, hb⟩] at hmarks
  cases hmarks

theorem isDigit_eq_false_of_isLetter (hb : isLetter b = true) : isDigit b = false := by
  cases hdigit : isDigit b with
  | false => rfl
  | true =>
    simp only [isDigit, isLetter, Bool.and_eq_true, Bool.or_eq_true, decide_eq_true_eq, beq_iff_eq] at hdigit hb
    grind

/-- The bytes that start a sign start nothing else. -/
theorem sign_first {size : Nat} (h : sign? (b :: t) = some (kind, size)) :
    b ∉ marks ∧ b ≠ byte '.' ∧ isDigit b = false ∧ isLetter b = false ∧ 0 < size := by
  have htable : ∀ entry ∈ signs, 0 < (ofString entry.1).length ∧ (ofString entry.1).head?.all (fun b =>
      b ∉ marks ∧ b ≠ byte '.' ∧ isDigit b = false ∧ isLetter b = false) = true := by decide
  obtain ⟨spelling, hmem, rfl, htake⟩ := sign?_eq_some h
  obtain ⟨hpos, hfirst⟩ := htable _ hmem
  obtain ⟨k, hk⟩ := Nat.exists_eq_add_one.2 hpos
  have hb : (ofString spelling).head? = some b := by
    rw [← htake, hk]
    rfl
  rw [hb] at hfirst
  obtain ⟨hmark, hpoint, hdigit, hletter⟩ := of_decide_eq_true hfirst
  exact ⟨hmark, hpoint, hdigit, hletter, hpos⟩

theorem Cuts.pieceAt_eq {found : Piece × Nat} (before : Before) (h : Cuts b t found)
    (hminus : ¬(b == byte '-' && t.head? == some (byte '-')) = true) : pieceAt before b t = found := by
  unfold pieceAt
  rw [if_neg hminus]
  cases h with
  | string hb hfound | char hb hfound | escape hb hfound =>
    subst hb
    exact hfound
  | number hb hnumber hfound =>
    have hmark : b ∉ marks := by
      rcases Bool.or_eq_true_iff.1 hb with hb | hb
      · exact not_mem_marks (by decide) hb
      · rw [(Bool.and_eq_true_iff.1 hb).1 |> beq_iff_eq.1]
        decide
    simp only [marks, List.mem_cons, List.not_mem_nil, or_false, not_or] at hmark
    rw [hnumber]
    simp [hb, hmark, hfound]
  | word hb hfound =>
    have hmark : b ∉ marks := not_mem_marks (by decide) hb
    have hpoint : b ≠ byte '.' := by
      rintro rfl
      exact absurd hb (by decide)
    simp only [marks, List.mem_cons, List.not_mem_nil, or_false, not_or] at hmark
    simp [hb, hmark, hpoint, isDigit_eq_false_of_isLetter hb, hfound]
  | sign hsign hfound =>
    obtain ⟨hmark, hpoint, hdigit, hletter, -⟩ := sign_first hsign
    simp only [marks, List.mem_cons, List.not_mem_nil, or_false, not_or] at hmark
    simp [hmark, hpoint, hdigit, hletter, hsign, hfound]

theorem numberPiece_kind {s : Text} (h : (numberPiece s).1 = .token kind literal) : kind = .number := by
  have hnumeral (isReal : Bool) (lexeme : Text) (h : numeralPiece isReal lexeme = .token kind literal) :
      kind = .number := by
    unfold numeralPiece at h
    dsimp only at h
    split at h
    · exact (Piece.token.inj h).1.symm
    · cases h
  unfold numberPiece at h
  dsimp only at h
  split at h
  · next e rest _ =>
    split at h
    · generalize (if rest.head? == some (byte '+') || rest.head? == some (byte '-') then 1 else 0) = size at h
      split at h
      · cases h
      · exact hnumeral _ _ h
    · exact hnumeral _ _ h
  · exact hnumeral _ _ h

/-- The kinds of names, reserved words and reserved phrases. -/
def wordKinds : List Kind := [
  .identifier, .sugod, .katapusan, .mugna, .ipakita, .dawat, .numero, .tipik, .letra, .tinuod, .ug, .o, .dili, .oo,
  .null, .kung, .kungPa, .kungWala, .alangSa, .mintras, .buhata, .hunong, .padayon, .pundok]

theorem mem_wordKinds {entry : String × Kind} (h : entry ∈ keywords ++ phrases) : entry.2 ∈ wordKinds :=
  (by decide : ∀ entry ∈ keywords ++ phrases, entry.2 ∈ wordKinds) entry h

theorem wordPiece_kind (h : (wordPiece b t).1 = .token kind literal) : kind ∈ wordKinds := by
  unfold wordPiece at h
  dsimp only at h
  split at h
  · next hphrase =>
    obtain ⟨rfl, -⟩ := Piece.token.inj h
    unfold phrase? at hphrase
    split at hphrase
    · obtain ⟨kind, hspelled, hfound⟩ := Option.map_eq_some_iff.1 hphrase
      obtain ⟨rfl, -⟩ := Prod.mk.inj hfound
      obtain ⟨spelling, hmem⟩ := spelled?_mem hspelled
      exact mem_wordKinds (List.mem_append_right _ hmem)
    · cases hphrase
  · obtain ⟨rfl, -⟩ := Piece.token.inj h
    cases hspelled : spelled? keywords (b :: t.takeWhile isWordByte) with
    | none => exact List.mem_cons_self
    | some kind =>
      obtain ⟨spelling, hmem⟩ := spelled?_mem hspelled
      exact mem_wordKinds (List.mem_append_left _ hmem)

/-- A token is a literal, a word or a sign, and a sign is spelled as in the
table. -/
theorem Cuts.kind_cases (h : Cuts b t (.token kind literal, n)) :
    kind ∈ [Kind.string, .char, .escape, .number] ++ wordKinds ∨
      ∃ spelling, (spelling, kind) ∈ signs ∧ b :: t.take n = ofString spelling := by
  cases h with
  | string _ h =>
    unfold stringPiece at h
    dsimp only at h
    split at h <;> cases h
    exact .inl (by simp)
  | char _ h =>
    unfold charPiece at h
    dsimp only at h
    repeat' split at h
    all_goals cases h
    exact .inl (by simp)
  | escape _ h =>
    unfold escapePiece at h
    dsimp only at h
    repeat' split at h
    all_goals cases h
    all_goals exact .inl (by simp)
  | number _ hnumber hfound =>
    obtain rfl := numberPiece_kind (by rw [hnumber]; exact (Prod.mk.inj hfound).1)
    exact .inl (by simp)
  | word _ hfound => exact .inl (List.mem_append_right _ (wordPiece_kind (congrArg Prod.fst hfound)))
  | sign hsign hfound =>
    obtain ⟨-, -, -, -, hpos⟩ := sign_first hsign
    obtain ⟨size, rfl⟩ := Nat.exists_eq_add_one.2 hpos
    obtain ⟨spelling, hmem, -, htake⟩ := sign?_eq_some hsign
    obtain ⟨hpiece, rfl⟩ := Prod.mk.inj hfound
    obtain ⟨rfl, -⟩ := Piece.token.inj hpiece
    exact .inr ⟨spelling, hmem, htake⟩

/-- A single minus sign is a minus. -/
theorem Cuts.kind_eq_minus (h : Cuts (byte '-') t (.token kind literal, 0)) : kind = .minus := by
  have htable : ∀ entry ∈ signs, ofString entry.1 = [byte '-'] → entry.2 = .minus := by decide
  cases h with
  | string hb | char hb | escape hb | word hb => exact absurd hb (by decide)
  | number hb => exact absurd hb (Bool.false_ne_true)
  | sign hsign hfound =>
    obtain ⟨-, -, -, -, hpos⟩ := sign_first hsign
    obtain ⟨spelling, hmem, -, htake⟩ := sign?_eq_some hsign
    obtain ⟨hpiece, hsize⟩ := Prod.mk.inj hfound
    obtain ⟨rfl, -⟩ := Piece.token.inj hpiece
    rw [Nat.le_antisymm (Nat.sub_eq_zero_iff_le.1 hsize) hpos] at htake
    exact htable _ hmem htake.symm

theorem head?_take_append {rest : Text} (hpos : 0 < n) (hn : n ≤ t.length) : (t.take n ++ rest).head? = t.head? := by
  obtain ⟨n, rfl⟩ := Nat.exists_eq_add_one.2 hpos
  cases t with
  | nil => simp at hn
  | cons b t => rfl

/-- The lexeme of a token, put in front of a tab, of a minus sign or of nothing,
is cut in the same way. -/
theorem Cuts.append {rest : Text} (h : Cuts b t (.token kind literal, n)) (hn : n ≤ t.length)
    (hrest : ∀ c ∈ rest.head?, c = 9 ∨ c = byte '-') : Cuts b (t.take n ++ rest) (.token kind literal, n) := by
  cases h with
  | string hb hfound => exact .string hb (stringPiece_append hfound)
  | char hb hfound => exact .char hb (charPiece_append hfound)
  | escape hb hfound =>
    refine .escape hb (escapePiece_append hfound fun hclosed => ?_)
    rcases hrest _ hclosed with h | h <;> exact absurd h (by decide)
  | @number piece size hb hnumber hfound =>
    obtain ⟨hpos, hpoint⟩ := numberPiece_pos hb
    rw [hnumber] at hpos hpoint
    obtain ⟨rfl, rfl⟩ := Prod.mk.inj hfound
    obtain ⟨n, rfl⟩ := Nat.exists_eq_add_one.2 hpos
    have hagain : numberPiece (b :: (t.take n ++ rest)) = (.token kind literal, n + 1) :=
      numberPiece_append hnumber hrest
    refine .number ?_ hagain rfl
    cases hdigit : isDigit b with
    | true => rfl
    | false =>
      have hlong := hpoint hdigit
      rw [Nat.add_sub_cancel] at hn ⊢
      rw [head?_take_append (Nat.lt_of_succ_lt_succ hlong) hn, ← hdigit]
      exact hb
  | word hb hfound => exact .word hb (wordPiece_append hfound hrest)
  | @sign found size hsign hfound =>
    obtain ⟨-, -, -, -, hpos⟩ := sign_first hsign
    obtain ⟨n, rfl⟩ := Nat.exists_eq_add_one.2 hpos
    obtain ⟨hpiece, rfl⟩ := Prod.mk.inj hfound
    have hagain : sign? (b :: (t.take n ++ rest)) = some (found, n + 1) := sign?_take_append hsign hrest
    exact .sign hagain hfound

/-- The lexeme of a token is the same token again in front of a tab, of a minus
sign or of nothing. But a minus does not stay one in front of a minus sign, and
what two minus signs are depends on more. -/
theorem pieceAt_append {rest : Text} (before' : Before) (h : pieceAt before b t = (.token kind literal, n))
    (hminus : ¬(b == byte '-' && t.head? == some (byte '-')) = true)
    (hrest : ∀ c ∈ rest.head?, c = 9 ∨ c = byte '-' ∧ kind ≠ .minus) :
    pieceAt before' b (t.take n ++ rest) = (.token kind literal, n) := by
  have hn : n ≤ t.length := by
    have hwithin := within_pieceAt before b t
    rw [h] at hwithin
    exact hwithin.size_le
  have hcuts := cuts_pieceAt hminus h
  refine (hcuts.append hn fun c hc => (hrest c hc).imp_right And.left).pieceAt_eq before' ?_
  rcases Nat.eq_zero_or_pos n with rfl | hpos
  · simp only [Bool.and_eq_true, beq_iff_eq, not_and, List.take_zero, List.nil_append]
    rintro rfl hhead
    rcases hrest _ hhead with h | ⟨-, hkind⟩
    · exact absurd h (by decide)
    · exact hkind hcuts.kind_eq_minus
  · rwa [head?_take_append hpos hn]

end Cuts

end BisayaPlus.Scan
