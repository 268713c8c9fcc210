import Mathlib.Data.List.DropRight
import BisayaPlus.Proofs.Targets
/-!
# Breaking lines is associative

The sign `$` puts two texts on lines of their own and drops the blanks around
the break, line feeds among them. Broken again, a text is trimmed again, and a
break with nothing but blanks behind it goes away. Either way of grouping three
operands gives the same text.
-/

set_option autoImplicit false

namespace BisayaPlus

/-! ## Trimming -/

namespace Text

variable {p : UInt8 → Bool} {t : Text}

theorem trimLeft_eq_nil_iff : trimLeft p t = [] ↔ t.all p = true :=
  List.dropWhile_eq_nil_iff.trans List.all_eq_true.symm

theorem trimRight_eq_nil_iff : trimRight p t = [] ↔ t.all p = true :=
  List.rdropWhile_eq_nil_iff.trans List.all_eq_true.symm

theorem trimLeft_idem (t : Text) : trimLeft p (trimLeft p t) = trimLeft p t := List.dropWhile_idempotent p t

theorem trimRight_idem (t : Text) : trimRight p (trimRight p t) = trimRight p t := List.rdropWhile_idempotent p t

theorem all_trimLeft (t : Text) : (trimLeft p t).all p = t.all p := by
  rw [Bool.eq_iff_iff, ← trimLeft_eq_nil_iff, trimLeft_idem, trimLeft_eq_nil_iff]

theorem all_trimRight (t : Text) : (trimRight p t).all p = t.all p := by
  rw [Bool.eq_iff_iff, ← trimRight_eq_nil_iff, trimRight_idem, trimRight_eq_nil_iff]

/-- Trimming from the left goes on behind blanks and stops at anything else. -/
theorem trimLeft_append (t u : Text) :
    trimLeft p (t ++ u) = if t.all p then trimLeft p u else trimLeft p t ++ u := by
  have hempty : (t.dropWhile p).isEmpty = t.all p := by
    rw [Bool.eq_iff_iff, List.isEmpty_iff]
    exact trimLeft_eq_nil_iff
  rw [trimLeft, List.dropWhile_append, hempty]
  rfl

theorem trimRight_append (t u : Text) :
    trimRight p (t ++ u) = if u.all p then trimRight p t else t ++ trimRight p u := by
  rw [trimRight, List.reverse_append, ← trimLeft, trimLeft_append, List.all_reverse, apply_ite List.reverse,
    List.reverse_append, List.reverse_reverse]
  rfl

/-- A first byte that is no blank is kept at both ends. -/
theorem trimRight_cons {c : UInt8} (hc : p c = false) (t : Text) : trimRight p (c :: t) = c :: trimRight p t := by
  have happend := trimRight_append (p := p) [c] t
  cases hall : t.all p with
  | true =>
    rw [hall, if_pos rfl] at happend
    rw [trimRight_eq_nil_iff.2 hall]
    exact happend.trans (by simp [trimRight, hc])
  | false =>
    rw [hall] at happend
    exact happend

/-- The ends of a text can be trimmed in either order. -/
theorem trimLeft_trimRight (t : Text) : trimLeft p (trimRight p t) = trimBoth p t := by
  induction t with
  | nil => rfl
  | cons c t ih =>
    cases hc : p c with
    | false =>
      have hstart (u : Text) : trimLeft p (c :: u) = c :: u := List.dropWhile_cons_of_neg (by simp [hc])
      rw [trimBoth, hstart, trimRight_cons hc, hstart]
    | true =>
      have hstart (u : Text) : trimLeft p (c :: u) = trimLeft p u := List.dropWhile_cons_of_pos hc
      rw [trimBoth, hstart, ← trimBoth, ← ih]
      cases hall : t.all p with
      | true =>
        have hall' : (c :: t).all p = true := by simp [hc, hall]
        rw [trimRight_eq_nil_iff.2 hall, trimRight_eq_nil_iff.2 hall']
      | false =>
        have happend := trimRight_append (p := p) [c] t
        rw [hall] at happend
        exact (congrArg (trimLeft p) happend).trans (hstart _)

end Text

/-! ## Two breaks -/

namespace Operation

open Text

/-- Three texts on lines of their own, without blanks around the breaks. One
that is all blanks takes no line between the others. -/
def onThreeLines (first second third : Text) : Text :=
  if second.all isSpace then trimRight isSpace first ++ lineFeed :: trimLeft isSpace third
  else trimRight isSpace first ++ lineFeed :: (trimBoth isSpace second ++ lineFeed :: trimLeft isSpace third)

variable (a b c : Text)

theorem trimRight_onTwoLines : trimRight isSpace (onTwoLines a b) =
    if b.all isSpace then trimRight isSpace a else trimRight isSpace a ++ lineFeed :: trimBoth isSpace b := by
  have hbreak : trimRight isSpace (trimRight isSpace a ++ [lineFeed]) = trimRight isSpace a :=
    (trimRight_append _ [lineFeed]).trans (trimRight_idem a)
  rw [onTwoLines, List.append_cons, trimRight_append, all_trimLeft, hbreak, ← trimBoth, ← List.append_cons]

theorem trimLeft_onTwoLines : trimLeft isSpace (onTwoLines b c) =
    if b.all isSpace then trimLeft isSpace c else trimBoth isSpace b ++ lineFeed :: trimLeft isSpace c := by
  have hbreak : trimLeft isSpace (lineFeed :: trimLeft isSpace c) = trimLeft isSpace c := trimLeft_idem c
  rw [onTwoLines, trimLeft_append, all_trimRight, hbreak, trimLeft_trimRight]

theorem onTwoLines_left : onTwoLines (onTwoLines a b) c = onThreeLines a b c := by
  rw [onTwoLines, trimRight_onTwoLines, onThreeLines]
  split
  · rfl
  · rw [List.append_assoc, List.cons_append]

theorem onTwoLines_right : onTwoLines a (onTwoLines b c) = onThreeLines a b c := by
  rw [onTwoLines, trimLeft_onTwoLines, onThreeLines]
  split <;> rfl

variable {operator : Token}

theorem binary_dollar (h : operator.kind = .dollar) (left right : Value) :
    binary operator left right = .ok (.pulong (onTwoLines left.display right.display)) := by
  rw [binary, h]

end Operation

/-! ## Expressions -/

namespace Expr

open Operation

variable {x y z : Expr} {o p : Token} {s t u v : Scopes} {a b c : Value}

theorem evaluate_dollar (ho : o.kind = .dollar) (hx : x.evaluate s = (.ok a, t)) (hy : y.evaluate t = (.ok b, u)) :
    (binary x o y).evaluate s = (.ok (.pulong (onTwoLines a.display b.display)), u) := by
  rw [evaluate_binary_ok o hx hy, binary_dollar ho]

theorem evaluate_grouping (e : Expr) : (grouping e).evaluate = e.evaluate := by
  rw [Expr.evaluate]

theorem evaluate_dollars_left (ho : o.kind = .dollar) (hp : p.kind = .dollar) (hx : x.evaluate s = (.ok a, t))
    (hy : y.evaluate t = (.ok b, u)) (hz : z.evaluate u = (.ok c, v)) :
    (binary (grouping (binary x o y)) p z).evaluate s =
      (.ok (.pulong (onThreeLines a.display b.display c.display)), v) := by
  have hfirst := evaluate_dollar ho hx hy
  rw [← evaluate_grouping] at hfirst
  rw [evaluate_dollar hp hfirst hz, Value.display, onTwoLines_left]

theorem evaluate_dollars_right (ho : o.kind = .dollar) (hp : p.kind = .dollar) (hx : x.evaluate s = (.ok a, t))
    (hy : y.evaluate t = (.ok b, u)) (hz : z.evaluate u = (.ok c, v)) :
    (binary x o (grouping (binary y p z))).evaluate s =
      (.ok (.pulong (onThreeLines a.display b.display c.display)), v) := by
  have hlast := evaluate_dollar hp hy hz
  rw [← evaluate_grouping] at hlast
  rw [evaluate_dollar ho hx hlast, Value.display, onTwoLines_right]

/-- The sign `$` is associative: with either grouping, three expressions are
evaluated one after another with the same result, also where one of them fails.
If they have values, the result is the text of the first without blanks at its
end, a line feed, and the text of the last without blanks at its start; between
them stands the middle text without blanks at its ends and another line feed,
unless it is all blanks. -/
theorem dollar_associative (x y z : Expr) (o₁ o₂ o₃ o₄ : Token)
    (hkind : ∀ o ∈ [o₁, o₂, o₃, o₄], o.kind = .dollar) :
    (binary (grouping (binary x o₁ y)) o₂ z).evaluate = (binary x o₃ (grouping (binary y o₄ z))).evaluate ∧
      ∀ (s t u v : Scopes) (a b c : Value), x.evaluate s = (.ok a, t) → y.evaluate t = (.ok b, u) →
        z.evaluate u = (.ok c, v) → (binary (grouping (binary x o₁ y)) o₂ z).evaluate s =
          (.ok (.pulong (onThreeLines a.display b.display c.display)), v) := by
  simp only [List.forall_mem_cons, List.not_mem_nil, false_implies, implies_true, and_true] at hkind
  obtain ⟨h₁, h₂, h₃, h₄⟩ := hkind
  refine ⟨funext fun s => ?_, fun s t u v a b c hx hy hz => evaluate_dollars_left h₁ h₂ hx hy hz⟩
  -- the operands are evaluated in the same order, so a fault is the same on both sides
  rcases hx : x.evaluate s with ⟨fault | a, t⟩
  · simp only [evaluate_binary, evaluate_grouping, hx]
  · rcases hy : y.evaluate t with ⟨fault | b, u⟩
    · simp only [evaluate_binary, evaluate_grouping, hx, hy]
    · rcases hz : z.evaluate u with ⟨fault | c, v⟩
      · simp only [evaluate_binary, evaluate_grouping, hx, hy, hz, binary_dollar h₁]
      · rw [evaluate_dollars_left h₁ h₂ hx hy hz, evaluate_dollars_right h₃ h₄ hx hy hz]

/-- Blanks at the end, a line feed as the character in the middle, and NULL. -/
theorem dollar_associative_blank :
    let o : Token := { kind := .dollar, lexeme := "$", line := 1 }
    let x := literal (.pulong "a \t\n")
    let y := literal (.letra 10)
    let z := literal .null
    (∀ p ∈ [o, o, o, o], p.kind = .dollar) ∧
      (binary (grouping (binary x o y)) o z).evaluate .fresh = (.ok (.pulong "a\nnil"), .fresh) ∧
      (binary x o (grouping (binary y o z))).evaluate .fresh = (.ok (.pulong "a\nnil"), .fresh) := by
  intro o x y z
  have hkind : ∀ p ∈ [o, o, o, o], p.kind = .dollar := by simp [o]
  obtain ⟨hsame, hvalue⟩ := dollar_associative x y z o o o o hkind
  have hleft : (binary (grouping (binary x o y)) o z).evaluate .fresh = (.ok (.pulong "a\nnil"), .fresh) :=
    hvalue .fresh .fresh .fresh .fresh _ _ _ rfl rfl rfl
  exact ⟨hkind, hleft, hsame ▸ hleft⟩

end Expr

end BisayaPlus
