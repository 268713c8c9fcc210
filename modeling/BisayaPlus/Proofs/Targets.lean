import BisayaPlus.Proofs.Endings
import BisayaPlus.Proofs.Scoping
/-!
# Expressions change only what they assign

However its evaluation ends, an expression prints nothing, reads nothing and
leaves the shape of the scopes. A variable has another value only if it is the
innermost one of a name that the expression assigns to. So a name that meant a
variable before the value of an assignment was computed still means it then.
-/

set_option autoImplicit false

namespace BisayaPlus

namespace Scopes

variable {s t u : Scopes}

/-! ## One assignment -/

theorem SameShape.refl (s : Scopes) : SameShape s s := ⟨rfl, rfl, rfl⟩

theorem SameShape.trans (h : SameShape s t) (h' : SameShape t u) : SameShape s u :=
  ⟨h'.current.trans h.current, h'.parents.trans h.parents, h'.signatures.trans h.signatures⟩

theorem SameShape.length_eq (h : SameShape s t) : t.arena.length = s.arena.length := by
  simpa using congrArg List.length h.parents

theorem SameShape.place?_eq (h : SameShape s t) (name : Text) : t.place? name = s.place? name := by
  rw [place?, place?, h.current, h.length_eq]
  exact placeFrom_congr name h.parents h.signatures _ _

/-- The variable with a name in the scope at a place. -/
def bindingAt (s : Scopes) (place : Nat) (name : Text) : Option Binding := (s.arena[place]?).bind (·.find? name)

theorem lookup?_eq_some_iff {name : Text} {place : Nat} {b : Binding} :
    s.lookup? name = some (place, b) ↔ s.place? name = some place ∧ s.bindingAt place name = some b := by
  unfold lookup?
  cases h : s.place? name with
  | none => simp
  | some found =>
    dsimp only
    rw [← bindingAt, Option.map_eq_some_iff]
    constructor
    · rintro ⟨b', hb, heq⟩
      obtain ⟨rfl, rfl⟩ := Prod.mk.inj heq
      exact ⟨rfl, hb⟩
    · rintro ⟨hplace, hb⟩
      obtain rfl := Option.some.inj hplace
      exact ⟨b, hb, rfl⟩

theorem bindingAt_modify (s : Scopes) (place other : Nat) (name name' : Text) (b : Binding) :
    bindingAt { s with arena := s.arena.modify place (·.define name b) } other name' =
      if place = other ∧ name' = name then (s.arena[place]?).map fun _ => b else s.bindingAt other name' := by
  rw [bindingAt, bindingAt, List.getElem?_modify]
  by_cases hp : place = other
  · subst hp
    cases s.arena[place]? with
    | none => simp
    | some scope => simp [Scope.find?_define]
  · simp [hp]

/-- Only the innermost variable of the name has another value. -/
theorem bindingAt_update {name : Token} {convert : DataType → Except Cause Value} {v : Value}
    (h : s.update name convert = .ok (v, t)) {place : Nat} {other : Text}
    (hne : t.bindingAt place other ≠ s.bindingAt place other) :
    other = name.lexeme ∧ s.place? name.lexeme = some place := by
  obtain ⟨found, b, hb, -, rfl⟩ := update_ok h
  obtain ⟨hplace, -⟩ := lookup?_eq_some_iff.1 hb
  rw [bindingAt_modify] at hne
  by_cases hc : found = place ∧ other = name.lexeme
  · obtain ⟨rfl, rfl⟩ := hc
    exact ⟨rfl, hplace⟩
  · rw [if_neg hc] at hne
    exact absurd rfl hne

/-- What was stored is what the name means afterwards. -/
theorem get_update {name : Token} {convert : DataType → Except Cause Value} {v : Value}
    (h : s.update name convert = .ok (v, t)) : t.get name = .ok v := by
  have hshape := sameShape_update h
  obtain ⟨place, b, hb, -, rfl⟩ := update_ok h
  obtain ⟨hplace, -⟩ := lookup?_eq_some_iff.1 hb
  obtain ⟨scope, hscope, -⟩ := lookup?_some hb
  have hstored := bindingAt_modify s place place name.lexeme name.lexeme { b with value := v }
  rw [if_pos ⟨rfl, rfl⟩, hscope] at hstored
  rw [get, lookup?_eq_some_iff.2 ⟨(hshape.place?_eq name.lexeme).trans hplace, hstored⟩]

/-! ## Any number of assignments -/

/-- The scopes keep their shape, and only innermost variables of these names
may have another value. -/
structure Confined (targets : List Text) (s t : Scopes) : Prop where
  shape : SameShape s t
  changed : ∀ place name, t.bindingAt place name ≠ s.bindingAt place name →
    name ∈ targets ∧ s.place? name = some place

theorem Confined.refl (targets : List Text) (s : Scopes) : Confined targets s s :=
  ⟨.refl s, fun _ _ h => absurd rfl h⟩

theorem Confined.update {targets : List Text} {name : Token} {convert : DataType → Except Cause Value} {v : Value}
    (h : Confined targets s t) (hn : name.lexeme ∈ targets) (hu : t.update name convert = .ok (v, u)) :
    Confined targets s u := by
  refine ⟨h.shape.trans (sameShape_update hu), fun place other hne => ?_⟩
  by_cases hold : t.bindingAt place other = s.bindingAt place other
  · rw [← hold] at hne
    obtain ⟨rfl, hplace⟩ := bindingAt_update hu hne
    exact ⟨hn, (h.shape.place?_eq name.lexeme).symm.trans hplace⟩
  · exact h.changed place other hold

theorem Confined.trans {targets targets' : List Text} (h : Confined targets s t) (h' : Confined targets' t u) :
    Confined (targets ++ targets') s u := by
  refine ⟨h.shape.trans h'.shape, fun place name hne => ?_⟩
  by_cases hold : t.bindingAt place name = s.bindingAt place name
  · rw [← hold] at hne
    obtain ⟨hn, hplace⟩ := h'.changed place name hne
    exact ⟨List.mem_append_right _ hn, (h.shape.place?_eq name).symm.trans hplace⟩
  · obtain ⟨hn, hplace⟩ := h.changed place name hold
    exact ⟨List.mem_append_left _ hn, hplace⟩

/-- Any other name means what it meant. -/
theorem Confined.lookup?_eq {targets : List Text} {name : Text} (h : Confined targets s t) (hn : name ∉ targets) :
    t.lookup? name = s.lookup? name := by
  have hsame : ∀ place, t.bindingAt place name = s.bindingAt place name := fun place =>
    Decidable.byContradiction fun hne => hn (h.changed place name hne).1
  refine Option.ext fun found => ?_
  obtain ⟨place, b⟩ := found
  rw [lookup?_eq_some_iff, lookup?_eq_some_iff, h.shape.place?_eq, hsame]

/-- A name that means a variable cannot be undefined when it is assigned to: the
value may only not fit the type. -/
theorem assign_error_of_has {name : Token} {v : Value} {f : Fault} (hs : s.has name.lexeme = true)
    (h : s.assign name v = .error f) : ∃ declared, f = ⟨name, .mismatch declared v⟩ := by
  obtain ⟨⟨place, b⟩, hb⟩ := Option.isSome_iff_exists.1 hs
  rw [assign, update, hb] at h
  dsimp only at h
  cases hc : v.coerce b.declared with
  | ok stored => simp [hc] at h
  | error cause =>
    obtain rfl := Value.coerce_error hc
    rw [hc] at h
    exact ⟨b.declared, (Except.error.inj h).symm⟩

end Scopes

open Scopes Execution

/-- By induction on the assignments. -/
theorem Assigns.confined {targets : List Text} {s t : Scopes} (h : Assigns targets s t) : Confined targets s t := by
  induction h with
  | refl => exact .refl targets s
  | assign _ hn ha ih => exact ih.update hn ha

/-! ## Expressions -/

namespace Expr

theorem run_value (e : Expr) (m : Machine) :
    value e m = ((e.evaluate m.scopes).1.mapError .fault, { m with scopes := (e.evaluate m.scopes).2 }) := by
  unfold value ofEvaluation
  rcases e.evaluate m.scopes with ⟨_ | _, _⟩ <;> rfl

/-- An assignment in its parts: the name is looked up, the value is computed, and
the name is looked up again. -/
theorem evaluate_assign (name : Token) (e : Expr) (s : Scopes) :
    (assign name e).evaluate s =
      if s.has name.lexeme = true then
        match e.evaluate s with
        | (.ok v, t) => Evaluation.assign name v t
        | (.error fault, t) => (.error fault, t)
      else (.error (undefined name), s) := by
  change (Evaluation.require name >>= fun _ => e.evaluate >>= fun v => Evaluation.assign name v) s = _
  rw [Evaluation.run_bind, Evaluation.run_require]
  by_cases h : s.has name.lexeme = true
  · rw [if_pos h, if_pos h]
    dsimp only
    rw [Evaluation.run_bind]
    rcases e.evaluate s with ⟨fault | v, t⟩ <;> rfl
  · rw [if_neg h, if_neg h]

/-- A binary operator is applied once both operands have values. -/
theorem evaluate_binary (left : Expr) (operator : Token) (right : Expr) (s : Scopes) :
    (binary left operator right).evaluate s =
      match left.evaluate s with
      | (.ok l, t) =>
        match right.evaluate t with
        | (.ok r, u) => (Operation.binary operator l r, u)
        | (.error fault, u) => (.error fault, u)
      | (.error fault, t) => (.error fault, t) := by
  rw [Expr.evaluate, Evaluation.run_bind]
  rcases left.evaluate s with ⟨fault | l, t⟩
  · rfl
  · dsimp only
    rw [Evaluation.run_bind]
    rcases right.evaluate t with ⟨fault | r, u⟩
    · rfl
    · exact Evaluation.run_ofExcept _ u

theorem evaluate_binary_ok {left right : Expr} {s t u : Scopes} {l r : Value} (operator : Token)
    (hleft : left.evaluate s = (.ok l, t)) (hright : right.evaluate t = (.ok r, u)) :
    (binary left operator right).evaluate s = (Operation.binary operator l r, u) := by
  simp only [evaluate_binary, hleft, hright]

/-- An assignment that gives a value has stored it. -/
theorem get_of_evaluate_assign {name : Token} {e : Expr} {stored : Value} {s t : Scopes}
    (h : (assign name e).evaluate s = (.ok stored, t)) : t.get name = .ok stored := by
  rw [evaluate_assign] at h
  by_cases hs : s.has name.lexeme = true
  · rw [if_pos hs] at h
    rcases hr : e.evaluate s with ⟨fault | v, u⟩
    · rw [hr] at h
      cases h
    · rw [hr] at h
      dsimp only at h
      rw [Evaluation.run_assign] at h
      cases ha : u.assign name v with
      | error fault =>
        rw [ha] at h
        cases h
      | ok p =>
        rw [ha] at h
        obtain ⟨hstored, rfl⟩ := Prod.mk.inj h
        obtain rfl := Except.ok.inj hstored
        exact get_update ha
  · rw [if_neg hs] at h
    cases h

/-- However the evaluation of an expression ends, nothing is printed, read or
shown, the scopes keep their number, parents, names, types and which one is
current, and only the innermost variable of a name that the expression assigns
to may have another value. An assignment that gives a value has stored it; and
where its name meant a variable before its value was computed, storing that can
fail for the type only. -/
theorem evaluation_confined (e : Expr) (m : Machine) :
    let after := (value e m).2
    (after.replies = m.replies ∧ after.prints = m.prints ∧ after.shown = m.shown) ∧
      after.scopes.arena.length = m.scopes.arena.length ∧ SameShape m.scopes after.scopes ∧
      (∀ place name, after.scopes.bindingAt place name ≠ m.scopes.bindingAt place name →
        name ∈ e.targets ∧ m.scopes.place? name = some place) ∧
      (∀ name inner stored, e = assign name inner → (value e m).1 = .ok stored → after.scopes.get name = .ok stored) ∧
      (∀ name : Token, m.scopes.has name.lexeme = true → after.scopes.has name.lexeme = true ∧
        ∀ v f, after.scopes.assign name v = .error f → ∃ declared, f = ⟨name, .mismatch declared v⟩) := by
  have hconfined := (e.assigning_evaluate m.scopes).confined
  intro after
  have hafter : after = { m with scopes := (e.evaluate m.scopes).2 } := by
    change (value e m).2 = _
    rw [run_value]
  rw [hafter]
  refine ⟨⟨rfl, rfl, rfl⟩, hconfined.shape.length_eq, hconfined.shape, hconfined.changed, ?_, ?_⟩
  · intro name inner stored he hstored
    rw [run_value] at hstored
    subst he
    rcases hr : (assign name inner).evaluate m.scopes with ⟨fault | v, t⟩
    · rw [hr] at hstored
      cases hstored
    · rw [hr] at hstored
      obtain rfl := Except.ok.inj hstored
      exact get_of_evaluate_assign hr
  · intro name hm
    have hhas := (hconfined.shape.has_eq name.lexeme).trans hm
    exact ⟨hhas, fun v f hf => assign_error_of_has hhas hf⟩

end Expr

end BisayaPlus
