import BisayaPlus.Proofs.Traces
/-!
# Variables hold values of their types

In every state of every run each variable of each scope holds NULL or a value
of exactly its type, whatever it was given: assignments and declarations
convert, and input is read by the type. So a step can store what it computed,
in the same kind of number.
-/

set_option autoImplicit false

namespace BisayaPlus

/-! ## Values of a type -/

namespace Value

/-- The value is of the type. NULL is of every type, and a text of none. -/
inductive Fits : DataType → Value → Prop where
  | null {declared : DataType} : Fits declared .null
  | numero {i : Int64} : Fits .numero (.numero i)
  | tipik {x : Binary64} : Fits .tipik (.tipik x)
  | letra {code : Int32} : Fits .letra (.letra code)
  | tinuod {b : Bool} : Fits .tinuod (.tinuod b)

/-- What a value converts to is of the type. -/
theorem fits_of_coerce {declared : DataType} {v w : Value} (h : v.coerce declared = .ok w) : Fits declared w := by
  cases declared <;> cases v <;> simp only [coerce, Except.ok.injEq, reduceCtorEq] at h
  -- only these two look at more than the kind of the value
  case numero.tipik x =>
    split at h <;> cases h
    exact .numero
  case tinuod.pulong t =>
    split at h <;> cases h
    exact .tinuod
  all_goals
    subst h
    constructor

/-- What a field of input is read as is of the type. -/
theorem fits_of_read {declared : DataType} {t : Text} {v : Value} (h : read declared t = .ok v) : Fits declared v := by
  unfold read at h
  split at h
  · next w hw =>
    obtain rfl := Except.ok.inj h
    cases declared <;> obtain ⟨_, -, rfl⟩ := Option.map_eq_some_iff.1 hw <;> constructor
  · cases h

end Value

/-! ## Typed scopes -/

/-- Every variable of the scope holds a value of its type. -/
def Scope.Typed (s : Scope) : Prop := ∀ entry ∈ s.bindings, entry.2.value.Fits entry.2.declared

theorem Scope.mem_put {name : Text} {b : Binding} {bindings : List (Text × Binding)} {entry : Text × Binding}
    (h : entry ∈ put name b bindings) : entry = (name, b) ∨ entry ∈ bindings := by
  induction bindings with
  | nil => exact .inl (List.mem_singleton.1 h)
  | cons first rest ih =>
    obtain ⟨other, old⟩ := first
    rw [put] at h
    split at h
    · exact (List.mem_cons.1 h).imp_right (List.mem_cons_of_mem _)
    · rcases List.mem_cons.1 h with rfl | h
      · exact .inr (List.mem_cons_self ..)
      · exact (ih h).imp_right (List.mem_cons_of_mem _)

theorem Scope.Typed.define {s : Scope} (h : s.Typed) (name : Text) {b : Binding} (hb : b.value.Fits b.declared) :
    (s.define name b).Typed := by
  intro entry he
  rcases Scope.mem_put he with rfl | he
  · exact hb
  · exact h entry he

namespace Scopes

/-- Every variable of every scope holds a value of its type. -/
def Typed (s : Scopes) : Prop := ∀ scope ∈ s.arena, scope.Typed

theorem typed_fresh : Typed .fresh := by
  intro scope hs entry he
  rw [List.mem_singleton.1 hs] at he
  cases he

variable {s t : Scopes}

theorem Typed.push (h : s.Typed) : s.push.Typed := by
  intro scope hs entry he
  rcases List.mem_append.1 hs with hs | hs
  · exact h scope hs entry he
  · rw [List.mem_singleton.1 hs] at he
    cases he

theorem Typed.pop (h : s.Typed) : s.pop.Typed := by
  unfold Scopes.pop
  split
  · exact h
  · exact fun scope hs => h scope (List.mem_of_mem_take hs)

/-- A variable that is declared or given a value is one of its scope. -/
theorem Typed.modify (h : s.Typed) (place : Nat) (name : Text) {b : Binding} (hb : b.value.Fits b.declared) :
    Typed { s with arena := s.arena.modify place (·.define name b) } := by
  intro scope hs
  obtain ⟨i, hi⟩ := List.mem_iff_getElem?.1 hs
  rw [List.getElem?_modify] at hi
  obtain ⟨old, hold, rfl⟩ := Option.map_eq_some_iff.1 hi
  have hmem := List.mem_of_getElem? hold
  split
  · exact (h old hmem).define name hb
  · exact h old hmem

theorem Typed.update {name : Token} {convert : DataType → Except Cause Value} {v : Value} (h : s.Typed)
    (hfits : ∀ declared w, convert declared = .ok w → w.Fits declared) (hu : s.update name convert = .ok (v, t)) :
    t.Typed := by
  obtain ⟨place, b, -, hv, rfl⟩ := update_ok hu
  exact h.modify place name.lexeme (hfits b.declared v hv)

end Scopes

open Scopes

/-- By induction on the changes. -/
theorem Changes.typed {s t : Scopes} (h : Changes s t) (hs : s.Typed) : t.Typed := by
  induction h with
  | refl => exact hs
  | assign _ ha ih => exact (ih hs).update (fun _ _ => Value.fits_of_coerce) ha
  | input _ ha ih => exact (ih hs).update (fun _ _ => Value.fits_of_read) ha
  | define _ hc ih => exact (ih hs).modify _ _ (Value.fits_of_coerce hc)
  | block _ _ ih ihb => exact (ihb (ih hs).push).pop

/-! ## Steps -/

namespace Scopes

variable {s : Scopes}

/-- The variable that a name means holds a value of its type. -/
theorem Typed.lookup? {name : Text} {place : Nat} {b : Binding} (h : s.Typed) (hb : s.lookup? name = some (place, b)) :
    b.value.Fits b.declared := by
  obtain ⟨scope, hscope, hfind⟩ := lookup?_some hb
  obtain ⟨before, after, hbindings, -⟩ := List.lookup_eq_some_iff.1 hfind
  exact h scope (List.mem_of_getElem? hscope) (name, b) (by simp [hbindings])

theorem get_of_lookup? {name : Token} {place : Nat} {b : Binding} (h : s.lookup? name.lexeme = some (place, b)) :
    s.get name = .ok b.value := by
  rw [get, h]

/-- What a value converts to is stored. -/
theorem assign_of_coerce {name : Token} {place : Nat} {b : Binding} {v stored : Value}
    (h : s.lookup? name.lexeme = some (place, b)) (hv : v.coerce b.declared = .ok stored) :
    ∃ t, s.assign name v = .ok (stored, t) := by
  refine ⟨{ s with arena := s.arena.modify place (·.define name.lexeme { b with value := stored }) }, ?_⟩
  rw [assign, update, h]
  dsimp only
  rw [hv]

end Scopes

/-- Two numbers of one kind. -/
inductive Value.SameNumber : Value → Value → Prop where
  | numero (i j : Int64) : SameNumber (.numero i) (.numero j)
  | tipik (x y : Binary64) : SameNumber (.tipik x) (.tipik y)

/-- How a step on a variable ends: the name means nothing, its value is no
number, or the new number is stored, exact and of the same kind. -/
inductive StepEnds (s : Scopes) (operator name : Token) (before : Bool) : Prop where
  | undefined : s.lookup? name.lexeme = none →
      (Expr.step operator name before).evaluate s = (.error (undefined name), s) → StepEnds s operator name before
  | noNumber {old : Value} : s.get name = .ok old → (∀ new, ¬ old.SameNumber new) →
      (Expr.step operator name before).evaluate s = (.error ⟨operator, .onlyNumber⟩, s) →
      StepEnds s operator name before
  | stored {old new : Value} {t : Scopes} : s.get name = .ok old → Operation.step operator old = .ok new →
      old.SameNumber new → s.assign name new = .ok (new, t) →
      (Expr.step operator name before).evaluate s = (.ok (if before then new else old), t) →
      StepEnds s operator name before

/-- A step on a variable that holds a number stores the number it computes. -/
theorem stepEnds_number {s : Scopes} {operator name : Token} {place : Nat} {b : Binding} {new : Value}
    (hb : s.lookup? name.lexeme = some (place, b)) (hstep : Operation.step operator b.value = .ok new)
    (hsame : b.value.SameNumber new) (hnew : new.coerce b.declared = .ok new) (before : Bool) :
    StepEnds s operator name before := by
  have hget := get_of_lookup? hb
  obtain ⟨t, ht⟩ := assign_of_coerce hb hnew
  refine .stored hget hstep hsame ht ?_
  rw [evaluate_step, hget]
  dsimp only
  rw [hstep]
  dsimp only
  rw [ht]

/-- Where variables hold values of their types, a step never fails to store. -/
theorem Scopes.Typed.stepEnds {s : Scopes} (h : s.Typed) (operator name : Token) (before : Bool) :
    StepEnds s operator name before := by
  cases hb : s.lookup? name.lexeme with
  | none =>
    have hget : s.get name = .error (undefined name) := by rw [get, hb]
    exact .undefined hb (by rw [evaluate_step, hget])
  | some found =>
    obtain ⟨place, declared, value⟩ := found
    have hget := get_of_lookup? hb
    have hno : Operation.step operator value = .error ⟨operator, .onlyNumber⟩ → (∀ new, ¬ value.SameNumber new) →
        StepEnds s operator name before := by
      intro hstep hnone
      refine .noNumber hget hnone ?_
      rw [evaluate_step, hget]
      dsimp only
      rw [hstep]
    cases h.lookup? hb with
    | null => exact hno rfl fun _ hn => nomatch hn
    | numero => exact stepEnds_number hb rfl (.numero _ _) rfl before
    | tipik => exact stepEnds_number hb rfl (.tipik _ _) rfl before
    | letra => exact hno rfl fun _ hn => nomatch hn
    | tinuod => exact hno rfl fun _ hn => nomatch hn

/-! ## Every state of a run -/

/-- In every state of every run each variable holds NULL or a value of its
type, and a step fails only on a name that means nothing or on a value that is
no number. No state is left out: the run is a chain of single changes, and each
of them leads to one of these states. -/
theorem reached_typed (watchers : Watchers) (rounds : Nat) (replies : List Reply) (p : Program) :
    (∀ m, Reached watchers rounds replies p m →
      m.scopes.Typed ∧ ∀ operator name before, StepEnds m.scopes operator name before) ∧
    Relation.ReflTransGen (fun s t => s.Change t ∧ ∃ m, Reached watchers rounds replies p m ∧ m.scopes = t) .fresh
      (p.execution watchers rounds (.fresh replies)).2.scopes := by
  refine ⟨fun m h => ?_, p.traced_execution watchers rounds replies⟩
  have htyped : m.scopes.Typed := h.induct (fun hs hc => hc.typed hs) Typed.push typed_fresh
  exact ⟨htyped, htyped.stepEnds⟩

/-- A variable that is declared with an integer and then stepped, between the
two statements. -/
theorem reached_typed_declared :
    let t (k : Kind) : Token := { kind := k, lexeme := [], line := 1 }
    let one : Token := { kind := .number, lexeme := [], literal := some (.numero 1), line := 1 }
    let p := Program.ofScanned
      { tokens := [t .sugod, t .newline, t .mugna, t .numero, t .identifier, t .equal, one, t .newline, t .identifier,
          t .plusPlus, t .newline, t .katapusan, t .eof]
        diagnostics := []
        lastLine := 1 }
    let m : Machine :=
      { Machine.fresh [] with scopes := { arena := [{ bindings := [([], ⟨.numero, .numero 1⟩)] }], current := 0 } }
    p.accepted = true ∧ Reached {} 1 [] p m ∧ m.scopes.Typed ∧
      StepEnds m.scopes (t .plusPlus) (t .identifier) false := by
  intro t one p m
  have haccepted : p.accepted = true := rfl
  have hread : (p.showReading {} (.fresh [])).2 = .fresh [] := rfl
  let declaration : Stmt := .mugna (t .mugna) .numero [(t .identifier, some (.literal (.numero 1)))]
  have hstatements : p.statements = [declaration, .expr (.step (t .plusPlus) (t .identifier) false)] := rfl
  have hexecute : declaration.execute {} 1 (.fresh []) = (.ok .normal, m) := rfl
  have hprogram : Runs {} 1 (.program p) (.fresh []) (.interpret p.statements) (p.showReading {} (.fresh [])).2 :=
    .call .self (.program haccepted)
  rw [hstatements, hread] at hprogram
  have hreached : Reached {} 1 [] p m := ⟨_, m, .call hprogram (.statements hexecute), .inl rfl⟩
  obtain ⟨htyped, hsteps⟩ := (reached_typed {} 1 [] p).1 m hreached
  exact ⟨haccepted, hreached, htyped, hsteps (t .plusPlus) (t .identifier) false⟩

end BisayaPlus
