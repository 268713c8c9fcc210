import BisayaPlus.Proofs.Lockstep
import BisayaPlus.Proofs.Reached
/-!
# From the parts of a run to the run

A relation between two runs of the same statements is told here at the machine
on which the first of the runs starts. If the expressions, the declarations, the
blocks and each IPAKITA and DAWAT are in it where the first run comes to them,
and if sequences keep it, then all statements that the first run comes to are in
it. Statements meet the outside in IPAKITA and DAWAT only, so where the relation
holds of all that computes on the scopes alone, those two are what is left.
-/

set_option autoImplicit false

namespace BisayaPlus

open Execution

/-- `RespectsParts watchers watchers' rounds top start Q`: the parts of statements
that the first run comes to are related to themselves in the second, and so are
runs in a row. -/
structure RespectsParts (watchers watchers' : Watchers) (rounds : Nat) (top : Task) (start : Machine)
    (Q : (α : Type) → Machine → Execution α → Execution α → Prop) : Prop where
  pure {α : Type} {m : Machine} (a : α) : Q α m (pure a) (pure a)
  unfinished {m : Machine} : Q Flow m (throw .unfinished) (throw .unfinished)
  bind {α β : Type} {x y : Execution α} {f g : α → Execution β} {m : Machine} : Q α m x y →
    (∀ a m', x m = (.ok a, m') → Q β m' (f a) (g a)) → Q β m (x >>= f) (y >>= g)
  announce {m : Machine} (s : Stmt) : Q PUnit m (announce watchers s) (announce watchers' s)
  value {e : Expr} {m : Machine} : Runs watchers rounds top start (.evaluate e) m → Q Value m (value e) (value e)
  declare {declared : DataType} {names : List (Token × Option Expr)} {m : Machine} :
    Runs watchers rounds top start (.declare declared names) m →
    Q PUnit m (declare declared names) (declare declared names)
  inScope {body : List Stmt} {m m' : Machine} : m' = announced watchers (.pundok body) m →
    Runs watchers rounds top start (.execute (.pundok body)) m →
    Q Flow { m' with scopes := m'.scopes.push } (executeAll watchers rounds body) (executeAll watchers' rounds body) →
    Q Flow m' (inScope (executeAll watchers rounds body)) (inScope (executeAll watchers' rounds body))
  ipakita {keyword : Token} {e : Expr} {m : Machine} :
    Runs watchers rounds top start (.execute (.ipakita keyword e)) m →
    Q Flow m ((Stmt.ipakita keyword e).execute watchers rounds) ((Stmt.ipakita keyword e).execute watchers' rounds)
  dawat {keyword : Token} {names : List Token} {m : Machine} :
    Runs watchers rounds top start (.execute (.dawat keyword names)) m →
    Q Flow m ((Stmt.dawat keyword names).execute watchers rounds) ((Stmt.dawat keyword names).execute watchers' rounds)

/-- `RespectsAt watchers watchers' rounds top start Q`: an IPAKITA or a DAWAT that
the first run comes to is related to itself in the second, and so are runs on the
scopes alone and runs that are put together from related ones. -/
structure RespectsAt (watchers watchers' : Watchers) (rounds : Nat) (top : Task) (start : Machine)
    (Q : (α : Type) → Machine → Execution α → Execution α → Prop) : Prop where
  onScopes {α : Type} {x : Execution α} {m : Machine} : OnScopes x → Q α m x x
  bind {α β : Type} {x y : Execution α} {f g : α → Execution β} {m : Machine} : Q α m x y →
    (∀ a m', x m = (.ok a, m') → Q β m' (f a) (g a)) → Q β m (x >>= f) (y >>= g)
  inScope {α : Type} {x y : Execution α} {m : Machine} : Q α { m with scopes := m.scopes.push } x y →
    Q α m (inScope x) (inScope y)
  announce {m : Machine} (s : Stmt) : Q PUnit m (announce watchers s) (announce watchers' s)
  ipakita {keyword : Token} {e : Expr} {m : Machine} :
    Runs watchers rounds top start (.execute (.ipakita keyword e)) m →
    Q Flow m ((Stmt.ipakita keyword e).execute watchers rounds) ((Stmt.ipakita keyword e).execute watchers' rounds)
  dawat {keyword : Token} {names : List Token} {m : Machine} :
    Runs watchers rounds top start (.execute (.dawat keyword names)) m →
    Q Flow m ((Stmt.dawat keyword names).execute watchers rounds) ((Stmt.dawat keyword names).execute watchers' rounds)

section Parts

variable {watchers watchers' : Watchers} {rounds : Nat} {top : Task} {start : Machine}
  {Q : (α : Type) → Machine → Execution α → Execution α → Prop}

theorem RespectsAt.parts (h : RespectsAt watchers watchers' rounds top start Q) :
    RespectsParts watchers watchers' rounds top start Q where
  pure a := h.onScopes (onScopes_pure a)
  unfinished := h.onScopes (onScopes_throw _)
  bind := h.bind
  announce := h.announce
  value _ := h.onScopes (onScopes_value _)
  declare _ := h.onScopes (onScopes_declare _ _)
  inScope _ _ := h.inScope
  ipakita := h.ipakita
  dawat := h.dawat

namespace RespectsParts

variable (h : RespectsParts watchers watchers' rounds top start Q)

include h

theorem test {condition : Expr} {m : Machine} (hr : Runs watchers rounds top start (.evaluate condition) m) :
    Q Bool m (holds condition) (holds condition) :=
  h.bind (h.value hr) fun _ _ _ => h.pure _

/-- A statement starts on the machine where it was announced. -/
theorem announced {m : Machine} (s : Stmt) {f g : PUnit → Execution Flow}
    (hf : Q Flow (announced watchers s m) (f ⟨⟩) (g ⟨⟩)) :
    Q Flow m (Execution.announce watchers s >>= f) (Execution.announce watchers' s >>= g) := by
  refine h.bind (h.announce s) fun _ m' hm' => ?_
  obtain ⟨-, rfl⟩ := Prod.mk.inj ((run_announced s m).symm.trans hm')
  exact hf

theorem whileHolds {condition : Expr} {body : Stmt}
    (hb : ∀ {m}, Runs watchers rounds top start (.execute body) m →
      Q Flow m (body.execute watchers rounds) (body.execute watchers' rounds)) (left : Nat) :
    ∀ {m}, Runs watchers rounds top start (.whileHolds condition body left) m →
      Q Flow m (whileHolds (holds condition) (body.execute watchers rounds) left)
        (Execution.whileHolds (holds condition) (body.execute watchers' rounds) left) := by
  induction left with
  | zero => exact fun _ => h.unfinished
  | succ left ih =>
    intro m hr
    refine h.bind (h.test (hr.call .whileTest)) fun holds m' htest => ?_
    cases holds with
    | false => exact h.pure _
    | true =>
      refine h.bind (hb (hr.call (.whileBody htest))) fun flow m'' hbody => ?_
      cases flow with
      | hunong => exact h.pure _
      | normal | padayon => exact ih (hr.call (.whileAgain htest hbody (by decide)))

theorem untilFails {condition : Expr} {body : Stmt}
    (hb : ∀ {m}, Runs watchers rounds top start (.execute body) m →
      Q Flow m (body.execute watchers rounds) (body.execute watchers' rounds)) (left : Nat) :
    ∀ {m}, Runs watchers rounds top start (.untilFails body condition left) m →
      Q Flow m (untilFails (holds condition) (body.execute watchers rounds) left)
        (Execution.untilFails (holds condition) (body.execute watchers' rounds) left) := by
  induction left with
  | zero => exact fun _ => h.unfinished
  | succ left ih =>
    intro m hr
    refine h.bind (hb (hr.call .untilBody)) fun flow m' hbody => ?_
    have hagain : flow ≠ .hunong → Q Flow m'
        (holds condition >>= fun again =>
          if again then Execution.untilFails (holds condition) (body.execute watchers rounds) left
          else Pure.pure .normal)
        (holds condition >>= fun again =>
          if again then Execution.untilFails (holds condition) (body.execute watchers' rounds) left
          else Pure.pure .normal) := by
      intro hflow
      refine h.bind (h.test (hr.call (.untilTest hbody hflow))) fun again m'' htest => ?_
      cases again with
      | false => exact h.pure _
      | true => exact ih (hr.call (.untilAgain hbody hflow htest))
    cases flow with
    | hunong => exact h.pure _
    | normal | padayon => exact hagain (by decide)

/-! ## Statements -/

mutual

/-- By recursion on the statement. The part of the run that an IPAKITA or a DAWAT
is reached by grows with each statement around it. -/
theorem execute (s : Stmt) {m : Machine} (hr : Runs watchers rounds top start (.execute s) m) :
    Q Flow m (s.execute watchers rounds) (s.execute watchers' rounds) := by
  cases s with
  | ipakita keyword e => exact h.ipakita hr
  | dawat keyword names => exact h.dawat hr
  | expr e =>
    unfold Stmt.execute
    exact h.announced _ (h.bind (h.value (hr.call .expr)) fun _ _ _ => h.pure _)
  | mugna keyword declared names =>
    unfold Stmt.execute
    exact h.announced _ (h.bind (h.declare (hr.call .mugna)) fun _ _ _ => h.pure _)
  | pundok body =>
    unfold Stmt.execute
    exact h.announced _ (h.inScope rfl hr (executeAll body (hr.call (.pundok rfl))))
  | kung keyword condition body alternatives otherwise =>
    unfold Stmt.execute
    refine h.announced _ (h.bind (h.test (hr.call (.kung rfl))) fun holds m' htest => ?_)
    cases holds with
    | true => exact execute body (hr.call (.kungHolds rfl htest))
    | false => exact executeFirst alternatives (executeOtherwise otherwise) (hr.call (.kungFails rfl htest))
  | mintras keyword condition body =>
    unfold Stmt.execute
    exact h.announced _ (h.whileHolds (execute body) rounds (hr.call .mintras))
  | buhata keyword body condition =>
    unfold Stmt.execute
    exact h.announced _ (h.untilFails (execute body) rounds (hr.call .buhata))
  | hunong keyword | padayon keyword =>
    unfold Stmt.execute
    exact h.announced _ (h.pure _)

theorem executeAll (body : List Stmt) {m : Machine} (hr : Runs watchers rounds top start (.executeAll body) m) :
    Q Flow m (BisayaPlus.executeAll watchers rounds body) (BisayaPlus.executeAll watchers' rounds body) := by
  cases body with
  | nil =>
    unfold BisayaPlus.executeAll
    exact h.pure _
  | cons s more =>
    unfold BisayaPlus.executeAll
    refine h.bind (execute s (hr.call .first)) fun flow m' hs => ?_
    cases flow with
    | normal => exact executeAll more (hr.call (.rest hs))
    | hunong | padayon => exact h.pure _

theorem executeFirst (alternatives : List (Expr × Stmt)) {otherwise : Option Stmt}
    (ho : ∀ {m}, Runs watchers rounds top start (.executeFirst [] otherwise) m →
      Q Flow m (executeOtherwise watchers rounds otherwise) (executeOtherwise watchers' rounds otherwise))
    {m : Machine} (hr : Runs watchers rounds top start (.executeFirst alternatives otherwise) m) :
    Q Flow m
      (BisayaPlus.executeFirst watchers rounds (BisayaPlus.executeOtherwise watchers rounds otherwise) alternatives)
      (BisayaPlus.executeFirst watchers' rounds (BisayaPlus.executeOtherwise watchers' rounds otherwise)
        alternatives) := by
  cases alternatives with
  | nil =>
    unfold BisayaPlus.executeFirst
    exact ho hr
  | cons first more =>
    obtain ⟨condition, body⟩ := first
    unfold BisayaPlus.executeFirst
    refine h.bind (h.test (hr.call .test)) fun holds m' htest => ?_
    cases holds with
    | true => exact execute body (hr.call (.testHolds htest))
    | false => exact executeFirst more ho (hr.call (.testFails htest))

theorem executeOtherwise (otherwise : Option Stmt) {m : Machine}
    (hr : Runs watchers rounds top start (.executeFirst [] otherwise) m) :
    Q Flow m (BisayaPlus.executeOtherwise watchers rounds otherwise)
      (BisayaPlus.executeOtherwise watchers' rounds otherwise) := by
  cases otherwise with
  | none =>
    unfold BisayaPlus.executeOtherwise
    exact h.pure _
  | some body =>
    unfold BisayaPlus.executeOtherwise
    exact execute body (hr.call .otherwise)

end

theorem interpret (statements : List Stmt) : ∀ {m}, Runs watchers rounds top start (.interpret statements) m →
    Q PUnit m (Program.interpret watchers rounds statements) (Program.interpret watchers' rounds statements) := by
  induction statements with
  | nil => exact fun _ => h.pure _
  | cons s more ih =>
    intro m hr
    exact h.bind (h.execute s (hr.call .statement)) fun flow m' hs => ih (hr.call (.statements hs))

end RespectsParts

end Parts

end BisayaPlus
