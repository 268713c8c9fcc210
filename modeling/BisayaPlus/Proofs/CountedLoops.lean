import BisayaPlus.Proofs.LoopForms
import BisayaPlus.Proofs.Widening
/-!
# Counted loops

ALANG SA has no node of its own. It is read as a conditional loop, in a block if
its header has a first part, and with a block around the body and the last part
if there is one. Whichever parts the header lacks, this does what a counted loop
is meant to do: the blocks that come or go with the parts make no difference,
and the jumps and faults of the body pass through them.
-/

set_option autoImplicit false

namespace BisayaPlus

/-! ## The loop as it is meant -/

namespace Execution

/-- Tests, runs the body, takes the step and starts over, until the test fails
or the body leaves the loop. PADAYON in the body goes back to the test without a
step. -/
def countedRounds (test : Execution Bool) (body : Execution Flow) (step : Execution PUnit) : Nat → Execution Flow
  | 0 => throw .unfinished
  | rounds + 1 => do
    if ← test then
      match ← body with
      | .hunong => pure .normal
      | .padayon => countedRounds test body step rounds
      | .normal => do
        step
        countedRounds test body step rounds
    else pure .normal

/-- Runs the first part of a header, if there is one. -/
def startOf (watchers : Watchers) (rounds : Nat) (start : Option Stmt) : Execution PUnit :=
  start.elim (pure ⟨⟩) fun first => do
    let _ ← first.execute watchers rounds
    pure ⟨⟩

/-- Whether the condition of a header holds. One that is left out does. -/
def testOf (condition : Option Expr) : Execution Bool := condition.elim (pure true) holds

/-- Evaluates the last part of a header, if there is one. -/
def stepOf (increment : Option Expr) : Execution PUnit :=
  increment.elim (pure ⟨⟩) fun e => do
    let _ ← value e
    pure ⟨⟩

/-- Runs a counted loop, with a scope open around all of it and one more around
each run of the body. -/
def counting (watchers : Watchers) (rounds : Nat) (start : Option Stmt) (condition increment : Option Expr)
    (body : List Stmt) : Execution Flow :=
  inScope do
    startOf watchers rounds start
    countedRounds (testOf condition) (inScope (executeAll watchers rounds body)) (stepOf increment) rounds

/-- Runs the body and, if it does not jump, takes the step. -/
def thenStep (body : Execution Flow) (step : Execution PUnit) : Execution Flow := do
  match ← body with
  | .normal => do
    step
    pure .normal
  | jump => pure jump

/-! ## The loop as it is read -/

section Rounds

variable {test test' : Execution Bool} {body body' : Execution Flow} {step step' : Execution PUnit}

theorem countedRounds_eq (test : Execution Bool) (body : Execution Flow) (step : Execution PUnit) (rounds : Nat) :
    countedRounds test body step rounds = whileHolds test (thenStep body step) rounds := by
  induction rounds with
  | zero => rfl
  | succ rounds ih =>
    rw [countedRounds, whileHolds]
    congr 1
    funext holds
    cases holds with
    | false => rfl
    | true =>
      rw [if_pos rfl, if_pos rfl]
      nth_rewrite 1 [thenStep]
      rw [bind_assoc, ← ih]
      congr 1
      funext flow
      cases flow with
      | normal => simp only [bind_assoc, pure_bind]
      | padayon | hunong => simp only [pure_bind]

theorem thenStep_pure (body : Execution Flow) : thenStep body (pure ⟨⟩) = body := by
  refine Eq.trans (bind_congr fun flow => ?_) (bind_pure body)
  cases flow <;> rfl

theorem changing_thenStep (hb : Changing body) (hs : Changing step) : Changing (thenStep body step) := by
  refine hb.bind fun flow => ?_
  cases flow with
  | normal => exact hs.bind fun _ => changing_pure _
  | hunong | padayon => exact changing_pure _

theorem tracks_thenStep {W : Machine → Machine → Prop} {E : Stop → Stop → Prop} (hb : Tracks W E body body')
    (hs : Tracks W E step step') : Tracks W E (thenStep body step) (thenStep body' step') := by
  refine hb.bind fun flow => ?_
  cases flow with
  | normal => exact hs.bind fun _ => tracks_pure _
  | hunong | padayon => exact tracks_pure _

theorem changing_stepOf (increment : Option Expr) : Changing (stepOf increment) := by
  cases increment with
  | none => exact changing_pure _
  | some e => exact (changing_value e).bind fun _ => changing_pure _

theorem testOf_eq (condition : Option Expr) : testOf condition = holds (condition.getD (.literal (.tinuod true))) := by
  cases condition with
  | none => rfl
  | some e => rfl

end Rounds

end Execution

open Execution Correspondence

/-- What a relation that the steps of a run keep says about counting. -/
theorem RespectsSteps.counting {watchers watchers' : Watchers} {Q : (α : Type) → Execution α → Execution α → Prop}
    (h : RespectsSteps watchers watchers' Q) (rounds : Nat) (start : Option Stmt) (condition increment : Option Expr)
    (body : List Stmt) : Q Flow (counting watchers rounds start condition increment body)
      (counting watchers' rounds start condition increment body) := by
  have hstart : Q PUnit (startOf watchers rounds start) (startOf watchers' rounds start) := by
    cases start with
    | none => exact h.pure _
    | some first => exact h.bind (h.execute rounds first) fun _ => h.pure _
  have hstep : Q PUnit (stepOf increment) (stepOf increment) := by
    cases increment with
    | none => exact h.pure _
    | some e => exact h.bind (h.onScopes (onScopes_value e)) fun _ => h.pure _
  refine h.inScope (h.bind hstart fun _ => ?_)
  rw [countedRounds_eq, countedRounds_eq, testOf_eq]
  refine h.whileHolds (h.onScopes (onScopes_holds _)) ?_ rounds
  refine h.bind (h.inScope (h.executeAll rounds body)) fun flow => ?_
  cases flow with
  | normal => exact h.bind hstep fun _ => h.pure _
  | hunong | padayon => exact h.pure _

namespace Stmt

section Untraced

variable (watchers : Watchers) (rounds : Nat)

theorem execute_pundok_untraced (body : List Stmt) : (pundok body).execute watchers.untraced rounds =
    inScope (executeAll watchers.untraced rounds body) := by
  rw [execute, announce_untraced, pure_bind]

theorem execute_expr_untraced (e : Expr) : (expr e).execute watchers.untraced rounds =
    (stepOf (some e) >>= fun _ => pure .normal) := by
  rw [execute, announce_untraced, pure_bind, stepOf, Option.elim_some, bind_assoc]
  rfl

end Untraced

section Lists

variable {watchers : Watchers} {rounds : Nat} {first second : Stmt}

theorem executeAll_singleton (s : Stmt) : executeAll watchers rounds [s] = s.execute watchers rounds := by
  rw [executeAll]
  refine Eq.trans (bind_congr fun flow => ?_) (bind_pure _)
  cases flow with
  | normal => rw [executeAll]
  | hunong | padayon => rfl

/-- A statement that does not jump, and one after it. -/
theorem executeAll_after {x : Execution PUnit} (h : first.execute watchers rounds = (x >>= fun _ => pure .normal)) :
    executeAll watchers rounds [first, second] = (x >>= fun _ => second.execute watchers rounds) := by
  rw [executeAll, h, bind_assoc]
  simp only [pure_bind, executeAll_singleton]

/-- A statement, and one after it that does not jump. -/
theorem executeAll_before {x : Execution PUnit} (h : second.execute watchers rounds = (x >>= fun _ => pure .normal)) :
    executeAll watchers rounds [first, second] = thenStep (first.execute watchers rounds) x := by
  rw [executeAll]
  refine bind_congr fun flow => ?_
  cases flow with
  | normal => rw [executeAll_singleton, h]
  | hunong | padayon => rfl

end Lists

/-! ## They do the same -/

section Same

variable (watchers : Watchers) (rounds : Nat) (increment : Option Expr) (body : List Stmt)

theorem inStep_stepOf {C : Correspondence} (hr : ∀ t, C.tokens t t) (depth : Nat) :
    C.InStep depth (stepOf increment) (stepOf increment) := by
  cases increment with
  | none => exact tracks_pure _
  | some e => exact (inStep_value (.refl hr e)).bind fun _ => tracks_pure _

theorem inStep_block {C : Correspondence} (hr : ∀ t, C.tokens t t) (depth : Nat) : C.InStep depth
    (inScope (executeAll watchers rounds body)) (inScope (executeAll watchers rounds body)) :=
  inStep_inScope (inStep_executeAll watchers (.items_refl hr body) rounds)

/-- One round. The block around the body and the last part declares nothing. -/
theorem sameOnChains_round : SameOnChains
    (thenStep (inScope (executeAll watchers.untraced rounds body)) (stepOf increment))
    ((counted (.pundok body) increment).execute watchers.untraced rounds) := by
  have hchanging : Changing
      (thenStep (inScope (executeAll watchers.untraced rounds body)) (stepOf increment)) :=
    changing_thenStep (changing_inScope (changing_executeAll _ _ body)) (changing_stepOf increment)
  cases increment with
  | none =>
    refine hchanging.sameOnChains fun m _ => ?_
    rw [counted, execute_pundok_untraced]
    exact congrFun (thenStep_pure _) m
  | some e =>
    rw [counted, execute_pundok_untraced, executeAll_before (execute_expr_untraced watchers rounds e),
      execute_pundok_untraced]
    refine sameOnChains_inScope hchanging (tracks_thenStep ?_ ?_)
    · exact inStep_block _ rounds body (fun _ => rfl) 0
    · exact inStep_stepOf (some e) (fun _ => rfl) 0

variable (keyword : Token) (condition : Option Expr)

theorem changing_countedRounds : Changing
    (countedRounds (testOf condition) (inScope (executeAll watchers rounds body)) (stepOf increment) rounds) := by
  rw [countedRounds_eq, testOf_eq]
  refine changing_whileHolds (changing_holds _) (changing_thenStep ?_ (changing_stepOf increment)) rounds
  exact changing_inScope (changing_executeAll watchers rounds body)

/-- All rounds, without the scope around them. -/
theorem sameOnChains_loop : SameOnChains
    (countedRounds (testOf condition) (inScope (executeAll watchers.untraced rounds body)) (stepOf increment) rounds)
    ((countedLoop keyword none condition increment (.pundok body)).execute watchers.untraced rounds) := by
  rw [countedLoop, execute_mintras_untraced, countedRounds_eq, testOf_eq]
  refine tracks_whileHolds rfl ((changing_holds _).sameOnChains fun _ _ => rfl) ?_ rounds
  exact sameOnChains_round watchers rounds increment body

/-- The first part of a counted loop does not jump. -/
theorem execute_start {ts : List Token} {first : Stmt} (h : Grammar.Start ts (some first)) : ∃ x : Execution PUnit,
    Changing x ∧ first.execute watchers.untraced rounds = (x >>= fun _ => pure .normal) := by
  cases h with
  | @mugna _ _ declared _ name =>
    refine ⟨declare declared [name], changing_declare declared [name], ?_⟩
    rw [execute, announce_untraced, pure_bind]
  | @expr _ e _ => exact ⟨stepOf (some e), changing_stepOf _, execute_expr_untraced watchers rounds e⟩

theorem sameOnChains_countedLoop {ts : List Token} {start : Option Stmt} (h : Grammar.Start ts start) {m : Machine}
    (hm : m.scopes.IsChain) :
    (countedLoop keyword start condition increment (.pundok body)).execute watchers.untraced rounds m =
      counting watchers.untraced rounds start condition increment body m := by
  have hloop := sameOnChains_loop watchers rounds increment body keyword condition
  have hrounds := changing_countedRounds watchers.untraced rounds increment body condition
  cases start with
  | none =>
    -- nothing is declared in the scope around the loop
    rw [← hloop.eq hm]
    refine (sameOnChains_inScope hrounds ?_).eq hm
    rw [countedRounds_eq, testOf_eq]
    refine tracks_whileHolds .unfinished (inStep_holds (.refl (fun _ => rfl) _)) (tracks_thenStep ?_ ?_) rounds
    · exact inStep_block _ rounds body (fun _ => rfl) 0
    · exact inStep_stepOf increment (fun _ => rfl) 0
  | some first =>
    obtain ⟨x, hx, hfirst⟩ := execute_start watchers rounds h
    have hstart : startOf watchers.untraced rounds (some first) = x := by
      rw [startOf, Option.elim_some, hfirst, bind_assoc]
      exact bind_pure x
    have hbuilt : (countedLoop keyword (some first) condition increment (.pundok body)).execute watchers.untraced
        rounds = inScope (x >>= fun _ =>
          (countedLoop keyword none condition increment (.pundok body)).execute watchers.untraced rounds) := by
      change (pundok [first, countedLoop keyword none condition increment (.pundok body)]).execute _ _ = _
      rw [execute_pundok_untraced, executeAll_after hfirst]
    rw [hbuilt, counting, hstart]
    refine (SameOnChains.inScope (hx.bind fun _ => hrounds) ?_).eq hm |>.symm
    exact Tracks.bind (hx.sameOnChains fun _ _ => rfl) fun _ => hloop

end Same

/-- A counted loop does what it is meant to do, whichever parts its header lacks:
from every chain of scopes it ends in the same way, with the same variables and
the same input, after the same events, the trace aside. -/
theorem countedLoop_counts (watchers : Watchers) (rounds : Nat) (keyword : Token) {ts : List Token}
    {start : Option Stmt} (hstart : Grammar.Start ts start) (condition increment : Option Expr) (body : List Stmt)
    (m : Machine) (hm : m.scopes.IsChain) :
    let built := (countedLoop keyword start condition increment (.pundok body)).execute watchers rounds m
    let meant := counting watchers rounds start condition increment body m
    built.1 = meant.1 ∧ SameButTrace meant.2 built.2 := by
  have hquiet := (narrows_untraced watchers).respects.toRespectsSteps
  refine sameButTrace_of_untraced (hquiet.counting rounds start condition increment body) (hquiet.execute rounds _) ?_
  exact sameOnChains_countedLoop watchers rounds increment body keyword condition hstart hm

/-- A loop without a condition, which prints a variable of its own and is left
when the last part has set it. -/
theorem countedLoop_counts_left :
    let t (k : Kind) : Token := { kind := k, lexeme := [], line := 1 }
    let start : Stmt := .mugna (t .mugna) .tinuod [(t .identifier, none)]
    let increment : Expr := .assign (t .identifier) (.literal (.tinuod true))
    let body : List Stmt := [.ipakita (t .ipakita) (.var (t .identifier)),
      .kung (t .kung) (.var (t .identifier)) (.hunong (t .hunong)) [] none]
    let m := Machine.fresh []
    let built := (countedLoop (t .alangSa) (some start) none (some increment) (.pundok body)).execute {} 2 m
    let meant := counting {} 2 (some start) none (some increment) body m
    Grammar.Start [t .mugna, t .tinuod, t .identifier] (some start) ∧ m.scopes.IsChain ∧
      meant.1 = .ok .normal ∧ meant.2.shown = [.printed "OO", .printed "nil"] ∧
      built.1 = meant.1 ∧ SameButTrace meant.2 built.2 := by
  intro t start increment body m built meant
  have hstart : Grammar.Start [t .mugna, t .tinuod, t .identifier] (some start) := .mugna rfl rfl (.bare rfl)
  have hm : m.scopes.IsChain := refines_fresh.chain
  obtain ⟨hresult, hmachine⟩ := countedLoop_counts {} 2 (t .alangSa) hstart none (some increment) body m hm
  exact ⟨hstart, hm, by decide +kernel, by decide +kernel, hresult, hmachine⟩

end Stmt

end BisayaPlus
