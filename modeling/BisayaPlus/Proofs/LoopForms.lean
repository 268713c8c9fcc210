import BisayaPlus.Proofs.Rounds
/-!
# The loop that tests last

BUHATA runs its body before it tests for the first time, and from then on it is
MINTRAS. The two loops count their rounds from different places: with as many
rounds BUHATA stops short of the other run, and with one more it passes it. So
neither can end, show something or diverge without the other.
-/

set_option autoImplicit false

namespace BisayaPlus

open Execution

/-! ## Rounds -/

/-- Runs the body once, and then the loop that tests first, unless the body leaves
it. -/
def Execution.unrolled (test : Execution Bool) (body : Execution Flow) (rounds : Nat) : Execution Flow := do
  match ← body with
  | .hunong => pure .normal
  | _ => whileHolds test body rounds

namespace RespectsSteps

variable {watchers watchers' : Watchers} {Q : (α : Type) → Execution α → Execution α → Prop}
  (h : RespectsSteps watchers watchers' Q)
  (hcut : ∀ {α : Type} {x y : Execution α}, Q α x y → Q α (throw .unfinished) y)
  {test test' : Execution Bool} {body body' : Execution Flow} (ht : Q Bool test test') (hb : Q Flow body body')

include h ht hb

theorem unrolled (rounds : Nat) :
    Q Flow (Execution.unrolled test body rounds) (Execution.unrolled test' body' rounds) := by
  refine h.bind hb fun flow => ?_
  cases flow with
  | hunong => exact h.pure _
  | normal | padayon => exact h.whileHolds ht hb rounds

include hcut

/-- With as many rounds, the loop that tests last does no more. A round of the
loop that tests first is its test and the unrolled loop with one round less. -/
theorem until_unrolled (rounds : Nat) :
    Q Flow (Execution.untilFails test body rounds) (Execution.unrolled test' body' rounds) := by
  induction rounds with
  | zero => exact hcut (h.unrolled ht hb 0)
  | succ rounds ih =>
    have hround : Q Flow
        (test >>= fun again => if again then Execution.untilFails test body rounds else Pure.pure .normal)
        (Execution.whileHolds test' body' (rounds + 1)) := by
      refine h.bind ht fun again => ?_
      split
      · exact ih
      · exact h.pure _
    refine h.bind hb fun flow => ?_
    cases flow with
    | hunong => exact h.pure _
    | normal | padayon => exact hround

/-- With one more round, it does no less. -/
theorem unrolled_until (rounds : Nat) :
    Q Flow (Execution.unrolled test body rounds) (Execution.untilFails test' body' (rounds + 1)) := by
  induction rounds with
  | zero =>
    have hround : Q Flow (test >>= fun again => if again then Execution.untilFails test body 0 else Pure.pure .normal)
        (test' >>= fun again => if again then Execution.untilFails test' body' 0 else Pure.pure .normal) := by
      refine h.bind ht fun again => ?_
      split
      · exact h.untilFails ht hb 0
      · exact h.pure _
    refine h.bind hb fun flow => ?_
    cases flow with
    | hunong => exact h.pure _
    | normal | padayon => exact hcut hround
  | succ rounds ih =>
    have hround : Q Flow (Execution.whileHolds test body (rounds + 1))
        (test' >>= fun again =>
          if again then Execution.untilFails test' body' (rounds + 1) else Pure.pure .normal) := by
      refine h.bind ht fun again => ?_
      split
      · exact ih
      · exact h.pure _
    refine h.bind hb fun flow => ?_
    cases flow with
    | hunong => exact h.pure _
    | normal | padayon => exact hround

end RespectsSteps

/-! ## Statements -/

namespace Stmt

/-- Runs the body of a loop once. If it ends normally or by PADAYON, goes on as
MINTRAS; if it ends by HUNONG, the loop is over. -/
def onceThenMintras (watchers : Watchers) (rounds : Nat) (keyword : Token) (body : Stmt) (condition : Expr) :
    Execution Flow := do
  match ← body.execute watchers rounds with
  | .hunong => pure .normal
  | .normal | .padayon => (Stmt.mintras keyword condition body).execute watchers rounds

section Forms

variable (watchers : Watchers) (keyword : Token) (body : Stmt) (condition : Expr)

theorem execute_mintras_untraced (rounds : Nat) : (mintras keyword condition body).execute watchers.untraced rounds =
    whileHolds (holds condition) (body.execute watchers.untraced rounds) rounds := by
  rw [execute, announce_untraced, pure_bind]

theorem execute_buhata_untraced (rounds : Nat) : (buhata keyword body condition).execute watchers.untraced rounds =
    untilFails (holds condition) (body.execute watchers.untraced rounds) rounds := by
  rw [execute, announce_untraced, pure_bind]

theorem onceThenMintras_untraced (rounds : Nat) :
    onceThenMintras watchers.untraced rounds keyword body condition =
      unrolled (holds condition) (body.execute watchers.untraced rounds) rounds := by
  unfold onceThenMintras unrolled
  congr 1
  funext flow
  cases flow with
  | hunong => rfl
  | normal | padayon => exact execute_mintras_untraced watchers keyword body condition rounds

/-- What a relation that the steps of a run keep says about going on as MINTRAS. -/
theorem respects_onceThenMintras {watchers watchers' : Watchers} {Q : (α : Type) → Execution α → Execution α → Prop}
    (h : RespectsSteps watchers watchers' Q) {rounds rounds' : Nat} (hl : RespectsLoops Q rounds rounds')
    (keyword : Token) (body : Stmt) (condition : Expr) : Q Flow
      (onceThenMintras watchers rounds keyword body condition)
      (onceThenMintras watchers' rounds' keyword body condition) := by
  refine h.bind (h.executeWithin hl body) fun flow => ?_
  cases flow with
  | hunong => exact h.pure _
  | normal | padayon => exact h.executeWithin hl _

end Forms

/-- BUHATA runs like its body once and then, unless the body failed or left the
loop, MINTRAS with the same body and condition: both end in the same way, with the
same variables and after the same events, the trace aside, or both diverge. -/
theorem buhata_unrolls (watchers : Watchers) (keyword keyword' : Token) (body : Stmt) (condition : Expr)
    (m : Machine) :
    let looped (rounds : Nat) := (buhata keyword body condition).execute watchers rounds m
    let unrolled (rounds : Nat) := onceThenMintras watchers rounds keyword' body condition m
    Imitates looped unrolled ∧ Imitates unrolled looped := by
  intro looped unrolled
  have hsteps := respectsSteps_begins watchers.untraced
  have hcut : ∀ {α : Type} {x y : Execution α}, Begins x y ∧ Consults y → Begins (throw .unfinished) y ∧ Consults y :=
    fun hxy => ⟨begins_unfinished hxy.2, hxy.2⟩
  have htest : Begins (holds condition) (holds condition) ∧ Consults (holds condition) :=
    hsteps.onScopes (onScopes_holds condition)
  have hquiet := (narrows_untraced watchers).respects.toRespectsSteps
  have hlooped (rounds : Nat) := hquiet.execute rounds (buhata keyword body condition)
  have hunrolled (rounds : Nat) := respects_onceThenMintras hquiet (hquiet.respectsLoops rounds) keyword' body condition
  -- the loop is a beginning of the unrolled one, and that of the loop with one more round
  have hforth (rounds : Nat) : BeginsButTrace (looped rounds) (unrolled rounds) := by
    refine beginsButTrace_of_untraced (hlooped rounds) (hunrolled rounds) ?_
    rw [execute_buhata_untraced, onceThenMintras_untraced]
    exact (hsteps.until_unrolled hcut htest (body.begins_execute _ (Nat.le_refl rounds)) rounds).1
  have hback (rounds : Nat) : BeginsButTrace (unrolled rounds) (looped (rounds + 1)) := by
    refine beginsButTrace_of_untraced (hunrolled rounds) (hlooped (rounds + 1)) ?_
    rw [execute_buhata_untraced, onceThenMintras_untraced]
    exact (hsteps.unrolled_until hcut htest (body.begins_execute _ (Nat.le_succ rounds)) rounds).1
  have hsettlesLooped : Settles looped :=
    settles_of_begins (fun _ _ hle => ((buhata keyword body condition).begins_execute watchers hle).1) m
  have hsettlesUnrolled : Settles unrolled := by
    have hsteps := respectsSteps_begins watchers
    refine settles_of_begins (fun rounds rounds' hle => ?_) m
    exact (respects_onceThenMintras hsteps (hsteps.respectsLoops_of_le hcut rounds hle) keyword' body condition).1
  exact ⟨imitates_of_begins hsettlesUnrolled (fun rounds => ⟨_, hforth rounds⟩) fun rounds => ⟨_, hback rounds⟩,
    imitates_of_begins hsettlesLooped (fun rounds => ⟨_, hback rounds⟩) fun rounds => ⟨_, hforth rounds⟩⟩

end Stmt

end BisayaPlus
