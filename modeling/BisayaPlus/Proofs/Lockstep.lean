import BisayaPlus.Proofs.Changes
/-!
# Two runs side by side

A relation between the runs of the same part for two sets of watchers. Statements
are put together from few steps: they compute on the scopes, open a scope, log,
report, print and ask for a line. A relation that these steps are in, and that
sequences and scopes keep, holds between the two runs of every statement and
every program. With a relation that only looks at one of the runs, this is also
how a property of all runs is proved.
-/

set_option autoImplicit false

namespace BisayaPlus

namespace Execution

variable {α β : Type}

/-! ## Steps on the scopes alone -/

/-- The run looks at the scopes only, and changes nothing else. -/
def OnScopes (x : Execution α) : Prop :=
  ∀ s : Scopes, ∃ (result : Except Stop α) (t : Scopes), ∀ m, m.scopes = s → x m = (result, { m with scopes := t })

theorem onScopes_pure (a : α) : OnScopes (pure a) := fun s => ⟨.ok a, s, fun _ h => h ▸ rfl⟩

theorem onScopes_throw (stop : Stop) : OnScopes (throw stop : Execution α) :=
  fun s => ⟨.error stop, s, fun _ h => h ▸ rfl⟩

theorem OnScopes.bind {x : Execution α} {f : α → Execution β} (hx : OnScopes x) (hf : ∀ a, OnScopes (f a)) :
    OnScopes (x >>= f) := by
  intro s
  obtain ⟨result, t, hrun⟩ := hx s
  cases result with
  | error stop =>
    refine ⟨.error stop, t, fun m hm => ?_⟩
    rw [run_bind, hrun m hm]
  | ok a =>
    obtain ⟨result, u, hnext⟩ := hf a t
    refine ⟨result, u, fun m hm => ?_⟩
    rw [run_bind, hrun m hm]
    exact hnext _ rfl

theorem onScopes_modify (f : Scopes → Scopes) : OnScopes (modify fun m => { m with scopes := f m.scopes }) :=
  fun s => ⟨.ok ⟨⟩, f s, fun _ h => h ▸ rfl⟩

theorem onScopes_ofEvaluation (e : Evaluation α) : OnScopes (ofEvaluation e) := by
  intro s
  cases hr : e s with
  | mk result t =>
    cases result with
    | ok a =>
      refine ⟨.ok a, t, fun m hm => ?_⟩
      rw [ofEvaluation, hm, hr]
    | error fault =>
      refine ⟨.error (.fault fault), t, fun m hm => ?_⟩
      rw [ofEvaluation, hm, hr]

theorem onScopes_value (e : Expr) : OnScopes (value e) := onScopes_ofEvaluation e.evaluate

theorem onScopes_holds (e : Expr) : OnScopes (holds e) := (onScopes_value e).bind fun _ => onScopes_pure _

theorem onScopes_declare (declared : DataType) (names : List (Token × Option Expr)) :
    OnScopes (declare declared names) := by
  induction names with
  | nil => exact onScopes_pure _
  | cons first more ih =>
    obtain ⟨name, initial⟩ := first
    have hput : ∀ v, OnScopes ((modify fun m => { m with scopes := m.scopes.define name.lexeme ⟨declared, v⟩ }) >>=
        fun _ => declare declared more) :=
      fun v => (onScopes_modify fun s => s.define name.lexeme ⟨declared, v⟩).bind fun _ => ih
    cases initial with
    | none => exact hput .null
    | some e =>
      refine (onScopes_value e).bind fun v => ?_
      cases v.coerce declared with
      | ok stored => exact hput stored
      | error cause => exact onScopes_throw _

theorem onScopes_requireAll (names : List Token) : OnScopes (requireAll names) := by
  induction names with
  | nil => exact onScopes_pure _
  | cons name more ih => exact (onScopes_ofEvaluation _).bind fun _ => ih

theorem run_get (f : Machine → Execution α) (m : Machine) : (getThe Machine >>= f) m = f m m := rfl

theorem onScopes_store (pairs : List (Token × Text)) : OnScopes (store pairs) := by
  induction pairs with
  | nil => exact onScopes_pure _
  | cons pair more ih =>
    obtain ⟨name, field⟩ := pair
    intro s
    cases hassign : s.assignInput name field with
    | error fault =>
      refine ⟨.error (.fault fault), s, fun m hm => ?_⟩
      subst hm
      rw [store, run_get, hassign]
      rfl
    | ok assigned =>
      obtain ⟨stored, t⟩ := assigned
      obtain ⟨result, u, hnext⟩ := ih t
      refine ⟨result, u, fun m hm => ?_⟩
      subst hm
      rw [store, run_get, hassign]
      exact hnext _ rfl

/-! ## Prints and requests -/

section Exchanges

variable {watchers : Watchers} {m : Machine}

theorem run_print_none (hp : watchers.printer = none) (keyword : Token) (line : Text) (m : Machine) :
    print watchers keyword line m = (.ok ⟨⟩, m) := by
  unfold print
  rw [hp]
  rfl

theorem run_print_shows {failure : Nat → Option Text} (hp : watchers.printer = some failure)
    (hf : failure (m.prints + 1) = none) (keyword : Token) (line : Text) :
    print watchers keyword line m =
      (.ok ⟨⟩, { m with prints := m.prints + 1, shown := .printed line :: m.shown }) := by
  unfold print
  rw [hp]
  dsimp only
  rw [run_get, hf]
  rfl

theorem run_print_fails {failure : Nat → Option Text} {reason : Text} (hp : watchers.printer = some failure)
    (hf : failure (m.prints + 1) = some reason) (keyword : Token) (line : Text) :
    print watchers keyword line m =
      (.error (.fault ⟨keyword, .printFailed reason⟩), { m with prints := m.prints + 1 }) := by
  unfold print
  rw [hp]
  dsimp only
  rw [run_get, hf]
  rfl

/-- What the input answers when it is asked. An input at its end answers so. -/
def nextReply (replies : List Reply) : Reply := replies.headD (.failure "EOF")

/-- What asking for a line gives on this answer. -/
def answered (keyword : Token) : Reply → Except Stop Text
  | .line t => .ok t
  | .failure reason => .error (.fault ⟨keyword, .inputFailed reason⟩)

/-- The event of an answer. -/
def answerEvent : Reply → Event
  | .line t => .read t
  | .failure reason => .readFailed reason

theorem run_request (hr : watchers.reader = true) (keyword : Token) (m : Machine) :
    request watchers keyword m =
      (answered keyword (nextReply m.replies),
        { m with replies := m.replies.tail, shown := answerEvent (nextReply m.replies) :: m.shown }) := by
  unfold request
  simp only [hr, Bool.not_true, Bool.false_eq_true, if_false]
  rw [run_get]
  rcases m.replies with _ | ⟨_ | _, rest⟩ <;> rfl

theorem run_request_absent (hr : watchers.reader = false) (keyword : Token) (m : Machine) :
    request watchers keyword m = (.error (.fault ⟨keyword, .inputAbsent⟩), m) := by
  unfold request
  simp only [hr, Bool.not_false, if_true]
  rfl

end Exchanges

end Execution

open Execution

/-! ## The steps of a run -/

/-- `RespectsSteps watchers watchers' Q`: the steps of two runs of statements are
related, and so are runs that are put together from related ones. -/
structure RespectsSteps (watchers watchers' : Watchers) (Q : (α : Type) → Execution α → Execution α → Prop) :
    Prop where
  onScopes {α : Type} {x : Execution α} : OnScopes x → Q α x x
  bind {α β : Type} {x y : Execution α} {f g : α → Execution β} : Q α x y → (∀ a, Q β (f a) (g a)) →
    Q β (x >>= f) (y >>= g)
  inScope {α : Type} {x y : Execution α} : Q α x y → Q α (inScope x) (inScope y)
  log (level : Level) (message : Text) (fields : List (Text × LogField)) :
    Q PUnit (log watchers level message fields) (log watchers' level message fields)
  print (keyword : Token) (line : Text) : Q PUnit (print watchers keyword line) (print watchers' keyword line)
  request (keyword : Token) : Q Text (request watchers keyword) (request watchers' keyword)

/-- `Respects watchers watchers' Q`: the steps of two runs of programs are related. -/
structure Respects (watchers watchers' : Watchers) (Q : (α : Type) → Execution α → Execution α → Prop) : Prop
    extends RespectsSteps watchers watchers' Q where
  observing {α : Type} {x y : Execution α} : Q α x y →
    Q (Except Stop α) (observing x) (observing y)
  report (d : Diagnostic) : Q PUnit (Program.report watchers d) (Program.report watchers' d)

/-- Loops that are granted these rounds are related if their parts are. -/
structure RespectsLoops (Q : (α : Type) → Execution α → Execution α → Prop) (rounds rounds' : Nat) : Prop where
  whileHolds {test test' : Execution Bool} {body body' : Execution Flow} : Q Bool test test' → Q Flow body body' →
    Q Flow (whileHolds test body rounds) (whileHolds test' body' rounds')
  untilFails {test test' : Execution Bool} {body body' : Execution Flow} : Q Bool test test' → Q Flow body body' →
    Q Flow (untilFails test body rounds) (untilFails test' body' rounds')

namespace RespectsSteps

variable {watchers watchers' : Watchers} {Q : (α : Type) → Execution α → Execution α → Prop}
  (h : RespectsSteps watchers watchers' Q)

include h

theorem pure {α : Type} (a : α) : Q α (pure a) (pure a) := h.onScopes (onScopes_pure a)

theorem receive (keyword : Token) (names : List Token) :
    Q PUnit (receive watchers keyword names) (Execution.receive watchers' keyword names) := by
  refine h.bind (h.onScopes (onScopes_requireAll names)) fun _ => h.bind (h.request keyword) fun line => ?_
  dsimp only
  split
  · exact h.onScopes (onScopes_store _)
  · exact h.onScopes (onScopes_throw _)

/-- One round of a loop that tests first, before the rounds that are left. -/
theorem whileRound {test test' : Execution Bool} {body body' : Execution Flow} {rounds rounds' : Nat}
    (ht : Q Bool test test') (hb : Q Flow body body')
    (hrest : Q Flow (whileHolds test body rounds) (whileHolds test' body' rounds')) :
    Q Flow (whileHolds test body (rounds + 1)) (whileHolds test' body' (rounds' + 1)) := by
  refine h.bind ht fun holds => ?_
  split
  · refine h.bind hb fun flow => ?_
    cases flow with
    | hunong => exact h.pure _
    | normal | padayon => exact hrest
  · exact h.pure _

/-- One round of a loop that tests last. -/
theorem untilRound {test test' : Execution Bool} {body body' : Execution Flow} {rounds rounds' : Nat}
    (ht : Q Bool test test') (hb : Q Flow body body')
    (hrest : Q Flow (untilFails test body rounds) (untilFails test' body' rounds')) :
    Q Flow (untilFails test body (rounds + 1)) (untilFails test' body' (rounds' + 1)) := by
  have hround : Q Flow (test >>= fun holds => if holds then untilFails test body rounds else Pure.pure .normal)
      (test' >>= fun holds => if holds then untilFails test' body' rounds' else Pure.pure .normal) := by
    refine h.bind ht fun holds => ?_
    split
    · exact hrest
    · exact h.pure _
  refine h.bind hb fun flow => ?_
  cases flow with
  | hunong => exact h.pure _
  | normal | padayon => exact hround

theorem whileHolds {test test' : Execution Bool} {body body' : Execution Flow} (ht : Q Bool test test')
    (hb : Q Flow body body') (rounds : Nat) : Q Flow (whileHolds test body rounds) (whileHolds test' body' rounds) := by
  induction rounds with
  | zero => exact h.onScopes (onScopes_throw _)
  | succ rounds ih => exact h.whileRound ht hb ih

theorem untilFails {test test' : Execution Bool} {body body' : Execution Flow} (ht : Q Bool test test')
    (hb : Q Flow body body') (rounds : Nat) : Q Flow (untilFails test body rounds) (untilFails test' body' rounds) := by
  induction rounds with
  | zero => exact h.onScopes (onScopes_throw _)
  | succ rounds ih => exact h.untilRound ht hb ih

theorem respectsLoops (rounds : Nat) : RespectsLoops Q rounds rounds where
  whileHolds ht hb := h.whileHolds ht hb rounds
  untilFails ht hb := h.untilFails ht hb rounds

/-- The second run may be granted more rounds, if a run that stays unfinished is
related to any that goes on from there. -/
theorem respectsLoops_of_le
    (hcut : ∀ {α : Type} {x y : Execution α}, Q α x y → Q α (throw .unfinished) y) (rounds : Nat) :
    ∀ {rounds' : Nat}, rounds ≤ rounds' → RespectsLoops Q rounds rounds' := by
  induction rounds with
  | zero =>
    exact fun _ => ⟨fun ht hb => hcut (h.whileHolds ht hb _), fun ht hb => hcut (h.untilFails ht hb _)⟩
  | succ rounds ih =>
    intro rounds' hle
    obtain ⟨rounds', rfl⟩ : ∃ n, rounds' = n + 1 := ⟨rounds' - 1, by omega⟩
    have hloops := ih (Nat.le_of_succ_le_succ hle)
    exact ⟨fun ht hb => h.whileRound ht hb (hloops.whileHolds ht hb),
      fun ht hb => h.untilRound ht hb (hloops.untilFails ht hb)⟩

/-! ## Statements -/

variable {rounds rounds' : Nat}

mutual

/-- By recursion on the statement, along the recursion of the run. -/
theorem executeWithin (hl : RespectsLoops Q rounds rounds') (s : Stmt) :
    Q Flow (s.execute watchers rounds) (s.execute watchers' rounds') := by
  unfold Stmt.execute
  refine h.bind (h.log .trace _ _) fun _ => ?_
  cases s with
  | expr e => exact h.bind (h.onScopes (onScopes_value e)) fun _ => h.pure _
  | ipakita keyword e =>
    exact h.bind (h.onScopes (onScopes_value e)) fun v => h.bind (h.print keyword _) fun _ => h.pure _
  | mugna keyword declared names => exact h.bind (h.onScopes (onScopes_declare declared names)) fun _ => h.pure _
  | dawat keyword names => exact h.bind (h.receive keyword names) fun _ => h.pure _
  | pundok body => exact h.inScope (executeAllWithin hl body)
  | kung keyword condition body alternatives otherwise =>
    refine h.bind (h.onScopes (onScopes_holds condition)) fun holds => ?_
    split
    · exact executeWithin hl body
    · exact executeFirstWithin hl (executeOtherwiseWithin hl otherwise) alternatives
  | mintras keyword condition body =>
    exact hl.whileHolds (h.onScopes (onScopes_holds condition)) (executeWithin hl body)
  | buhata keyword body condition =>
    exact hl.untilFails (h.onScopes (onScopes_holds condition)) (executeWithin hl body)
  | hunong keyword => exact h.pure _
  | padayon keyword => exact h.pure _

theorem executeAllWithin (hl : RespectsLoops Q rounds rounds') (body : List Stmt) :
    Q Flow (BisayaPlus.executeAll watchers rounds body) (BisayaPlus.executeAll watchers' rounds' body) := by
  cases body with
  | nil =>
    unfold BisayaPlus.executeAll
    exact h.pure _
  | cons s more =>
    unfold BisayaPlus.executeAll
    refine h.bind (executeWithin hl s) fun flow => ?_
    cases flow with
    | normal => exact executeAllWithin hl more
    | hunong | padayon => exact h.pure _

theorem executeFirstWithin (hl : RespectsLoops Q rounds rounds') {otherwise otherwise' : Execution Flow}
    (ho : Q Flow otherwise otherwise') (alternatives : List (Expr × Stmt)) :
    Q Flow (BisayaPlus.executeFirst watchers rounds otherwise alternatives)
      (BisayaPlus.executeFirst watchers' rounds' otherwise' alternatives) := by
  cases alternatives with
  | nil =>
    unfold BisayaPlus.executeFirst
    exact ho
  | cons first more =>
    obtain ⟨condition, body⟩ := first
    unfold BisayaPlus.executeFirst
    refine h.bind (h.onScopes (onScopes_holds condition)) fun holds => ?_
    split
    · exact executeWithin hl body
    · exact executeFirstWithin hl ho more

theorem executeOtherwiseWithin (hl : RespectsLoops Q rounds rounds') (last : Option Stmt) :
    Q Flow (BisayaPlus.executeOtherwise watchers rounds last)
      (BisayaPlus.executeOtherwise watchers' rounds' last) := by
  cases last with
  | none =>
    unfold BisayaPlus.executeOtherwise
    exact h.pure _
  | some body =>
    unfold BisayaPlus.executeOtherwise
    exact executeWithin hl body

end

theorem execute (rounds : Nat) (s : Stmt) : Q Flow (s.execute watchers rounds) (s.execute watchers' rounds) :=
  h.executeWithin (h.respectsLoops rounds) s

theorem executeAll (rounds : Nat) (body : List Stmt) :
    Q Flow (BisayaPlus.executeAll watchers rounds body) (BisayaPlus.executeAll watchers' rounds body) :=
  h.executeAllWithin (h.respectsLoops rounds) body

theorem interpret (rounds : Nat) (statements : List Stmt) :
    Q PUnit (Program.interpret watchers rounds statements) (Program.interpret watchers' rounds statements) := by
  induction statements with
  | nil => exact h.pure _
  | cons s more ih => exact h.bind (h.execute rounds s) fun _ => ih

end RespectsSteps

namespace Respects

variable {watchers watchers' : Watchers} {Q : (α : Type) → Execution α → Execution α → Prop}
  (h : Respects watchers watchers' Q)

include h

/-! ## Programs -/

theorem reportAll (ds : List Diagnostic) :
    Q PUnit (Program.reportAll watchers ds) (Program.reportAll watchers' ds) := by
  induction ds with
  | nil => exact h.pure _
  | cons d more ih => exact h.bind (h.report d) fun _ => ih

theorem showReading (p : Program) : Q PUnit (p.showReading watchers) (p.showReading watchers') := by
  refine h.bind (h.reportAll _) fun _ => h.bind (h.log _ _ _) fun _ => h.bind (h.reportAll _) fun _ => ?_
  split
  · exact h.log _ _ _
  · exact h.pure _

theorem conclude (ending : Except Stop PUnit) :
    Q Outcome (Program.conclude watchers ending) (Program.conclude watchers' ending) := by
  rcases ending with (f | _) | _
  · exact h.bind (h.report _) fun _ => h.bind (h.log _ _ _) fun _ => h.pure _
  · exact h.pure _
  · exact h.bind (h.log _ _ _) fun _ => h.pure _

/-- The two runs of a program are related. -/
theorem execution (rounds : Nat) (p : Program) :
    Q Outcome (p.execution watchers rounds) (p.execution watchers' rounds) := by
  refine h.bind (h.showReading p) fun _ => ?_
  split
  · exact h.bind (h.observing (h.interpret rounds _)) fun ending => h.conclude ending
  · exact h.pure _

end Respects

end BisayaPlus
