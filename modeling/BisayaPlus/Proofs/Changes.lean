import BisayaPlus.Run
/-!
# What a run does to the scopes

An expression only assigns to variables it names. A statement assigns, stores
input, declares in the current scope, and opens a scope only to close it again.
`Changes` says this once, for every way a statement can end, and the invariants
of a run are inductions over it.
-/

set_option autoImplicit false

namespace BisayaPlus

/-! ## Variables -/

namespace Scopes

variable {s t : Scopes} {name : Token} {v : Value}

theorem lookup?_some {text : Text} {place : Nat} {b : Binding} (h : s.lookup? text = some (place, b)) :
    ∃ scope, s.arena[place]? = some scope ∧ scope.find? text = some b := by
  unfold lookup? at h
  split at h
  · cases h
  · obtain ⟨b', hb, heq⟩ := Option.map_eq_some_iff.1 h
    obtain ⟨rfl, rfl⟩ := Prod.mk.inj heq
    exact Option.bind_eq_some_iff.1 hb

/-- A variable that is given a value stays in its place, with its type. -/
theorem update_ok {convert : DataType → Except Cause Value} (h : s.update name convert = .ok (v, t)) :
    ∃ place b, s.lookup? name.lexeme = some (place, b) ∧ convert b.declared = .ok v ∧
      t = { s with arena := s.arena.modify place (·.define name.lexeme { b with value := v }) } := by
  unfold update at h
  split at h
  · cases h
  · next place b hb =>
    split at h
    · cases h
    · next value hv =>
      obtain ⟨rfl, rfl⟩ := Prod.mk.inj (Except.ok.inj h)
      exact ⟨place, b, hb, hv, rfl⟩

end Scopes

/-! ## Expressions -/

/-- The variables that an expression assigns to, by `=` or by a step. -/
def Expr.targets : Expr → List Text
  | literal _ => []
  | grouping inner => inner.targets
  | var _ => []
  | assign name value => name.lexeme :: value.targets
  | unary _ right => right.targets
  | binary left _ right => left.targets ++ right.targets
  | logical left _ right => left.targets ++ right.targets
  | step _ name _ => [name.lexeme]

/-- Assignments to variables with these names lead from one to the other. -/
inductive Assigns (targets : List Text) : Scopes → Scopes → Prop where
  | refl (s : Scopes) : Assigns targets s s
  | assign {s t u : Scopes} {name : Token} {v stored : Value} : Assigns targets s t → name.lexeme ∈ targets →
      t.assign name v = .ok (stored, u) → Assigns targets s u

namespace Assigns

variable {targets targets' : List Text} {s t u : Scopes}

theorem trans (h : Assigns targets s t) (h' : Assigns targets t u) : Assigns targets s u := by
  induction h' with
  | refl => exact h
  | assign _ hn ha ih => exact .assign ih hn ha

theorem mono (h : Assigns targets s t) (hsub : targets ⊆ targets') : Assigns targets' s t := by
  induction h with
  | refl => exact .refl s
  | assign _ hn ha ih => exact .assign ih (hsub hn) ha

end Assigns

namespace Evaluation

variable {α β : Type} {targets : List Text}

theorem run_bind (x : Evaluation α) (f : α → Evaluation β) (s : Scopes) :
    (x >>= f) s =
      match x s with
      | (.ok a, t) => f a t
      | (.error fault, t) => (.error fault, t) := by
  change (ExceptT.bindCont f (x s).1) (x s).2 = _
  rcases x s with ⟨_ | a, t⟩ <;> rfl

theorem run_ofExcept (r : Except Fault α) (s : Scopes) : (ofExcept r : Evaluation α) s = (r, s) := by
  cases r <;> rfl

theorem run_get (name : Token) (s : Scopes) : Evaluation.get name s = (s.get name, s) := run_ofExcept (s.get name) s

theorem run_require (name : Token) (s : Scopes) :
    require name s = if s.has name.lexeme = true then (.ok ⟨⟩, s) else (.error (Scopes.undefined name), s) := by
  change (if s.has name.lexeme = true then pure ⟨⟩ else throw _ : Evaluation PUnit) s = _
  split <;> rfl

/-- However the evaluation ends, it has only assigned to these variables. -/
def Assigning (targets : List Text) (x : Evaluation α) : Prop := ∀ s, Assigns targets s (x s).2

theorem assigning_pure (a : α) : Assigning targets (pure a) := fun s => .refl s

theorem assigning_ofExcept (r : Except Fault α) : Assigning targets (ofExcept r) := by
  intro s
  rw [run_ofExcept]
  exact .refl s

theorem Assigning.bind {x : Evaluation α} {f : α → Evaluation β} (hx : Assigning targets x)
    (hf : ∀ a, Assigning targets (f a)) : Assigning targets (x >>= f) := by
  intro s
  have h := hx s
  rw [run_bind]
  rcases hr : x s with ⟨fault | a, t⟩ <;> rw [hr] at h
  · exact h
  · exact h.trans (hf a t)

theorem Assigning.mono {targets' : List Text} {x : Evaluation α} (h : Assigning targets x)
    (hsub : targets ⊆ targets') : Assigning targets' x :=
  fun s => (h s).mono hsub

theorem assigning_get (name : Token) : Assigning targets (get name) := by
  intro s
  rw [run_get]
  exact .refl s

theorem assigning_require (name : Token) : Assigning targets (require name) := by
  intro s
  rw [run_require]
  split <;> exact .refl s

theorem run_assign (name : Token) (v : Value) (s : Scopes) :
    Evaluation.assign name v s =
      match s.assign name v with
      | .ok (stored, t) => (.ok stored, t)
      | .error fault => (.error fault, s) := by
  change (ofExcept (s.assign name v) >>= fun p => set p.2 >>= fun _ => pure p.1 : Evaluation Value) s = _
  rw [run_bind, run_ofExcept]
  cases s.assign name v <;> rfl

theorem assigning_assign {name : Token} (v : Value) (hn : name.lexeme ∈ targets) :
    Assigning targets (Evaluation.assign name v) := by
  intro s
  rw [run_assign]
  cases h : s.assign name v with
  | error fault => exact .refl s
  | ok p => exact .assign (.refl s) hn h

end Evaluation

open Evaluation

/-- A step in its parts: the old value, the new one, and the assignment. -/
theorem evaluate_step (s : Scopes) (operator name : Token) (before : Bool) :
    (Expr.step operator name before).evaluate s =
      match s.get name with
      | .error fault => (.error fault, s)
      | .ok old =>
        match Operation.step operator old with
        | .error fault => (.error fault, s)
        | .ok new =>
          match s.assign name new with
          | .error fault => (.error fault, s)
          | .ok (stored, t) => (.ok (if before then stored else old), t) := by
  rw [Expr.evaluate, Evaluation.run_bind, Evaluation.run_get]
  cases s.get name with
  | error fault => rfl
  | ok old =>
    dsimp only
    rw [Evaluation.run_bind, Evaluation.run_ofExcept]
    cases Operation.step operator old with
    | error fault => rfl
    | ok new =>
      dsimp only
      rw [Evaluation.run_bind, Evaluation.run_assign]
      cases s.assign name new <;> rfl

/-- An expression assigns to nothing but its targets. -/
theorem Expr.assigning_evaluate (e : Expr) : Assigning e.targets e.evaluate := by
  induction e with
  | literal value => exact assigning_pure value
  | grouping inner ih => exact ih
  | var name => exact assigning_get name
  | assign name value ih =>
    refine (assigning_require name).bind fun _ => ?_
    exact (ih.mono (List.subset_cons_self _ _)).bind fun v => assigning_assign v (List.mem_cons_self ..)
  | unary operator right ih => exact ih.bind fun r => assigning_ofExcept _
  | binary left operator right ihl ihr =>
    refine (ihl.mono (List.subset_append_left _ _)).bind fun l => ?_
    exact (ihr.mono (List.subset_append_right _ _)).bind fun r => assigning_ofExcept _
  | logical left operator right ihl ihr =>
    refine (ihl.mono (List.subset_append_left _ _)).bind fun l => ?_
    split
    · exact assigning_pure l
    · exact ihr.mono (List.subset_append_right _ _)
  | step operator name before =>
    refine (assigning_get name).bind fun old => (assigning_ofExcept _).bind fun new => ?_
    exact (assigning_assign new (List.mem_singleton.2 rfl)).bind fun stored => assigning_pure _

/-! ## Statements -/

/-- What a statement may do to the scopes. A scope that it opens is closed when
the part of the run inside it is over. -/
inductive Changes : Scopes → Scopes → Prop where
  | refl (s : Scopes) : Changes s s
  | assign {s t u : Scopes} {name : Token} {v stored : Value} : Changes s t → t.assign name v = .ok (stored, u) →
      Changes s u
  | input {s t u : Scopes} {name : Token} {field : Text} {stored : Value} : Changes s t →
      t.assignInput name field = .ok (stored, u) → Changes s u
  | define {s t : Scopes} {name : Text} {declared : DataType} {v stored : Value} : Changes s t →
      v.coerce declared = .ok stored → Changes s (t.define name ⟨declared, stored⟩)
  | block {s t u : Scopes} : Changes s t → Changes t.push u → Changes s u.pop

theorem Changes.trans {s t u : Scopes} (h : Changes s t) (h' : Changes t u) : Changes s u := by
  induction h' with
  | refl => exact h
  | assign _ ha ih => exact .assign (ih h) ha
  | input _ ha ih => exact .input (ih h) ha
  | define _ hc ih => exact .define (ih h) hc
  | block _ hb ih _ => exact .block (ih h) hb

theorem Assigns.changes {targets : List Text} {s t : Scopes} (h : Assigns targets s t) : Changes s t := by
  induction h with
  | refl => exact .refl s
  | assign _ _ ha ih => exact .assign ih ha

namespace Execution

variable {α β : Type}

theorem run_bind (x : Execution α) (f : α → Execution β) (m : Machine) :
    (x >>= f) m =
      match x m with
      | (.ok a, m') => f a m'
      | (.error stop, m') => (.error stop, m') := by
  change (ExceptT.bindCont f (x m).1) (x m).2 = _
  rcases x m with ⟨_ | a, m'⟩ <;> rfl

/-- However the run ends, these are changes that statements may make. -/
def Changing (x : Execution α) : Prop := ∀ m, Changes m.scopes (x m).2.scopes

theorem changing_pure (a : α) : Changing (pure a) := fun m => .refl m.scopes

theorem changing_throw (stop : Stop) : Changing (throw stop : Execution α) := fun m => .refl m.scopes

theorem Changing.bind {x : Execution α} {f : α → Execution β} (hx : Changing x) (hf : ∀ a, Changing (f a)) :
    Changing (x >>= f) := by
  intro m
  have h := hx m
  rw [run_bind]
  rcases hr : x m with ⟨stop | a, m'⟩ <;> rw [hr] at h
  · exact h
  · exact h.trans (hf a m')

theorem changing_get {f : Machine → Execution α} (h : ∀ m, Changes m.scopes (f m m).2.scopes) :
    Changing (getThe Machine >>= f) := by
  intro m
  rw [run_bind]
  exact h m

theorem changing_modify {f : Machine → Machine} (h : ∀ m, Changes m.scopes (f m).scopes) :
    Changing (modify f) :=
  fun m => h m

theorem changing_emit (e : Event) : Changing (emit e) := changing_modify fun m => .refl m.scopes

theorem changing_fail (token : Token) (cause : Cause) : Changing (fail token cause : Execution α) :=
  changing_throw _

theorem changing_log (watchers : Watchers) (level : Level) (message : Text) (fields : List (Text × LogField)) :
    Changing (log watchers level message fields) := by
  unfold log
  split
  · exact changing_emit _
  · exact changing_pure _

theorem changing_ofEvaluation {targets : List Text} {e : Evaluation α} (h : Assigning targets e) :
    Changing (ofEvaluation e) := by
  intro m
  have hs := (h m.scopes).changes
  unfold ofEvaluation
  rcases hr : e m.scopes with ⟨fault | a, t⟩ <;> rw [hr] at hs <;> exact hs

theorem changing_inScope {x : Execution α} (h : Changing x) : Changing (inScope x) :=
  fun m => .block (.refl m.scopes) (h { m with scopes := m.scopes.push })

theorem changing_value (e : Expr) : Changing (value e) := changing_ofEvaluation e.assigning_evaluate

theorem changing_holds (e : Expr) : Changing (holds e) := (changing_value e).bind fun _ => changing_pure _

/-! ## Simple statements -/

theorem changing_print (watchers : Watchers) (keyword : Token) (line : Text) :
    Changing (print watchers keyword line) := by
  unfold print
  cases watchers.printer with
  | none => exact changing_pure _
  | some failure =>
    have hcount : ∀ n : Nat, Changing (modify fun m => { m with prints := n }) :=
      fun n => changing_modify fun m => .refl m.scopes
    refine changing_get fun m => (hcount _).bind (fun _ => ?_) m
    split
    · exact changing_fail _ _
    · exact changing_emit _

theorem changing_request (watchers : Watchers) (keyword : Token) : Changing (request watchers keyword) := by
  unfold request
  split
  · exact changing_fail _ _
  · refine changing_get fun m => ?_
    cases m.replies with
    | nil => exact .refl m.scopes
    | cons reply rest => cases reply <;> exact .refl m.scopes

/-- A declaration takes what the initial value converts to, or ends there. -/
theorem declare_initialized (declared : DataType) (name : Token) (more : List (Token × Option Expr)) {e : Expr}
    {m m' : Machine} {v : Value} (he : value e m = (.ok v, m')) :
    declare declared ((name, some e) :: more) m =
      match v.coerce declared with
      | .ok stored => declare declared more { m' with scopes := m'.scopes.define name.lexeme ⟨declared, stored⟩ }
      | .error cause => (.error (.fault ⟨name, cause⟩), m') := by
  rw [declare]
  dsimp only
  rw [run_bind, he]
  dsimp only
  cases v.coerce declared <;> rfl

theorem changing_declare (declared : DataType) (names : List (Token × Option Expr)) :
    Changing (declare declared names) := by
  induction names with
  | nil => exact changing_pure _
  | cons first more ih =>
    obtain ⟨name, initial⟩ := first
    have hput : ∀ v stored : Value, v.coerce declared = .ok stored →
        Changing ((modify fun m => { m with scopes := m.scopes.define name.lexeme ⟨declared, stored⟩ }) >>= fun _ =>
          declare declared more) :=
      fun v stored hc => (changing_modify fun m => .define (.refl m.scopes) hc).bind fun _ => ih
    cases initial with
    -- NULL converts to every type, so a name without a value is declared like the others
    | none => exact hput .null .null (by cases declared <;> rfl)
    | some e =>
      refine (changing_value e).bind fun v => ?_
      cases hc : v.coerce declared with
      | ok stored => exact hput v stored hc
      | error cause => exact fun m => .refl m.scopes

theorem run_require (name : Token) (m : Machine) :
    ofEvaluation (Evaluation.require name) m =
      if m.scopes.has name.lexeme then (.ok ⟨⟩, m) else (.error (.fault (Scopes.undefined name)), m) := by
  unfold ofEvaluation
  rw [Evaluation.run_require]
  by_cases h : m.scopes.has name.lexeme = true
  · rw [if_pos h, if_pos h]
  · rw [if_neg h, if_neg h]

theorem changing_requireAll (names : List Token) : Changing (requireAll names) := by
  induction names with
  | nil => exact changing_pure _
  | cons name more ih =>
    have hname : Assigning [] (require name) := assigning_require name
    exact (changing_ofEvaluation hname).bind fun _ => ih

theorem changing_store (pairs : List (Token × Text)) : Changing (store pairs) := by
  induction pairs with
  | nil => exact changing_pure _
  | cons pair more ih =>
    obtain ⟨name, field⟩ := pair
    refine changing_get fun m => ?_
    cases h : m.scopes.assignInput name field with
    | error fault => exact .refl m.scopes
    | ok p =>
      obtain ⟨stored, scopes⟩ := p
      exact (Changes.input (.refl m.scopes) h).trans (ih { m with scopes := scopes })

theorem changing_receive (watchers : Watchers) (keyword : Token) (names : List Token) :
    Changing (receive watchers keyword names) := by
  refine (changing_requireAll names).bind fun _ => (changing_request watchers keyword).bind fun line => ?_
  dsimp only
  split
  · exact changing_store _
  · exact changing_fail _ _

/-! ## Loops -/

theorem changing_whileHolds {test : Execution Bool} {body : Execution Flow} (ht : Changing test)
    (hb : Changing body) (rounds : Nat) : Changing (whileHolds test body rounds) := by
  induction rounds with
  | zero => exact changing_throw _
  | succ rounds ih =>
    refine ht.bind fun holds => ?_
    split
    · refine hb.bind fun flow => ?_
      split
      · exact changing_pure _
      · exact ih
    · exact changing_pure _

theorem changing_untilFails {test : Execution Bool} {body : Execution Flow} (ht : Changing test)
    (hb : Changing body) (rounds : Nat) : Changing (untilFails test body rounds) := by
  induction rounds with
  | zero => exact changing_throw _
  | succ rounds ih =>
    refine hb.bind fun flow => ?_
    split
    · exact changing_pure _
    · refine ht.bind fun holds => ?_
      split
      · exact ih
      · exact changing_pure _

/-- Before a statement runs, only an entry of a log is shown. -/
theorem run_announce (watchers : Watchers) (s : Stmt) (m : Machine) :
    ∃ shown, announce watchers s m = (.ok ⟨⟩, { m with shown := shown }) := by
  unfold announce log
  split
  · exact ⟨_, rfl⟩
  · exact ⟨_, rfl⟩

theorem changing_announce (watchers : Watchers) (s : Stmt) : Changing (announce watchers s) :=
  changing_log watchers .trace _ _

end Execution

open Execution

mutual

/-- By recursion on the statement, along the recursion of the run. -/
theorem Stmt.changing_execute (watchers : Watchers) (rounds : Nat) (s : Stmt) :
    Changing (s.execute watchers rounds) := by
  unfold Stmt.execute
  refine (changing_announce watchers s).bind fun _ => ?_
  cases s with
  | expr e => exact (changing_value e).bind fun _ => changing_pure _
  | ipakita keyword e =>
    exact (changing_value e).bind fun v => (changing_print watchers keyword _).bind fun _ => changing_pure _
  | mugna keyword declared names => exact (changing_declare declared names).bind fun _ => changing_pure _
  | dawat keyword names => exact (changing_receive watchers keyword names).bind fun _ => changing_pure _
  | pundok body => exact changing_inScope (changing_executeAll watchers rounds body)
  | kung keyword condition body alternatives otherwise =>
    refine (changing_holds condition).bind fun holds => ?_
    split
    · exact body.changing_execute watchers rounds
    · exact changing_executeFirst watchers rounds (changing_executeOtherwise watchers rounds otherwise) alternatives
  | mintras keyword condition body =>
    exact changing_whileHolds (changing_holds condition) (body.changing_execute watchers rounds) rounds
  | buhata keyword body condition =>
    exact changing_untilFails (changing_holds condition) (body.changing_execute watchers rounds) rounds
  | hunong keyword => exact changing_pure _
  | padayon keyword => exact changing_pure _

theorem changing_executeAll (watchers : Watchers) (rounds : Nat) (body : List Stmt) :
    Changing (executeAll watchers rounds body) := by
  cases body with
  | nil => exact changing_pure _
  | cons s more =>
    unfold executeAll
    refine (s.changing_execute watchers rounds).bind fun flow => ?_
    split
    · exact changing_executeAll watchers rounds more
    · exact changing_pure _

theorem changing_executeFirst (watchers : Watchers) (rounds : Nat) {otherwise : Execution Flow}
    (ho : Changing otherwise) (alternatives : List (Expr × Stmt)) :
    Changing (executeFirst watchers rounds otherwise alternatives) := by
  cases alternatives with
  | nil => exact ho
  | cons first more =>
    obtain ⟨condition, body⟩ := first
    unfold executeFirst
    refine (changing_holds condition).bind fun holds => ?_
    split
    · exact body.changing_execute watchers rounds
    · exact changing_executeFirst watchers rounds ho more

theorem changing_executeOtherwise (watchers : Watchers) (rounds : Nat) (last : Option Stmt) :
    Changing (executeOtherwise watchers rounds last) := by
  cases last with
  | none => exact changing_pure _
  | some body => exact body.changing_execute watchers rounds

end

/-! ## Programs -/

namespace Program

theorem changing_report (watchers : Watchers) (d : Diagnostic) : Changing (report watchers d) := by
  unfold report
  split
  · exact changing_emit _
  · exact changing_pure _

theorem changing_reportAll (watchers : Watchers) (ds : List Diagnostic) : Changing (reportAll watchers ds) := by
  induction ds with
  | nil => exact changing_pure _
  | cons d more ih => exact (changing_report watchers d).bind fun _ => ih

theorem changing_showReading (watchers : Watchers) (p : Program) : Changing (p.showReading watchers) := by
  refine (changing_reportAll watchers _).bind fun _ => (changing_log watchers _ _ _).bind fun _ => ?_
  refine (changing_reportAll watchers _).bind fun _ => ?_
  split
  · exact changing_log watchers _ _ _
  · exact changing_pure _

theorem changing_interpret (watchers : Watchers) (rounds : Nat) (statements : List Stmt) :
    Changing (interpret watchers rounds statements) := by
  induction statements with
  | nil => exact changing_pure _
  | cons s more ih => exact (s.changing_execute watchers rounds).bind fun _ => ih

theorem changing_conclude (watchers : Watchers) (ending : Except Stop PUnit) : Changing (conclude watchers ending) := by
  rcases ending with (f | _) | _
  · refine (changing_report watchers _).bind fun _ => (changing_log watchers _ _ _).bind fun _ => ?_
    exact changing_pure _
  · exact changing_pure _
  · exact (changing_log watchers _ _ _).bind fun _ => changing_pure _

theorem run_observing {α : Type} (x : Execution α) (m : Machine) :
    (observing x : Execution (Except Stop α)) m = (.ok (x m).1, (x m).2) := by
  unfold observing
  simp only [tryCatch, tryCatchThe, MonadExceptOf.tryCatch, ExceptT.tryCatch, ExceptT.mk, bind, StateT.bind,
    ExceptT.bind, ExceptT.bindCont]
  rcases x m with ⟨_ | a, m'⟩ <;> rfl

theorem changing_observing {α : Type} {x : Execution α} (h : Changing x) :
    Changing (observing x : Execution (Except Stop α)) := by
  intro m
  rw [run_observing]
  exact h m

theorem changing_execution (watchers : Watchers) (rounds : Nat) (p : Program) :
    Changing (p.execution watchers rounds) := by
  refine (changing_showReading watchers p).bind fun _ => ?_
  split
  · refine (changing_observing (changing_interpret watchers rounds _)).bind fun ending => ?_
    exact changing_conclude watchers ending
  · exact changing_pure _

end Program

end BisayaPlus
