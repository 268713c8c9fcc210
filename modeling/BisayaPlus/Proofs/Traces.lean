import Mathlib.Logic.Relation
import BisayaPlus.Proofs.Parts
/-!
# Runs change one thing at a time

A single change gives a variable a value, declares a name, or opens or closes a
scope. A run is a chain of single changes, and each of them leads to a state of
the run, on which one of its parts starts or ends. So the states of a run are
all that its variables go through.
-/

set_option autoImplicit false

namespace BisayaPlus

open Execution

/-- A single change of the variables. -/
inductive Scopes.Change : Scopes → Scopes → Prop where
  | assign {s t : Scopes} {name : Token} {v stored : Value} : s.assign name v = .ok (stored, t) → Change s t
  | input {s t : Scopes} {name : Token} {field : Text} {stored : Value} :
      s.assignInput name field = .ok (stored, t) → Change s t
  | define {s : Scopes} {name : Text} {declared : DataType} {v stored : Value} : v.coerce declared = .ok stored →
      Change s (s.define name ⟨declared, stored⟩)
  | push (s : Scopes) : Change s s.push
  | pop (s : Scopes) : Change s s.pop

section Traced

variable (watchers : Watchers) (rounds : Nat) (top : Task) (start : Machine)

/-- A part of the run starts or ends with these variables. -/
def Visits (s : Scopes) : Prop :=
  ∃ part m, Runs watchers rounds top start part m ∧ (s = m.scopes ∨ s = (part.after watchers rounds m).scopes)

/-- Single changes lead from one to the other, each to a state of the run. -/
def Traced : Scopes → Scopes → Prop :=
  Relation.ReflTransGen fun s t => s.Change t ∧ Visits watchers rounds top start t

end Traced

/-! ## Steps that keep the variables -/

namespace Execution

variable {α β : Type}

/-- The run leaves the variables as they are. -/
def KeepsScopes (x : Execution α) : Prop := ∀ m, (x m).2.scopes = m.scopes

theorem keepsScopes_pure (a : α) : KeepsScopes (pure a) := fun _ => rfl

theorem keepsScopes_emit (e : Event) : KeepsScopes (emit e) := fun _ => rfl

theorem KeepsScopes.bind {x : Execution α} {f : α → Execution β} (hx : KeepsScopes x) (hf : ∀ a, KeepsScopes (f a)) :
    KeepsScopes (x >>= f) := by
  intro m
  have h := hx m
  rw [run_bind]
  rcases hr : x m with ⟨stop | a, m'⟩ <;> rw [hr] at h
  · exact h
  · exact (hf a m').trans h

theorem keepsScopes_log (watchers : Watchers) (level : Level) (message : Text) (fields : List (Text × LogField)) :
    KeepsScopes (log watchers level message fields) := by
  unfold log
  split
  · exact keepsScopes_emit _
  · exact keepsScopes_pure _

theorem keepsScopes_print (watchers : Watchers) (keyword : Token) (line : Text) :
    KeepsScopes (print watchers keyword line) := by
  intro m
  cases hp : watchers.printer with
  | none => rw [run_print_none hp]
  | some failure =>
    cases hf : failure (m.prints + 1) with
    | none => rw [run_print_shows hp hf]
    | some reason => rw [run_print_fails hp hf]

theorem keepsScopes_request (watchers : Watchers) (keyword : Token) : KeepsScopes (request watchers keyword) := by
  intro m
  cases hr : watchers.reader with
  | false => rw [run_request_absent hr]
  | true => rw [run_request hr]

theorem keepsScopes_require (name : Token) : KeepsScopes (ofEvaluation (Evaluation.require name)) := by
  intro m
  rw [run_require]
  split <;> rfl

theorem keepsScopes_requireAll (names : List Token) : KeepsScopes (requireAll names) := by
  induction names with
  | nil => exact keepsScopes_pure _
  | cons name more ih => exact (keepsScopes_require name).bind fun _ => ih

theorem scopes_ofEvaluation (x : Evaluation α) (m : Machine) : (ofEvaluation x m).2.scopes = (x m.scopes).2 := by
  unfold ofEvaluation
  rcases x m.scopes with ⟨fault | a, s⟩ <;> rfl

theorem keepsScopes_ofExcept (r : Except Fault α) : KeepsScopes (ofEvaluation (ofExcept r)) := by
  intro m
  rw [scopes_ofEvaluation, Evaluation.run_ofExcept]

theorem ofEvaluation_bind (x : Evaluation α) (f : α → Evaluation β) :
    ofEvaluation (x >>= f) = ofEvaluation x >>= fun a => ofEvaluation (f a) := by
  funext m
  rw [run_bind]
  unfold ofEvaluation
  rw [Evaluation.run_bind]
  rcases x m.scopes with ⟨fault | a, s⟩ <;> rfl

end Execution

/-! ## Parts of a run -/

section Parts

variable {watchers : Watchers} {rounds : Nat} {top : Task} {start m : Machine} {α β : Type}

theorem traced_keeps {x : Execution α} (hx : KeepsScopes x) :
    Traced watchers rounds top start m.scopes (x m).2.scopes := by
  rw [hx m]
  exact .refl

theorem traced_bind {x : Execution α} {f : α → Execution β}
    (hx : Traced watchers rounds top start m.scopes (x m).2.scopes)
    (hf : ∀ a m', x m = (.ok a, m') → Traced watchers rounds top start m'.scopes (f a m').2.scopes) :
    Traced watchers rounds top start m.scopes ((x >>= f) m).2.scopes := by
  rw [run_bind]
  rcases hr : x m with ⟨stop | a, m'⟩ <;> rw [hr] at hx
  · exact hx
  · exact hx.trans (hf a m' hr)

theorem traced_assign {name : Token} {v : Value} {s : Scopes}
    (h : Visits watchers rounds top start (Evaluation.assign name v s).2) :
    Traced watchers rounds top start s (Evaluation.assign name v s).2 := by
  rw [Evaluation.run_assign] at h ⊢
  cases hassign : s.assign name v with
  | error fault => exact .refl
  | ok stored =>
    rw [hassign] at h
    exact .single ⟨.assign hassign, h⟩

theorem traced_step {operator name : Token} {before : Bool} {s : Scopes}
    (h : Visits watchers rounds top start ((Expr.step operator name before).evaluate s).2) :
    Traced watchers rounds top start s ((Expr.step operator name before).evaluate s).2 := by
  rw [evaluate_step] at h ⊢
  cases hget : s.get name with
  | error fault => exact .refl
  | ok old =>
    rw [hget] at h
    dsimp only at h ⊢
    cases hstep : Operation.step operator old with
    | error fault => exact .refl
    | ok new =>
      rw [hstep] at h
      dsimp only at h ⊢
      cases hassign : s.assign name new with
      | error fault => exact .refl
      | ok stored =>
        rw [hassign] at h
        exact .single ⟨.assign hassign, h⟩

theorem value_assign (name : Token) (e : Expr) :
    value (.assign name e) = ofEvaluation (Evaluation.require name) >>= fun _ => value e >>= fun v =>
      ofEvaluation (Evaluation.assign name v) := by
  rw [value, Expr.evaluate, ofEvaluation_bind]
  simp only [ofEvaluation_bind]
  rfl

/-- By induction on the expression. Only assignments and steps change anything,
and the change is the last thing they do. -/
theorem traced_value (e : Expr) : ∀ {m}, Runs watchers rounds top start (.evaluate e) m →
    Traced watchers rounds top start m.scopes (value e m).2.scopes := by
  induction e with
  | literal v => exact fun _ => .refl
  | grouping inner ih => exact fun hr => ih (hr.call .grouping)
  | var name =>
    intro m _
    rw [value, scopes_ofEvaluation, Expr.evaluate, Evaluation.run_get]
    exact .refl
  | assign name e ih =>
    intro m hr
    have hend : Visits watchers rounds top start (value (.assign name e) m).2.scopes := ⟨_, m, hr, .inr rfl⟩
    rw [value_assign, run_bind, run_require] at hend ⊢
    by_cases hhas : m.scopes.has name.lexeme = true
    · rw [if_pos hhas] at hend ⊢
      refine traced_bind (ih (hr.call (.assigned hhas))) fun v m' hv => ?_
      dsimp only at hend
      rw [run_bind, hv] at hend
      dsimp only at hend
      rw [scopes_ofEvaluation] at hend ⊢
      exact traced_assign hend
    · rw [if_neg hhas]
      exact .refl
  | unary operator right ih =>
    intro m hr
    rw [value, Expr.evaluate, ofEvaluation_bind]
    exact traced_bind (ih (hr.call .operand)) fun _ _ _ => traced_keeps (keepsScopes_ofExcept _)
  | binary left operator right ihl ihr =>
    intro m hr
    rw [value, Expr.evaluate, ofEvaluation_bind]
    refine traced_bind (ihl (hr.call .left)) fun l m' hl => ?_
    rw [ofEvaluation_bind]
    exact traced_bind (ihr (hr.call (.right hl))) fun _ _ _ => traced_keeps (keepsScopes_ofExcept _)
  | logical left operator right ihl ihr =>
    intro m hr
    rw [value, Expr.evaluate, ofEvaluation_bind]
    refine traced_bind (ihl (hr.call .decides)) fun l m' hl => ?_
    split
    · exact .refl
    · next hundecided => exact ihr (hr.call (.undecided hl (by simpa using hundecided)))
  | step operator name before =>
    intro m hr
    have hend : Visits watchers rounds top start (value (.step operator name before) m).2.scopes := ⟨_, m, hr, .inr rfl⟩
    rw [value, scopes_ofEvaluation] at hend ⊢
    exact traced_step hend

theorem traced_declare (declared : DataType) (names : List (Token × Option Expr)) :
    ∀ {m}, Runs watchers rounds top start (.declare declared names) m →
      Traced watchers rounds top start m.scopes (declare declared names m).2.scopes := by
  induction names with
  | nil => exact fun _ => .refl
  | cons first more ih =>
    intro m hr
    -- the part that declares the others starts where the first has been declared
    have hfirst : ∀ {m' : Machine} {v stored : Value}, v.coerce declared = .ok stored →
        declare declared [first] m =
          (.ok ⟨⟩, { m' with scopes := m'.scopes.define first.1.lexeme ⟨declared, stored⟩ }) →
        Traced watchers rounds top start m'.scopes
          (declare declared more
            { m' with scopes := m'.scopes.define first.1.lexeme ⟨declared, stored⟩ }).2.scopes := by
      intro m' v stored hv hrun
      have hnext := hr.call (.declared hrun)
      exact .head ⟨.define hv, _, _, hnext, .inl rfl⟩ (ih hnext)
    obtain ⟨name, initial⟩ := first
    cases initial with
    | none => exact @hfirst m .null .null (by cases declared <;> rfl) rfl
    | some e =>
      refine traced_bind (traced_value e (hr.call .initial)) fun v m' hv => ?_
      cases hc : v.coerce declared with
      | error cause => exact .refl
      | ok stored =>
        refine hfirst hc ?_
        rw [declare_initialized declared name [] hv, hc]
        rfl

theorem traced_store (fields : List (Token × Text)) : ∀ {m}, Runs watchers rounds top start (.store fields) m →
    Traced watchers rounds top start m.scopes (store fields m).2.scopes := by
  induction fields with
  | nil => exact fun _ => .refl
  | cons first more ih =>
    intro m hr
    obtain ⟨name, field⟩ := first
    cases hassign : m.scopes.assignInput name field with
    | error fault =>
      rw [store, run_get, hassign]
      exact .refl
    | ok assigned =>
      obtain ⟨stored, t⟩ := assigned
      have hrun : store [(name, field)] m = (.ok ⟨⟩, { m with scopes := t }) := by
        rw [store, run_get, hassign]
        rfl
      have hnext := hr.call (.stored hrun)
      rw [store, run_get, hassign]
      exact .head ⟨.input hassign, _, _, hnext, .inl rfl⟩ (ih hnext)

theorem traced_announce (s : Stmt) :
    Traced watchers rounds top start m.scopes (announce watchers s m).2.scopes :=
  traced_keeps (keepsScopes_log watchers .trace _ _)

/-- A statement is announced, and goes on from there. -/
theorem traced_announced (s : Stmt) {f : PUnit → Execution α}
    (h : Traced watchers rounds top start (announced watchers s m).scopes (f ⟨⟩ (announced watchers s m)).2.scopes) :
    Traced watchers rounds top start m.scopes ((announce watchers s >>= f) m).2.scopes := by
  refine traced_bind (traced_announce s) fun _ m' hm => ?_
  obtain ⟨-, rfl⟩ := Prod.mk.inj ((run_announced s m).symm.trans hm)
  exact h

theorem traced_ipakita {keyword : Token} {e : Expr}
    (hr : Runs watchers rounds top start (.execute (.ipakita keyword e)) m) :
    Traced watchers rounds top start m.scopes ((Stmt.ipakita keyword e).execute watchers rounds m).2.scopes := by
  rw [Stmt.execute]
  refine traced_announced _ (traced_bind (traced_value e (hr.call .ipakita)) fun v _ _ => ?_)
  exact traced_keeps ((keepsScopes_print watchers keyword _).bind fun _ => keepsScopes_pure _)

theorem traced_dawat {keyword : Token} {names : List Token}
    (hr : Runs watchers rounds top start (.execute (.dawat keyword names)) m) :
    Traced watchers rounds top start m.scopes ((Stmt.dawat keyword names).execute watchers rounds m).2.scopes := by
  rw [Stmt.execute]
  refine traced_announced _ (traced_bind ?_ fun _ _ _ => .refl)
  refine traced_bind (traced_keeps (keepsScopes_requireAll names)) fun _ m₁ hnames => ?_
  refine traced_bind (traced_keeps (keepsScopes_request watchers keyword)) fun line m₂ hline => ?_
  by_cases hlength : ((Text.pieces (Text.byte ',') line).map Text.trim).length = names.length
  · rw [if_pos hlength]
    exact traced_store _ (hr.call (.dawat hnames hline rfl hlength))
  · rw [if_neg hlength]
    exact .refl

/-- A block opens a scope, where its first statement starts, and closes it at its
own end. -/
theorem traced_inScope {body : List Stmt} {m' : Machine} (hm : m' = announced watchers (.pundok body) m)
    (hr : Runs watchers rounds top start (.execute (.pundok body)) m)
    (hbody : Traced watchers rounds top start m'.scopes.push
      (executeAll watchers rounds body { m' with scopes := m'.scopes.push }).2.scopes) :
    Traced watchers rounds top start m'.scopes (inScope (executeAll watchers rounds body) m').2.scopes := by
  have hend : (Task.after watchers rounds (.execute (.pundok body)) m).scopes =
      (inScope (executeAll watchers rounds body) m').2.scopes := by
    rw [Task.after, Stmt.execute, run_bind, run_announced, ← hm]
  refine .head ⟨.push _, _, _, hr.call (.pundok hm), .inl rfl⟩ (hbody.tail ⟨.pop _, _, m, hr, .inr ?_⟩)
  rw [hend]

theorem respectsParts_traced : RespectsParts watchers watchers rounds top start
    fun _ m x _ => Traced watchers rounds top start m.scopes (x m).2.scopes where
  pure _ := .refl
  unfinished := .refl
  bind := traced_bind
  announce := traced_announce
  value := traced_value _
  declare := traced_declare _ _
  inScope := traced_inScope
  ipakita := traced_ipakita
  dawat := traced_dawat

end Parts

/-! ## Programs -/

namespace Program

variable {watchers : Watchers}

theorem keepsScopes_report (d : Diagnostic) : KeepsScopes (report watchers d) := by
  unfold report
  split
  · exact keepsScopes_emit _
  · exact keepsScopes_pure _

theorem keepsScopes_reportAll (ds : List Diagnostic) : KeepsScopes (reportAll watchers ds) := by
  induction ds with
  | nil => exact keepsScopes_pure _
  | cons d more ih => exact (keepsScopes_report d).bind fun _ => ih

theorem keepsScopes_showReading (p : Program) : KeepsScopes (p.showReading watchers) := by
  refine (keepsScopes_reportAll _).bind fun _ => (keepsScopes_log _ _ _ _).bind fun _ => ?_
  refine (keepsScopes_reportAll _).bind fun _ => ?_
  split
  · exact keepsScopes_log _ _ _ _
  · exact keepsScopes_pure _

theorem keepsScopes_conclude (ending : Except Stop PUnit) : KeepsScopes (conclude watchers ending) := by
  rcases ending with (f | _) | _
  · exact (keepsScopes_report _).bind fun _ => (keepsScopes_log _ _ _ _).bind fun _ => keepsScopes_pure _
  · exact keepsScopes_pure _
  · exact (keepsScopes_log _ _ _ _).bind fun _ => keepsScopes_pure _

/-- Single changes lead from a fresh machine to the end of the run of a program,
and each of them leads to a state of the run. -/
theorem traced_execution (watchers : Watchers) (rounds : Nat) (replies : List Reply) (p : Program) :
    Relation.ReflTransGen (fun s t => s.Change t ∧ ∃ m, Reached watchers rounds replies p m ∧ m.scopes = t) .fresh
      (p.execution watchers rounds (.fresh replies)).2.scopes := by
  have htraced : Traced watchers rounds (.program p) (.fresh replies) (Machine.fresh replies).scopes
      (p.execution watchers rounds (.fresh replies)).2.scopes := by
    refine traced_bind (traced_keeps (keepsScopes_showReading p)) fun _ m hm => ?_
    split
    · next haccepted =>
      have hruns : Runs watchers rounds (.program p) (.fresh replies) (.interpret p.statements)
          (p.showReading watchers (.fresh replies)).2 := Runs.self.call (.program haccepted)
      have hinterpret := respectsParts_traced.interpret p.statements hruns
      rw [hm] at hinterpret
      refine traced_bind ?_ fun ending _ _ => traced_keeps (keepsScopes_conclude ending)
      rw [run_observing]
      exact hinterpret
    · exact .refl
  refine Relation.ReflTransGen.mono ?_ _ _ htraced
  rintro s t ⟨hchange, part, m, hruns, rfl | rfl⟩
  · exact ⟨hchange, m, ⟨part, m, hruns, .inl rfl⟩, rfl⟩
  · exact ⟨hchange, _, ⟨part, m, hruns, .inr rfl⟩, rfl⟩

end Program

end BisayaPlus
