import BisayaPlus.Proofs.Changes
/-!
# The states of a run

The parts of a run, from the whole program down to single expressions, each
with the machine it starts on. Variables change only at the end of an
expression, between two names that are declared or stored, and where a scope is
opened or closed. So the states that a run goes through are the machines on
which its parts start and end.
-/

set_option autoImplicit false

namespace BisayaPlus

open Execution

/-- A part of a run. -/
inductive Task where
  | program (p : Program)
  | interpret (statements : List Stmt)
  | execute (s : Stmt)
  | executeAll (body : List Stmt)
  | executeFirst (alternatives : List (Expr × Stmt)) (otherwise : Option Stmt)
  | whileHolds (condition : Expr) (body : Stmt) (left : Nat)
  | untilFails (body : Stmt) (condition : Expr) (left : Nat)
  | declare (declared : DataType) (names : List (Token × Option Expr))
  | store (fields : List (Token × Text))
  | evaluate (e : Expr)

section Reached

variable (watchers : Watchers) (rounds : Nat)

/-- The machine when the part is over, however it ends. -/
def Task.after : Task → Machine → Machine
  | program p, m => (p.execution watchers rounds m).2
  | interpret statements, m => (Program.interpret watchers rounds statements m).2
  | execute s, m => (s.execute watchers rounds m).2
  | executeAll body, m => (BisayaPlus.executeAll watchers rounds body m).2
  | executeFirst alternatives otherwise, m =>
    (BisayaPlus.executeFirst watchers rounds (executeOtherwise watchers rounds otherwise) alternatives m).2
  | whileHolds condition body left, m =>
    (Execution.whileHolds (holds condition) (body.execute watchers rounds) left m).2
  | untilFails body condition left, m =>
    (Execution.untilFails (holds condition) (body.execute watchers rounds) left m).2
  | declare declared names, m => (Execution.declare declared names m).2
  | store fields, m => (Execution.store fields m).2
  | evaluate e, m => (value e m).2

/-- The machine on which the parts of a statement start. -/
def announced (s : Stmt) (m : Machine) : Machine := (announce watchers s m).2

/-- `Calls task m part m'`: when the task runs on `m`, it comes to run this part
of it, on `m'`. -/
inductive Calls : Task → Machine → Task → Machine → Prop where
  | program {p : Program} {m : Machine} : p.accepted = true →
      Calls (.program p) m (.interpret p.statements) (p.showReading watchers m).2
  | statement {s : Stmt} {more : List Stmt} {m : Machine} : Calls (.interpret (s :: more)) m (.execute s) m
  | statements {s : Stmt} {more : List Stmt} {flow : Flow} {m m' : Machine} :
      s.execute watchers rounds m = (.ok flow, m') → Calls (.interpret (s :: more)) m (.interpret more) m'
  -- statements
  | expr {e : Expr} {m : Machine} : Calls (.execute (.expr e)) m (.evaluate e) (announced watchers (.expr e) m)
  | ipakita {keyword : Token} {e : Expr} {m : Machine} :
      Calls (.execute (.ipakita keyword e)) m (.evaluate e) (announced watchers (.ipakita keyword e) m)
  | mugna {keyword : Token} {declared : DataType} {names : List (Token × Option Expr)} {m : Machine} :
      Calls (.execute (.mugna keyword declared names)) m (.declare declared names)
        (announced watchers (.mugna keyword declared names) m)
  | dawat {keyword : Token} {names : List Token} {line : Text} {fields : List Text} {m m' m'' : Machine} :
      requireAll names (announced watchers (.dawat keyword names) m) = (.ok ⟨⟩, m') →
      request watchers keyword m' = (.ok line, m'') → fields = (Text.pieces (Text.byte ',') line).map Text.trim →
      fields.length = names.length → Calls (.execute (.dawat keyword names)) m (.store (names.zip fields)) m''
  | pundok {body : List Stmt} {m m' : Machine} : m' = announced watchers (.pundok body) m →
      Calls (.execute (.pundok body)) m (.executeAll body) { m' with scopes := m'.scopes.push }
  | kung {keyword : Token} {condition : Expr} {body : Stmt} {alternatives : List (Expr × Stmt)}
      {otherwise : Option Stmt} {s : Stmt} {m : Machine} : s = .kung keyword condition body alternatives otherwise →
      Calls (.execute s) m (.evaluate condition) (announced watchers s m)
  | kungHolds {keyword : Token} {condition : Expr} {body : Stmt} {alternatives : List (Expr × Stmt)}
      {otherwise : Option Stmt} {s : Stmt} {m m' : Machine} : s = .kung keyword condition body alternatives otherwise →
      holds condition (announced watchers s m) = (.ok true, m') → Calls (.execute s) m (.execute body) m'
  | kungFails {keyword : Token} {condition : Expr} {body : Stmt} {alternatives : List (Expr × Stmt)}
      {otherwise : Option Stmt} {s : Stmt} {m m' : Machine} : s = .kung keyword condition body alternatives otherwise →
      holds condition (announced watchers s m) = (.ok false, m') →
      Calls (.execute s) m (.executeFirst alternatives otherwise) m'
  | mintras {keyword : Token} {condition : Expr} {body : Stmt} {m : Machine} :
      Calls (.execute (.mintras keyword condition body)) m (.whileHolds condition body rounds)
        (announced watchers (.mintras keyword condition body) m)
  | buhata {keyword : Token} {condition : Expr} {body : Stmt} {m : Machine} :
      Calls (.execute (.buhata keyword body condition)) m (.untilFails body condition rounds)
        (announced watchers (.buhata keyword body condition) m)
  -- blocks and alternatives
  | first {s : Stmt} {more : List Stmt} {m : Machine} : Calls (.executeAll (s :: more)) m (.execute s) m
  | rest {s : Stmt} {more : List Stmt} {m m' : Machine} : s.execute watchers rounds m = (.ok .normal, m') →
      Calls (.executeAll (s :: more)) m (.executeAll more) m'
  | test {condition : Expr} {body : Stmt} {more : List (Expr × Stmt)} {otherwise : Option Stmt} {m : Machine} :
      Calls (.executeFirst ((condition, body) :: more) otherwise) m (.evaluate condition) m
  | testHolds {condition : Expr} {body : Stmt} {more : List (Expr × Stmt)} {otherwise : Option Stmt}
      {m m' : Machine} : holds condition m = (.ok true, m') →
      Calls (.executeFirst ((condition, body) :: more) otherwise) m (.execute body) m'
  | testFails {condition : Expr} {body : Stmt} {more : List (Expr × Stmt)} {otherwise : Option Stmt}
      {m m' : Machine} : holds condition m = (.ok false, m') →
      Calls (.executeFirst ((condition, body) :: more) otherwise) m (.executeFirst more otherwise) m'
  | otherwise {body : Stmt} {m : Machine} : Calls (.executeFirst [] (some body)) m (.execute body) m
  -- loops
  | whileTest {condition : Expr} {body : Stmt} {left : Nat} {m : Machine} :
      Calls (.whileHolds condition body (left + 1)) m (.evaluate condition) m
  | whileBody {condition : Expr} {body : Stmt} {left : Nat} {m m' : Machine} : holds condition m = (.ok true, m') →
      Calls (.whileHolds condition body (left + 1)) m (.execute body) m'
  | whileAgain {condition : Expr} {body : Stmt} {left : Nat} {flow : Flow} {m m' m'' : Machine} :
      holds condition m = (.ok true, m') → body.execute watchers rounds m' = (.ok flow, m'') → flow ≠ .hunong →
      Calls (.whileHolds condition body (left + 1)) m (.whileHolds condition body left) m''
  | untilBody {condition : Expr} {body : Stmt} {left : Nat} {m : Machine} :
      Calls (.untilFails body condition (left + 1)) m (.execute body) m
  | untilTest {condition : Expr} {body : Stmt} {left : Nat} {flow : Flow} {m m' : Machine} :
      body.execute watchers rounds m = (.ok flow, m') → flow ≠ .hunong →
      Calls (.untilFails body condition (left + 1)) m (.evaluate condition) m'
  | untilAgain {condition : Expr} {body : Stmt} {left : Nat} {flow : Flow} {m m' m'' : Machine} :
      body.execute watchers rounds m = (.ok flow, m') → flow ≠ .hunong → holds condition m' = (.ok true, m'') →
      Calls (.untilFails body condition (left + 1)) m (.untilFails body condition left) m''
  -- names
  | initial {declared : DataType} {name : Token} {e : Expr} {more : List (Token × Option Expr)} {m : Machine} :
      Calls (.declare declared ((name, some e) :: more)) m (.evaluate e) m
  | declared {declared : DataType} {name : Token × Option Expr} {more : List (Token × Option Expr)}
      {m m' : Machine} : declare declared [name] m = (.ok ⟨⟩, m') →
      Calls (.declare declared (name :: more)) m (.declare declared more) m'
  | stored {field : Token × Text} {more : List (Token × Text)} {m m' : Machine} :
      store [field] m = (.ok ⟨⟩, m') → Calls (.store (field :: more)) m (.store more) m'
  -- expressions
  | grouping {inner : Expr} {m : Machine} : Calls (.evaluate (.grouping inner)) m (.evaluate inner) m
  | assigned {name : Token} {e : Expr} {m : Machine} : m.scopes.has name.lexeme = true →
      Calls (.evaluate (.assign name e)) m (.evaluate e) m
  | operand {operator : Token} {e : Expr} {m : Machine} : Calls (.evaluate (.unary operator e)) m (.evaluate e) m
  | left {l r : Expr} {operator : Token} {m : Machine} : Calls (.evaluate (.binary l operator r)) m (.evaluate l) m
  | right {l r : Expr} {operator : Token} {v : Value} {m m' : Machine} : value l m = (.ok v, m') →
      Calls (.evaluate (.binary l operator r)) m (.evaluate r) m'
  | decides {l r : Expr} {operator : Token} {m : Machine} :
      Calls (.evaluate (.logical l operator r)) m (.evaluate l) m
  | undecided {l r : Expr} {operator : Token} {v : Value} {m m' : Machine} : value l m = (.ok v, m') →
      (v.truthy == (operator.kind == .o)) = false → Calls (.evaluate (.logical l operator r)) m (.evaluate r) m'

/-- The part runs on its machine somewhere in the run of the task. -/
inductive Runs (task : Task) (m : Machine) : Task → Machine → Prop where
  | self : Runs task m task m
  | call {part part' : Task} {m' m'' : Machine} : Runs task m part m' → Calls watchers rounds part m' part' m'' →
      Runs task m part' m''

/-- The machine is a state of the run of a program with this input. -/
def Reached (replies : List Reply) (p : Program) (m : Machine) : Prop :=
  ∃ part m', Runs watchers rounds (.program p) (.fresh replies) part m' ∧
    (m = m' ∨ m = part.after watchers rounds m')

end Reached

/-! ## What holds in every state -/

variable {watchers : Watchers} {rounds : Nat}

theorem Task.changes (task : Task) (m : Machine) : Changes m.scopes (task.after watchers rounds m).scopes := by
  cases task with
  | program p => exact p.changing_execution watchers rounds m
  | interpret statements => exact Program.changing_interpret watchers rounds statements m
  | execute s => exact s.changing_execute watchers rounds m
  | executeAll body => exact changing_executeAll watchers rounds body m
  | executeFirst alternatives otherwise =>
    exact changing_executeFirst watchers rounds (changing_executeOtherwise watchers rounds otherwise) alternatives m
  | whileHolds condition body left =>
    exact changing_whileHolds (changing_holds condition) (body.changing_execute watchers rounds) left m
  | untilFails body condition left =>
    exact changing_untilFails (changing_holds condition) (body.changing_execute watchers rounds) left m
  | declare declared names => exact changing_declare declared names m
  | store fields => exact changing_store fields m
  | evaluate e => exact changing_value e m

theorem Execution.Changing.of_run {α : Type} {x : Execution α} (h : Changing x) {m m' : Machine}
    {result : Except Stop α} (hr : x m = (result, m')) : Changes m.scopes m'.scopes := by
  have hm := h m
  rwa [hr] at hm

theorem run_announced (s : Stmt) (m : Machine) : announce watchers s m = (.ok ⟨⟩, announced watchers s m) := by
  obtain ⟨shown, h⟩ := run_announce watchers s m
  rw [announced, h]

theorem announced_scopes (s : Stmt) (m : Machine) : (announced watchers s m).scopes = m.scopes := by
  obtain ⟨shown, h⟩ := run_announce watchers s m
  rw [announced, h]

/-- A part starts after the changes of the parts before it, or in a new scope. -/
theorem Calls.changes {task part : Task} {m m' : Machine} (h : Calls watchers rounds task m part m') :
    Changes m.scopes m'.scopes ∨ m'.scopes = m.scopes.push := by
  have hexecute := fun s : Stmt => s.changing_execute watchers rounds
  cases h with
  | program _ => exact .inl (Program.changing_showReading watchers _ m)
  | statement => exact .inl (.refl _)
  | statements hs => exact .inl ((hexecute _).of_run hs)
  | expr => exact .inl (changing_announce watchers _ m)
  | ipakita => exact .inl (changing_announce watchers _ m)
  | mugna => exact .inl (changing_announce watchers _ m)
  | dawat hnames hline _ _ =>
    have h1 := (changing_requireAll _).of_run hnames
    have h2 := (changing_request watchers _).of_run hline
    rw [announced_scopes] at h1
    exact .inl (h1.trans h2)
  | pundok hm =>
    subst hm
    exact .inr (by rw [announced_scopes])
  | kung _ => exact .inl (changing_announce watchers _ m)
  | kungHolds _ hc | kungFails _ hc =>
    have h1 := (changing_holds _).of_run hc
    rw [announced_scopes] at h1
    exact .inl h1
  | mintras => exact .inl (changing_announce watchers _ m)
  | buhata => exact .inl (changing_announce watchers _ m)
  | first => exact .inl (.refl _)
  | rest hs => exact .inl ((hexecute _).of_run hs)
  | test => exact .inl (.refl _)
  | testHolds hc | testFails hc => exact .inl ((changing_holds _).of_run hc)
  | otherwise => exact .inl (.refl _)
  | whileTest => exact .inl (.refl _)
  | whileBody hc => exact .inl ((changing_holds _).of_run hc)
  | whileAgain hc hs _ => exact .inl (((changing_holds _).of_run hc).trans ((hexecute _).of_run hs))
  | untilBody => exact .inl (.refl _)
  | untilTest hs _ => exact .inl ((hexecute _).of_run hs)
  | untilAgain hs _ hc => exact .inl (((hexecute _).of_run hs).trans ((changing_holds _).of_run hc))
  | initial => exact .inl (.refl _)
  | declared hd => exact .inl ((changing_declare _ _).of_run hd)
  | stored hs => exact .inl ((changing_store _).of_run hs)
  | grouping | assigned _ | operand | left | decides => exact .inl (.refl _)
  | right hv | undecided hv _ => exact .inl ((changing_value _).of_run hv)

section Invariant

variable {P : Scopes → Prop} (hchanges : ∀ {s t}, P s → Changes s t → P t) (hpush : ∀ {s}, P s → P s.push)

include hchanges hpush in
theorem Runs.induct {task part : Task} {m m' : Machine} (h : Runs watchers rounds task m part m')
    (hm : P m.scopes) : P m'.scopes := by
  induction h with
  | self => exact hm
  | call _ hcall ih =>
    rcases hcall.changes with hc | hc
    · exact hchanges ih hc
    · rw [hc]
      exact hpush ih

include hchanges hpush in
/-- What a fresh machine has and changes and a new scope keep, holds in every
state of every run. -/
theorem Reached.induct (hfresh : P .fresh) {replies : List Reply} {p : Program} {m : Machine}
    (h : Reached watchers rounds replies p m) : P m.scopes := by
  obtain ⟨part, start, hruns, hm⟩ := h
  have hstart := hruns.induct hchanges hpush hfresh
  rcases hm with rfl | rfl
  · exact hstart
  · exact hchanges hstart (part.changes start)

end Invariant

end BisayaPlus
