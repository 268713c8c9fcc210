import Mathlib.Data.List.Forall2
import BisayaPlus.Proofs.Correspondence
import BisayaPlus.Proofs.Grammar
import BisayaPlus.Proofs.Lockstep
/-!
# Programs that run alike

Statements of the same form, with corresponding tokens and expressions, show
the same events on corresponding machines, end in the same way and leave
corresponding machines. If only the offsets of tokens differ, whole programs
run alike.
-/

set_option autoImplicit false

namespace BisayaPlus

open Execution Grammar

/-! ## Loops in step -/

section Loops

variable {W : Machine → Machine → Prop} {E : Stop → Stop → Prop} {test test' : Execution Bool}
  {body body' : Execution Flow}

theorem tracks_whileHolds (hu : E .unfinished .unfinished) (ht : Tracks W E test test') (hb : Tracks W E body body')
    (rounds : Nat) : Tracks W E (whileHolds test body rounds) (whileHolds test' body' rounds) := by
  induction rounds with
  | zero => exact tracks_throw hu
  | succ rounds ih =>
    refine ht.bind fun holds => tracks_ite (hb.bind fun flow => ?_) (tracks_pure _)
    cases flow with
    | hunong => exact tracks_pure _
    | _ => exact ih

theorem tracks_untilFails (hu : E .unfinished .unfinished) (ht : Tracks W E test test') (hb : Tracks W E body body')
    (rounds : Nat) : Tracks W E (untilFails test body rounds) (untilFails test' body' rounds) := by
  induction rounds with
  | zero => exact tracks_throw hu
  | succ rounds ih =>
    refine hb.bind fun flow => ?_
    cases flow with
    | hunong => exact tracks_pure _
    | _ => exact ht.bind fun holds => tracks_ite ih (tracks_pure _)

end Loops

/-! ## Corresponding statements -/

namespace Correspondence

variable (C : Correspondence)

/-- Ways to stop that correspond. -/
inductive Stops : Stop → Stop → Prop where
  | fault {f f' : Fault} : C.Faults f f' → Stops (.fault f) (.fault f')
  | unfinished : Stops .unfinished .unfinished

/-- Machines that differ only in their scopes, which correspond. -/
structure Machines (depth : Nat) (m m' : Machine) : Prop where
  scopes : C.scopes depth m.scopes m'.scopes
  replies : m'.replies = m.replies
  prints : m'.prints = m.prints
  shown : m'.shown = m.shown

/-- The executions go in step on corresponding machines. -/
def InStep {α : Type} (depth : Nat) (x y : Execution α) : Prop := Tracks (C.Machines depth) C.Stops x y

/-- Corresponding names of a declaration, with corresponding values. -/
inductive Declares : Token × Option Expr → Token × Option Expr → Prop where
  | bare {t t' : Token} : C.tokens t t' → Declares (t, none) (t', none)
  | initialized {t t' : Token} {e e' : Expr} : C.tokens t t' → C.Exprs e e' → Declares (t, some e) (t', some e')

/-- Phrases of the same form with corresponding tokens and expressions. -/
inductive Phrases : Phrase → Phrase → Prop where
  | expr {e e' : Expr} : C.Exprs e e' → Phrases (.statement (.expr e)) (.statement (.expr e'))
  | ipakita {t t' : Token} {e e' : Expr} : C.tokens t t' → C.Exprs e e' →
      Phrases (.statement (.ipakita t e)) (.statement (.ipakita t' e'))
  | mugna {t t' : Token} {declared : DataType} {names names' : List (Token × Option Expr)} : C.tokens t t' →
      List.Forall₂ C.Declares names names' →
      Phrases (.statement (.mugna t declared names)) (.statement (.mugna t' declared names'))
  | dawat {t t' : Token} {names names' : List Token} : C.tokens t t' → List.Forall₂ C.tokens names names' →
      Phrases (.statement (.dawat t names)) (.statement (.dawat t' names'))
  | pundok {body body' : List Stmt} : Phrases (.items body) (.items body') →
      Phrases (.statement (.pundok body)) (.statement (.pundok body'))
  | kung {t t' : Token} {e e' : Expr} {body body' : Stmt} {branches branches' : List (Expr × Stmt)}
      {last last' : Option Stmt} : C.tokens t t' → C.Exprs e e' → Phrases (.body body) (.body body') →
      Phrases (.alternatives branches) (.alternatives branches') → Phrases (.otherwise last) (.otherwise last') →
      Phrases (.statement (.kung t e body branches last)) (.statement (.kung t' e' body' branches' last'))
  | mintras {t t' : Token} {e e' : Expr} {body body' : Stmt} : C.tokens t t' → C.Exprs e e' →
      Phrases (.body body) (.body body') →
      Phrases (.statement (.mintras t e body)) (.statement (.mintras t' e' body'))
  | buhata {t t' : Token} {e e' : Expr} {body body' : Stmt} : C.tokens t t' → Phrases (.body body) (.body body') →
      C.Exprs e e' → Phrases (.statement (.buhata t body e)) (.statement (.buhata t' body' e'))
  | hunong {t t' : Token} : C.tokens t t' → Phrases (.statement (.hunong t)) (.statement (.hunong t'))
  | padayon {t t' : Token} : C.tokens t t' → Phrases (.statement (.padayon t)) (.statement (.padayon t'))
  | body {s s' : Stmt} : Phrases (.statement s) (.statement s') → Phrases (.body s) (.body s')
  | noAlternative : Phrases (.alternatives []) (.alternatives [])
  | alternative {e e' : Expr} {body body' : Stmt} {branches branches' : List (Expr × Stmt)} : C.Exprs e e' →
      Phrases (.body body) (.body body') → Phrases (.alternatives branches) (.alternatives branches') →
      Phrases (.alternatives ((e, body) :: branches)) (.alternatives ((e', body') :: branches'))
  | noOtherwise : Phrases (.otherwise none) (.otherwise none)
  | otherwise {body body' : Stmt} : Phrases (.body body) (.body body') →
      Phrases (.otherwise (some body)) (.otherwise (some body'))
  | noItem : Phrases (.items []) (.items [])
  | item {s s' : Stmt} {statements statements' : List Stmt} : Phrases (.statement s) (.statement s') →
      Phrases (.items statements) (.items statements') →
      Phrases (.items (s :: statements)) (.items (s' :: statements'))

end Correspondence

/-! ## Simple statements -/

namespace Correspondence

variable {C : Correspondence} {depth : Nat} {α : Type} {t t' : Token} {e e' : Expr} (watchers : Watchers)

theorem inStep_ofEvaluation {x y : Evaluation α} (h : Tracks (C.scopes depth) C.Faults x y) :
    C.InStep depth (ofEvaluation x) (ofEvaluation y) := by
  intro m m' hm
  obtain ⟨hresult, hscopes⟩ := h m.scopes m'.scopes hm.scopes
  unfold ofEvaluation
  rcases hx : x m.scopes with ⟨r, s⟩
  rcases hy : y m'.scopes with ⟨r', s'⟩
  rw [hx, hy] at hresult hscopes
  cases hresult with
  | @ok a a' heq => exact ⟨.ok heq, hscopes, hm.replies, hm.prints, hm.shown⟩
  | error he => exact ⟨.error (.fault he), hscopes, hm.replies, hm.prints, hm.shown⟩

theorem inStep_value (h : C.Exprs e e') : C.InStep depth (value e) (value e') :=
  inStep_ofEvaluation (h.tracks depth)

theorem inStep_holds (h : C.Exprs e e') : C.InStep depth (holds e) (holds e') :=
  (inStep_value h).bind fun _ => tracks_pure _

theorem inStep_fail (h : C.tokens t t') (cause : Cause) :
    C.InStep depth (fail t cause : Execution α) (fail t' cause) :=
  tracks_throw (.fault ⟨h, rfl⟩)

theorem inStep_inScope {x y : Execution α} (h : C.InStep (depth + 1) x y) : C.InStep depth (inScope x) (inScope y) := by
  intro m m' hm
  obtain ⟨hresult, hmachine⟩ := h { m with scopes := m.scopes.push } { m' with scopes := m'.scopes.push }
    ⟨C.push hm.scopes, hm.replies, hm.prints, hm.shown⟩
  exact ⟨hresult, C.pop hmachine.scopes, hmachine.replies, hmachine.prints, hmachine.shown⟩

theorem inStep_emit (event : Event) : C.InStep depth (emit event) (emit event) :=
  tracks_modify fun _ _ hm => ⟨hm.scopes, hm.replies, hm.prints, by rw [hm.shown]⟩

theorem inStep_print (h : C.tokens t t') (line : Text) :
    C.InStep depth (print watchers t line) (print watchers t' line) := by
  intro m m' hm
  cases hp : watchers.printer with
  | none =>
    rw [run_print_none hp, run_print_none hp]
    exact ⟨.ok rfl, hm⟩
  | some failure =>
    cases hf : failure (m.prints + 1) with
    | none =>
      rw [run_print_shows hp hf, run_print_shows hp (hm.prints.symm ▸ hf)]
      exact ⟨.ok rfl, hm.scopes, hm.replies, by rw [hm.prints], by rw [hm.shown]⟩
    | some reason =>
      rw [run_print_fails hp hf, run_print_fails hp (hm.prints.symm ▸ hf)]
      exact ⟨.error (.fault ⟨h, rfl⟩), hm.scopes, hm.replies, by rw [hm.prints], hm.shown⟩

theorem inStep_request (h : C.tokens t t') : C.InStep depth (request watchers t) (request watchers t') := by
  intro m m' hm
  cases hr : watchers.reader with
  | false =>
    rw [run_request_absent hr, run_request_absent hr]
    exact ⟨.error (.fault ⟨h, rfl⟩), hm⟩
  | true =>
    rw [run_request hr, run_request hr, hm.replies, hm.shown]
    refine ⟨?_, hm.scopes, rfl, hm.prints, rfl⟩
    cases nextReply m.replies with
    | line text => exact .ok rfl
    | failure reason => exact .error (.fault ⟨h, rfl⟩)

theorem inStep_define (h : C.tokens t t') (b : Binding) : C.InStep (depth + 1)
    (modify fun m => { m with scopes := m.scopes.define t.lexeme b })
    (modify fun m => { m with scopes := m.scopes.define t'.lexeme b }) := by
  rw [(C.same h).lexeme]
  exact tracks_modify fun _ _ hm => ⟨C.define _ b hm.scopes, hm.replies, hm.prints, hm.shown⟩

theorem inStep_declare (declared : DataType) {names names' : List (Token × Option Expr)}
    (h : List.Forall₂ C.Declares names names') :
    C.InStep (depth + 1) (declare declared names) (declare declared names') := by
  induction h with
  | nil => exact tracks_pure _
  | cons hname _ ih =>
    cases hname with
    | bare ht => exact (inStep_define ht _).bind fun _ => ih
    | initialized ht he =>
      refine (inStep_value he).bind fun v => ?_
      cases v.coerce declared with
      | ok stored => exact (inStep_define ht _).bind fun _ => ih
      | error cause => exact inStep_fail ht cause

theorem inStep_requireAll {names names' : List Token} (h : List.Forall₂ C.tokens names names') :
    C.InStep depth (requireAll names) (requireAll names') := by
  induction h with
  | nil => exact tracks_pure _
  | cons ht _ ih => exact (inStep_ofEvaluation (tracks_require depth ht)).bind fun _ => ih

theorem inStep_store {names names' : List Token} (h : List.Forall₂ C.tokens names names') :
    ∀ fields : List Text, C.InStep depth (store (names.zip fields)) (store (names'.zip fields)) := by
  induction h with
  | nil => exact fun _ => tracks_pure _
  | @cons t t' more more' ht _ ih =>
    intro fields
    cases fields with
    | nil => exact tracks_pure _
    | cons field fields =>
      intro m m' hm
      have hstored := agreeing_update hm.scopes ht (Value.read · field)
      rw [List.zip_cons_cons, List.zip_cons_cons, store, store, run_get, run_get]
      change Agreeing _ _ (m.scopes.assignInput t field) (m'.scopes.assignInput t' field) at hstored
      generalize m.scopes.assignInput t field = r at hstored
      generalize m'.scopes.assignInput t' field = r' at hstored
      cases hstored with
      | ok heq => exact ih fields _ _ ⟨heq.2, hm.replies, hm.prints, hm.shown⟩
      | error he => exact ⟨.error (.fault he), hm⟩

theorem inStep_receive (h : C.tokens t t') {names names' : List Token} (hn : List.Forall₂ C.tokens names names') :
    C.InStep depth (receive watchers t names) (receive watchers t' names') := by
  refine (inStep_requireAll hn).bind fun _ => (inStep_request watchers h).bind fun line => ?_
  dsimp only
  rw [hn.length_eq]
  exact tracks_ite (inStep_store hn _) (inStep_fail h _)

/-! ## Statements -/

/-- The line a phrase is blamed at. -/
def lineOf : Phrase → Nat
  | .statement s => s.token.line
  | .items statements => (Stmt.pundok statements).token.line
  | _ => 0

theorem Phrases.line_eq {p p' : Phrase} (h : C.Phrases p p') : lineOf p' = lineOf p := by
  induction h with
  | expr he => exact he.line_eq
  | ipakita ht _ => exact (C.same ht).line
  | mugna ht _ => exact (C.same ht).line
  | dawat ht _ => exact (C.same ht).line
  | pundok _ ih => exact ih
  | kung ht => exact (C.same ht).line
  | mintras ht => exact (C.same ht).line
  | buhata ht => exact (C.same ht).line
  | hunong ht => exact (C.same ht).line
  | padayon ht => exact (C.same ht).line
  | item _ _ ih _ => exact ih
  | _ => rfl

theorem inStep_announce {s s' : Stmt} (h : C.Phrases (.statement s) (.statement s')) :
    C.InStep depth (announce watchers s) (announce watchers s') := by
  have hline : s'.token.line = s.token.line := h.line_eq
  have hname : logName s' = logName s := by cases h <;> rfl
  unfold announce
  rw [hline, hname]
  exact tracks_ite (inStep_emit _) (tracks_pure _)

/-- Runs a phrase. Alternatives fall back on a last resort. -/
def run (watchers : Watchers) (rounds : Nat) (resort : Execution Flow) : Phrase → Execution Flow
  | .statement s => s.execute watchers rounds
  | .body s => s.execute watchers rounds
  | .alternatives branches => executeFirst watchers rounds resort branches
  | .otherwise last => executeOtherwise watchers rounds last
  | .items statements => executeAll watchers rounds statements

/-- By induction on the phrases, along the recursion of the run. -/
theorem Phrases.inStep {p p' : Phrase} (h : C.Phrases p p') (rounds : Nat) : ∀ {depth : Nat}
    {resort resort' : Execution Flow}, C.InStep (depth + 1) resort resort' →
    C.InStep (depth + 1) (run watchers rounds resort p) (run watchers rounds resort' p') := by
  have hnone : ∀ {depth : Nat}, C.InStep (depth + 1) (pure Flow.normal) (pure Flow.normal) := tracks_pure _
  induction h with
  | expr he =>
    intro depth _ _ _
    simp only [run, Stmt.execute]
    exact (inStep_announce watchers (.expr he)).bind fun _ => (inStep_value he).bind fun _ => tracks_pure _
  | ipakita ht he =>
    intro depth _ _ _
    simp only [run, Stmt.execute]
    refine (inStep_announce watchers (.ipakita ht he)).bind fun _ => (inStep_value he).bind fun v => ?_
    exact (inStep_print watchers ht _).bind fun _ => tracks_pure _
  | mugna ht hn =>
    intro depth _ _ _
    simp only [run, Stmt.execute]
    refine (inStep_announce watchers (.mugna ht hn)).bind fun _ => ?_
    exact (inStep_declare _ hn).bind fun _ => tracks_pure _
  | dawat ht hn =>
    intro depth _ _ _
    simp only [run, Stmt.execute]
    refine (inStep_announce watchers (.dawat ht hn)).bind fun _ => ?_
    exact (inStep_receive watchers ht hn).bind fun _ => tracks_pure _
  | pundok hb ih =>
    intro depth _ _ _
    simp only [run, Stmt.execute]
    exact (inStep_announce watchers (.pundok hb)).bind fun _ => inStep_inScope (ih hnone)
  | kung ht he hb ha ho ihb iha iho =>
    intro depth _ _ _
    simp only [run, Stmt.execute]
    refine (inStep_announce watchers (.kung ht he hb ha ho)).bind fun _ => ?_
    exact (inStep_holds he).bind fun _ => tracks_ite (ihb hnone) (iha (iho hnone))
  | mintras ht he hb ih =>
    intro depth _ _ _
    simp only [run, Stmt.execute]
    refine (inStep_announce watchers (.mintras ht he hb)).bind fun _ => ?_
    exact tracks_whileHolds .unfinished (inStep_holds he) (ih hnone) rounds
  | buhata ht hb he ih =>
    intro depth _ _ _
    simp only [run, Stmt.execute]
    refine (inStep_announce watchers (.buhata ht hb he)).bind fun _ => ?_
    exact tracks_untilFails .unfinished (inStep_holds he) (ih hnone) rounds
  | hunong ht =>
    intro depth _ _ _
    simp only [run, Stmt.execute]
    exact (inStep_announce watchers (.hunong ht)).bind fun _ => tracks_pure _
  | padayon ht =>
    intro depth _ _ _
    simp only [run, Stmt.execute]
    exact (inStep_announce watchers (.padayon ht)).bind fun _ => tracks_pure _
  | body _ ih => exact fun h => ih h
  | noAlternative =>
    intro depth _ _ hresort
    simp only [run, executeFirst]
    exact hresort
  | alternative he _ _ ihb iha =>
    intro depth _ _ hresort
    simp only [run, executeFirst]
    exact (inStep_holds he).bind fun _ => tracks_ite (ihb hnone) (iha hresort)
  | noOtherwise =>
    intro depth _ _ _
    simp only [run, executeOtherwise]
    exact tracks_pure _
  | otherwise _ ih =>
    intro depth _ _ _
    simp only [run, executeOtherwise]
    exact ih hnone
  | noItem =>
    intro depth _ _ _
    simp only [run, executeAll]
    exact tracks_pure _
  | item _ _ ihs ihm =>
    intro depth _ _ _
    simp only [run, executeAll]
    refine (ihs hnone).bind fun flow => ?_
    cases flow with
    | normal => exact ihm hnone
    | _ => exact tracks_pure _

theorem inStep_execute {s s' : Stmt} (h : C.Phrases (.statement s) (.statement s')) (rounds : Nat) :
    C.InStep (depth + 1) (s.execute watchers rounds) (s'.execute watchers rounds) :=
  h.inStep watchers rounds (tracks_pure Flow.normal)

theorem inStep_executeAll {statements statements' : List Stmt}
    (h : C.Phrases (.items statements) (.items statements')) (rounds : Nat) :
    C.InStep (depth + 1) (executeAll watchers rounds statements) (executeAll watchers rounds statements') :=
  h.inStep watchers rounds (tracks_pure Flow.normal)

/-! ## The same phrase -/

theorem Exprs.refl (hr : ∀ t, C.tokens t t) (e : Expr) : C.Exprs e e := by
  induction e with
  | literal v => exact .literal v
  | grouping inner ih => exact .grouping ih
  | var name => exact .var (hr name)
  | assign name value ih => exact .assign (hr name) ih
  | unary operator right ih => exact .unary (hr operator) ih
  | binary left operator right ihl ihr => exact .binary ihl (hr operator) ihr
  | logical left operator right ihl ihr => exact .logical ihl (hr operator) ihr
  | step operator name before => exact .step before (hr operator) (hr name)

theorem Declares.refl (hr : ∀ t, C.tokens t t) (name : Token × Option Expr) : C.Declares name name := by
  obtain ⟨name, _ | e⟩ := name
  · exact .bare (hr name)
  · exact .initialized (hr name) (.refl hr e)

mutual

theorem Phrases.statement_refl (hr : ∀ t, C.tokens t t) (s : Stmt) : C.Phrases (.statement s) (.statement s) := by
  cases s with
  | expr e => exact .expr (.refl hr e)
  | ipakita keyword e => exact .ipakita (hr keyword) (.refl hr e)
  | mugna keyword declared names =>
    exact .mugna (hr keyword) (List.forall₂_same.2 fun name _ => .refl hr name)
  | dawat keyword names => exact .dawat (hr keyword) (List.forall₂_same.2 fun name _ => hr name)
  | pundok body => exact .pundok (.items_refl hr body)
  | kung keyword condition body alternatives otherwise =>
    exact .kung (hr keyword) (.refl hr condition) (.body (.statement_refl hr body)) (.alternatives_refl hr alternatives)
      (.otherwise_refl hr otherwise)
  | mintras keyword condition body =>
    exact .mintras (hr keyword) (.refl hr condition) (.body (.statement_refl hr body))
  | buhata keyword body condition =>
    exact .buhata (hr keyword) (.body (.statement_refl hr body)) (.refl hr condition)
  | hunong keyword => exact .hunong (hr keyword)
  | padayon keyword => exact .padayon (hr keyword)

theorem Phrases.items_refl (hr : ∀ t, C.tokens t t) (statements : List Stmt) :
    C.Phrases (.items statements) (.items statements) := by
  cases statements with
  | nil => exact .noItem
  | cons s more => exact .item (.statement_refl hr s) (.items_refl hr more)

theorem Phrases.alternatives_refl (hr : ∀ t, C.tokens t t) (branches : List (Expr × Stmt)) :
    C.Phrases (.alternatives branches) (.alternatives branches) := by
  cases branches with
  | nil => exact .noAlternative
  | cons branch more =>
    obtain ⟨condition, body⟩ := branch
    exact .alternative (.refl hr condition) (.body (.statement_refl hr body)) (.alternatives_refl hr more)

theorem Phrases.otherwise_refl (hr : ∀ t, C.tokens t t) (last : Option Stmt) :
    C.Phrases (.otherwise last) (.otherwise last) := by
  cases last with
  | none => exact .noOtherwise
  | some body => exact .otherwise (.body (.statement_refl hr body))

end

/-! ## Programs -/

/-- If only equal tokens correspond, the results are equal. -/
theorem Stops.eq {r r' : Except Stop α} (ht : ∀ t t', C.tokens t t' → t = t') (h : Agreeing Eq C.Stops r r') :
    r = r' := by
  cases h with
  | ok heq => exact congrArg Except.ok heq
  | error hstop =>
    cases hstop with
    | unfinished => rfl
    | @fault f f' hf =>
      obtain ⟨token, cause⟩ := f
      obtain ⟨token', cause'⟩ := f'
      obtain rfl : token = token' := ht _ _ hf.token
      obtain rfl : cause' = cause := hf.cause
      rfl

theorem inStep_interpret {statements statements' : List Stmt}
    (h : C.Phrases (.items statements) (.items statements')) (rounds : Nat) : C.InStep (depth + 1)
      (Program.interpret watchers rounds statements) (Program.interpret watchers rounds statements') := by
  induction statements generalizing statements' with
  | nil =>
    cases h
    exact tracks_pure _
  | cons s more ih =>
    cases h with
    | item hs hmore => exact (inStep_execute watchers hs rounds).bind fun _ => ih hmore

/-- The tokens stand elsewhere, and the scopes are the same. -/
def offsets : Correspondence where
  tokens := Token.Same
  scopes _ s s' := s = s'
  same h := h
  push h := congrArg Scopes.push h
  pop h := congrArg Scopes.pop h
  define name b h := congrArg (Scopes.define · name b) h
  lookup _ h := by rw [h]
  update t convert h := by
    rw [h]
    cases Scopes.update _ t convert with
    | ok p => exact .ok ⟨rfl, rfl⟩
    | error fault => exact .error rfl

/-- A report does not show offsets. -/
theorem conclude_eq {r r' : Except Stop PUnit} (h : Agreeing Eq offsets.Stops r r') :
    Program.conclude watchers r' = Program.conclude watchers r := by
  cases h with
  | ok => rfl
  | error hstop =>
    cases hstop with
    | unfinished => rfl
    | @fault f f' hf =>
      have hreport : Diagnostic.ofFault f' = Diagnostic.ofFault f := by
        unfold Diagnostic.ofFault Token.place
        rw [hf.token.line, hf.token.kind, hf.token.lexeme, hf.cause]
      simp only [Program.conclude, hreport, hf.cause]

/-- Statements that correspond up to offsets run to the same end. -/
theorem interpreted_eq {statements statements' : List Stmt}
    (h : offsets.Phrases (.items statements) (.items statements')) (rounds : Nat) :
    (observing (Program.interpret watchers rounds statements') >>= Program.conclude watchers) =
      (observing (Program.interpret watchers rounds statements) >>= Program.conclude watchers) := by
  funext m
  have hinStep : offsets.InStep 1 _ _ := inStep_interpret watchers h rounds
  obtain ⟨hresult, hmachine⟩ := hinStep m m ⟨rfl, rfl, rfl, rfl⟩
  rw [Execution.run_bind, Execution.run_bind, Program.run_observing, Program.run_observing]
  have hsame : (Program.interpret watchers rounds statements' m).2 =
      (Program.interpret watchers rounds statements m).2 := by
    obtain ⟨hscopes, hreplies, hprints, hshown⟩ := hmachine
    generalize (Program.interpret watchers rounds statements m).2 = t at hscopes hreplies hprints hshown
    generalize (Program.interpret watchers rounds statements' m).2 = t' at hscopes hreplies hprints hshown
    cases t
    cases t'
    simp only [Machine.mk.injEq]
    exact ⟨hscopes.symm, hreplies, hprints, hshown⟩
  dsimp only
  rw [hsame, conclude_eq watchers hresult]

end Correspondence

end BisayaPlus
