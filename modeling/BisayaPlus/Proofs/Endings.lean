import BisayaPlus.Proofs.Changes
import BisayaPlus.Proofs.WellFormed
/-!
# How statements end

A well-formed statement shows lines and log entries but never a report. If a
fault stops it, the fault is blamed on a token of the program, and its cause is
never an operator that computes nothing. If it ends by a jump, there is a loop
around it.
-/

set_option autoImplicit false

namespace BisayaPlus

variable {T : Token → Prop} {clean : Prop}

/-- A token of the program that faults are blamed on: one that is written, or
the operator inside a compound assignment. -/
inductive Blamed (T : Token → Prop) : Token → Prop where
  | written {t : Token} : T t → t.kind ≠ .eof → t.kind ≠ .newline → Blamed T t
  | compound {sign : Token} {kind : Kind} : T sign → Expr.compound? sign.kind = some kind →
      Blamed T (Expr.compoundOperator kind sign)

theorem Blamed.of_kind {t : Token} {kind : Kind} (hT : T t) (hk : t.kind = kind) (heof : kind ≠ .eof)
    (hnewline : kind ≠ .newline) : Blamed T t :=
  .written hT (hk ▸ heof) (hk ▸ hnewline)

theorem Blamed.of_mem {t : Token} {kinds : List Kind} (hT : T t) (hk : t.kind ∈ kinds) (heof : Kind.eof ∉ kinds)
    (hnewline : Kind.newline ∉ kinds) : Blamed T t :=
  .written hT (fun h => heof (h ▸ hk)) fun h => hnewline (h ▸ hk)

/-- What a well-formed program may fail with. -/
structure Fault.IsSound (T : Token → Prop) (f : Fault) : Prop where
  token : Blamed T f.token
  cause : ∀ lexeme, f.cause ≠ .undefinedOperator lexeme

namespace Expr

theorem IsOperator.blamed {operator : Token} (h : IsOperator T operator) : Blamed T operator := by
  cases h with
  | written hT hk => exact .of_mem hT hk (by decide) (by decide)
  | compound hT hkind => exact .compound hT hkind

theorem compound?_mem {sign kind : Kind} (h : compound? sign = some kind) : kind ∈ Operation.binaryKinds := by
  have hmem : ∀ k ∈ compound? sign, k ∈ Operation.binaryKinds := by
    cases sign <;> simp [compound?, Operation.binaryKinds]
  exact hmem kind h

theorem IsOperator.kind_mem {operator : Token} (h : IsOperator T operator) :
    operator.kind ∈ Operation.binaryKinds := by
  cases h with
  | written _ hk => exact hk
  | compound _ hkind => exact compound?_mem hkind

end Expr

/-! ## Operations -/

namespace Operation

variable {operator : Token} {l r v : Value} {f : Fault}

theorem blame_error {α : Type} {result : Except Cause α} (h : blame operator result = .error f) :
    f.token = operator ∧ result = .error f.cause := by
  cases result with
  | ok a => cases h
  | error cause =>
    obtain rfl := Except.error.inj h
    exact ⟨rfl, rfl⟩

/-- The operators of arithmetic. -/
def arithmeticKinds : List Kind := [.plus, .minus, .star, .slash, .percent]

theorem integerArithmetic_error {i j : Int64} {cause : Cause} (hk : operator.kind ∈ arithmeticKinds)
    (h : integerArithmetic operator i j = .error cause) : cause = .divisionByZero := by
  simp only [arithmeticKinds, List.mem_cons, List.not_mem_nil, or_false] at hk
  unfold integerArithmetic at h
  rcases hk with hk | hk | hk | hk | hk <;> simp only [hk] at h
  · cases h
  · cases h
  · cases h
  all_goals
    split at h
    · exact (Except.error.inj h).symm
    · cases h

theorem realArithmetic_error {x y : Binary64} {cause : Cause} (hk : operator.kind ∈ arithmeticKinds)
    (h : realArithmetic operator x y = .error cause) : cause = .divisionByZero := by
  simp only [arithmeticKinds, List.mem_cons, List.not_mem_nil, or_false] at hk
  unfold realArithmetic at h
  rcases hk with hk | hk | hk | hk | hk <;> simp only [hk] at h
  · cases h
  · cases h
  · cases h
  all_goals
    split at h
    · exact (Except.error.inj h).symm
    · cases h

theorem map_eq_error {α : Type} {x : Except Fault α} {g : α → Value} (h : x.map g = .error f) : x = .error f := by
  cases x with
  | ok a => cases h
  | error f' => exact congrArg Except.error (Except.error.inj h)

theorem arithmetic_error (hk : operator.kind ∈ arithmeticKinds) (h : arithmetic operator l r = .error f) :
    f = ⟨operator, .onlyNumbers⟩ ∨ f = ⟨operator, .divisionByZero⟩ := by
  unfold arithmetic at h
  split at h
  · exact .inl (Except.error.inj h).symm
  · obtain ⟨htoken, hcause⟩ := blame_error (map_eq_error h)
    exact .inr (by rw [← htoken, ← integerArithmetic_error hk hcause])
  · obtain ⟨htoken, hcause⟩ := blame_error (map_eq_error h)
    exact .inr (by rw [← htoken, ← realArithmetic_error hk hcause])

theorem add_error (hk : operator.kind = .plus) (h : add operator l r = .error f) :
    f = ⟨operator, .invalidPlus⟩ ∨ f = ⟨operator, .onlyNumbers⟩ ∨ f = ⟨operator, .divisionByZero⟩ := by
  unfold add at h
  split at h
  · cases h
  · cases h
  · split at h
    · exact .inr (arithmetic_error (by simp [hk, arithmeticKinds]) h)
    · exact .inl (Except.error.inj h).symm

theorem compare_error (h : compare operator l r = .error f) : f = ⟨operator, .onlyNumbers⟩ := by
  unfold compare at h
  split at h
  · exact (Except.error.inj h).symm
  · cases h

/-- An operator that has an operation fails for its operands only. -/
theorem binary_error (hk : operator.kind ∈ binaryKinds) (h : binary operator l r = .error f) :
    ∃ cause ∈ [Cause.invalidPlus, .onlyNumbers, .divisionByZero], f = ⟨operator, cause⟩ := by
  have harithmetic : operator.kind ∈ arithmeticKinds → arithmetic operator l r = .error f →
      ∃ cause ∈ [Cause.invalidPlus, .onlyNumbers, .divisionByZero], f = ⟨operator, cause⟩ := by
    intro hk h
    rcases arithmetic_error hk h with rfl | rfl
    · exact ⟨_, by simp, rfl⟩
    · exact ⟨_, by simp, rfl⟩
  have hcompare : compare operator l r = .error f →
      ∃ cause ∈ [Cause.invalidPlus, .onlyNumbers, .divisionByZero], f = ⟨operator, cause⟩ :=
    fun h => ⟨_, by simp, compare_error h⟩
  simp only [binaryKinds, List.mem_cons, List.not_mem_nil, or_false] at hk
  unfold binary at h
  rcases hk with hk | hk | hk | hk | hk | hk | hk | hk | hk | hk | hk | hk | hk | hk <;> simp only [hk] at h
  · rcases add_error hk h with rfl | rfl | rfl
    · exact ⟨_, by simp, rfl⟩
    · exact ⟨_, by simp, rfl⟩
    · exact ⟨_, by simp, rfl⟩
  · exact harithmetic (by simp [hk, arithmeticKinds]) h
  · exact harithmetic (by simp [hk, arithmeticKinds]) h
  · exact harithmetic (by simp [hk, arithmeticKinds]) h
  · exact harithmetic (by simp [hk, arithmeticKinds]) h
  · exact hcompare h
  · exact hcompare h
  · exact hcompare h
  · exact hcompare h
  -- equality and the operators on texts never fail
  all_goals cases h

/-- These are the kinds that have an operation. -/
theorem mem_binaryKinds_iff :
    operator.kind ∈ binaryKinds ↔
      ∀ l r, binary operator l r ≠ .error ⟨operator, .undefinedOperator operator.lexeme⟩ := by
  constructor
  · intro hk l r h
    obtain ⟨cause, hmem, heq⟩ := binary_error hk h
    obtain rfl := (Fault.mk.inj heq).2
    simp at hmem
  · intro h
    -- two NULLs suffice to tell whether there is an operation
    have hnull := h .null .null
    unfold binary at hnull
    split at hnull <;> simp_all [binaryKinds]

theorem unary_error (h : unary operator v = .error f) : f = ⟨operator, .onlyNumber⟩ := by
  unfold unary at h
  split at h
  · cases h
  · split at h
    · cases h
    · cases h
    · exact (Except.error.inj h).symm

theorem step_error (h : step operator v = .error f) : f = ⟨operator, .onlyNumber⟩ := by
  unfold step at h
  dsimp only at h
  split at h
  · cases h
  · cases h
  · exact (Except.error.inj h).symm

end Operation

theorem Value.coerce_error {declared : DataType} {v : Value} {cause : Cause} (h : v.coerce declared = .error cause) :
    cause = .mismatch declared v := by
  unfold Value.coerce at h
  repeat' split at h
  all_goals first | exact (Except.error.inj h).symm | cases h

theorem Value.read_error {declared : DataType} {t : Text} {cause : Cause} (h : Value.read declared t = .error cause) :
    cause = .unreadable declared t := by
  unfold Value.read at h
  split at h
  · cases h
  · exact (Except.error.inj h).symm

theorem Scopes.update_error {s : Scopes} {name : Token} {convert : DataType → Except Cause Value} {f : Fault}
    (h : s.update name convert = .error f) :
    f = Scopes.undefined name ∨ ∃ declared cause, convert declared = .error cause ∧ f = ⟨name, cause⟩ := by
  unfold Scopes.update at h
  split at h
  · exact .inl (Except.error.inj h).symm
  · split at h
    · next b cause hconvert => exact .inr ⟨_, cause, hconvert, (Except.error.inj h).symm⟩
    · cases h

namespace Fault

variable {name : Token} {s : Scopes} {f : Fault}

theorem isSound_undefined (hn : Blamed T name) : IsSound T (Scopes.undefined name) := ⟨hn, fun _ h => nomatch h⟩

theorem isSound_coerce {declared : DataType} {v : Value} {cause : Cause} (hn : Blamed T name)
    (h : v.coerce declared = .error cause) : IsSound T ⟨name, cause⟩ := by
  obtain rfl := Value.coerce_error h
  exact ⟨hn, fun _ h => nomatch h⟩

theorem isSound_assign {v : Value} (hn : Blamed T name) (h : s.assign name v = .error f) : IsSound T f := by
  rcases Scopes.update_error h with rfl | ⟨declared, cause, hc, rfl⟩
  · exact isSound_undefined hn
  · exact isSound_coerce hn hc

theorem isSound_assignInput {field : Text} (hn : Blamed T name) (h : s.assignInput name field = .error f) :
    IsSound T f := by
  rcases Scopes.update_error h with rfl | ⟨declared, cause, hc, rfl⟩
  · exact isSound_undefined hn
  · obtain rfl := Value.read_error hc
    exact ⟨hn, fun _ h => nomatch h⟩

end Fault

/-! ## Expressions -/

namespace Evaluation

variable {α β : Type} {faults : Fault → Prop}

/-- A fault that ends the evaluation has the property. -/
def Fails (faults : Fault → Prop) (x : Evaluation α) : Prop := ∀ s f, (x s).1 = .error f → faults f

theorem fails_pure (a : α) : Fails faults (pure a) := fun _ _ h => nomatch h

theorem fails_ofExcept {r : Except Fault α} (h : ∀ f, r = .error f → faults f) : Fails faults (ofExcept r) := by
  intro s f hr
  rw [run_ofExcept] at hr
  exact h f hr

theorem Fails.bind {x : Evaluation α} {f : α → Evaluation β} (hx : Fails faults x) (hf : ∀ a, Fails faults (f a)) :
    Fails faults (x >>= f) := by
  intro s fault h
  rw [run_bind] at h
  rcases hr : x s with ⟨fault' | a, t⟩ <;> rw [hr] at h
  · obtain rfl := Except.error.inj h
    exact hx s fault' (by rw [hr])
  · exact hf a t fault h

variable {name : Token}

theorem fails_get (hn : Blamed T name) : Fails (Fault.IsSound T) (get name) := by
  intro s f h
  rw [run_get] at h
  dsimp only at h
  unfold Scopes.get at h
  split at h
  · cases h
  · obtain rfl := Except.error.inj h
    exact Fault.isSound_undefined hn

theorem fails_require (hn : Blamed T name) : Fails (Fault.IsSound T) (require name) := by
  intro s f h
  rw [run_require] at h
  split at h
  · cases h
  · obtain rfl := Except.error.inj h
    exact Fault.isSound_undefined hn

theorem fails_assign (v : Value) (hn : Blamed T name) : Fails (Fault.IsSound T) (Evaluation.assign name v) := by
  intro s f h
  rw [run_assign] at h
  split at h
  · cases h
  · next fault hassign =>
    obtain rfl := Except.error.inj h
    exact Fault.isSound_assign hn hassign

end Evaluation

open Evaluation

/-- The faults of a well-formed expression. -/
theorem Expr.WellFormed.fails_evaluate {e : Expr} (h : e.WellFormed T) : Fails (Fault.IsSound T) e.evaluate := by
  have hname : ∀ {name : Token}, T name → name.kind = .identifier → Blamed T name :=
    fun hT hk => .of_kind hT hk (by decide) (by decide)
  induction h with
  | literal => exact fails_pure _
  | grouping _ ih => exact ih
  | var hT hk => exact fails_get (hname hT hk)
  | assign hT hk _ ih =>
    exact (fails_require (hname hT hk)).bind fun _ => ih.bind fun v => fails_assign v (hname hT hk)
  | unary hT hk _ ih =>
    refine ih.bind fun r => fails_ofExcept fun f hf => ?_
    obtain rfl := Operation.unary_error hf
    exact ⟨.of_mem hT hk (by decide) (by decide), fun _ h => nomatch h⟩
  | binary _ ho _ ihl ihr =>
    refine ihl.bind fun l => ihr.bind fun r => fails_ofExcept fun f hf => ?_
    obtain ⟨cause, hcause, rfl⟩ := Operation.binary_error ho.kind_mem hf
    refine ⟨ho.blamed, fun lexeme h => ?_⟩
    dsimp only at h
    subst h
    simp at hcause
  | logical _ _ _ _ ihl ihr =>
    refine ihl.bind fun l => ?_
    split
    · exact fails_pure _
    · exact ihr
  | step ho hk hT hn =>
    refine (fails_get (hname hT hn)).bind fun old => (fails_ofExcept fun f hf => ?_).bind fun new =>
      (fails_assign new (hname hT hn)).bind fun stored => fails_pure _
    obtain rfl := Operation.step_error hf
    exact ⟨.of_mem ho hk (by decide) (by decide), fun _ h => nomatch h⟩

/-! ## Statements -/

/-- The report that an event is. -/
def Event.report? : Event → Option Diagnostic
  | reported d => some d
  | _ => none

namespace Execution

variable {α β : Type} {faults : Fault → Prop} {gives : α → Prop} {gives' : β → Prop}

/-- What a run may give: a value with one property, or a fault with another. -/
inductive Ending (faults : Fault → Prop) (gives : α → Prop) : Except Stop α → Prop where
  | gave {a : α} : gives a → Ending faults gives (.ok a)
  | fault {f : Fault} : faults f → Ending faults gives (.error (.fault f))
  | unfinished : Ending faults gives (.error .unfinished)

/-- However the run ends, it has shown no report, and what was shown before made
no difference to it. -/
def Ends (faults : Fault → Prop) (gives : α → Prop) (x : Execution α) : Prop :=
  ∀ m : Machine, ∃ (result : _) (m' : Machine) (new : List Event),
    Ending faults gives result ∧ (∀ e ∈ new, e.report? = none) ∧
    ∀ shown, x { m with shown := shown } = (result, { m' with shown := new ++ shown })

theorem Ends.sound_of_run {x : Execution α} (h : Ends faults gives x) {m m' : Machine} {f : Fault}
    (hrun : x m = (.error (.fault f), m')) : faults f := by
  obtain ⟨result, m'', new, hending, -, hrun'⟩ := h m
  obtain rfl := (Prod.mk.inj ((hrun' m.shown).symm.trans hrun)).1
  cases hending with
  | fault hfault => exact hfault

/-- A run that shows nothing. -/
theorem ends_silent {x : Execution α} (h : ∀ m : Machine, ∃ (result : _) (m' : Machine), Ending faults gives result ∧
    ∀ shown, x { m with shown := shown } = (result, { m' with shown := shown })) : Ends faults gives x := by
  intro m
  obtain ⟨result, m', hending, hrun⟩ := h m
  exact ⟨result, m', [], hending, by simp, hrun⟩

theorem ends_pure {a : α} (h : gives a) : Ends faults gives (pure a) :=
  ends_silent fun m => ⟨_, m, .gave h, fun _ => rfl⟩

theorem Ends.bind {x : Execution α} {f : α → Execution β} (hx : Ends faults gives x)
    (hf : ∀ a, gives a → Ends faults gives' (f a)) : Ends faults gives' (x >>= f) := by
  intro m
  obtain ⟨result, m', new, hending, hnew, hrun⟩ := hx m
  cases hending with
  | fault hfault => exact ⟨_, m', new, .fault hfault, hnew, fun shown => by rw [run_bind, hrun]⟩
  | unfinished => exact ⟨_, m', new, .unfinished, hnew, fun shown => by rw [run_bind, hrun]⟩
  | @gave a ha =>
    obtain ⟨result', m'', more, hending', hmore, hrun'⟩ := hf a ha m'
    refine ⟨result', m'', more ++ new, hending', List.forall_mem_append.2 ⟨hmore, hnew⟩, fun shown => ?_⟩
    rw [run_bind, hrun]
    dsimp only
    rw [hrun', List.append_assoc]

theorem Ends.mono {gives' : α → Prop} {x : Execution α} (h : Ends faults gives x) (hg : ∀ a, gives a → gives' a) :
    Ends faults gives' x := by
  intro m
  obtain ⟨result, m', new, hending, hrest⟩ := h m
  refine ⟨result, m', new, ?_, hrest⟩
  cases hending with
  | gave ha => exact .gave (hg _ ha)
  | fault hfault => exact .fault hfault
  | unfinished => exact .unfinished

/-- A run that looks at the machine, but not at what was shown. -/
theorem ends_get {f : Machine → Execution α} (hshown : ∀ m shown, f { m with shown := shown } = f m)
    (h : ∀ m, Ends faults gives (f m)) : Ends faults gives (getThe Machine >>= f) := by
  intro m
  obtain ⟨result, m', new, hending, hnew, hrun⟩ := h m m
  refine ⟨result, m', new, hending, hnew, fun shown => ?_⟩
  rw [run_bind]
  exact (congrFun (hshown m shown) _).trans (hrun shown)

theorem ends_fail {token : Token} {cause : Cause} (h : faults ⟨token, cause⟩) :
    Ends faults gives (fail token cause) :=
  ends_silent fun m => ⟨_, m, .fault h, fun _ => rfl⟩

theorem ends_unfinished : Ends faults gives (throw .unfinished) :=
  ends_silent fun m => ⟨_, m, .unfinished, fun _ => rfl⟩

theorem ends_emit {e : Event} (h : e.report? = none) : Ends faults (fun _ => True) (emit e) :=
  fun m => ⟨_, m, [e], .gave trivial, by simpa using h, fun _ => rfl⟩

theorem ends_log (watchers : Watchers) (level : Level) (message : Text) (fields : List (Text × LogField)) :
    Ends faults (fun _ => True) (log watchers level message fields) := by
  unfold log
  split
  · exact ends_emit rfl
  · exact ends_pure trivial

theorem ends_announce (watchers : Watchers) (s : Stmt) : Ends faults (fun _ => True) (announce watchers s) :=
  ends_log watchers .trace _ _

theorem ends_ofEvaluation {e : Evaluation α} (h : Fails faults e) :
    Ends faults (fun _ => True) (ofEvaluation e) := by
  refine ends_silent fun m => ?_
  have hs := h m.scopes
  unfold ofEvaluation
  rcases hr : e m.scopes with ⟨fault | a, t⟩ <;> rw [hr] at hs
  · exact ⟨_, { m with scopes := t }, .fault (hs fault rfl), fun shown => by simp only [hr]⟩
  · exact ⟨.ok a, { m with scopes := t }, .gave trivial, fun shown => by simp only [hr]⟩

theorem Ends.inScope {x : Execution α} (h : Ends faults gives x) : Ends faults gives (inScope x) := by
  intro m
  obtain ⟨result, m', new, hending, hnew, hrun⟩ := h { m with scopes := m.scopes.push }
  refine ⟨result, { m' with scopes := m'.scopes.pop }, new, hending, hnew, fun shown => ?_⟩
  unfold Execution.inScope
  rw [hrun]

theorem ends_value {e : Expr} (h : e.WellFormed T) : Ends (Fault.IsSound T) (fun _ => True) (value e) :=
  ends_ofEvaluation h.fails_evaluate

theorem ends_holds {e : Expr} (h : e.WellFormed T) : Ends (Fault.IsSound T) (fun _ => True) (holds e) :=
  (ends_value h).bind fun _ _ => ends_pure trivial

/-! ## Simple statements -/

theorem ends_print (watchers : Watchers) {keyword : Token} (line : Text) (hk : Blamed T keyword) :
    Ends (Fault.IsSound T) (fun _ => True) (print watchers keyword line) := by
  unfold print
  cases watchers.printer with
  | none => exact ends_pure trivial
  | some failure =>
    refine ends_get (fun _ _ => rfl) fun m => ?_
    have hcount : Ends (Fault.IsSound T) (fun _ => True) (modify fun m' => { m' with prints := m.prints + 1 }) :=
      ends_silent fun m' => ⟨_, { m' with prints := m.prints + 1 }, .gave trivial, fun _ => rfl⟩
    refine hcount.bind fun _ _ => ?_
    split
    · exact ends_fail ⟨hk, fun _ h => nomatch h⟩
    · exact ends_emit rfl

theorem ends_request (watchers : Watchers) {keyword : Token} (hk : Blamed T keyword) :
    Ends (Fault.IsSound T) (fun _ => True) (request watchers keyword) := by
  unfold request
  split
  · exact ends_fail ⟨hk, fun _ h => nomatch h⟩
  · intro m
    obtain ⟨scopes, replies, prints, shown⟩ := m
    have hfault : ∀ reason : Text, Fault.IsSound T ⟨keyword, .inputFailed reason⟩ :=
      fun reason => ⟨hk, fun _ h => nomatch h⟩
    cases replies with
    | nil =>
      -- an input at its end answers with a failure too
      exact ⟨_, ⟨scopes, [], prints, shown⟩, [.readFailed "EOF"], .fault (hfault "EOF"), by simp [Event.report?],
        fun _ => rfl⟩
    | cons reply rest =>
      cases reply with
      | line t =>
        exact ⟨_, ⟨scopes, rest, prints, shown⟩, [.read t], .gave trivial, by simp [Event.report?], fun _ => rfl⟩
      | failure reason =>
        exact ⟨_, ⟨scopes, rest, prints, shown⟩, [.readFailed reason], .fault (hfault reason), by simp [Event.report?],
          fun _ => rfl⟩

theorem ends_setScopes (f : Scopes → Scopes) :
    Ends faults (fun _ => True) (modify fun m => { m with scopes := f m.scopes }) :=
  ends_silent fun m => ⟨_, { m with scopes := f m.scopes }, .gave trivial, fun _ => rfl⟩

theorem ends_declare (declared : DataType) {names : List (Token × Option Expr)}
    (hn : ∀ entry ∈ names, T entry.1 ∧ entry.1.kind = .identifier)
    (hi : ∀ entry ∈ names, ∀ e ∈ entry.2, e.WellFormed T) :
    Ends (Fault.IsSound T) (fun _ => True) (declare declared names) := by
  induction names with
  | nil => exact ends_pure trivial
  | cons first more ih =>
    obtain ⟨name, initial⟩ := first
    obtain ⟨⟨hT, hk⟩, hn⟩ := List.forall_mem_cons.1 hn
    obtain ⟨hfirst, hi⟩ := List.forall_mem_cons.1 hi
    have hput : ∀ v : Value, Ends (Fault.IsSound T) (fun _ => True)
        ((modify fun m => { m with scopes := m.scopes.define name.lexeme ⟨declared, v⟩ }) >>= fun _ =>
          declare declared more) :=
      fun v => (ends_setScopes (·.define name.lexeme ⟨declared, v⟩)).bind fun _ _ => ih hn hi
    cases initial with
    | none => exact hput .null
    | some e =>
      refine (ends_value (hfirst e rfl)).bind fun v _ => ?_
      cases hc : v.coerce declared with
      | ok stored => exact hput stored
      | error cause => exact ends_fail (Fault.isSound_coerce (.of_kind hT hk (by decide) (by decide)) hc)

theorem ends_requireAll {names : List Token} (hn : ∀ name ∈ names, Blamed T name) :
    Ends (Fault.IsSound T) (fun _ => True) (requireAll names) := by
  induction names with
  | nil => exact ends_pure trivial
  | cons name more ih =>
    obtain ⟨hname, hn⟩ := List.forall_mem_cons.1 hn
    exact (ends_ofEvaluation (fails_require hname)).bind fun _ _ => ih hn

theorem ends_store {pairs : List (Token × Text)} (hn : ∀ pair ∈ pairs, Blamed T pair.1) :
    Ends (Fault.IsSound T) (fun _ => True) (store pairs) := by
  induction pairs with
  | nil => exact ends_pure trivial
  | cons pair more ih =>
    obtain ⟨name, field⟩ := pair
    obtain ⟨hname, hn⟩ := List.forall_mem_cons.1 hn
    refine ends_get (fun _ _ => rfl) fun m => ?_
    cases h : m.scopes.assignInput name field with
    | error fault => exact ends_silent fun m' => ⟨_, m', .fault (Fault.isSound_assignInput hname h), fun _ => rfl⟩
    | ok p => exact (ends_setScopes fun _ => p.2).bind fun _ _ => ih hn

theorem ends_receive (watchers : Watchers) {keyword : Token} {names : List Token} (hk : Blamed T keyword)
    (hn : ∀ name ∈ names, Blamed T name) :
    Ends (Fault.IsSound T) (fun _ => True) (receive watchers keyword names) := by
  refine (ends_requireAll hn).bind fun _ _ => (ends_request watchers hk).bind fun line _ => ?_
  dsimp only
  split
  · exact ends_store fun pair hpair => hn pair.1 (List.of_mem_zip hpair).1
  · exact ends_fail ⟨hk, fun _ h => nomatch h⟩

/-! ## Loops -/

/-- A loop takes the jumps of its body. -/
theorem ends_whileHolds {test : Execution Bool} {body : Execution Flow} (ht : Ends faults (fun _ => True) test)
    (hb : Ends faults (fun _ => True) body) (rounds : Nat) :
    Ends faults (· = .normal) (whileHolds test body rounds) := by
  induction rounds with
  | zero => exact ends_unfinished
  | succ rounds ih =>
    refine ht.bind fun holds _ => ?_
    split
    · refine hb.bind fun flow _ => ?_
      split
      · exact ends_pure rfl
      · exact ih
    · exact ends_pure rfl

theorem ends_untilFails {test : Execution Bool} {body : Execution Flow} (ht : Ends faults (fun _ => True) test)
    (hb : Ends faults (fun _ => True) body) (rounds : Nat) :
    Ends faults (· = .normal) (untilFails test body rounds) := by
  induction rounds with
  | zero => exact ends_unfinished
  | succ rounds ih =>
    refine hb.bind fun flow _ => ?_
    split
    · exact ends_pure rfl
    · refine ht.bind fun holds _ => ?_
      split
      · exact ih
      · exact ends_pure rfl

/-! ## Statements of all kinds -/

variable {watchers : Watchers} {rounds : Nat} {ends : Flow → Prop}

theorem ends_executeAll (hnormal : ends .normal) {body : List Stmt}
    (hb : ∀ s ∈ body, Ends faults ends (s.execute watchers rounds)) :
    Ends faults ends (executeAll watchers rounds body) := by
  induction body with
  | nil =>
    rw [executeAll]
    exact ends_pure hnormal
  | cons s more ih =>
    obtain ⟨hs, hmore⟩ := List.forall_mem_cons.1 hb
    rw [executeAll]
    refine hs.bind fun flow hflow => ?_
    split
    · exact ih hmore
    · exact ends_pure hflow

theorem ends_executeFirst {otherwise : Execution Flow} (ho : Ends (Fault.IsSound T) ends otherwise)
    {alternatives : List (Expr × Stmt)} (hc : ∀ branch ∈ alternatives, branch.1.WellFormed T)
    (hb : ∀ branch ∈ alternatives, Ends (Fault.IsSound T) ends (branch.2.execute watchers rounds)) :
    Ends (Fault.IsSound T) ends (executeFirst watchers rounds otherwise alternatives) := by
  induction alternatives with
  | nil =>
    rw [executeFirst]
    exact ho
  | cons branch more ih =>
    obtain ⟨hcondition, hc⟩ := List.forall_mem_cons.1 hc
    obtain ⟨hbody, hb⟩ := List.forall_mem_cons.1 hb
    rw [executeFirst]
    refine (ends_holds hcondition).bind fun holds _ => ?_
    split
    · exact hbody
    · exact ih hc hb

end Execution

open Execution

/-- By induction on what makes the statement well formed. -/
theorem Stmt.WellFormed.ends_execute (watchers : Watchers) (rounds : Nat) {inLoop : Bool} {s : Stmt}
    (h : s.WellFormed T clean inLoop) :
    Ends (Fault.IsSound T) (fun flow => inLoop = true ∨ flow = .normal) (s.execute watchers rounds) := by
  induction h with
  | expr he =>
    rw [execute]
    exact (ends_announce watchers _).bind fun _ _ => (ends_value he).bind fun _ _ => ends_pure (.inr rfl)
  | ipakita hT hk he =>
    rw [execute]
    refine (ends_announce watchers _).bind fun _ _ => (ends_value he).bind fun v _ => ?_
    exact (ends_print watchers _ (.of_kind hT hk (by decide) (by decide))).bind fun _ _ => ends_pure (.inr rfl)
  | mugna _ _ hn hi _ =>
    rw [execute]
    exact (ends_announce watchers _).bind fun _ _ => (ends_declare _ hn hi).bind fun _ _ => ends_pure (.inr rfl)
  | dawat hT hk hn =>
    rw [execute]
    have hnames : ∀ name ∈ _, Blamed T name := fun name hname =>
      .of_kind (hn name hname).1 (hn name hname).2 (by decide) (by decide)
    refine (ends_announce watchers _).bind fun _ _ => ?_
    refine (ends_receive watchers (.of_kind hT hk (by decide) (by decide)) hnames).bind fun _ _ => ?_
    exact ends_pure (.inr rfl)
  | pundok _ ih =>
    rw [execute]
    exact (ends_announce watchers _).bind fun _ _ => (ends_executeAll (.inr rfl) ih).inScope
  | @kung inLoop keyword condition body alternatives otherwise _ _ hc _ hconditions _ _ ihb iha iho =>
    rw [execute]
    refine (ends_announce watchers _).bind fun _ _ => (ends_holds hc).bind fun holds _ => ?_
    split
    · exact ihb
    · refine ends_executeFirst ?_ hconditions iha
      cases otherwise with
      | none =>
        rw [executeOtherwise]
        exact ends_pure (.inr rfl)
      | some last =>
        rw [executeOtherwise]
        exact iho last rfl
  | mintras _ _ hc _ ih =>
    rw [execute]
    refine (ends_announce watchers _).bind fun _ _ => ?_
    -- whatever jump the body ends with is gone when the loop ends
    have hloop := ends_whileHolds (ends_holds hc) (ih.mono fun _ _ => trivial) rounds
    exact hloop.mono fun flow hflow => .inr hflow
  | buhata _ _ _ hc ih =>
    rw [execute]
    refine (ends_announce watchers _).bind fun _ _ => ?_
    have hloop := ends_untilFails (ends_holds hc) (ih.mono fun _ _ => trivial) rounds
    exact hloop.mono fun flow hflow => .inr hflow
  | hunong _ _ =>
    rw [execute]
    exact (ends_announce watchers _).bind fun _ _ => ends_pure (.inl rfl)
  | padayon _ _ =>
    rw [execute]
    exact (ends_announce watchers _).bind fun _ _ => ends_pure (.inl rfl)

/-- What a well-formed program shows and fails with. -/
theorem Program.ends_interpret (watchers : Watchers) (rounds : Nat) {statements : List Stmt}
    (h : ∀ s ∈ statements, s.WellFormed T clean false) :
    Ends (Fault.IsSound T) (fun _ => True) (interpret watchers rounds statements) := by
  induction statements with
  | nil => exact ends_pure trivial
  | cons s more ih =>
    obtain ⟨hs, hmore⟩ := List.forall_mem_cons.1 h
    exact (hs.ends_execute watchers rounds).bind fun _ _ => ih hmore

end BisayaPlus
