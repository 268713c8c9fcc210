import BisayaPlus.Proofs.Changes
/-!
# Expressions that evaluate alike

Two expressions may have other tokens and be evaluated on other scopes, and
still do the same. What has to correspond is said once, as a `Correspondence`:
which tokens stand for each other, and which scopes give the same meaning to
every name. Then expressions of the same form give the same value or faults
with the same cause, and leave corresponding scopes. Parentheses make no
difference, nor does it matter which token a compound assignment names its
variable by when it looks it up again.
-/

set_option autoImplicit false

namespace BisayaPlus

/-! ## Computations in step -/

/-- Two results with corresponding values, or with corresponding errors. -/
inductive Agreeing {ε α : Type} (V : α → α → Prop) (E : ε → ε → Prop) : Except ε α → Except ε α → Prop where
  | ok {a a' : α} : V a a' → Agreeing V E (.ok a) (.ok a')
  | error {e e' : ε} : E e e' → Agreeing V E (.error e) (.error e')

/-- From corresponding states the two computations come to the same value or to
corresponding errors, and to corresponding states. -/
def Tracks {ε σ α : Type} (W : σ → σ → Prop) (E : ε → ε → Prop) (x y : ExceptT ε (StateM σ) α) : Prop :=
  ∀ s s', W s s' → Agreeing Eq E (x s).1 (y s').1 ∧ W (x s).2 (y s').2

section Tracks

variable {ε σ α β : Type} {W : σ → σ → Prop} {E : ε → ε → Prop}

theorem tracks_pure (a : α) : Tracks W E (pure a : ExceptT ε (StateM σ) α) (pure a) := fun _ _ h => ⟨.ok rfl, h⟩

theorem tracks_throw {e e' : ε} (h : E e e') : Tracks W E (throw e : ExceptT ε (StateM σ) α) (throw e') :=
  fun _ _ hs => ⟨.error h, hs⟩

theorem tracks_modify {f f' : σ → σ} (h : ∀ s s', W s s' → W (f s) (f' s')) :
    Tracks W E (modify f : ExceptT ε (StateM σ) PUnit) (modify f') :=
  fun s s' hs => ⟨.ok rfl, h s s' hs⟩

theorem Tracks.bind {x y : ExceptT ε (StateM σ) α} {k k' : α → ExceptT ε (StateM σ) β} (h : Tracks W E x y)
    (hk : ∀ a, Tracks W E (k a) (k' a)) : Tracks W E (x >>= k) (y >>= k') := by
  intro s s' hs
  obtain ⟨hresult, hstate⟩ := h s s' hs
  change Agreeing Eq E ((ExceptT.bindCont k (x s).1) (x s).2).1 ((ExceptT.bindCont k' (y s').1) (y s').2).1 ∧
    W ((ExceptT.bindCont k (x s).1) (x s).2).2 ((ExceptT.bindCont k' (y s').1) (y s').2).2
  generalize (x s).1 = r at hresult
  generalize (y s').1 = r' at hresult
  cases hresult with
  | ok heq => exact heq ▸ hk _ _ _ hstate
  | error he => exact ⟨.error he, hstate⟩

theorem Agreeing.trans {V : α → α → Prop} {r r' r'' : Except ε α} (h : Agreeing V Eq r r')
    (h' : Agreeing Eq E r' r'') : Agreeing V E r r'' := by
  cases h with
  | ok hv => cases h' with | ok heq => exact .ok (heq ▸ hv)
  | error heq => cases h' with | error he => exact .error (heq ▸ he)

theorem Agreeing.eq {r r' : Except ε α} (h : Agreeing Eq Eq r r') : r = r' := by
  cases h with
  | ok heq => rw [heq]
  | error heq => rw [heq]

theorem tracks_ite {c : Prop} [Decidable c] {x y x' y' : ExceptT ε (StateM σ) α} (h : Tracks W E x y)
    (h' : Tracks W E x' y') : Tracks W E (if c then x else x') (if c then y else y') := by
  split
  · exact h
  · exact h'

end Tracks

namespace Evaluation

variable {α : Type} {W : Scopes → Scopes → Prop} {E : Fault → Fault → Prop}

theorem tracks_ofExcept {r r' : Except Fault α} (h : Agreeing Eq E r r') :
    Tracks W E (ofExcept r : Evaluation α) (ofExcept r') := by
  intro s s' hs
  rw [run_ofExcept, run_ofExcept]
  exact ⟨h, hs⟩

theorem tracks_get {t t' : Token} (h : ∀ s s', W s s' → Agreeing Eq E (s.get t) (s'.get t')) :
    Tracks W E (get t) (get t') := by
  intro s s' hs
  rw [run_get, run_get]
  exact ⟨h s s' hs, hs⟩

theorem tracks_require {t t' : Token} (hhas : ∀ s s', W s s' → s'.has t'.lexeme = s.has t.lexeme)
    (hfault : E (Scopes.undefined t) (Scopes.undefined t')) : Tracks W E (require t) (require t') := by
  intro s s' hs
  rw [run_require, run_require, hhas s s' hs]
  split
  · exact ⟨.ok rfl, hs⟩
  · exact ⟨.error hfault, hs⟩

theorem tracks_assign {t t' : Token} {v : Value} (h : ∀ s s', W s s' →
      Agreeing (fun p p' => p.1 = p'.1 ∧ W p.2 p'.2) E (s.assign t v) (s'.assign t' v)) :
    Tracks W E (Evaluation.assign t v) (Evaluation.assign t' v) := by
  intro s s' hs
  have hassigned := h s s' hs
  rw [run_assign, run_assign]
  generalize s.assign t v = r at hassigned
  generalize s'.assign t' v = r' at hassigned
  cases hassigned with
  | ok heq => exact ⟨.ok heq.1, heq.2⟩
  | error he => exact ⟨.error he, hs⟩

end Evaluation

/-! ## What corresponds -/

/-- The tokens differ in nothing but their offsets. -/
structure Token.Same (t t' : Token) : Prop where
  kind : t'.kind = t.kind
  lexeme : t'.lexeme = t.lexeme
  literal : t'.literal = t.literal
  line : t'.line = t.line

theorem Token.Same.refl (t : Token) : t.Same t := ⟨rfl, rfl, rfl, rfl⟩

/-- Which tokens and scopes correspond. Scopes correspond at a depth, the number
of scopes that were opened since; a name may be declared once there is one. -/
structure Correspondence where
  tokens : Token → Token → Prop
  scopes : Nat → Scopes → Scopes → Prop
  same {t t' : Token} : tokens t t' → t.Same t'
  push {depth : Nat} {s s' : Scopes} : scopes depth s s' → scopes (depth + 1) s.push s'.push
  pop {depth : Nat} {s s' : Scopes} : scopes (depth + 1) s s' → scopes depth s.pop s'.pop
  define {depth : Nat} {s s' : Scopes} (name : Text) (b : Binding) : scopes (depth + 1) s s' →
    scopes (depth + 1) (s.define name b) (s'.define name b)
  lookup {depth : Nat} {s s' : Scopes} (name : Text) : scopes depth s s' →
    (s'.lookup? name).map (·.2) = (s.lookup? name).map (·.2)
  update {depth : Nat} {s s' : Scopes} (t : Token) (convert : DataType → Except Cause Value) : scopes depth s s' →
    Agreeing (fun p p' => p.1 = p'.1 ∧ scopes depth p.2 p'.2) Eq (s.update t convert) (s'.update t convert)

namespace Correspondence

variable (C : Correspondence)

/-- Faults with the same cause, at corresponding tokens. -/
structure Faults (f f' : Fault) : Prop where
  token : C.tokens f.token f'.token
  cause : f'.cause = f.cause

/-- Expressions of the same form with corresponding tokens, parentheses aside. -/
inductive Exprs : Expr → Expr → Prop where
  | literal (v : Value) : Exprs (.literal v) (.literal v)
  | grouping {e e' : Expr} : Exprs e e' → Exprs (.grouping e) (.grouping e')
  | grouped {e e' : Expr} : Exprs e e' → Exprs e (.grouping e')
  | var {t t' : Token} : C.tokens t t' → Exprs (.var t) (.var t')
  | assign {t t' : Token} {e e' : Expr} : C.tokens t t' → Exprs e e' → Exprs (.assign t e) (.assign t' e')
  /-- The variable was found when its new value is computed from the old one. -/
  | compound {t t' again o o' : Token} {e e' : Expr} : C.tokens t t' → again.lexeme = t.lexeme → C.tokens o o' →
      Exprs e e' → Exprs (.assign t (.binary (.var t) o e)) (.assign t' (.binary (.var again) o' e'))
  | unary {t t' : Token} {e e' : Expr} : C.tokens t t' → Exprs e e' → Exprs (.unary t e) (.unary t' e')
  | binary {t t' : Token} {l l' r r' : Expr} : Exprs l l' → C.tokens t t' → Exprs r r' →
      Exprs (.binary l t r) (.binary l' t' r')
  | logical {t t' : Token} {l l' r r' : Expr} : Exprs l l' → C.tokens t t' → Exprs r r' →
      Exprs (.logical l t r) (.logical l' t' r')
  | step {t t' name name' : Token} (before : Bool) : C.tokens t t' → C.tokens name name' →
      Exprs (.step t name before) (.step t' name' before)

end Correspondence

/-! ## Who is blamed -/

/-- The fault at another token. -/
def Fault.blaming (t : Token) (f : Fault) : Fault := ⟨t, f.cause⟩

/-- The result depends on what the token says and not on where it stands, and a
fault is blamed on this token. -/
def Blames {α : Type} (f : Token → Except Fault α) : Prop :=
  ∀ t t', t.Same t' → f t' = (f t).mapError (Fault.blaming t')

namespace Operation

variable {t t' : Token}

theorem map_blame {α β : Type} (t t' : Token) (f : α → β) (r : Except Cause α) :
    (blame t' r).map f = ((blame t r).map f).mapError (Fault.blaming t') := by
  cases r <;> rfl

theorem blames_arithmetic (l r : Value) : Blames (arithmetic · l r) := by
  intro t t' h
  simp only [arithmetic]
  cases numbers? l r with
  | none => rfl
  | some pair =>
    cases pair with
    | integers i j =>
      have heq : integerArithmetic t' i j = integerArithmetic t i j := by
        unfold integerArithmetic
        rw [h.kind, h.lexeme]
      dsimp only
      rw [heq]
      exact map_blame t t' Value.numero _
    | reals x y =>
      have heq : realArithmetic t' x y = realArithmetic t x y := by
        unfold realArithmetic
        rw [h.kind, h.lexeme]
      dsimp only
      rw [heq]
      exact map_blame t t' Value.tipik _

theorem blames_add (l r : Value) : Blames (add · l r) := by
  intro t t' h
  have harithmetic : arithmetic t' l r = _ := blames_arithmetic l r t t' h
  simp only [add]
  split
  · rfl
  · rfl
  · rw [harithmetic]
    split <;> rfl

theorem blames_compare (l r : Value) : Blames (compare · l r) := by
  intro t t' h
  simp only [compare, h.kind]
  cases numbers? l r <;> rfl

theorem blames_binary (l r : Value) : Blames (binary · l r) := by
  intro t t' h
  have hpayload : payload t' = payload t := by
    unfold payload
    rw [h.literal]
  simp only [binary, h.kind, h.lexeme, hpayload]
  split <;> first | exact blames_add l r t t' h | exact blames_arithmetic l r t t' h |
    exact blames_compare l r t t' h | rfl

theorem blames_unary (v : Value) : Blames (unary · v) := by
  intro t t' h
  simp only [unary, h.kind]
  split
  · rfl
  · cases v <;> rfl

theorem blames_step (v : Value) : Blames (step · v) := by
  intro t t' h
  simp only [step, h.kind]
  cases v <;> rfl

end Operation

namespace Scopes

theorem blames_get (s : Scopes) : Blames s.get := by
  intro t t' h
  simp only [get, undefined, h.lexeme]
  cases s.lookup? t.lexeme <;> rfl

theorem blames_update (s : Scopes) (convert : DataType → Except Cause Value) : Blames (s.update · convert) := by
  intro t t' h
  simp only [update, undefined, h.lexeme]
  cases s.lookup? t.lexeme with
  | none => rfl
  | some found =>
    dsimp only
    cases convert found.2.declared <;> rfl

end Scopes

/-! ## Expressions -/

namespace Correspondence

variable {C : Correspondence} {depth : Nat} {s s' : Scopes} {t t' : Token} {e e' : Expr}

theorem agreeing_of_blames {α : Type} {f : Token → Except Fault α} (hf : Blames f) (h : C.tokens t t') :
    Agreeing Eq C.Faults (f t) (f t') := by
  have hself := hf t t (.refl t)
  rw [hf t t' (C.same h)]
  cases hr : f t with
  | ok a => exact .ok rfl
  | error fault =>
    rw [hr] at hself
    have htoken : fault.token = t := congrArg Fault.token (Except.error.inj hself)
    exact .error ⟨htoken.symm ▸ h, rfl⟩

theorem has_eq (h : C.scopes depth s s') (name : Text) : s'.has name = s.has name := by
  have hfound := congrArg Option.isSome (C.lookup name h)
  rwa [Option.isSome_map, Option.isSome_map] at hfound

/-- A name is looked up as well by another token. -/
theorem get_eq (h : C.scopes depth s s') (name : Token) : s'.get name = s.get name := by
  have hfound := C.lookup name.lexeme h
  unfold Scopes.get
  cases hl : s.lookup? name.lexeme with
  | none =>
    rw [hl] at hfound
    rw [Option.map_eq_none_iff.1 hfound]
  | some found =>
    rw [hl] at hfound
    obtain ⟨found', hfound', heq⟩ := Option.map_eq_some_iff.1 hfound
    rw [hfound']
    exact congrArg (fun b : Binding => Except.ok b.value) heq

theorem agreeing_get (h : C.scopes depth s s') (ht : C.tokens t t') :
    Agreeing Eq C.Faults (s.get t) (s'.get t') := by
  rw [← get_eq h t]
  exact agreeing_of_blames (Scopes.blames_get s') ht

theorem agreeing_update (h : C.scopes depth s s') (ht : C.tokens t t') (convert : DataType → Except Cause Value) :
    Agreeing (fun p p' => p.1 = p'.1 ∧ C.scopes depth p.2 p'.2) C.Faults (s.update t convert)
      (s'.update t' convert) :=
  (C.update t convert h).trans (agreeing_of_blames (Scopes.blames_update s' convert) ht)

theorem tracks_require (depth : Nat) (h : C.tokens t t') :
    Tracks (C.scopes depth) C.Faults (Evaluation.require t) (Evaluation.require t') := by
  have hlexeme := (C.same h).lexeme
  refine Evaluation.tracks_require (fun s s' hs => hlexeme ▸ has_eq hs t.lexeme) ⟨h, ?_⟩
  rw [Scopes.undefined, Scopes.undefined, hlexeme]

theorem tracks_assign (depth : Nat) (h : C.tokens t t') (v : Value) :
    Tracks (C.scopes depth) C.Faults (Evaluation.assign t v) (Evaluation.assign t' v) :=
  Evaluation.tracks_assign fun _ _ hs => agreeing_update hs h _

theorem tracks_ofExcept {α : Type} {f : Token → Except Fault α} (hf : Blames f) (h : C.tokens t t') :
    Tracks (C.scopes depth) C.Faults (ofExcept (f t) : Evaluation α) (ofExcept (f t')) :=
  Evaluation.tracks_ofExcept (agreeing_of_blames hf h)

/-- A variable that was asked for has a value, by whichever token. -/
theorem tracks_found {α : Type} {again : Token} {k k' : Value → Evaluation α} (depth : Nat) (h : C.tokens t t')
    (hagain : again.lexeme = t.lexeme) (hk : ∀ v, Tracks (C.scopes depth) C.Faults (k v) (k' v)) :
    Tracks (C.scopes depth) C.Faults (Evaluation.require t >>= fun _ => Evaluation.get t >>= k)
      (Evaluation.require t' >>= fun _ => Evaluation.get again >>= k') := by
  intro s s' hs
  have hhas : s'.has t'.lexeme = s.has t.lexeme := (C.same h).lexeme ▸ has_eq hs t.lexeme
  rw [Evaluation.run_bind, Evaluation.run_bind, Evaluation.run_require, Evaluation.run_require, hhas]
  cases hfound : s.lookup? t.lexeme with
  | none =>
    have hhas' : s.has t.lexeme = false := by rw [Scopes.has, hfound]; rfl
    rw [hhas']
    refine ⟨.error ⟨h, ?_⟩, hs⟩
    rw [Scopes.undefined, Scopes.undefined, (C.same h).lexeme]
  | some found =>
    have hhas' : s.has t.lexeme = true := by rw [Scopes.has, hfound]; rfl
    have hget : s.get t = .ok found.2.value := by rw [Scopes.get, hfound]
    have hagain' : s'.get again = .ok found.2.value := by
      rw [get_eq hs, Scopes.get, hagain, hfound]
    rw [hhas', if_pos rfl, if_pos rfl]
    change Agreeing Eq C.Faults ((Evaluation.get t >>= k) s).1 ((Evaluation.get again >>= k') s').1 ∧
      C.scopes depth ((Evaluation.get t >>= k) s).2 ((Evaluation.get again >>= k') s').2
    rw [Evaluation.run_bind, Evaluation.run_bind, Evaluation.run_get, Evaluation.run_get, hget, hagain']
    exact hk found.2.value s s' hs

/-- By induction on the expressions. -/
theorem Exprs.tracks (h : C.Exprs e e') (depth : Nat) :
    Tracks (C.scopes depth) C.Faults e.evaluate e'.evaluate := by
  induction h with
  | literal v => exact tracks_pure v
  | grouping _ ih => exact ih
  | grouped _ ih => exact ih
  | var ht => exact Evaluation.tracks_get fun s s' hs => agreeing_get hs ht
  | assign ht _ ih => exact (tracks_require depth ht).bind fun _ => ih.bind fun v => tracks_assign depth ht v
  | compound ht hagain ho _ ih =>
    simp only [Expr.evaluate, bind_assoc]
    refine tracks_found depth ht hagain fun l => ih.bind fun r => ?_
    exact (tracks_ofExcept (Operation.blames_binary l r) ho).bind fun v => tracks_assign depth ht v
  | unary ht _ ih => exact ih.bind fun r => tracks_ofExcept (Operation.blames_unary r) ht
  | binary _ ht _ ihl ihr =>
    exact ihl.bind fun l => ihr.bind fun r => tracks_ofExcept (Operation.blames_binary l r) ht
  | logical _ ht _ ihl ihr =>
    simp only [Expr.evaluate, (C.same ht).kind]
    exact ihl.bind fun l => tracks_ite (tracks_pure l) ihr
  | step before ht hname =>
    refine Tracks.bind (Evaluation.tracks_get fun s s' hs => agreeing_get hs hname) fun old => ?_
    refine (tracks_ofExcept (Operation.blames_step old) ht).bind fun new => ?_
    exact (tracks_assign depth hname new).bind fun stored => tracks_pure _

theorem Exprs.line_eq (h : C.Exprs e e') : e'.token.line = e.token.line := by
  induction h with
  | literal v => rfl
  | grouping _ ih => exact ih
  | grouped _ ih => exact ih
  | var ht => exact (C.same ht).line
  | assign ht => exact (C.same ht).line
  | compound ht => exact (C.same ht).line
  | unary ht => exact (C.same ht).line
  | binary _ ht => exact (C.same ht).line
  | logical _ ht => exact (C.same ht).line
  | step _ ht => exact (C.same ht).line

end Correspondence

end BisayaPlus
