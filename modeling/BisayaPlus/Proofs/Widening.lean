import BisayaPlus.Proofs.CorrespondingRuns
import BisayaPlus.Proofs.ScopeStack
/-!
# An empty scope makes no difference

A block opens a scope, and a name that the scope lacks is looked up outside it.
So where nothing is declared in a scope directly, it may as well not be opened:
scopes with an empty one in between give every name the same meaning, and
whatever runs inside them runs alike.
-/

set_option autoImplicit false

namespace BisayaPlus

open Execution

namespace Scopes

/-! ## One scope more -/

/-- The scopes with one more inside the current one, with these variables. -/
def opened (s : Scopes) (bindings : List (Text × Binding)) : Scopes :=
  { arena := s.arena ++ [{ parent := some s.current, bindings := bindings }], current := s.arena.length }

variable {s s' : Scopes} {name : Text} (bindings : List (Text × Binding))

theorem IsChain.current_lt (h : s.IsChain) : s.current < s.arena.length :=
  Nat.lt_of_lt_of_eq (Nat.lt_succ_self _) h.last

theorem IsChain.opened (h : s.IsChain) : (s.opened bindings).IsChain := by
  have hpos : s.arena.length ≠ 0 := Nat.ne_of_gt (List.length_pos_iff.2 h.ne_nil)
  refine ⟨by simp [Scopes.opened], linked_append h.parent ?_⟩
  rw [if_neg hpos, ← h.last, Nat.add_sub_cancel]

theorem IsChain.pop_opened (h : s.IsChain) : (s.opened bindings).pop = s := by
  have hpos : s.arena.length ≠ 0 := Nat.ne_of_gt (List.length_pos_iff.2 h.ne_nil)
  simp [pop, Scopes.opened, hpos]

theorem define_opened (s : Scopes) (name : Text) (b : Binding) :
    (s.opened bindings).define name b = s.opened (Scope.put name b bindings) := by
  unfold define opened
  rw [modify_append_last]
  rfl

/-- A name that the inner scope lacks is looked up outside it. -/
theorem IsChain.place?_opened (h : s.IsChain) (name : Text) : (s.opened bindings).place? name =
    if (bindings.lookup name).isSome then some s.arena.length else s.place? name := by
  have hlinked : Linked (s.opened bindings).arena := (h.opened bindings).parent
  unfold Scopes.opened place? at *
  rw [List.length_append, List.length_singleton, placeFrom, List.getElem?_concat_length]
  change (if (bindings.lookup name).isSome = true then _ else placeFrom _ name s.arena.length s.current) = _
  rw [placeFrom_append hlinked _ h.current_lt]

theorem place_lt {place : Nat} (h : s.place? name = some place) : place < s.arena.length := by
  have hsome := isSome_of_placeFrom _ h
  rcases Nat.lt_or_ge place s.arena.length with hlt | hge
  · exact hlt
  · rw [List.getElem?_eq_none hge] at hsome
    cases hsome

theorem lookup?_lt {place : Nat} {b : Binding} (h : s.lookup? name = some (place, b)) : place < s.arena.length := by
  unfold lookup? at h
  cases hplace : s.place? name with
  | none =>
    rw [hplace] at h
    cases h
  | some found =>
    rw [hplace] at h
    obtain ⟨_, -, heq⟩ := Option.map_eq_some_iff.1 h
    rw [← (Prod.mk.inj heq).1]
    exact place_lt hplace

theorem IsChain.lookup?_opened_some (h : s.IsChain) {b : Binding} (hb : bindings.lookup name = some b) :
    (s.opened bindings).lookup? name = some (s.arena.length, b) := by
  rw [lookup?, h.place?_opened, hb, Option.isSome_some, if_pos rfl]
  dsimp only [Scopes.opened]
  rw [List.getElem?_concat_length]
  exact congrArg (Option.map _) hb

theorem IsChain.lookup?_opened_none (h : s.IsChain) (hb : bindings.lookup name = none) :
    (s.opened bindings).lookup? name = s.lookup? name := by
  rw [lookup?, lookup?, h.place?_opened, hb, Option.isSome_none, if_neg Bool.false_ne_true]
  cases hplace : s.place? name with
  | none => rfl
  | some place =>
    dsimp only [Scopes.opened]
    rw [List.getElem?_append_left (place_lt hplace)]

theorem IsChain.update_opened_none (h : s.IsChain) {name : Token} (hb : bindings.lookup name.lexeme = none)
    (convert : DataType → Except Cause Value) :
    (s.opened bindings).update name convert = (s.update name convert).map fun p => (p.1, p.2.opened bindings) := by
  unfold update
  rw [h.lookup?_opened_none bindings hb]
  cases hfound : s.lookup? name.lexeme with
  | none => rfl
  | some found =>
    obtain ⟨place, b⟩ := found
    dsimp only
    cases convert b.declared with
    | error cause => rfl
    | ok v =>
      dsimp only [Scopes.opened, Except.map]
      rw [modify_append_left (lookup?_lt hfound), List.length_modify]

/-! ## An empty scope in between -/

/-- The second scopes have an empty one in between, with some scopes open inside
it. These have the same variables in both. -/
inductive Widened : Nat → Scopes → Scopes → Prop where
  | here {s : Scopes} : s.IsChain → Widened 0 s s.push
  | inside {depth : Nat} {s s' : Scopes} (bindings : List (Text × Binding)) : Widened depth s s' →
      Widened (depth + 1) (s.opened bindings) (s'.opened bindings)

namespace Widened

variable {depth : Nat}

theorem isChain (h : Widened depth s s') : s.IsChain ∧ s'.IsChain := by
  induction h with
  | here hs => exact ⟨hs, hs.opened []⟩
  | inside bindings _ ih => exact ⟨ih.1.opened bindings, ih.2.opened bindings⟩

theorem pop_eq (h : Widened 0 s s') : s'.pop = s := by
  cases h with
  | here hs => exact hs.pop_opened []

theorem pop (h : Widened (depth + 1) s s') : Widened depth s.pop s'.pop := by
  cases h with
  | inside bindings h =>
    rw [h.isChain.1.pop_opened, h.isChain.2.pop_opened]
    exact h

theorem define (h : Widened (depth + 1) s s') (name : Text) (b : Binding) :
    Widened (depth + 1) (s.define name b) (s'.define name b) := by
  cases h with
  | inside bindings h =>
    rw [define_opened, define_opened]
    exact .inside _ h

theorem lookup (h : Widened depth s s') (name : Text) :
    (s'.lookup? name).map (·.2) = (s.lookup? name).map (·.2) := by
  induction h with
  | here hs => exact congrArg (Option.map _) (hs.lookup?_opened_none [] rfl)
  | inside bindings h ih =>
    cases hb : bindings.lookup name with
    | some b =>
      rw [h.isChain.1.lookup?_opened_some bindings hb, h.isChain.2.lookup?_opened_some bindings hb]
      rfl
    | none =>
      rw [h.isChain.1.lookup?_opened_none bindings hb, h.isChain.2.lookup?_opened_none bindings hb]
      exact ih

theorem update (h : Widened depth s s') (name : Token) (convert : DataType → Except Cause Value) :
    Agreeing (fun p p' => p.1 = p'.1 ∧ Widened depth p.2 p'.2) Eq (s.update name convert)
      (s'.update name convert) := by
  induction h with
  | @here s hs =>
    change Agreeing _ _ _ ((s.opened []).update name convert)
    rw [hs.update_opened_none [] rfl]
    cases hu : s.update name convert with
    | error fault => exact .error rfl
    | ok p =>
      obtain ⟨v, t⟩ := p
      exact .ok ⟨rfl, .here ((sameShape_update hu).keeps.isChain hs)⟩
  | @inside depth s s' bindings h ih =>
    obtain ⟨hs, hs'⟩ := h.isChain
    cases hb : bindings.lookup name.lexeme with
    | none =>
      rw [hs.update_opened_none bindings hb, hs'.update_opened_none bindings hb]
      generalize s.update name convert = r at ih
      generalize s'.update name convert = r' at ih
      cases ih with
      | ok hp => exact .ok ⟨hp.1, .inside bindings hp.2⟩
      | error hf => exact .error hf
    | some b =>
      -- the variable stands in the inner scope, which is the current one
      unfold Scopes.update
      rw [hs.lookup?_opened_some bindings hb, hs'.lookup?_opened_some bindings hb]
      dsimp only
      cases convert b.declared with
      | error cause => exact .error rfl
      | ok v => exact .ok ⟨rfl, (inside bindings h).define name.lexeme { b with value := v }⟩

end Widened

end Scopes

open Scopes Correspondence

/-- The same tokens, and scopes with an empty one in between. -/
def widening : Correspondence where
  tokens := Eq
  scopes := Widened
  same h := h ▸ .refl _
  push h := .inside [] h
  pop h := h.pop
  define name b h := h.define name b
  lookup name h := h.lookup name
  update t convert h := h.update t convert

/-! ## Leaving out a scope -/

namespace Execution

variable {α : Type} {x y : Execution α}

/-- On machines whose scopes are a chain, the executions are the same and leave a
chain. -/
def SameOnChains (x y : Execution α) : Prop := Tracks (fun m m' => m = m' ∧ m.scopes.IsChain) Eq x y

theorem SameOnChains.eq {m : Machine} (h : SameOnChains x y) (hm : m.scopes.IsChain) : x m = y m := by
  obtain ⟨hresult, hmachine, -⟩ := h m m ⟨rfl, hm⟩
  exact Prod.ext hresult.eq hmachine

theorem Changing.isChain (h : Changing x) {m : Machine} (hm : m.scopes.IsChain) : (x m).2.scopes.IsChain :=
  ((h m).keeps hm.ne_nil).isChain hm

theorem Changing.sameOnChains (h : Changing x) (heq : ∀ m, m.scopes.IsChain → x m = y m) : SameOnChains x y := by
  rintro m m' ⟨rfl, hm⟩
  rw [← heq m hm]
  refine ⟨?_, rfl, h.isChain hm⟩
  cases (x m).1 with
  | ok a => exact .ok rfl
  | error stop => exact .error rfl

/-- A scope in which nothing is declared directly can be left out. -/
theorem sameOnChains_inScope (hx : Changing x) (h : widening.InStep 0 x x) : SameOnChains x (inScope x) := by
  refine hx.sameOnChains fun m hm => ?_
  obtain ⟨hresult, hmachine⟩ := h m { m with scopes := m.scopes.push } ⟨.here hm, rfl, rfl, rfl⟩
  unfold inScope
  generalize x { m with scopes := m.scopes.push } = inner at hresult hmachine ⊢
  obtain ⟨result, m'⟩ := inner
  refine Prod.ext (Stops.eq (fun _ _ h => h) hresult) ?_
  dsimp only at hmachine ⊢
  rw [Widened.pop_eq hmachine.scopes, hmachine.replies, hmachine.prints, hmachine.shown]

theorem SameOnChains.inScope (hx : Changing x) (h : SameOnChains x y) :
    SameOnChains (Execution.inScope x) (Execution.inScope y) := by
  refine (changing_inScope hx).sameOnChains fun m hm => ?_
  unfold Execution.inScope
  rw [h.eq (hm.opened [])]

end Execution

end BisayaPlus
