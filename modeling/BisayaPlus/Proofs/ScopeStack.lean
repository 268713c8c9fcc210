import Mathlib.Data.Finmap
import BisayaPlus.Proofs.Scoping
/-!
# The scopes are a stack of maps

The scopes stand in one list and name each other by their places, and variables
change in place. To whoever opens and closes scopes, declares, looks up and
assigns, they are no more than maps on top of each other: whatever is asked, in
whatever order, the answers are those of a stack.
-/

set_option autoImplicit false

namespace BisayaPlus

/-! ## Stacks -/

/-- The variables of one scope. -/
abbrev Variables := Finmap fun _ : Text => Binding

/-- Maps on top of each other. There is always one. -/
inductive Stack where
  | bottom (vars : Variables)
  | inner (vars : Variables) (below : Stack)

namespace Stack

/-- One map without variables. -/
def fresh : Stack := bottom ∅

/-- Puts an empty map on top. -/
def push (s : Stack) : Stack := inner ∅ s

/-- Takes the top map away, unless it is the only one. -/
def pop : Stack → Stack
  | bottom vars => bottom vars
  | inner _ below => below

/-- Writes the top map. -/
def define (name : Text) (b : Binding) : Stack → Stack
  | bottom vars => bottom (vars.insert name b)
  | inner vars below => inner (vars.insert name b) below

/-- The variable in the uppermost map that has the name. -/
def lookup (name : Text) : Stack → Option Binding
  | bottom vars => vars.lookup name
  | inner vars below => (vars.lookup name).or (below.lookup name)

/-- Gives the variable in the uppermost map that has the name another value. -/
def replace (name : Text) (v : Value) : Stack → Stack
  | bottom vars =>
    match vars.lookup name with
    | none => bottom vars
    | some b => bottom (vars.insert name { b with value := v })
  | inner vars below =>
    match vars.lookup name with
    | none => inner vars (below.replace name v)
    | some b => inner (vars.insert name { b with value := v }) below

/-- The value of a variable. -/
def get (s : Stack) (name : Token) : Except Fault Value :=
  match s.lookup name.lexeme with
  | none => .error (Scopes.undefined name)
  | some b => .ok b.value

/-- Gives a variable the value that `convert` makes for its type. -/
def update (s : Stack) (name : Token) (convert : DataType → Except Cause Value) : Except Fault (Value × Stack) :=
  match s.lookup name.lexeme with
  | none => .error (Scopes.undefined name)
  | some b =>
    match convert b.declared with
    | .error cause => .error ⟨name, cause⟩
    | .ok v => .ok (v, s.replace name.lexeme v)

end Stack

/-! ## Requests -/

namespace Scopes

/-- What can be asked of variables. -/
inductive Request where
  | push
  | pop
  | define (name : Text) (b : Binding)
  | get (name : Token)
  | assign (name : Token) (value : Value)
  | input (name : Token) (field : Text)
  | has (name : Text)

/-- What comes of a request. -/
inductive Answer where
  | done
  | gave (result : Except Fault Value)
  | known (isKnown : Bool)

/-- What comes of an assignment, and the state after it. -/
def settle {State : Type} (s : State) : Except Fault (Value × State) → Answer × State
  | .ok (v, t) => (.gave (.ok v), t)
  | .error fault => (.gave (.error fault), s)

/-- What comes of a request to the scopes. -/
def perform (s : Scopes) : Request → Answer × Scopes
  | .push => (.done, s.push)
  | .pop => (.done, s.pop)
  | .define name b => (.done, s.define name b)
  | .get name => (.gave (s.get name), s)
  | .assign name value => settle s (s.assign name value)
  | .input name field => settle s (s.assignInput name field)
  | .has name => (.known (s.has name), s)

end Scopes

open Scopes

/-- What comes of a request to a stack. -/
def Stack.perform (s : Stack) : Request → Answer × Stack
  | .push => (.done, s.push)
  | .pop => (.done, s.pop)
  | .define name b => (.done, s.define name b)
  | .get name => (.gave (s.get name), s)
  | .assign name value => settle s (s.update name (Value.coerce · value))
  | .input name field => settle s (s.update name (Value.read · field))
  | .has name => (.known (s.lookup name).isSome, s)

/-- What comes of requests one after the other. -/
def inTurn {State : Type} (perform : State → Request → Answer × State) (s : State) :
    List Request → List Answer × State
  | [] => ([], s)
  | request :: more =>
    let (answer, t) := perform s request
    let (answers, u) := inTurn perform t more
    (answer :: answers, u)

/-! ## An arena that holds a stack -/

/-- The scope has the variables of the map. -/
def Scope.Has (scope : Scope) (vars : Variables) : Prop := ∀ name, scope.find? name = vars.lookup name

theorem Scope.has_empty (parent : Option Nat) : Scope.Has { parent := parent } ∅ := fun _ => rfl

theorem Scope.Has.define {scope : Scope} {vars : Variables} (h : scope.Has vars) (name : Text) (b : Binding) :
    (scope.define name b).Has (vars.insert name b) := by
  intro other
  rw [find?_define]
  by_cases hn : other = name
  · subst hn
    rw [if_pos rfl, Finmap.lookup_insert]
  · rw [if_neg hn, Finmap.lookup_insert_of_ne _ hn, h other]

/-- The scopes, the last one on top, have the variables of the stack. -/
inductive Holds : List Scope → Stack → Prop where
  | bottom {scope : Scope} {vars : Variables} : scope.Has vars → Holds [scope] (.bottom vars)
  | inner {arena : List Scope} {scope : Scope} {vars : Variables} {below : Stack} : Holds arena below →
      scope.Has vars → Holds (arena ++ [scope]) (.inner vars below)

theorem modify_append_last {α : Type} (l : List α) (a : α) (f : α → α) : (l ++ [a]).modify l.length f = l ++ [f a] := by
  induction l with
  | nil => rfl
  | cons first l ih => simp [ih]

theorem modify_append_left {α : Type} {l : List α} {i : Nat} (hi : i < l.length) (a : α) (f : α → α) :
    (l ++ [a]).modify i f = l.modify i f ++ [a] := by
  induction l generalizing i with
  | nil => simp at hi
  | cons first l ih =>
    cases i with
    | zero => rfl
    | succ i => simp [ih (Nat.lt_of_succ_lt_succ hi)]

theorem Holds.ne_nil {arena : List Scope} {stack : Stack} (h : Holds arena stack) : arena ≠ [] := by
  cases h <;> simp

theorem Holds.define {arena : List Scope} {stack : Stack} (h : Holds arena stack) (name : Text) (b : Binding) :
    Holds (arena.modify (arena.length - 1) (·.define name b)) (stack.define name b) := by
  cases h with
  | bottom hscope => exact .bottom (hscope.define name b)
  | @inner arena scope vars below hbelow hscope =>
    have hlength : (arena ++ [scope]).length - 1 = arena.length := by simp
    rw [hlength, modify_append_last]
    exact .inner hbelow (hscope.define name b)

/-- Each scope stands right behind the one around it. -/
def Linked (arena : List Scope) : Prop :=
  ∀ i scope, arena[i]? = some scope → scope.parent = if i = 0 then none else some (i - 1)

section Arena

variable {arena more : List Scope} {scope : Scope} {stack : Stack} {name : Text}

theorem Linked.of_append (h : Linked (arena ++ more)) : Linked arena := by
  intro i scope hscope
  have hi : i < arena.length := (List.getElem?_eq_some_iff.1 hscope).1
  exact h i scope (by rw [List.getElem?_append_left hi, hscope])

theorem linked_append (h : Linked arena)
    (hscope : scope.parent = if arena.length = 0 then none else some (arena.length - 1)) :
    Linked (arena ++ [scope]) := by
  intro i found hfound
  rcases Nat.lt_trichotomy i arena.length with hi | rfl | hi
  · rw [List.getElem?_append_left hi] at hfound
    exact h i found hfound
  · obtain rfl : scope = found := by simpa using hfound
    exact hscope
  · rw [List.getElem?_eq_none (by simp; omega)] at hfound
    cases hfound

/-- Looking outward from a scope never comes to the scopes behind it. -/
theorem placeFrom_append (h : Linked (arena ++ more)) (bound : Nat) : ∀ {place : Nat}, place < arena.length →
    placeFrom (arena ++ more) name bound place = placeFrom arena name bound place := by
  induction bound with
  | zero => exact fun _ => rfl
  | succ bound ih =>
    intro place hplace
    rw [placeFrom, placeFrom, List.getElem?_append_left hplace]
    cases hscope : arena[place]? with
    | none => rfl
    | some scope =>
      have hparent := h.of_append place scope hscope
      dsimp only
      rw [hparent]
      cases place with
      | zero => rfl
      | succ place => simp [ih (Nat.lt_of_succ_lt hplace)]

/-- What looking for a name in the arena finds: nothing, if the stack has nothing
either, or the place of the variable that the stack has. To change it there is
to change it in the stack. -/
inductive Finds (arena : List Scope) (stack : Stack) (name : Text) : Option Nat → Prop where
  | nothing : stack.lookup name = none → Finds arena stack name none
  | place {place : Nat} {b : Binding} : (arena[place]?).bind (·.find? name) = some b → stack.lookup name = some b →
      (∀ v, Holds (arena.modify place (·.define name { b with value := v })) (stack.replace name v)) →
      Finds arena stack name (some place)

/-- By induction on the stack: a name that the last scope lacks is looked for in
the scopes before it. -/
theorem Holds.finds (h : Holds arena stack) : ∀ {bound : Nat}, Linked arena → arena.length ≤ bound →
    Finds arena stack name (placeFrom arena name bound (arena.length - 1)) := by
  induction h with
  | @bottom scope vars hscope =>
    intro bound hlinked hbound
    obtain ⟨bound, rfl⟩ : ∃ n, bound = n + 1 := ⟨bound - 1, by simp at hbound; omega⟩
    have hparent : scope.parent = none := hlinked 0 scope rfl
    have hfind := hscope name
    cases hfound : vars.lookup name with
    | none =>
      have hplace : placeFrom [scope] name (bound + 1) 0 = none := by simp [placeFrom, hfind, hfound, hparent]
      exact hplace ▸ .nothing hfound
    | some b =>
      have hplace : placeFrom [scope] name (bound + 1) 0 = some 0 := by simp [placeFrom, hfind, hfound]
      refine hplace ▸ .place (hfind.trans hfound) hfound fun v => ?_
      rw [Stack.replace, hfound]
      exact .bottom (hscope.define name _)
  | @inner arena scope vars below hbelow hscope ih =>
    intro bound hlinked hbound
    have hlength : (arena ++ [scope]).length = arena.length + 1 := by simp
    rw [hlength] at hbound ⊢
    obtain ⟨bound, rfl⟩ : ∃ n, bound = n + 1 := ⟨bound - 1, by omega⟩
    have hlast : (arena ++ [scope])[arena.length]? = some scope := List.getElem?_concat_length
    have hfind := hscope name
    rw [Nat.add_sub_cancel]
    cases hfound : vars.lookup name with
    | some b =>
      have hplace : placeFrom (arena ++ [scope]) name (bound + 1) arena.length = some arena.length := by
        simp [placeFrom, hfind, hfound]
      refine hplace ▸ .place (b := b) ?_ ?_ fun v => ?_
      · rw [hlast]
        exact hfind.trans hfound
      · rw [Stack.lookup, hfound, Option.some_or]
      · rw [modify_append_last, Stack.replace, hfound]
        exact .inner hbelow (hscope.define name _)
    | none =>
      have hpos : 0 < arena.length := List.length_pos_iff.2 hbelow.ne_nil
      have hparent : scope.parent = some (arena.length - 1) := by
        rw [hlinked arena.length scope hlast, if_neg (Nat.ne_of_gt hpos)]
      have hplace : placeFrom (arena ++ [scope]) name (bound + 1) arena.length =
          placeFrom arena name bound (arena.length - 1) := by
        rw [← placeFrom_append hlinked bound (Nat.sub_lt hpos Nat.one_pos)]
        simp [placeFrom, hfind, hfound, hparent]
      have hlookup : (Stack.inner vars below).lookup name = below.lookup name := by
        rw [Stack.lookup, hfound, Option.none_or]
      have hrest := ih hlinked.of_append (Nat.le_of_succ_le_succ hbound)
      rw [hplace]
      generalize placeFrom arena name bound (arena.length - 1) = found at hrest
      cases hrest with
      | nothing hnone => exact .nothing (hlookup.trans hnone)
      | @place place b hb hsome hreplace =>
        have hlt : place < arena.length := by
          refine Nat.lt_of_not_le fun hle => ?_
          rw [List.getElem?_eq_none hle] at hb
          cases hb
        refine .place ?_ (hlookup.trans hsome) fun v => ?_
        · rwa [List.getElem?_append_left hlt]
        · rw [modify_append_left hlt, Stack.replace, hfound]
          exact .inner (hreplace v) hscope

end Arena

/-! ## Scopes and stacks do the same -/

/-- The scopes are a chain and have the variables of the stack. -/
structure Refines (s : Scopes) (stack : Stack) : Prop where
  chain : s.IsChain
  holds : Holds s.arena stack

theorem refines_fresh : Refines .fresh .fresh := by
  refine ⟨⟨rfl, fun i scope hscope => ?_⟩, .bottom (Scope.has_empty none)⟩
  obtain ⟨hi, rfl⟩ := List.getElem?_eq_some_iff.1 hscope
  obtain rfl : i = 0 := Nat.lt_one_iff.1 hi
  rfl

namespace Refines

variable {s : Scopes} {stack : Stack}

theorem current_eq (h : Refines s stack) : s.current = s.arena.length - 1 := Nat.eq_sub_of_add_eq h.chain.last

/-- A name means nothing in both, or a variable that can be changed in both. -/
theorem lookup (h : Refines s stack) (name : Text) :
    (s.lookup? name = none ∧ stack.lookup name = none) ∨
      ∃ place b, s.lookup? name = some (place, b) ∧ stack.lookup name = some b ∧
        ∀ v, Holds (s.arena.modify place (·.define name { b with value := v })) (stack.replace name v) := by
  have hfinds : Finds s.arena stack name (s.place? name) := by
    rw [place?, h.current_eq]
    exact h.holds.finds h.chain.parent (Nat.le_refl _)
  unfold lookup?
  generalize s.place? name = found at hfinds
  cases hfinds with
  | nothing hnone => exact .inl ⟨rfl, hnone⟩
  | @place place b hb hsome hreplace => exact .inr ⟨place, b, by dsimp only; rw [hb]; rfl, hsome, hreplace⟩

theorem push (h : Refines s stack) : Refines s.push stack.push := by
  have hpos : 0 < s.arena.length := List.length_pos_iff.2 h.chain.ne_nil
  refine ⟨⟨by simp [Scopes.push], linked_append h.chain.parent ?_⟩, .inner h.holds (Scope.has_empty _)⟩
  rw [if_neg (Nat.ne_of_gt hpos), h.current_eq]

theorem pop (h : Refines s stack) : Refines s.pop stack.pop := by
  obtain ⟨arena, current⟩ := s
  obtain ⟨⟨hlast, hlinked⟩, hholds⟩ := h
  cases hholds with
  | bottom hscope =>
    obtain rfl : current = 0 := Nat.succ.inj hlast
    exact ⟨⟨hlast, hlinked⟩, .bottom hscope⟩
  | @inner arena scope vars below hbelow hscope =>
    have hpos : 0 < arena.length := List.length_pos_iff.2 hbelow.ne_nil
    obtain rfl : current = arena.length := by simpa using hlast
    have hparent : scope.parent = some (arena.length - 1) := by
      rw [hlinked arena.length scope List.getElem?_concat_length, if_neg (Nat.ne_of_gt hpos)]
    have hpop : Scopes.pop ⟨arena ++ [scope], arena.length⟩ = ⟨arena, arena.length - 1⟩ := by
      simp [Scopes.pop, Nat.ne_of_gt hpos, hparent]
    change Refines (Scopes.pop ⟨arena ++ [scope], arena.length⟩) below
    rw [hpop]
    exact ⟨⟨Nat.sub_add_cancel hpos, Linked.of_append hlinked⟩, hbelow⟩

theorem define (h : Refines s stack) (name : Text) (b : Binding) : Refines (s.define name b) (stack.define name b) := by
  refine ⟨(keeps_define s name b).isChain h.chain, ?_⟩
  have hholds := h.holds.define name b
  rw [← h.current_eq] at hholds
  exact hholds

theorem get (h : Refines s stack) (name : Token) : s.get name = stack.get name := by
  unfold Scopes.get Stack.get
  rcases h.lookup name.lexeme with ⟨hnone, hnone'⟩ | ⟨place, b, hsome, hsome', -⟩
  · rw [hnone, hnone']
  · rw [hsome, hsome']

theorem has (h : Refines s stack) (name : Text) : s.has name = (stack.lookup name).isSome := by
  unfold Scopes.has
  rcases h.lookup name with ⟨hnone, hnone'⟩ | ⟨place, b, hsome, hsome', -⟩
  · rw [hnone, hnone']
    rfl
  · rw [hsome, hsome']
    rfl

/-- An assignment gives the same value or the same fault, and changes the same
variable. -/
theorem update (h : Refines s stack) (name : Token) (convert : DataType → Except Cause Value) :
    (settle s (s.update name convert)).1 = (settle stack (stack.update name convert)).1 ∧
      Refines (settle s (s.update name convert)).2 (settle stack (stack.update name convert)).2 := by
  rcases h.lookup name.lexeme with ⟨hnone, hnone'⟩ | ⟨place, b, hsome, hsome', hreplace⟩
  · rw [Scopes.update, Stack.update, hnone, hnone']
    exact ⟨rfl, h⟩
  · cases hconvert : convert b.declared with
    | error cause =>
      rw [Scopes.update, Stack.update, hsome, hsome']
      dsimp only
      rw [hconvert]
      exact ⟨rfl, h⟩
    | ok v =>
      have hupdate : s.update name convert =
          .ok (v, { s with arena := s.arena.modify place (·.define name.lexeme { b with value := v }) }) := by
        rw [Scopes.update, hsome]
        dsimp only
        rw [hconvert]
      have hchain := (sameShape_update hupdate).keeps.isChain h.chain
      rw [hupdate, Stack.update, hsome']
      dsimp only
      rw [hconvert]
      exact ⟨rfl, hchain, hreplace v⟩

/-- One request gives the same answer, and the scopes go on refining the stack. -/
theorem perform (h : Refines s stack) (request : Request) :
    (s.perform request).1 = (stack.perform request).1 ∧
      Refines (s.perform request).2 (stack.perform request).2 := by
  cases request with
  | push => exact ⟨rfl, h.push⟩
  | pop => exact ⟨rfl, h.pop⟩
  | define name b => exact ⟨rfl, h.define name b⟩
  | get name => exact ⟨congrArg Answer.gave (h.get name), h⟩
  | assign name value => exact h.update name (Value.coerce · value)
  | input name field => exact h.update name (Value.read · field)
  | has name => exact ⟨congrArg Answer.known (h.has name), h⟩

/-- Any number of requests, by induction on them. -/
theorem performAll (h : Refines s stack) (requests : List Request) :
    (inTurn Scopes.perform s requests).1 = (inTurn Stack.perform stack requests).1 ∧
      Refines (inTurn Scopes.perform s requests).2 (inTurn Stack.perform stack requests).2 := by
  induction requests generalizing s stack with
  | nil => exact ⟨rfl, h⟩
  | cons request more ih =>
    obtain ⟨hanswer, hstep⟩ := h.perform request
    obtain ⟨hanswers, hlast⟩ := ih hstep
    refine ⟨?_, hlast⟩
    simp only [inTurn, hanswer, hanswers]

end Refines

/-- A request that fails changes nothing. -/
theorem Scopes.perform_failed {s : Scopes} {request : Request} {fault : Fault}
    (h : (s.perform request).1 = .gave (.error fault)) : (s.perform request).2 = s := by
  have hsettle : ∀ r : Except Fault (Value × Scopes), (settle s r).1 = .gave (.error fault) → (settle s r).2 = s := by
    rintro (_ | ⟨v, t⟩) hr
    · rfl
    · cases hr
  cases request with
  | push => cases h
  | pop => cases h
  | define name b => cases h
  | get name => rfl
  | assign name value => exact hsettle _ h
  | input name field => exact hsettle _ h
  | has name => rfl

/-- Whatever is asked of fresh scopes, one request after the other: the answers
are those of a stack of maps, the scopes are a chain with the variables of the
stack, and from there a request that fails changes nothing. -/
theorem Scopes.answers_like_stack (requests : List Request) :
    let after := inTurn Scopes.perform .fresh requests
    let stack := inTurn Stack.perform .fresh requests
    after.1 = stack.1 ∧ after.2.IsChain ∧ Holds after.2.arena stack.2 ∧
      ∀ request fault, (after.2.perform request).1 = .gave (.error fault) → (after.2.perform request).2 = after.2 := by
  intro after stack
  obtain ⟨hanswers, hrefines⟩ := refines_fresh.performAll requests
  exact ⟨hanswers, hrefines.chain, hrefines.holds, fun _ _ => perform_failed⟩

end BisayaPlus
