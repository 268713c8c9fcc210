import BisayaPlus.Tree.Statement
import BisayaPlus.Proofs.Changes
/-!
# Scopes are left as they were found

However a statement ends, the scopes stand as before it: as many, with the same
parents, and the same one current. Only the current scope may have gained
names, and a block leaves even that one as it was.
-/

set_option autoImplicit false

namespace BisayaPlus

/-! ## Names and types of a scope -/

namespace Scope

/-- The names of a scope with the types they were declared with. -/
def signature (s : Scope) : List (Text × DataType) := s.bindings.map fun entry => (entry.1, entry.2.declared)

/-- The names of a scope. -/
def names (s : Scope) : List Text := s.bindings.map (·.1)

theorem names_eq (s : Scope) : s.names = s.signature.map (·.1) := by
  simp [names, signature]

/-- A new value for a variable changes neither names nor types. -/
theorem signature_put {name : Text} {b : Binding} (v : Value) {bindings : List (Text × Binding)}
    (h : bindings.lookup name = some b) :
    (put name { b with value := v } bindings).map (fun entry => (entry.1, entry.2.declared)) =
      bindings.map fun entry => (entry.1, entry.2.declared) := by
  induction bindings with
  | nil => cases h
  | cons entry rest ih =>
    obtain ⟨other, old⟩ := entry
    rw [put]
    by_cases hn : other = name
    · subst hn
      obtain rfl : old = b := by simpa using h
      simp
    · rw [if_neg hn, List.map_cons, List.map_cons, ih]
      rw [List.lookup_cons, beq_false_of_ne (Ne.symm hn)] at h
      exact h

theorem signature_define {s : Scope} {name : Text} {b : Binding} (v : Value) (h : s.find? name = some b) :
    (s.define name { b with value := v }).signature = s.signature :=
  signature_put v h

theorem subset_names_put (name : Text) (b : Binding) (bindings : List (Text × Binding)) :
    bindings.map (·.1) ⊆ (put name b bindings).map (·.1) := by
  induction bindings with
  | nil => exact List.nil_subset _
  | cons entry rest ih =>
    obtain ⟨other, old⟩ := entry
    rw [put]
    split
    · next hn =>
      subst hn
      exact List.Subset.refl _
    · exact List.cons_subset_cons other ih

theorem subset_names_define (s : Scope) (name : Text) (b : Binding) : s.names ⊆ (s.define name b).names :=
  subset_names_put name b s.bindings

theorem lookup_put (name other : Text) (b : Binding) (bindings : List (Text × Binding)) :
    (put name b bindings).lookup other = if other = name then some b else bindings.lookup other := by
  induction bindings with
  | nil =>
    by_cases h : other = name
    · simp [put, h]
    · simp [put, List.lookup_cons, beq_false_of_ne h, h]
  | cons entry rest ih =>
    obtain ⟨first, old⟩ := entry
    rw [put]
    by_cases h : other = first
    · subst h
      by_cases hn : other = name <;> simp [hn]
    · have hb : (other == first) = false := beq_false_of_ne h
      split
      · next hn => simp [List.lookup_cons, ← hn, hb, h]
      · simp [List.lookup_cons, hb, ih]

theorem find?_define (s : Scope) (name other : Text) (b : Binding) :
    (s.define name b).find? other = if other = name then some b else s.find? other :=
  lookup_put name other b s.bindings

end Scope

namespace Scopes

/-! ## Scopes of the same shape -/

/-- The same scope is current, and each has the same parent, names and types. -/
structure SameShape (s t : Scopes) : Prop where
  current : t.current = s.current
  parents : t.arena.map (·.parent) = s.arena.map (·.parent)
  signatures : t.arena.map (·.signature) = s.arena.map (·.signature)

/-- A change of one scope that keeps its parent and signature keeps the shape. -/
theorem map_modify_eq {α β : Type} (g : α → β) (f : α → α) (l : List α) (i : Nat)
    (h : ∀ a, l[i]? = some a → g (f a) = g a) : (l.modify i f).map g = l.map g := by
  apply List.ext_getElem?
  intro j
  simp only [List.getElem?_map, List.getElem?_modify]
  by_cases hij : i = j
  · subst hij
    cases hl : l[i]? with
    | none => rfl
    | some a => simp [h a hl]
  · simp [hij]

theorem sameShape_update {s t : Scopes} {name : Token} {convert : DataType → Except Cause Value} {v : Value}
    (h : s.update name convert = .ok (v, t)) : SameShape s t := by
  obtain ⟨place, b, hb, -, rfl⟩ := update_ok h
  obtain ⟨scope, hscope, hfind⟩ := lookup?_some hb
  refine ⟨rfl, map_modify_eq _ _ _ _ fun _ _ => rfl, map_modify_eq _ _ _ _ fun found hfound => ?_⟩
  rw [hscope] at hfound
  obtain rfl := Option.some.inj hfound
  exact Scope.signature_define v hfind

/-- The same scope is current, the scopes have the same parents, all but the
current one have the same names and types, and that one has lost no name. -/
structure Keeps (s t : Scopes) : Prop where
  current : t.current = s.current
  parents : t.arena.map (·.parent) = s.arena.map (·.parent)
  others : ∀ i, i ≠ s.current → (t.arena[i]?).map (·.signature) = (s.arena[i]?).map (·.signature)
  names : ∀ scope, s.arena[s.current]? = some scope →
    ∃ scope', t.arena[s.current]? = some scope' ∧ scope.names ⊆ scope'.names

theorem SameShape.keeps {s t : Scopes} (h : SameShape s t) : Keeps s t := by
  have hat : ∀ i : Nat, (t.arena[i]?).map Scope.signature = (s.arena[i]?).map Scope.signature := by
    intro i
    rw [← List.getElem?_map, ← List.getElem?_map, h.signatures]
  refine ⟨h.current, h.parents, fun i _ => hat i, fun scope hscope => ?_⟩
  have hs := hat s.current
  rw [hscope] at hs
  obtain ⟨scope', hscope', hsig⟩ := Option.map_eq_some_iff.1 hs
  refine ⟨scope', hscope', ?_⟩
  rw [Scope.names_eq, Scope.names_eq, hsig]
  exact List.Subset.refl _

theorem Keeps.refl (s : Scopes) : Keeps s s := SameShape.keeps ⟨rfl, rfl, rfl⟩

theorem Keeps.trans {s t u : Scopes} (h : Keeps s t) (h' : Keeps t u) : Keeps s u := by
  refine ⟨h'.current.trans h.current, h'.parents.trans h.parents, fun i hi => ?_, fun scope hscope => ?_⟩
  · exact (h'.others i (by rwa [h.current])).trans (h.others i hi)
  · obtain ⟨scope', hscope', hsub⟩ := h.names scope hscope
    rw [← h.current] at hscope'
    obtain ⟨scope'', hscope'', hsub'⟩ := h'.names scope' hscope'
    rw [h.current] at hscope''
    exact ⟨scope'', hscope'', List.Subset.trans hsub hsub'⟩

theorem keeps_define (s : Scopes) (name : Text) (b : Binding) : Keeps s (s.define name b) := by
  refine ⟨rfl, map_modify_eq _ _ _ _ fun _ _ => rfl, fun i hi => ?_, fun scope hscope => ?_⟩
  · simp only [define, List.getElem?_modify, if_neg (Ne.symm hi), id_map']
  · refine ⟨scope.define name b, ?_, scope.subset_names_define name b⟩
    simp [define, hscope]

/-! ## Blocks -/

/-- A scope that is opened and closed again leaves no trace. -/
theorem sameShape_block {s t : Scopes} (hs : s.arena ≠ []) (h : Keeps s.push t) : SameShape s t.pop := by
  have hcurrent : t.current = s.arena.length := h.current
  have hparents : t.arena.map (·.parent) = s.arena.map (·.parent) ++ [some s.current] := by
    rw [h.parents]
    simp [push]
  have hopen : t.current ≠ 0 := by
    rw [hcurrent]
    exact Nat.ne_of_gt (List.length_pos_iff.2 hs)
  -- the scope that was opened is still the last one, inside the one that was current
  have hinner : (t.arena[s.arena.length]?).map (·.parent) = some (some s.current) := by
    rw [← List.getElem?_map, hparents]
    simp
  obtain ⟨scope, hscope, hparent⟩ := Option.map_eq_some_iff.1 hinner
  rw [pop, if_neg hopen, hcurrent, hscope]
  refine ⟨by simp [hparent], ?_, ?_⟩
  · rw [List.map_take, hparents]
    simp
  · apply List.ext_getElem?
    intro i
    rw [List.getElem?_map, List.getElem?_map]
    rcases Nat.lt_or_ge i s.arena.length with hi | hi
    · rw [List.getElem?_take_of_lt hi, h.others i (Nat.ne_of_lt hi), push, List.getElem?_append_left hi]
    · rw [List.getElem?_take_eq_none hi, List.getElem?_eq_none hi]

theorem Keeps.ne_nil {s t : Scopes} (h : Keeps s t) (hs : s.arena ≠ []) : t.arena ≠ [] := by
  intro ht
  have hp := h.parents
  rw [ht] at hp
  exact hs (List.map_eq_nil_iff.1 hp.symm)

/-! ## Chains -/

/-- Each scope stands right behind the one around it, and the last one is current. -/
structure IsChain (s : Scopes) : Prop where
  last : s.current + 1 = s.arena.length
  parent : ∀ i scope, s.arena[i]? = some scope → scope.parent = if i = 0 then none else some (i - 1)

theorem IsChain.ne_nil {s : Scopes} (h : s.IsChain) : s.arena ≠ [] := by
  intro hs
  have hl := h.last
  rw [hs] at hl
  cases hl

theorem Keeps.isChain {s t : Scopes} (h : Keeps s t) (hs : s.IsChain) : t.IsChain := by
  have hlength : t.arena.length = s.arena.length := by simpa using congrArg List.length h.parents
  refine ⟨by rw [h.current, hlength, hs.last], fun i scope hscope => ?_⟩
  have hparent : (s.arena[i]?).map (·.parent) = some scope.parent := by
    rw [← List.getElem?_map, ← h.parents, List.getElem?_map, hscope]
    rfl
  obtain ⟨scope', hscope', heq⟩ := Option.map_eq_some_iff.1 hparent
  rw [← heq]
  exact hs.parent i scope' hscope'

/-! ## What is visible -/

theorem isSome_find? (scope : Scope) (name : Text) : (scope.find? name).isSome = scope.names.contains name := by
  unfold Scope.find? Scope.names
  induction scope.bindings with
  | nil => rfl
  | cons entry rest ih =>
    rw [List.lookup_cons, List.map_cons, List.contains_cons]
    cases name == entry.1 with
    | true => rfl
    | false => simpa using ih

theorem placeFrom_congr {arena arena' : List Scope} (name : Text)
    (hp : arena'.map (·.parent) = arena.map (·.parent))
    (hs : arena'.map (·.signature) = arena.map (·.signature)) (bound : Nat) :
    ∀ place, placeFrom arena' name bound place = placeFrom arena name bound place := by
  induction bound with
  | zero => exact fun _ => rfl
  | succ bound ih =>
    intro place
    have hparent : (arena'[place]?).map Scope.parent = (arena[place]?).map Scope.parent := by
      rw [← List.getElem?_map, ← List.getElem?_map, hp]
    have hsignature : (arena'[place]?).map Scope.signature = (arena[place]?).map Scope.signature := by
      rw [← List.getElem?_map, ← List.getElem?_map, hs]
    rw [placeFrom, placeFrom]
    cases h : arena[place]? with
    | none =>
      rw [h] at hparent
      rw [Option.map_eq_none_iff.1 hparent]
    | some scope =>
      rw [h] at hparent hsignature
      obtain ⟨scope', h', hparent'⟩ := Option.map_eq_some_iff.1 hparent
      rw [h'] at hsignature
      have hnames : scope'.names = scope.names := by
        rw [Scope.names_eq, Scope.names_eq, Option.some.inj hsignature]
      rw [h']
      simp only [isSome_find?, hnames, hparent', ih]

theorem isSome_of_placeFrom {arena : List Scope} {name : Text} (bound : Nat) :
    ∀ {start place : Nat}, placeFrom arena name bound start = some place →
      ((arena[place]?).bind (·.find? name)).isSome = true := by
  induction bound with
  | zero => intro _ _ h; cases h
  | succ bound ih =>
    intro start place h
    rw [placeFrom] at h
    split at h
    · cases h
    · next scope hscope =>
      split at h
      · next hfound =>
        obtain rfl := Option.some.inj h
        rwa [hscope]
      · split at h
        · cases h
        · exact ih h

theorem has_eq_isSome (s : Scopes) (name : Text) : s.has name = (s.place? name).isSome := by
  unfold has lookup?
  cases h : s.place? name with
  | none => rfl
  | some place => exact Option.isSome_map.trans (isSome_of_placeFrom _ h)

/-- Scopes of the same shape make the same names visible. -/
theorem SameShape.has_eq {s t : Scopes} (h : SameShape s t) (name : Text) : t.has name = s.has name := by
  have hlength : t.arena.length = s.arena.length := by simpa using congrArg List.length h.parents
  rw [has_eq_isSome, has_eq_isSome, place?, place?, h.current, hlength]
  rw [placeFrom_congr name h.parents h.signatures]

end Scopes

open Scopes

/-- By induction on the changes: each of them keeps the scopes, and a block
leaves the shape of the scopes it was opened in. -/
theorem Changes.keeps {s t : Scopes} (h : Changes s t) (hs : s.arena ≠ []) : Keeps s t := by
  induction h with
  | refl s => exact .refl s
  | assign _ ha ih => exact (ih hs).trans (sameShape_update ha).keeps
  | input _ ha ih => exact (ih hs).trans (sameShape_update ha).keeps
  | define _ _ ih => exact (ih hs).trans (keeps_define _ _ _)
  | block _ _ ih ihb =>
    have hk := ih hs
    exact hk.trans (sameShape_block (hk.ne_nil hs) (ihb (by simp [push]))).keeps

/-! ## Statements -/

namespace Stmt

/-- The statements that open a scope of their own: PUNDOK, and a counted loop
with a first part. -/
inductive IsBlock : Stmt → Prop where
  | pundok (body : List Stmt) : IsBlock (.pundok body)
  | counted (keyword : Token) (first : Stmt) (condition increment : Option Expr) (body : Stmt) :
      IsBlock (countedLoop keyword (some first) condition increment body)

theorem sameShape_pundok (watchers : Watchers) (rounds : Nat) (body : List Stmt) (m : Machine)
    (hm : m.scopes.arena ≠ []) :
    SameShape m.scopes ((Stmt.pundok body).execute watchers rounds m).2.scopes := by
  obtain ⟨shown, hannounce⟩ := Execution.run_announce watchers (.pundok body) m
  have hbody := changing_executeAll watchers rounds body { m with scopes := m.scopes.push, shown := shown }
  rw [Stmt.execute, Execution.run_bind, hannounce]
  exact sameShape_block hm (hbody.keeps (by simp [push]))

/-- However a statement ends, the scopes are a chain again, with the same
parents and the same one current. Only the current scope may have gained names;
after a block it has not, and what is visible is what was visible before. -/
theorem execute_keeps_scopes (watchers : Watchers) (rounds : Nat) (s : Stmt) (m : Machine) (hm : m.scopes.IsChain) :
    let after := (s.execute watchers rounds m).2.scopes
    after.IsChain ∧ Keeps m.scopes after ∧
      (s.IsBlock → SameShape m.scopes after ∧ ∀ name, after.has name = m.scopes.has name) := by
  have hkeeps := (s.changing_execute watchers rounds m).keeps hm.ne_nil
  refine ⟨hkeeps.isChain hm, hkeeps, fun hb => ?_⟩
  have hshape : SameShape m.scopes (s.execute watchers rounds m).2.scopes := by
    cases hb with
    | pundok body => exact sameShape_pundok watchers rounds body m hm.ne_nil
    | counted keyword first condition increment body =>
      exact sameShape_pundok watchers rounds [first, _] m hm.ne_nil
  exact ⟨hshape, hshape.has_eq⟩

/-- A block that declares a name and is left by a jump. -/
theorem execute_keeps_scopes_jump :
    let t (k : Kind) : Token := { kind := k, lexeme := [], line := 1 }
    let block : Stmt := .pundok [.mugna (t .mugna) .numero [(t .identifier, none)], .hunong (t .hunong)]
    let m := Machine.fresh []
    m.scopes.IsChain ∧ (block.execute {} 0 m).1 = .ok .hunong ∧
      SameShape m.scopes (block.execute {} 0 m).2.scopes ∧ (block.execute {} 0 m).2.scopes.has [] = false := by
  intro t block m
  have hm : m.scopes.IsChain := by
    refine ⟨rfl, fun i scope hscope => ?_⟩
    obtain ⟨hi, rfl⟩ := List.getElem?_eq_some_iff.1 hscope
    obtain rfl : i = 0 := Nat.lt_one_iff.1 hi
    rfl
  obtain ⟨-, -, hblock⟩ := execute_keeps_scopes {} 0 block m hm
  obtain ⟨hshape, hvisible⟩ := hblock (.pundok _)
  exact ⟨hm, rfl, hshape, hvisible []⟩

end Stmt

end BisayaPlus
