import BisayaPlus.Proofs.Fields
import BisayaPlus.Proofs.Requests
import BisayaPlus.Proofs.Targets
/-!
# DAWAT from end to end

A DAWAT can stop at five points: at a name that no scope has, without an input,
at an answer that is no line, at a line with too few or too many fields, and at
a field that is no value of its variable's type. Up to the last of them nothing
is stored, and there exactly the fields before it are.
-/

set_option autoImplicit false

namespace BisayaPlus

/-! ## Innermost variables -/

namespace Scopes

variable {s t : Scopes} {name : Text} {place : Nat}

/-- Some scope has the name. -/
def Visible (s : Scopes) (name : Text) : Prop := ∃ place b, s.bindingAt place name = some b

/-- The scope at this place has the name, and no scope inside it does. -/
structure Innermost (s : Scopes) (name : Text) (place : Nat) : Prop where
  found : ∃ b, s.bindingAt place name = some b
  inside : ∀ inner, place < inner → s.bindingAt inner name = none

theorem Innermost.unique {place' : Nat} (h : s.Innermost name place) (h' : s.Innermost name place') :
    place = place' := by
  obtain ⟨b, hb⟩ := h.found
  obtain ⟨b', hb'⟩ := h'.found
  rcases Nat.lt_trichotomy place place' with hlt | heq | hlt
  · cases hb'.symm.trans (h.inside place' hlt)
  · exact heq
  · cases hb.symm.trans (h'.inside place hlt)

/-- Where looking for a name ends that starts at a place and goes outward. -/
inductive FoundFrom (s : Scopes) (name : Text) (start : Nat) : Option Nat → Prop where
  | nowhere : (∀ place ≤ start, s.bindingAt place name = none) → FoundFrom s name start none
  | place {place : Nat} : place ≤ start → (∃ b, s.bindingAt place name = some b) →
      (∀ inner, place < inner → inner ≤ start → s.bindingAt inner name = none) → FoundFrom s name start (some place)

theorem IsChain.placeFrom_succ (hs : s.IsChain) (name : Text) {start : Nat} (hstart : start < s.arena.length)
    (bound : Nat) : placeFrom s.arena name (bound + 1) start =
      if (s.bindingAt start name).isSome then some start
      else if start = 0 then none else placeFrom s.arena name bound (start - 1) := by
  obtain ⟨scope, hscope⟩ : ∃ scope, s.arena[start]? = some scope := ⟨_, List.getElem?_eq_getElem hstart⟩
  rw [placeFrom, bindingAt, hscope]
  dsimp only [Option.bind_some]
  rw [hs.parent start scope hscope]
  split
  · rfl
  · cases start <;> rfl

/-- By induction on the place where the search starts. -/
theorem IsChain.foundFrom (hs : s.IsChain) (name : Text) {start bound : Nat} (hstart : start < s.arena.length)
    (hbound : start < bound) : FoundFrom s name start (placeFrom s.arena name bound start) := by
  induction start generalizing bound with
  | zero =>
    obtain ⟨bound, rfl⟩ := Nat.exists_eq_add_one.2 hbound
    rw [hs.placeFrom_succ name hstart]
    cases hhere : s.bindingAt 0 name with
    | some b => exact .place (Nat.le_refl _) ⟨b, hhere⟩ fun inner hlt hle => absurd hlt (Nat.not_lt.2 hle)
    | none => exact .nowhere fun place hplace => by rwa [Nat.le_zero.1 hplace]
  | succ start ih =>
    obtain ⟨bound, rfl⟩ := Nat.exists_eq_add_one.2 (Nat.zero_lt_of_lt hbound)
    rw [hs.placeFrom_succ name hstart]
    cases hhere : s.bindingAt (start + 1) name with
    | some b => exact .place (Nat.le_refl _) ⟨b, hhere⟩ fun inner hlt hle => absurd hlt (Nat.not_lt.2 hle)
    | none =>
      have houter := ih (Nat.lt_of_succ_lt hstart) (Nat.lt_of_succ_lt_succ hbound)
      change FoundFrom s name (start + 1) (placeFrom s.arena name bound start)
      generalize placeFrom s.arena name bound start = found at houter
      cases houter with
      | nowhere hnone =>
        refine .nowhere fun place hplace => ?_
        rcases Nat.lt_or_eq_of_le hplace with hlt | rfl
        · exact hnone place (Nat.le_of_lt_succ hlt)
        · exact hhere
      | place hle hfound hinside =>
        refine .place (Nat.le_succ_of_le hle) hfound fun inner hlt hle => ?_
        rcases Nat.lt_or_eq_of_le hle with hlt' | rfl
        · exact hinside inner hlt (Nat.le_of_lt_succ hlt')
        · exact hhere

/-- In a chain a name is found in the innermost scope that has it. -/
theorem IsChain.place?_cases (hs : s.IsChain) (name : Text) :
    s.place? name = none ∧ ¬ s.Visible name ∨ ∃ place, s.place? name = some place ∧ s.Innermost name place := by
  have hlast : ∀ place, s.current < place → s.bindingAt place name = none := by
    intro place hplace
    rw [bindingAt, List.getElem?_eq_none (by rw [← hs.last]; exact hplace)]
    rfl
  have hcurrent : s.current < s.arena.length := by
    rw [← hs.last]
    exact Nat.lt_succ_self _
  have hfound : FoundFrom s name s.current (s.place? name) := hs.foundFrom name hcurrent hcurrent
  generalize s.place? name = found at hfound
  cases hfound with
  | nowhere hnone =>
    refine .inl ⟨rfl, ?_⟩
    rintro ⟨place, b, hb⟩
    rcases Nat.lt_or_ge s.current place with hlt | hle
    · cases hb.symm.trans (hlast place hlt)
    · cases hb.symm.trans (hnone place hle)
  | @place place _ hb hinside =>
    refine .inr ⟨place, rfl, hb, fun inner hlt => ?_⟩
    rcases Nat.lt_or_ge s.current inner with hlt' | hle
    · exact hlast inner hlt'
    · exact hinside inner hlt hle

theorem IsChain.place?_eq_some_iff (hs : s.IsChain) : s.place? name = some place ↔ s.Innermost name place := by
  rcases hs.place?_cases name with ⟨hnone, hinvisible⟩ | ⟨found, hfound, hinnermost⟩
  · rw [hnone]
    exact ⟨fun h => (Option.some_ne_none _ h.symm).elim, fun h => absurd ⟨place, h.found⟩ hinvisible⟩
  · rw [hfound, Option.some.injEq]
    exact ⟨fun h => h ▸ hinnermost, hinnermost.unique⟩

theorem IsChain.has_iff (hs : s.IsChain) : s.has name = true ↔ s.Visible name := by
  rw [has_eq_isSome]
  rcases hs.place?_cases name with ⟨hnone, hinvisible⟩ | ⟨found, hfound, hinnermost⟩
  · simp [hnone, hinvisible]
  · simpa [hfound] using ⟨found, hinnermost.found⟩

theorem IsChain.lookup?_eq_some_iff (hs : s.IsChain) {b : Binding} :
    s.lookup? name = some (place, b) ↔ s.Innermost name place ∧ s.bindingAt place name = some b := by
  rw [Scopes.lookup?_eq_some_iff, hs.place?_eq_some_iff]

/-! ## Types of variables -/

/-- The innermost variable of the name was declared with this type. -/
def HasType (s : Scopes) (name : Text) (declared : DataType) : Prop :=
  ∃ place b, s.Innermost name place ∧ s.bindingAt place name = some b ∧ b.declared = declared

theorem IsChain.exists_hasType (hs : s.IsChain) (h : s.Visible name) : ∃ declared, s.HasType name declared := by
  rcases hs.place?_cases name with ⟨-, hinvisible⟩ | ⟨place, -, hplace⟩
  · exact absurd h hinvisible
  · obtain ⟨b, hb⟩ := hplace.found
    exact ⟨b.declared, place, b, hplace, hb, rfl⟩

theorem find?_declared (scope : Scope) (name : Text) :
    (scope.find? name).map (·.declared) = scope.signature.lookup name := by
  unfold Scope.find? Scope.signature
  induction scope.bindings with
  | nil => rfl
  | cons entry rest ih =>
    rw [List.lookup_cons, List.map_cons, List.lookup_cons]
    cases name == entry.1 with
    | true => rfl
    | false => exact ih

theorem SameShape.declared_eq (h : SameShape s t) (place : Nat) (name : Text) :
    (t.bindingAt place name).map (·.declared) = (s.bindingAt place name).map (·.declared) := by
  have hsignature : (t.arena[place]?).map Scope.signature = (s.arena[place]?).map Scope.signature := by
    rw [← List.getElem?_map, ← List.getElem?_map, h.signatures]
  have hlookup (u : Scopes) : (u.bindingAt place name).map (·.declared) =
      ((u.arena[place]?).map Scope.signature).bind (List.lookup name) := by
    unfold bindingAt
    cases u.arena[place]? with
    | none => rfl
    | some scope => exact find?_declared scope name
  rw [hlookup, hlookup, hsignature]

theorem SameShape.bindingAt_some (h : SameShape s t) {b : Binding} (hb : s.bindingAt place name = some b) :
    ∃ v, t.bindingAt place name = some { b with value := v } := by
  have hdeclared := h.declared_eq place name
  rw [hb] at hdeclared
  obtain ⟨b', hb', heq : b'.declared = b.declared⟩ := Option.map_eq_some_iff.1 hdeclared
  exact ⟨b'.value, by rw [hb', ← heq]⟩

theorem SameShape.bindingAt_none (h : SameShape s t) (hnone : s.bindingAt place name = none) :
    t.bindingAt place name = none := by
  have hdeclared := h.declared_eq place name
  rw [hnone] at hdeclared
  exact Option.map_eq_none_iff.1 hdeclared

theorem SameShape.symm (h : SameShape s t) : SameShape t s := ⟨h.current.symm, h.parents.symm, h.signatures.symm⟩

theorem SameShape.innermost (h : SameShape s t) (hs : s.Innermost name place) : t.Innermost name place := by
  obtain ⟨b, hb⟩ := hs.found
  obtain ⟨v, hv⟩ := h.bindingAt_some hb
  exact ⟨⟨_, hv⟩, fun inner hlt => h.bindingAt_none (hs.inside inner hlt)⟩

theorem SameShape.hasType {declared : DataType} (h : SameShape s t) (hs : s.HasType name declared) :
    t.HasType name declared := by
  obtain ⟨place, b, hplace, hb, rfl⟩ := hs
  obtain ⟨v, hv⟩ := h.bindingAt_some hb
  exact ⟨place, _, h.innermost hplace, hv, rfl⟩

/-! ## Fields in variables -/

/-- The last of the fields that are meant for a name. -/
def lastField? (name : Text) : List (Token × Text) → Option Text
  | [] => none
  | (token, field) :: more => (lastField? name more).or (if token.lexeme = name then some field else none)

/-- The field is a value of the type of its variable. -/
def Accepts (s : Scopes) (pair : Token × Text) : Prop :=
  ∃ declared v, s.HasType pair.1.lexeme declared ∧ Value.read? declared pair.2 = some v

theorem SameShape.accepts {pair : Token × Text} (h : SameShape s t) (hs : s.Accepts pair) : t.Accepts pair := by
  obtain ⟨declared, v, htype, hv⟩ := hs
  exact ⟨declared, v, h.hasType htype, hv⟩

/-- The second scopes are the first ones with fields stored under names: each
innermost variable has the value of the last field for its name, and any other
variable is unchanged. -/
structure Stored (s : Scopes) (pairs : List (Token × Text)) (t : Scopes) : Prop where
  shape : SameShape s t
  values : ∀ place name b field, s.Innermost name place → s.bindingAt place name = some b →
    lastField? name pairs = some field →
    ∃ v, Value.read? b.declared field = some v ∧ t.bindingAt place name = some { b with value := v }
  others : ∀ place name, ¬ (s.Innermost name place ∧ (lastField? name pairs).isSome) →
    t.bindingAt place name = s.bindingAt place name

theorem Stored.nil (s : Scopes) : Stored s [] s where
  shape := .refl s
  values _ _ _ _ _ _ h := by cases h
  others _ _ _ := rfl

/-- A field that is a value of the variable's type is stored there, and nothing
else changes. -/
theorem assignInput_ok (hs : s.IsChain) {token : Token} {b : Binding} {field : Text} {v : Value}
    (hplace : s.Innermost token.lexeme place) (hb : s.bindingAt place token.lexeme = some b)
    (hv : Value.read? b.declared field = some v) :
    ∃ t, s.assignInput token field = .ok (v, t) ∧ SameShape s t ∧
      t.bindingAt place token.lexeme = some { b with value := v } ∧
      ∀ place' name, ¬ (place' = place ∧ name = token.lexeme) → t.bindingAt place' name = s.bindingAt place' name := by
  have hlookup := hs.lookup?_eq_some_iff.2 ⟨hplace, hb⟩
  obtain ⟨scope, hscope, -⟩ := lookup?_some hlookup
  have hassign : s.assignInput token field =
      .ok (v, { s with arena := s.arena.modify place (·.define token.lexeme { b with value := v }) }) := by
    rw [assignInput, update, hlookup]
    dsimp only
    rw [Value.read, hv]
  refine ⟨_, hassign, sameShape_update hassign, ?_, fun place' name hne => ?_⟩
  · rw [bindingAt_modify, if_pos ⟨rfl, rfl⟩, hscope]
    rfl
  · rw [bindingAt_modify, if_neg fun h => hne ⟨h.1.symm, h.2⟩]

theorem assignInput_error (hs : s.IsChain) {token : Token} {declared : DataType} {field : Text}
    (htype : s.HasType token.lexeme declared) (hv : Value.read? declared field = none) :
    s.assignInput token field = .error ⟨token, .unreadable declared field⟩ := by
  obtain ⟨place, b, hplace, hb, rfl⟩ := htype
  rw [assignInput, update, hs.lookup?_eq_some_iff.2 ⟨hplace, hb⟩]
  dsimp only
  rw [Value.read, hv]

/-- One field more, in front of the others: it is the value of its variable
unless there is a later one. -/
theorem Stored.cons {u : Scopes} {token : Token} {b : Binding} {field : Text} {v : Value}
    {pairs : List (Token × Text)} (hplace : s.Innermost token.lexeme place)
    (hb : s.bindingAt place token.lexeme = some b) (hv : Value.read? b.declared field = some v)
    (hshape : SameShape s t) (hafter : t.bindingAt place token.lexeme = some { b with value := v })
    (hothers : ∀ place' name, ¬ (place' = place ∧ name = token.lexeme) →
      t.bindingAt place' name = s.bindingAt place' name)
    (hmore : Stored t pairs u) : Stored s ((token, field) :: pairs) u where
  shape := hshape.trans hmore.shape
  values := by
    intro place' name b' field' hplace' hb' hlast
    cases hlater : lastField? name pairs with
    | some later =>
      obtain rfl : later = field' := by simpa [lastField?, hlater] using hlast
      obtain ⟨old, hold⟩ := hshape.bindingAt_some hb'
      obtain ⟨w, hw, hstored⟩ := hmore.values place' name _ later (hshape.innermost hplace') hold hlater
      exact ⟨w, hw, hstored⟩
    | none =>
      have hunchanged := hmore.others place' name (by simp [hlater])
      obtain ⟨rfl, rfl⟩ : token.lexeme = name ∧ field = field' := by simpa [lastField?, hlater] using hlast
      obtain rfl := hplace'.unique hplace
      obtain rfl := Option.some.inj (hb'.symm.trans hb)
      exact ⟨v, hv, hunchanged.trans hafter⟩
  others := by
    intro place' name hne
    have hkept : ¬ (place' = place ∧ name = token.lexeme) := by
      rintro ⟨rfl, rfl⟩
      exact hne ⟨hplace, by simp [lastField?]⟩
    rw [← hothers place' name hkept]
    apply hmore.others
    rintro ⟨hinnermost, hlater⟩
    exact hne ⟨hshape.symm.innermost hinnermost, by simp [lastField?, hlater]⟩

end Scopes

/-! ## The run of a DAWAT -/

open Execution Scopes

variable {watchers : Watchers} {rounds : Nat} {m : Machine}

/-- Fields that are values of their variables' types are stored from left to
right, by induction on them, and the run goes on with what follows. -/
theorem run_store_accepted {pairs : List (Token × Text)} (hm : m.scopes.IsChain)
    (haccepts : ∀ pair ∈ pairs, m.scopes.Accepts pair) (rest : List (Token × Text)) :
    ∃ t, store (pairs ++ rest) m = store rest { m with scopes := t } ∧ Stored m.scopes pairs t := by
  induction pairs generalizing m with
  | nil => exact ⟨m.scopes, rfl, .nil _⟩
  | cons pair more ih =>
    obtain ⟨token, field⟩ := pair
    obtain ⟨⟨declared, v, ⟨place, b, hplace, hb, rfl⟩, hv⟩, hmore⟩ := List.forall_mem_cons.1 haccepts
    obtain ⟨s, hassign, hshape, hafter, hothers⟩ := assignInput_ok hm hplace hb hv
    obtain ⟨t, hrun, hstored⟩ := @ih { m with scopes := s } (hshape.keeps.isChain hm)
      fun pair hpair => hshape.accepts (hmore pair hpair)
    refine ⟨t, ?_, hstored.cons hplace hb hv hshape hafter hothers⟩
    rw [List.cons_append, store, run_get, hassign]
    exact hrun

theorem run_store_refused {name : Token} {field : Text} {declared : DataType} (hm : m.scopes.IsChain)
    (htype : m.scopes.HasType name.lexeme declared) (hv : Value.read? declared field = none)
    (rest : List (Token × Text)) :
    store ((name, field) :: rest) m = (.error (.fault ⟨name, .unreadable declared field⟩), m) := by
  rw [store, run_get, assignInput_error hm htype hv]
  rfl

/-- The first name that means nothing stops the run. -/
theorem run_requireAll_first {before : List Token} {name : Token}
    (hbefore : ∀ n ∈ before, m.scopes.has n.lexeme = true) (hname : m.scopes.has name.lexeme = false)
    (after : List Token) :
    requireAll (before ++ name :: after) m = (.error (.fault ⟨name, .undefinedVariable name.lexeme⟩), m) := by
  induction before with
  | nil =>
    rw [List.nil_append, requireAll, run_bind, run_require, hname]
    rfl
  | cons first before ih =>
    obtain ⟨hfirst, hmore⟩ := List.forall_mem_cons.1 hbefore
    rw [List.cons_append, requireAll, run_bind, run_require, hfirst]
    exact ih hmore

/-- The machine after it was given the next answer of the input. -/
def Machine.asked (m : Machine) : Machine :=
  { m with replies := m.replies.tail, shown := answerEvent (nextReply m.replies) :: m.shown }

section Receive

variable (keyword : Token) {names : List Token}

theorem run_receive_undefined {before : List Token} {name : Token}
    (hbefore : ∀ n ∈ before, m.scopes.has n.lexeme = true) (hname : m.scopes.has name.lexeme = false)
    (after : List Token) : receive watchers keyword (before ++ name :: after) m =
      (.error (.fault ⟨name, .undefinedVariable name.lexeme⟩), m) := by
  rw [receive, run_bind, run_requireAll_first hbefore hname]

theorem run_receive_absent (hreader : watchers.reader = false)
    (hnames : ∀ name ∈ names, m.scopes.has name.lexeme = true) :
    receive watchers keyword names m = (.error (.fault ⟨keyword, .inputAbsent⟩), m) := by
  rw [receive, run_bind, run_requireAll_declared hnames]
  dsimp only
  rw [run_bind, run_request_absent hreader]

variable (hreader : watchers.reader = true) (hnames : ∀ name ∈ names, m.scopes.has name.lexeme = true)

include hreader hnames

theorem run_receive_failed {reason : Text} (hreply : nextReply m.replies = .failure reason) :
    receive watchers keyword names m = (.error (.fault ⟨keyword, .inputFailed reason⟩), m.asked) := by
  rw [receive, run_bind, run_requireAll_declared hnames]
  dsimp only
  rw [run_bind, run_request hreader, ← Machine.asked, hreply]
  rfl

theorem run_receive_line {line : Text} {fields : List Text} (hreply : nextReply m.replies = .line line)
    (hfields : Text.pieces (Text.byte ',') line = fields) :
    receive watchers keyword names m =
      if fields.length = names.length then store (names.zip (fields.map Text.trim)) m.asked
      else (.error (.fault ⟨keyword, .inputCount names.length fields.length⟩), m.asked) := by
  rw [receive, run_bind, run_requireAll_declared hnames]
  dsimp only
  rw [run_bind, run_request hreader, ← Machine.asked, hreply]
  dsimp only [answered]
  rw [hfields, List.length_map]
  split <;> rfl

end Receive

theorem run_dawat_ok {keyword : Token} {names : List Token} {m' : Machine}
    (h : receive watchers keyword names (announced watchers (.dawat keyword names) m) = (.ok ⟨⟩, m')) :
    (Stmt.dawat keyword names).execute watchers rounds m = (.ok .normal, m') := by
  rw [Stmt.execute, run_bind, run_announced]
  dsimp only
  rw [run_bind, h]
  rfl

theorem run_dawat_error {keyword : Token} {names : List Token} {stop : Stop} {m' : Machine}
    (h : receive watchers keyword names (announced watchers (.dawat keyword names) m) = (.error stop, m')) :
    (Stmt.dawat keyword names).execute watchers rounds m = (.error stop, m') := by
  rw [Stmt.execute, run_bind, run_announced]
  dsimp only
  rw [run_bind, h]

/-- A DAWAT from end to end. If some name is in no scope, it fails at the first
such name, and nothing is read or stored. Otherwise it gets one answer. One that
is no line, or a line with another number of fields than there are names, fails
at the keyword, and nothing is stored. Else the trimmed fields are stored from
left to right as values of the types of their innermost variables; at the first
that is no such value it fails at its name, with the fields before it stored and
every other variable as it was. -/
theorem dawat_from_end_to_end (watchers : Watchers) (rounds : Nat) (keyword : Token) (names : List Token) (m : Machine)
    (hm : m.scopes.IsChain) :
    let run := (Stmt.dawat keyword names).execute watchers rounds m
    let start := announced watchers (.dawat keyword names) m
    let asked := start.asked
    (start.scopes = m.scopes ∧ start.replies = m.replies ∧ start.answers = m.answers) ∧
    (asked.scopes = m.scopes ∧ asked.replies = m.replies.tail ∧ asked.answers = m.answers ++ [nextReply m.replies]) ∧
    (∀ before name after, names = before ++ name :: after → (∀ n ∈ before, m.scopes.Visible n.lexeme) →
      ¬ m.scopes.Visible name.lexeme → run = (.error (.fault ⟨name, .undefinedVariable name.lexeme⟩), start)) ∧
    ((∀ name ∈ names, m.scopes.Visible name.lexeme) →
      (watchers.reader = false → run = (.error (.fault ⟨keyword, .inputAbsent⟩), start)) ∧
      (watchers.reader = true →
        (∀ reason, nextReply m.replies = .failure reason →
          run = (.error (.fault ⟨keyword, .inputFailed reason⟩), asked)) ∧
        ∀ line, nextReply m.replies = .line line → ∃ fields, Text.Separated (Text.byte ',') line fields ∧
          (fields.length ≠ names.length →
            run = (.error (.fault ⟨keyword, .inputCount names.length fields.length⟩), asked)) ∧
          (fields.length = names.length →
            ((∀ pair ∈ names.zip (fields.map Text.trim), m.scopes.Accepts pair) →
              ∃ t, run = (.ok .normal, { asked with scopes := t }) ∧
                Stored m.scopes (names.zip (fields.map Text.trim)) t) ∧
            ∀ before name field after, names.zip (fields.map Text.trim) = before ++ (name, field) :: after →
              (∀ pair ∈ before, m.scopes.Accepts pair) → ¬ m.scopes.Accepts (name, field) →
              ∃ declared t, m.scopes.HasType name.lexeme declared ∧
                run = (.error (.fault ⟨name, .unreadable declared field⟩), { asked with scopes := t }) ∧
                Stored m.scopes before t))) := by
  intro run start asked
  have hscopes : start.scopes = m.scopes := announced_scopes _ m
  have hreplies : start.replies = m.replies := announced_replies _ m
  have hanswers : start.answers = m.answers := answers_announced _ m
  have hasked : asked.answers = start.answers ++ [nextReply start.replies] := by
    rw [answers_of_shown (m := start) rfl, answer?_answerEvent]
    rfl
  rw [← hscopes] at hm ⊢
  rw [← hreplies, ← hanswers]
  refine ⟨⟨rfl, rfl, rfl⟩, ⟨rfl, rfl, hasked⟩, ?_, fun hvisible => ?_⟩
  · rintro before name after rfl hbefore hname
    have hmissing : start.scopes.has name.lexeme = false := Bool.eq_false_iff.2 fun h => hname (hm.has_iff.1 h)
    exact run_dawat_error (run_receive_undefined keyword (fun n hn => hm.has_iff.2 (hbefore n hn)) hmissing after)
  · have hnames : ∀ name ∈ names, start.scopes.has name.lexeme = true := fun name hn => hm.has_iff.2 (hvisible name hn)
    refine ⟨fun hreader => run_dawat_error (run_receive_absent keyword hreader hnames), fun hreader => ⟨?_, ?_⟩⟩
    · exact fun reason hreply => run_dawat_error (run_receive_failed keyword hreader hnames hreply)
    · intro line hreply
      have hreceive := run_receive_line keyword hreader hnames hreply rfl
      refine ⟨_, Text.separated_pieces _ line, fun hcount => ?_, fun hcount => ⟨fun haccepts => ?_, ?_⟩⟩
      · rw [if_neg hcount] at hreceive
        exact run_dawat_error hreceive
      · rw [if_pos hcount] at hreceive
        obtain ⟨t, hstore, hstored⟩ := run_store_accepted (m := asked) hm haccepts []
        rw [List.append_nil] at hstore
        exact ⟨t, run_dawat_ok (hreceive.trans hstore), hstored⟩
      · intro before name field after hpairs hbefore hrefused
        rw [if_pos hcount, hpairs] at hreceive
        have hname : name ∈ names := (List.of_mem_zip (hpairs ▸ List.mem_append_right before List.mem_cons_self)).1
        obtain ⟨declared, htype⟩ := hm.exists_hasType (hvisible name hname)
        obtain ⟨t, hstore, hstored⟩ := run_store_accepted (m := asked) hm hbefore ((name, field) :: after)
        refine ⟨declared, t, htype, run_dawat_error (hreceive.trans (hstore.trans ?_)), hstored⟩
        refine run_store_refused (hstored.shape.keeps.isChain hm) (hstored.shape.hasType htype) ?_ after
        exact Option.eq_none_iff_forall_ne_some.2 fun v hv => hrefused ⟨declared, v, htype, hv⟩

/-- An inner variable hides an outer one of another type, and the second of three
fields is no character. The first field is stored in the inner variable. -/
theorem dawat_from_end_to_end_hidden :
    let token (kind : Kind) (lexeme : Text) : Token := { kind := kind, lexeme := lexeme, line := 1 }
    let x := token .identifier "x"
    let c := token .identifier "c"
    let scopes : Scopes := {
      arena := [{ bindings := [("x", ⟨.tipik, .null⟩), ("c", ⟨.letra, .null⟩)] },
        { parent := some 0, bindings := [("x", ⟨.numero, .null⟩)] }], current := 1 }
    let m : Machine := { scopes := scopes, replies := [.line " 1 ,ab, 2"], prints := 0, shown := [] }
    scopes.IsChain ∧ ∃ t,
      (Stmt.dawat (token .dawat "DAWAT") [x, c, x]).execute {} 1 m =
        (.error (.fault ⟨c, .unreadable .letra "ab"⟩), { m.asked with scopes := t }) ∧
      Stored scopes [(x, "1")] t ∧ t.bindingAt 1 "x" = some ⟨.numero, .numero 1⟩ ∧
      t.bindingAt 0 "x" = some ⟨.tipik, .null⟩ := by
  intro token x c scopes m
  have hchain : scopes.IsChain := by
    refine ⟨rfl, fun i scope hscope => ?_⟩
    obtain ⟨hi, rfl⟩ := List.getElem?_eq_some_iff.1 hscope
    obtain rfl | rfl : i = 0 ∨ i = 1 := by simp [scopes] at hi; omega
    all_goals rfl
  have hx : scopes.Innermost "x" 1 := hchain.place?_eq_some_iff.1 (by decide)
  have hc : scopes.Innermost "c" 0 := hchain.place?_eq_some_iff.1 (by decide)
  have hvisible : ∀ name ∈ [x, c, x], scopes.Visible name.lexeme := by
    simp only [List.forall_mem_cons, List.not_mem_nil, false_implies, implies_true, and_true]
    exact ⟨⟨1, hx.found⟩, ⟨0, hc.found⟩, ⟨1, hx.found⟩⟩
  obtain ⟨-, -, -, hnamed⟩ := dawat_from_end_to_end {} 1 (token .dawat "DAWAT") [x, c, x] m hchain
  obtain ⟨fields, hfields, -, hcounted⟩ := ((hnamed hvisible).2 rfl).2 _ rfl
  obtain rfl : fields = ([" 1 ", "ab", " 2"] : List Text) := hfields.eq_pieces.trans (by decide)
  have hpairs : [x, c, x].zip (([" 1 ", "ab", " 2"] : List Text).map Text.trim) =
      [(x, ("1" : Text))] ++ (c, ("ab" : Text)) :: [(x, ("2" : Text))] := by
    decide +kernel
  have haccepted : scopes.Accepts (x, ("1" : Text)) := ⟨.numero, .numero 1, ⟨1, _, hx, rfl, rfl⟩, by decide⟩
  have hrefused : ¬ scopes.Accepts (c, ("ab" : Text)) := by
    rintro ⟨declared, v, ⟨place, b, hplace, hb, rfl⟩, hv⟩
    obtain rfl := hplace.unique hc
    obtain rfl := Option.some.inj hb
    have hnone : Value.read? .letra "ab" = none := by decide +kernel
    cases hnone.symm.trans hv
  obtain ⟨declared, t, ⟨place, b, hplace, hb, rfl⟩, hrun, hstored⟩ := (hcounted rfl).2 _ _ _ _ hpairs
    (by simpa using haccepted) hrefused
  obtain rfl := hplace.unique hc
  obtain rfl := Option.some.inj hb
  refine ⟨hchain, t, hrun, hstored, ?_, ?_⟩
  · obtain ⟨v, hv, hvalue⟩ := hstored.values 1 "x" ⟨.numero, .null⟩ "1" hx rfl rfl
    obtain rfl : Value.numero 1 = v := Option.some.inj hv
    exact hvalue
  · exact hstored.others 0 "x" fun h => absurd (h.1.unique hx) (by decide)

end BisayaPlus
