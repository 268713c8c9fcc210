import BisayaPlus.Proofs.CorrespondingRuns
import BisayaPlus.Proofs.Relocation
/-!
# Runs do not show offsets

A run of statements whose tokens stand elsewhere goes through the same machines
and ends in the same way, with the token of its fault elsewhere too. A report
names the line and the lexeme of a token and not its offset, so a program whose
tokens are moved gives the same result.
-/

set_option autoImplicit false

namespace BisayaPlus

open Correspondence Execution

variable (shift : Nat → Nat)

/-! ## Moved trees correspond -/

theorem Token.same_moved (t : Token) : t.Same (t.moved shift) := ⟨rfl, rfl, rfl, rfl⟩

theorem Expr.offsets_moved (e : Expr) : offsets.Exprs e (e.moved shift) := by
  induction e with
  | literal v => exact .literal v
  | grouping inner ih => exact .grouping ih
  | var name => exact .var (name.same_moved shift)
  | assign name value ih => exact .assign (name.same_moved shift) ih
  | unary operator right ih => exact .unary (operator.same_moved shift) ih
  | binary left operator right ihl ihr => exact .binary ihl (operator.same_moved shift) ihr
  | logical left operator right ihl ihr => exact .logical ihl (operator.same_moved shift) ihr
  | step operator name before => exact .step before (operator.same_moved shift) (name.same_moved shift)

theorem offsets_movedName (entry : Token × Option Expr) : offsets.Declares entry (movedName shift entry) := by
  obtain ⟨name, _ | e⟩ := entry
  · exact .bare (name.same_moved shift)
  · exact .initialized (name.same_moved shift) (e.offsets_moved shift)

theorem forall₂_map {α : Type} {R : α → α → Prop} {f : α → α} (h : ∀ a, R a (f a)) (l : List α) :
    List.Forall₂ R l (l.map f) :=
  List.forall₂_map_right_iff.2 (List.forall₂_same.2 fun a _ => h a)

mutual

/-- By recursion on the statement. -/
theorem Stmt.offsets_moved (s : Stmt) : offsets.Phrases (.statement s) (.statement (s.moved shift)) := by
  cases s with
  | expr e => exact .expr (e.offsets_moved shift)
  | ipakita keyword e => exact .ipakita (keyword.same_moved shift) (e.offsets_moved shift)
  | mugna keyword declared names =>
    exact .mugna (keyword.same_moved shift) (forall₂_map (offsets_movedName shift) names)
  | dawat keyword names => exact .dawat (keyword.same_moved shift) (forall₂_map (Token.same_moved shift) names)
  | pundok body => exact .pundok (offsets_movedAll body)
  | kung keyword condition body alternatives otherwise =>
    exact .kung (keyword.same_moved shift) (condition.offsets_moved shift) (.body body.offsets_moved)
      (offsets_movedAlternatives alternatives) (offsets_movedOtherwise otherwise)
  | mintras keyword condition body =>
    exact .mintras (keyword.same_moved shift) (condition.offsets_moved shift) (.body body.offsets_moved)
  | buhata keyword body condition =>
    exact .buhata (keyword.same_moved shift) (.body body.offsets_moved) (condition.offsets_moved shift)
  | hunong keyword => exact .hunong (keyword.same_moved shift)
  | padayon keyword => exact .padayon (keyword.same_moved shift)

theorem offsets_movedAll (body : List Stmt) : offsets.Phrases (.items body) (.items (movedAll shift body)) := by
  cases body with
  | nil => exact .noItem
  | cons s more => exact .item s.offsets_moved (offsets_movedAll more)

theorem offsets_movedAlternatives (branches : List (Expr × Stmt)) :
    offsets.Phrases (.alternatives branches) (.alternatives (movedAlternatives shift branches)) := by
  cases branches with
  | nil => exact .noAlternative
  | cons branch more =>
    obtain ⟨condition, body⟩ := branch
    exact .alternative (condition.offsets_moved shift) (.body body.offsets_moved) (offsets_movedAlternatives more)

theorem offsets_movedOtherwise (last : Option Stmt) :
    offsets.Phrases (.otherwise last) (.otherwise (movedOtherwise shift last)) := by
  cases last with
  | none => exact .noOtherwise
  | some body => exact .otherwise (.body body.offsets_moved)

end

/-! ## Programs -/

namespace Program

variable {shift : Nat → Nat} {p q : Program}

/-- The second program is the first one with its tokens elsewhere. -/
structure Relocated (shift : Nat → Nat) (p q : Program) : Prop where
  tokens : q.scanned.tokens = p.scanned.tokens.map (Token.moved shift)
  diagnostics : q.scanned.diagnostics = p.scanned.diagnostics
  lastLine : q.scanned.lastLine = p.scanned.lastLine
  parsed : q.parsed = p.parsed.moved shift

/-- Reading the moved tokens gives the program with its tokens moved. -/
theorem relocated_ofScanned {scanned scanned' : Scanned}
    (ht : scanned'.tokens = scanned.tokens.map (Token.moved shift))
    (hd : scanned'.diagnostics = scanned.diagnostics) (hl : scanned'.lastLine = scanned.lastLine) :
    Relocated shift (ofScanned scanned) (ofScanned scanned') := by
  refine ⟨ht, hd, hl, ?_⟩
  change ReadProgram.ofTokens scanned'.tokens = _
  rw [ht, ReadProgram.ofTokens_map_moved]
  rfl

theorem length_movedAll (statements : List Stmt) : (movedAll shift statements).length = statements.length := by
  induction statements with
  | nil => rfl
  | cons s more ih => rw [movedAll, List.length_cons, List.length_cons, ih]

namespace Relocated

theorem tokenDiagnostics_eq (h : Relocated shift p q) : q.tokenDiagnostics = p.tokenDiagnostics := by
  have hreported : ∀ c : Complaint, q.isReported (c.moved shift) = p.isReported c := by
    intro c
    unfold isReported
    rw [h.diagnostics]
    rfl
  unfold tokenDiagnostics
  rw [h.parsed]
  change ((p.parsed.complaints.map (Complaint.moved shift)).filter q.isReported).map _ = _
  rw [List.filter_map, List.map_map]
  congr 1
  exact List.filter_congr fun c _ => hreported c

theorem diagnostics_eq (h : Relocated shift p q) : q.diagnostics = p.diagnostics := by
  rw [Program.diagnostics, Program.diagnostics, h.diagnostics, h.tokenDiagnostics_eq]

theorem showReading_eq (h : Relocated shift p q) (watchers : Watchers) :
    q.showReading watchers = p.showReading watchers := by
  have hstatements : q.statements.length = p.statements.length := by
    rw [statements, h.parsed]
    exact length_movedAll _
  have hended : q.parsed.ended = p.parsed.ended := by
    rw [h.parsed]
    rfl
  unfold showReading
  rw [h.diagnostics, h.lastLine, h.tokenDiagnostics_eq, h.diagnostics_eq, hstatements, hended, h.tokens,
    List.length_map]

/-- A program whose tokens stand elsewhere runs as the other one. -/
theorem run_eq (h : Relocated shift p q) (watchers : Watchers) (rounds : Nat) (replies : List Reply) :
    q.run watchers rounds replies = p.run watchers rounds replies := by
  have hstatements : offsets.Phrases (.items p.statements) (.items q.statements) := by
    rw [statements, statements, h.parsed]
    exact offsets_movedAll shift _
  have hexecution : q.execution watchers rounds = p.execution watchers rounds := by
    unfold execution
    rw [h.showReading_eq, accepted, h.diagnostics_eq, ← accepted]
    congr 1
    funext _
    by_cases ha : p.accepted = true
    · rw [if_pos ha, if_pos ha]
      exact interpreted_eq watchers hstatements rounds
    · rw [if_neg ha, if_neg ha]
  rw [run, run, hexecution]

end Relocated

end Program

end BisayaPlus
