import BisayaPlus.Proofs.Inputs
import BisayaPlus.Proofs.Observers
/-!
# More rounds, fewer entries

A run that was granted enough rounds does not change with more of them, and one
that stays unfinished has shown a part of what it shows with more. So a statement
either ends, in one way, or it diverges: no number of rounds is enough.

To leave the trace of a run aside is to run it for watchers that want none.
-/

set_option autoImplicit false

namespace BisayaPlus

open Execution

/-! ## The beginning of a run -/

namespace Execution

variable {α β : Type}

/-- The first run is the second one, or it stays unfinished and has shown a part
of what the second one shows. -/
def Begins (x y : Execution α) : Prop :=
  ∀ m, y m = x m ∨ (x m).1 = .error .unfinished ∧ (x m).2.shown <:+ (y m).2.shown

theorem Begins.refl (x : Execution α) : Begins x x := fun _ => .inl rfl

theorem begins_unfinished {y : Execution α} (hy : Consults y) : Begins (throw .unfinished) y :=
  fun m => .inr ⟨rfl, hy.suffix m⟩

theorem Begins.bind {x y : Execution α} {f g : α → Execution β} (hx : Begins x y) (hf : ∀ a, Begins (f a) (g a))
    (hg : ∀ a, Consults (g a)) : Begins (x >>= f) (y >>= g) := by
  intro m
  rw [run_bind, run_bind]
  rcases hx m with hsame | ⟨hstop, hshown⟩
  · rw [hsame]
    rcases x m with ⟨stop | a, m'⟩
    · exact .inl rfl
    · exact hf a m'
  · rcases hxm : x m with ⟨stop | a, m'⟩ <;> rw [hxm] at hstop hshown
    · obtain rfl : stop = .unfinished := Except.error.inj hstop
      refine .inr ⟨rfl, ?_⟩
      rcases hym : y m with ⟨stop' | a, m''⟩ <;> rw [hym] at hshown
      · exact hshown
      · exact hshown.trans ((hg a).suffix m'')
    · cases hstop

theorem Begins.inScope {x y : Execution α} (hx : Begins x y) : Begins (inScope x) (inScope y) := by
  intro m
  rcases hx { m with scopes := m.scopes.push } with hsame | hcut
  · left
    unfold Execution.inScope
    rw [hsame]
  · exact .inr hcut

end Execution

/-- Each step begins itself, and what runs after an unfinished part only adds to
what it has shown. -/
theorem respectsSteps_begins (watchers : Watchers) :
    RespectsSteps watchers watchers fun _ x y => Begins x y ∧ Consults y where
  onScopes hx := ⟨.refl _, consults_onScopes hx⟩
  bind hx hf := ⟨hx.1.bind (fun a => (hf a).1) fun a => (hf a).2, hx.2.bind fun a => (hf a).2⟩
  inScope hx := ⟨hx.1.inScope, hx.2.inScope⟩
  log _ _ _ := ⟨.refl _, consults_emit rfl⟩
  print keyword line := ⟨.refl _, consults_print watchers keyword line⟩
  request keyword := ⟨.refl _, consults_request watchers keyword⟩

/-- With fewer rounds, a statement is a beginning of itself. -/
theorem Stmt.begins_execute (watchers : Watchers) {rounds rounds' : Nat} (h : rounds ≤ rounds') (s : Stmt) :
    Begins (s.execute watchers rounds) (s.execute watchers rounds') ∧ Consults (s.execute watchers rounds') := by
  have hsteps := respectsSteps_begins watchers
  refine hsteps.executeWithin (hsteps.respectsLoops_of_le ?_ rounds h) s
  exact fun hxy => ⟨begins_unfinished hxy.2, hxy.2⟩

/-! ## Leaving the trace aside -/

/-- The event is an entry of a trace. -/
def Event.isTrace : Event → Bool
  | logged entry => entry.level == .trace
  | _ => false

/-- The events without the trace. -/
def untraced (events : List Event) : List Event := events.filter (!·.isTrace)

/-- The watchers, who want no trace. -/
def Watchers.untraced (watchers : Watchers) : Watchers :=
  { watchers with logger := watchers.logger.map fun level => if level = .trace then .debug else level }

theorem narrows_untraced (watchers : Watchers) : Narrows (!·.isTrace) watchers watchers.untraced where
  logged entry := by
    obtain ⟨level, message, fields⟩ := entry
    cases hl : watchers.logger with
    | none => simp [Watchers.untraced, hl]
    | some logger =>
      cases logger <;> cases level <;> simp [Watchers.untraced, hl, Event.isTrace, Level.shows, Level.rank]
  reported _ := (Bool.and_true _).symm
  reader := rfl
  read _ := rfl
  readFailed _ := rfl
  printer := .inl ⟨rfl, fun _ => rfl⟩

theorem announce_untraced (watchers : Watchers) (s : Stmt) : announce watchers.untraced s = pure ⟨⟩ := by
  have hnone : watchers.untraced.logger.any (·.shows .trace) = false := by
    cases hl : watchers.logger with
    | none => simp [Watchers.untraced, hl]
    | some logger => cases logger <;> simp [Watchers.untraced, hl, Level.shows, Level.rank]
  rw [announce, log, hnone]
  rfl

/-- The machines have the same variables and the same input, and have shown the
same but for the trace. -/
structure SameButTrace (m m' : Machine) : Prop where
  scopes : m'.scopes = m.scopes
  replies : m'.replies = m.replies
  shown : untraced m'.shown = untraced m.shown

/-- The first run is the second one or a beginning of it, the trace aside. -/
def BeginsButTrace {α : Type} (x y : Except Stop α × Machine) : Prop :=
  y.1 = x.1 ∧ SameButTrace x.2 y.2 ∨ x.1 = .error .unfinished ∧ untraced x.2.shown <:+ untraced y.2.shown

section Untraced

variable {α : Type} {watchers : Watchers} {x y x' y' : Execution α} {m : Machine}

/-- The machine of watchers who want no trace. -/
theorem alike_untraced (watchers : Watchers) (m : Machine) :
    Alike (!·.isTrace) watchers.untraced m { m with shown := untraced m.shown } :=
  ⟨rfl, rfl, fun _ => rfl, rfl⟩

/-- It is enough to compare two runs for watchers who want no trace. -/
theorem sameButTrace_of_untraced (hx : Mimics (!·.isTrace) watchers.untraced x x')
    (hy : Mimics (!·.isTrace) watchers.untraced y y')
    (h : y' { m with shown := untraced m.shown } = x' { m with shown := untraced m.shown }) :
    (y m).1 = (x m).1 ∧ SameButTrace (x m).2 (y m).2 := by
  obtain ⟨hresult, hmachine⟩ := hx m _ (alike_untraced watchers m)
  obtain ⟨hresult', hmachine'⟩ := hy m _ (alike_untraced watchers m)
  rw [h] at hresult' hmachine'
  refine ⟨hresult'.symm.trans hresult, ?_, ?_, ?_⟩
  · rw [← hmachine.scopes, hmachine'.scopes]
  · rw [← hmachine.replies, hmachine'.replies]
  · exact hmachine'.shown.symm.trans hmachine.shown

theorem beginsButTrace_of_untraced (hx : Mimics (!·.isTrace) watchers.untraced x x')
    (hy : Mimics (!·.isTrace) watchers.untraced y y') (h : Begins x' y') : BeginsButTrace (x m) (y m) := by
  rcases h { m with shown := untraced m.shown } with hsame | ⟨hstop, hshown⟩
  · exact .inl (sameButTrace_of_untraced hx hy hsame)
  · obtain ⟨hresult, hmachine⟩ := hx m _ (alike_untraced watchers m)
    obtain ⟨-, hmachine'⟩ := hy m _ (alike_untraced watchers m)
    rw [hmachine.shown, hmachine'.shown] at hshown
    exact .inr ⟨hresult.symm.trans hstop, hshown⟩

end Untraced

/-! ## Ending and diverging -/

section Behaviour

variable {α : Type}

/-- With enough rounds, the run ends in this way. -/
def EndsIn (run : Nat → Except Stop α × Machine) (result : Except Stop α) (m : Machine) : Prop :=
  result ≠ .error .unfinished ∧ ∃ enough, ∀ rounds, enough ≤ rounds → run rounds = (result, m)

/-- No number of rounds is enough. -/
def Diverges (run : Nat → Except Stop α × Machine) : Prop := ∀ rounds, (run rounds).1 = .error .unfinished

/-- `Imitates run run'`: the second run ends like the first, diverges if the first
does, and shows whatever the first one shows, the trace aside. -/
structure Imitates (run run' : Nat → Except Stop α × Machine) : Prop where
  ends (result : Except Stop α) (m : Machine) : EndsIn run result m → ∃ m', EndsIn run' result m' ∧ SameButTrace m m'
  diverges : Diverges run → Diverges run'
  shows (rounds : Nat) : ∃ rounds', untraced (run rounds).2.shown <:+ untraced (run' rounds').2.shown

/-- The run does not change any more once it has ended. -/
def Settles (run : Nat → Except Stop α × Machine) : Prop :=
  ∀ rounds rounds', rounds ≤ rounds' → (run rounds).1 ≠ .error .unfinished → run rounds' = run rounds

theorem settles_of_begins {run : Nat → Execution α} (h : ∀ rounds rounds', rounds ≤ rounds' →
    Begins (run rounds) (run rounds')) (m : Machine) : Settles fun rounds => run rounds m := by
  intro rounds rounds' hle hends
  rcases h rounds rounds' hle m with hsame | ⟨hstop, -⟩
  · exact hsame
  · exact absurd hstop hends

/-- A run that ends somewhere ends in this way, and one that does not diverges. -/
theorem Settles.endsIn {run : Nat → Except Stop α × Machine} (h : Settles run) {rounds : Nat}
    (hends : (run rounds).1 ≠ .error .unfinished) : EndsIn run (run rounds).1 (run rounds).2 :=
  ⟨hends, rounds, fun _ hle => h _ _ hle hends⟩

/-- Two runs of which each is a beginning of the other, with more rounds. -/
theorem imitates_of_begins {run run' : Nat → Except Stop α × Machine} (hsettles : Settles run')
    (h : ∀ rounds, ∃ rounds', BeginsButTrace (run rounds) (run' rounds'))
    (h' : ∀ rounds, ∃ rounds', BeginsButTrace (run' rounds) (run rounds')) : Imitates run run' where
  ends result m hends := by
    obtain ⟨hresult, enough, hrun⟩ := hends
    obtain ⟨rounds', hbegins⟩ := h enough
    rw [hrun enough (Nat.le_refl _)] at hbegins
    rcases hbegins with ⟨hsame, hmachine⟩ | ⟨hstop, -⟩
    · obtain rfl : (run' rounds').1 = result := hsame
      exact ⟨_, hsettles.endsIn hresult, hmachine⟩
    · exact absurd hstop hresult
  diverges hdiverges rounds := by
    obtain ⟨rounds', hbegins⟩ := h' rounds
    rcases hbegins with ⟨hsame, -⟩ | ⟨hstop, -⟩
    · exact hsame.symm.trans (hdiverges rounds')
    · exact hstop
  shows rounds := by
    obtain ⟨rounds', hbegins⟩ := h rounds
    refine ⟨rounds', ?_⟩
    rcases hbegins with ⟨-, hmachine⟩ | ⟨-, hshown⟩
    · exact hmachine.shown ▸ List.suffix_refl _
    · exact hshown

end Behaviour

end BisayaPlus
