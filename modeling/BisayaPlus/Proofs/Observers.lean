import BisayaPlus.Proofs.Endings
import BisayaPlus.Proofs.Lockstep
/-!
# Observers do not influence a run

Two runs of a program whose watchers differ only in what they want to see go
through the same machines, but for what was shown. So to take away a logger, a
reporter or a printer that never fails only takes its events away.
-/

set_option autoImplicit false

namespace BisayaPlus

open Execution

/-! ## Events for observers -/

namespace Event

/-- A log entry is for a logger of its level. Other events have no level. -/
def isFor (logger : Option Level) : Event → Bool
  | logged entry => logger.any (·.shows entry.level)
  | _ => true

/-- The event is a log entry. -/
def isLogged : Event → Bool
  | logged _ => true
  | _ => false

/-- The event is a printed line. -/
def isPrinted : Event → Bool
  | printed _ => true
  | _ => false

end Event

/-- `Narrows keep watchers watchers'`: the second watchers see those events that
are kept, and get in the way of the run like the first. A printer may be taken
away if it never fails. -/
structure Narrows (keep : Event → Bool) (watchers watchers' : Watchers) : Prop where
  logged (entry : LogEntry) : watchers'.logger.any (·.shows entry.level) =
    (watchers.logger.any (·.shows entry.level) && keep (.logged entry))
  reported (d : Diagnostic) : watchers'.reporter = (watchers.reporter && keep (.reported d))
  reader : watchers'.reader = watchers.reader
  read (line : Text) : keep (.read line) = true
  readFailed (reason : Text) : keep (.readFailed reason) = true
  printer : watchers'.printer = watchers.printer ∧ (∀ line, keep (.printed line) = true) ∨
    watchers'.printer = none ∧ (∀ line, keep (.printed line) = false) ∧
      ∀ failure ∈ watchers.printer, ∀ n, failure n = none

/-- The second machine has shown those events that are kept. Prints are only
counted for a printer. -/
structure Alike (keep : Event → Bool) (watchers' : Watchers) (m m' : Machine) : Prop where
  scopes : m'.scopes = m.scopes
  replies : m'.replies = m.replies
  prints : watchers'.printer ≠ none → m'.prints = m.prints
  shown : m'.shown = m.shown.filter keep

/-- From machines that are alike, the two runs end alike. -/
def Mimics (keep : Event → Bool) (watchers' : Watchers) {α : Type} (x y : Execution α) : Prop :=
  ∀ m m', Alike keep watchers' m m' → (y m').1 = (x m).1 ∧ Alike keep watchers' (x m).2 (y m').2

section Steps

variable {keep : Event → Bool} {watchers watchers' : Watchers} {α β : Type} {m m' : Machine}

theorem Alike.mapScopes (h : Alike keep watchers' m m') (f : Scopes → Scopes) :
    Alike keep watchers' { m with scopes := f m.scopes } { m' with scopes := f m'.scopes } :=
  ⟨congrArg f h.scopes, h.replies, h.prints, h.shown⟩

theorem Alike.kept {e : Event} (h : Alike keep watchers' m m') (he : keep e = true) :
    Alike keep watchers' { m with shown := e :: m.shown } { m' with shown := e :: m'.shown } :=
  ⟨h.scopes, h.replies, h.prints, by simp [he, h.shown]⟩

theorem Alike.dropped {e : Event} (h : Alike keep watchers' m m') (he : keep e = false) :
    Alike keep watchers' { m with shown := e :: m.shown } m' :=
  ⟨h.scopes, h.replies, h.prints, by simp [he, h.shown]⟩

theorem mimics_onScopes {x : Execution α} (hx : OnScopes x) : Mimics keep watchers' x x := by
  intro m m' h
  obtain ⟨result, s, hrun⟩ := hx m.scopes
  rw [hrun m rfl, hrun m' h.scopes]
  exact ⟨rfl, h.mapScopes fun _ => s⟩

theorem Mimics.bind {x y : Execution α} {f g : α → Execution β} (hx : Mimics keep watchers' x y)
    (hf : ∀ a, Mimics keep watchers' (f a) (g a)) : Mimics keep watchers' (x >>= f) (y >>= g) := by
  intro m m' h
  obtain ⟨hresult, hmachine⟩ := hx m m' h
  rw [run_bind, run_bind]
  rcases hrun : x m with ⟨result, t⟩
  rcases hrun' : y m' with ⟨result', t'⟩
  rw [hrun, hrun'] at hresult hmachine
  dsimp only at hresult hmachine
  subst hresult
  cases result' with
  | error stop => exact ⟨rfl, hmachine⟩
  | ok a => exact hf a t t' hmachine

theorem Mimics.inScope {x y : Execution α} (hx : Mimics keep watchers' x y) :
    Mimics keep watchers' (inScope x) (inScope y) := by
  intro m m' h
  obtain ⟨hresult, hmachine⟩ := hx _ _ (h.mapScopes Scopes.push)
  exact ⟨hresult, hmachine.mapScopes Scopes.pop⟩

theorem Mimics.observing {x y : Execution α} (hx : Mimics keep watchers' x y) :
    Mimics keep watchers' (observing x : Execution (Except Stop α)) (observing y) := by
  intro m m' h
  obtain ⟨hresult, hmachine⟩ := hx m m' h
  rw [Program.run_observing, Program.run_observing, hresult]
  exact ⟨rfl, hmachine⟩

/-- An event that one of the watchers may not want to see. -/
theorem mimics_emit {wanted wanted' : Bool} {e : Event} (he : wanted' = (wanted && keep e)) :
    Mimics keep watchers' (if wanted then emit e else pure ⟨⟩) (if wanted' then emit e else pure ⟨⟩) := by
  intro m m' h
  cases wanted with
  | false =>
    subst he
    exact ⟨rfl, h⟩
  | true =>
    subst he
    cases hkeep : keep e with
    | true => exact ⟨rfl, h.kept hkeep⟩
    | false => exact ⟨rfl, h.dropped hkeep⟩

theorem Narrows.print (hn : Narrows keep watchers watchers') (keyword : Token) (line : Text) :
    Mimics keep watchers' (print watchers keyword line) (print watchers' keyword line) := by
  intro m m' h
  rcases hn.printer with ⟨hsame, hkeep⟩ | ⟨hnone, hdrop, hnever⟩
  · cases hp : watchers.printer with
    | none =>
      rw [run_print_none hp, run_print_none (hsame.trans hp)]
      exact ⟨rfl, h⟩
    | some failure =>
      -- both runs count the print, so that it fails in both or in neither
      have hp' := hsame.trans hp
      have hcount : m'.prints = m.prints := h.prints (by simp [hp'])
      have hcounted : Alike keep watchers' { m with prints := m.prints + 1 } { m' with prints := m'.prints + 1 } :=
        ⟨h.scopes, h.replies, fun _ => congrArg (· + 1) hcount, h.shown⟩
      cases hf : failure (m.prints + 1) with
      | some reason =>
        rw [run_print_fails hp hf, run_print_fails hp' (hcount ▸ hf)]
        exact ⟨rfl, hcounted⟩
      | none =>
        rw [run_print_shows hp hf, run_print_shows hp' (hcount ▸ hf)]
        exact ⟨rfl, hcounted.kept (hkeep line)⟩
  · rw [run_print_none hnone]
    cases hp : watchers.printer with
    | none =>
      rw [run_print_none hp]
      exact ⟨rfl, h⟩
    | some failure =>
      rw [run_print_shows hp (hnever failure hp _)]
      have hcounted : Alike keep watchers' { m with prints := m.prints + 1 } m' :=
        ⟨h.scopes, h.replies, fun hsome => absurd hnone hsome, h.shown⟩
      exact ⟨rfl, hcounted.dropped (hdrop line)⟩

theorem Narrows.request (hn : Narrows keep watchers watchers') (keyword : Token) :
    Mimics keep watchers' (request watchers keyword) (request watchers' keyword) := by
  intro m m' h
  cases hr : watchers.reader with
  | false =>
    rw [run_request_absent hr, run_request_absent (hn.reader.trans hr)]
    exact ⟨rfl, h⟩
  | true =>
    rw [run_request hr, run_request (hn.reader.trans hr), h.replies]
    have hrest : Alike keep watchers' { m with replies := m.replies.tail } { m' with replies := m.replies.tail } :=
      ⟨h.scopes, rfl, h.prints, h.shown⟩
    have hkeep : keep (answerEvent (nextReply m.replies)) = true := by
      cases nextReply m.replies with
      | line t => exact hn.read t
      | failure reason => exact hn.readFailed reason
    exact ⟨rfl, hrest.kept hkeep⟩

/-- Each step of a run is mimicked when fewer events are seen. -/
theorem Narrows.respects (hn : Narrows keep watchers watchers') :
    Respects watchers watchers' fun _ x y => Mimics keep watchers' x y where
  onScopes := mimics_onScopes
  bind := Mimics.bind
  inScope := Mimics.inScope
  observing := Mimics.observing
  log level message fields := mimics_emit (hn.logged ⟨level, message, fields⟩)
  report d := mimics_emit (hn.reported d)
  print := hn.print
  request := hn.request

/-- The run with fewer observers is the same, less the events they do not see. -/
theorem Narrows.run (hn : Narrows keep watchers watchers') (rounds : Nat) (replies : List Reply) (p : Program) :
    p.run watchers' rounds replies =
      { p.run watchers rounds replies with events := (p.run watchers rounds replies).events.filter keep } := by
  have hfresh : Alike keep watchers' (.fresh replies) (.fresh replies) := ⟨rfl, rfl, fun _ => rfl, rfl⟩
  obtain ⟨hresult, hmachine⟩ := hn.respects.execution rounds p _ _ hfresh
  unfold Program.run
  rcases hrun : p.execution watchers rounds (.fresh replies) with ⟨result, m⟩
  rcases hrun' : p.execution watchers' rounds (.fresh replies) with ⟨result', m'⟩
  rw [hrun, hrun'] at hresult hmachine
  obtain rfl : result' = result := hresult
  dsimp only at hmachine ⊢
  rw [hmachine.replies, hmachine.shown, List.filter_reverse]

end Steps

/-! ## Taking an observer away -/

section Removed

variable {watchers : Watchers}

/-- A logger of any level sees fewer entries than one that traces. -/
theorem narrows_logger (watchers : Watchers) (logger : Option Level) :
    Narrows (·.isFor logger) { watchers with logger := some .trace } { watchers with logger := logger } where
  logged entry := by
    have htraced : Level.trace.shows entry.level = true := by cases entry.level <;> rfl
    simp [htraced, Event.isFor]
  reported _ := (Bool.and_true _).symm
  reader := rfl
  read _ := rfl
  readFailed _ := rfl
  printer := .inl ⟨rfl, fun _ => rfl⟩

theorem narrows_reporter (watchers : Watchers) :
    Narrows (·.report?.isNone) { watchers with reporter := true } { watchers with reporter := false } where
  logged _ := (Bool.and_true _).symm
  reported _ := rfl
  reader := rfl
  read _ := rfl
  readFailed _ := rfl
  printer := .inl ⟨rfl, fun _ => rfl⟩

theorem narrows_printer (watchers : Watchers) {failure : Nat → Option Text} (hnever : ∀ n, failure n = none) :
    Narrows (!·.isPrinted) { watchers with printer := some failure } { watchers with printer := none } where
  logged _ := (Bool.and_true _).symm
  reported _ := (Bool.and_true _).symm
  reader := rfl
  read _ := rfl
  readFailed _ := rfl
  printer := .inr ⟨rfl, fun _ => rfl, fun _ hfailure => Option.some.inj hfailure ▸ hnever⟩

end Removed

namespace Program

/-- Whoever observes a run, it prints, reads and reports the same and ends the
same. A logger of a level sees the entries of a trace that are of this level, at
the same places. Without a reporter only the reports are missing, and without a
printer that never fails only the printed lines. -/
theorem observers_do_not_influence_runs (source : Text) (watchers : Watchers) (rounds : Nat) (replies : List Reply) :
    let run (w : Watchers) := (ofSource source).run w rounds replies
    let trace := run { watchers with logger := some .trace }
    (∀ logger : Option Level,
      let logged := run { watchers with logger := logger }
      logged.outcome = trace.outcome ∧ logged.unread = trace.unread ∧
        logged.events.filter (!·.isLogged) = trace.events.filter (!·.isLogged) ∧
        logged.events = trace.events.filter (·.isFor logger)) ∧
    run { watchers with reporter := false } =
      { run { watchers with reporter := true } with
        events := (run { watchers with reporter := true }).events.filter (·.report?.isNone) } ∧
    ∀ failure : Nat → Option Text, (∀ n, failure n = none) →
      run { watchers with printer := none } =
        { run { watchers with printer := some failure } with
          events := (run { watchers with printer := some failure }).events.filter (!·.isPrinted) } := by
  intro run trace
  refine ⟨fun logger => ?_, (narrows_reporter watchers).run rounds replies _,
    fun failure hnever => (narrows_printer watchers hnever).run rounds replies _⟩
  intro logged
  have hlogged : logged = { trace with events := trace.events.filter (·.isFor logger) } :=
    (narrows_logger watchers logger).run rounds replies _
  rw [hlogged]
  refine ⟨rfl, rfl, ?_, rfl⟩
  rw [List.filter_filter]
  refine List.filter_congr fun e _ => ?_
  cases e <;> simp [Event.isLogged, Event.isFor]

/-- Without a printer, a line is not printed. -/
theorem observers_do_not_influence_runs_unprinted :
    let run (w : Watchers) := (ofSource "SUGOD\nIPAKITA: 1\nKATAPUSAN").run w 0 []
    (run {}).events = [.printed "1"] ∧
      run { printer := none } = { run {} with events := (run {}).events.filter (!·.isPrinted) } := by
  intro run
  obtain ⟨-, -, hprinter⟩ := observers_do_not_influence_runs "SUGOD\nIPAKITA: 1\nKATAPUSAN" {} 0 []
  exact ⟨by decide +kernel, hprinter (fun _ => none) fun _ => rfl⟩

end Program

end BisayaPlus
