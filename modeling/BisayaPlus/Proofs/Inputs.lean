import BisayaPlus.Proofs.Lockstep
/-!
# What a run takes from the input

A run asks for lines one by one and sees nothing else of the input. So it is
decided by the answers it got: an input that gives the same answers leads to the
same run, whatever would have come after them.
-/

set_option autoImplicit false

namespace BisayaPlus

open Execution

/-! ## Answers -/

/-- The first answers of an input. One that is at its end keeps answering. -/
def firstAnswers : Nat → List Reply → List Reply
  | 0, _ => []
  | n + 1, replies => nextReply replies :: firstAnswers n replies.tail

theorem length_firstAnswers (n : Nat) (replies : List Reply) : (firstAnswers n replies).length = n := by
  induction n generalizing replies with
  | zero => rfl
  | succ n ih => simp [firstAnswers, ih]

theorem firstAnswers_add (n k : Nat) (replies : List Reply) :
    firstAnswers (n + k) replies = firstAnswers n replies ++ firstAnswers k (replies.drop n) := by
  induction n generalizing replies with
  | zero => simp [firstAnswers]
  | succ n ih => simp [Nat.succ_add, firstAnswers, ih]

/-- An input of lines gives them in order, and is then at its end. -/
theorem firstAnswers_lines (n : Nat) (lines : List Text) :
    firstAnswers n (lines.map .line) =
      (lines.take n).map .line ++ List.replicate (n - lines.length) (.failure "EOF") := by
  induction n generalizing lines with
  | zero => simp [firstAnswers]
  | succ n ih =>
    cases lines with
    | nil => simpa [firstAnswers, nextReply, List.replicate_succ] using ih []
    | cons line lines => simpa [firstAnswers, nextReply] using ih lines

/-- The answer that an event tells of. -/
def Event.answer? : Event → Option Reply
  | read line => some (.line line)
  | readFailed reason => some (.failure reason)
  | _ => none

theorem answer?_answerEvent (reply : Reply) : (answerEvent reply).answer? = some reply := by
  cases reply <;> rfl

/-! ## Runs that consult the input -/

/-- On a machine, the run gets some answers and shows them in order. With any
input that gives the same answers it ends in the same way, and the rest of this
input is left. What was shown before makes no difference. -/
def Execution.Consults {α : Type} (x : Execution α) : Prop :=
  ∀ m : Machine, ∃ (result : Except Stop α) (m' : Machine) (new : List Event) (n : Nat),
    new.reverse.filterMap Event.answer? = firstAnswers n m.replies ∧
    ∀ replies shown, firstAnswers n replies = firstAnswers n m.replies →
      x { m with replies := replies, shown := shown } =
        (result, { m' with replies := replies.drop n, shown := new ++ shown })

section Steps

variable {α β : Type} {watchers : Watchers}

/-- What was shown before stays shown. -/
theorem Execution.Consults.suffix {x : Execution α} (hx : Consults x) (m : Machine) :
    m.shown <:+ (x m).2.shown := by
  obtain ⟨result, m', new, n, -, hrun⟩ := hx m
  have hran : x m = _ := hrun m.replies m.shown rfl
  rw [hran]
  exact List.suffix_append new m.shown

/-- A run that asks for nothing. -/
theorem consults_unasked {x : Execution α} (h : ∀ m : Machine, ∃ (result : Except Stop α) (m' : Machine)
    (new : List Event), new.filterMap Event.answer? = [] ∧ ∀ replies shown,
      x { m with replies := replies, shown := shown } =
        (result, { m' with replies := replies, shown := new ++ shown })) : Consults x := by
  intro m
  obtain ⟨result, m', new, hnew, hrun⟩ := h m
  refine ⟨result, m', new, 0, ?_, fun replies shown _ => hrun replies shown⟩
  rw [List.filterMap_reverse, hnew]
  rfl

theorem consults_onScopes {x : Execution α} (hx : OnScopes x) : Consults x := by
  refine consults_unasked fun m => ?_
  obtain ⟨result, s, hrun⟩ := hx m.scopes
  exact ⟨result, { m with scopes := s }, [], rfl, fun replies shown => hrun _ rfl⟩

theorem Execution.Consults.bind {x : Execution α} {f : α → Execution β} (hx : Consults x)
    (hf : ∀ a, Consults (f a)) : Consults (x >>= f) := by
  intro m
  obtain ⟨result, m', new, n, hnew, hrun⟩ := hx m
  cases result with
  | error stop =>
    refine ⟨.error stop, m', new, n, hnew, fun replies shown hsame => ?_⟩
    rw [run_bind, hrun replies shown hsame]
  | ok a =>
    obtain ⟨result, m'', more, k, hmore, hnext⟩ := hf a { m' with replies := m.replies.drop n }
    refine ⟨result, m'', more ++ new, n + k, ?_, fun replies shown hsame => ?_⟩
    · rw [List.reverse_append, List.filterMap_append, hnew, hmore, firstAnswers_add]
    · rw [firstAnswers_add, firstAnswers_add] at hsame
      obtain ⟨hfirst, hrest⟩ := List.append_inj hsame (by simp [length_firstAnswers])
      rw [run_bind, hrun replies shown hfirst]
      dsimp only
      rw [hnext _ _ hrest, List.drop_drop, List.append_assoc]

theorem Execution.Consults.inScope {x : Execution α} (hx : Consults x) : Consults (inScope x) := by
  intro m
  obtain ⟨result, m', new, n, hnew, hrun⟩ := hx { m with scopes := m.scopes.push }
  refine ⟨result, { m' with scopes := m'.scopes.pop }, new, n, hnew, fun replies shown hsame => ?_⟩
  unfold Execution.inScope
  rw [hrun replies shown hsame]

theorem Execution.Consults.observing {x : Execution α} (hx : Consults x) :
    Consults (observing x : Execution (Except Stop α)) := by
  intro m
  obtain ⟨result, m', new, n, hnew, hrun⟩ := hx m
  refine ⟨.ok result, m', new, n, hnew, fun replies shown hsame => ?_⟩
  rw [Program.run_observing, hrun replies shown hsame]

theorem consults_emit {wanted : Bool} {e : Event} (he : e.answer? = none) :
    Consults (if wanted then emit e else pure ⟨⟩) := by
  refine consults_unasked fun m => ?_
  cases wanted with
  | true => exact ⟨.ok ⟨⟩, m, [e], by simp [he], fun _ _ => rfl⟩
  | false => exact ⟨.ok ⟨⟩, m, [], rfl, fun _ _ => rfl⟩

theorem consults_print (watchers : Watchers) (keyword : Token) (line : Text) :
    Consults (print watchers keyword line) := by
  refine consults_unasked fun m => ?_
  cases hp : watchers.printer with
  | none => exact ⟨.ok ⟨⟩, m, [], rfl, fun _ _ => run_print_none hp keyword line _⟩
  | some failure =>
    cases hf : failure (m.prints + 1) with
    | none =>
      refine ⟨.ok ⟨⟩, { m with prints := m.prints + 1 }, [.printed line], rfl, fun replies shown => ?_⟩
      exact run_print_shows (m := { m with replies := replies, shown := shown }) hp hf keyword line
    | some reason =>
      refine ⟨.error (.fault ⟨keyword, .printFailed reason⟩), { m with prints := m.prints + 1 }, [], rfl, ?_⟩
      intro replies shown
      exact run_print_fails (m := { m with replies := replies, shown := shown }) hp hf keyword line

theorem consults_request (watchers : Watchers) (keyword : Token) : Consults (request watchers keyword) := by
  intro m
  cases hr : watchers.reader with
  | false =>
    exact ⟨_, m, [], 0, rfl, fun replies shown _ => run_request_absent hr keyword _⟩
  | true =>
    refine ⟨answered keyword (nextReply m.replies), m, [answerEvent (nextReply m.replies)], 1, ?_, ?_⟩
    · simp [answer?_answerEvent, firstAnswers]
    · intro replies shown hsame
      obtain hreply : nextReply replies = nextReply m.replies := (List.cons.inj hsame).1
      rw [run_request hr, hreply, List.drop_one]
      rfl

/-- Each step of a run takes from the input what it asks for. -/
theorem respects_consults (watchers : Watchers) : Respects watchers watchers fun _ x _ => Consults x where
  onScopes := consults_onScopes
  bind := Consults.bind
  inScope := Consults.inScope
  observing := Consults.observing
  log _ _ _ := consults_emit rfl
  report _ := consults_emit rfl
  print := consults_print watchers
  request := consults_request watchers

theorem Execution.Consults.whileHolds {test : Execution Bool} {body : Execution Flow} (ht : Consults test)
    (hb : Consults body) (rounds : Nat) : Consults (whileHolds test body rounds) :=
  @RespectsSteps.whileHolds _ _ _ (respects_consults {}).toRespectsSteps test test body body ht hb rounds

theorem Execution.Consults.untilFails {test : Execution Bool} {body : Execution Flow} (ht : Consults test)
    (hb : Consults body) (rounds : Nat) : Consults (untilFails test body rounds) :=
  @RespectsSteps.untilFails _ _ _ (respects_consults {}).toRespectsSteps test test body body ht hb rounds

end Steps

/-! ## Whole runs -/

/-- The answers that a run got, in order. -/
def RunResult.answers (r : RunResult) : List Reply := r.events.filterMap Event.answer?

/-- A run gets the first answers of its input and leaves the rest. With another
input that gives the same answers it is the same run. -/
theorem Program.consults_run (watchers : Watchers) (rounds : Nat) (replies : List Reply) (p : Program) :
    let run := p.run watchers rounds replies
    let n := run.answers.length
    run.answers = firstAnswers n replies ∧ ∀ replies', firstAnswers n replies' = firstAnswers n replies →
      p.run watchers rounds replies' = { run with unread := replies'.drop n } := by
  intro run n
  obtain ⟨result, m, new, k, hnew, hrun⟩ := (respects_consults watchers).execution rounds p (.fresh replies)
  have hran : ∀ replies', firstAnswers k replies' = firstAnswers k replies →
      p.execution watchers rounds (.fresh replies') =
        (result, { m with replies := replies'.drop k, shown := new ++ [] }) :=
    fun replies' hsame => hrun replies' [] hsame
  have hanswers : run.answers = firstAnswers k replies := by
    unfold run RunResult.answers Program.run
    rw [hran replies rfl, List.append_nil]
    exact hnew
  have hn : n = k := by rw [← length_firstAnswers k replies, ← hanswers]
  rw [hn]
  refine ⟨hanswers, fun replies' hsame => ?_⟩
  unfold run Program.run
  rw [hran replies' hsame, hran replies rfl]

end BisayaPlus
