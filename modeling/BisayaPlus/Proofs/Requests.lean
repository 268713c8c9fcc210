import BisayaPlus.Proofs.Inputs
import BisayaPlus.Proofs.Outcomes
import BisayaPlus.Proofs.Parts
/-!
# Who asks for input

A DAWAT whose names are all declared asks for one line. Nothing else asks: what
a run shows of an answer was shown by such a DAWAT, and each of them shows one
answer, at its place among the events of the run.
-/

set_option autoImplicit false

namespace BisayaPlus

open Execution

variable {watchers : Watchers} {rounds : Nat} {m : Machine}

/-! ## One DAWAT -/

theorem Execution.OnScopes.kept {α : Type} {x : Execution α} (hx : OnScopes x) (m : Machine) :
    (x m).2.shown = m.shown ∧ (x m).2.replies = m.replies := by
  obtain ⟨result, s, hrun⟩ := hx m.scopes
  rw [hrun m rfl]
  exact ⟨rfl, rfl⟩

theorem announced_replies (s : Stmt) (m : Machine) : (announced watchers s m).replies = m.replies := by
  obtain ⟨shown, h⟩ := run_announce watchers s m
  rw [announced, h]

theorem run_requireAll_declared {names : List Token} (h : ∀ name ∈ names, m.scopes.has name.lexeme = true) :
    requireAll names m = (.ok ⟨⟩, m) := by
  induction names with
  | nil => rfl
  | cons name more ih =>
    obtain ⟨hname, hmore⟩ := List.forall_mem_cons.1 h
    rw [requireAll, run_bind, run_require, hname]
    exact ih hmore

theorem run_requireAll_undeclared {names : List Token} (h : ∃ name ∈ names, m.scopes.has name.lexeme = false) :
    ∃ stop, requireAll names m = (.error stop, m) := by
  induction names with
  | nil => simp at h
  | cons name more ih =>
    rw [requireAll, run_bind, run_require]
    cases hname : m.scopes.has name.lexeme with
    | false => exact ⟨_, rfl⟩
    | true =>
      obtain ⟨name', hmem, hfalse⟩ := h
      rcases List.mem_cons.1 hmem with rfl | hmem
      · rw [hname] at hfalse
        cases hfalse
      · exact ih ⟨name', hmem, hfalse⟩

theorem run_bind_pure {α β : Type} (x : Execution α) (f : α → β) (m : Machine) :
    ((x >>= fun a => pure (f a)) m).2 = (x m).2 := by
  rw [run_bind]
  rcases x m with ⟨_ | _, _⟩ <;> rfl

theorem run_dawat (keyword : Token) (names : List Token) (m : Machine) :
    ((Stmt.dawat keyword names).execute watchers rounds m).2 =
      (receive watchers keyword names (announced watchers (.dawat keyword names) m)).2 := by
  rw [Stmt.execute, run_bind, run_announced]
  exact run_bind_pure _ _ _

/-- A DAWAT whose names are all declared asks once, and gets the next answer. -/
theorem run_dawat_declared (rounds : Nat) (keyword : Token) {names : List Token} (hr : watchers.reader = true)
    (hd : ∀ name ∈ names, m.scopes.has name.lexeme = true) :
    ((Stmt.dawat keyword names).execute watchers rounds m).2.shown =
      answerEvent (nextReply m.replies) :: (announced watchers (.dawat keyword names) m).shown ∧
    ((Stmt.dawat keyword names).execute watchers rounds m).2.replies = m.replies.tail := by
  rw [run_dawat, ← announced_replies (.dawat keyword names) m]
  rw [← announced_scopes (.dawat keyword names) m] at hd
  generalize announced watchers (.dawat keyword names) m = m' at hd ⊢
  rw [receive, run_bind, run_requireAll_declared hd]
  dsimp only
  rw [run_bind, run_request hr]
  cases nextReply m'.replies with
  | failure reason => exact ⟨rfl, rfl⟩
  | line t =>
    dsimp only [answered]
    split
    · exact (onScopes_store _).kept _
    · exact ⟨rfl, rfl⟩

/-- Otherwise it stops before it asks. -/
theorem run_dawat_stopped (rounds : Nat) (keyword : Token) {names : List Token}
    (h : watchers.reader = false ∨ ∃ name ∈ names, m.scopes.has name.lexeme = false) :
    ((Stmt.dawat keyword names).execute watchers rounds m).2 = announced watchers (.dawat keyword names) m := by
  rw [run_dawat]
  rw [← announced_scopes (.dawat keyword names) m] at h
  generalize announced watchers (.dawat keyword names) m = m' at h ⊢
  rw [receive, run_bind]
  by_cases hd : ∃ name ∈ names, m'.scopes.has name.lexeme = false
  · obtain ⟨stop, hstop⟩ := run_requireAll_undeclared hd
    rw [hstop]
  · have hdeclared : ∀ name ∈ names, m'.scopes.has name.lexeme = true := by simpa using hd
    rw [run_requireAll_declared hdeclared]
    dsimp only
    rw [run_bind, run_request_absent (h.resolve_right hd)]

/-! ## Who showed an answer -/

section Explained

variable (watchers : Watchers) (rounds : Nat) (top : Task) (start : Machine)

/-- A DAWAT of the run, all of whose names are declared, has shown this event
right after these. -/
def ReadBy (e : Event) (earlier : List Event) : Prop :=
  ∃ keyword names m, Runs watchers rounds top start (.execute (.dawat keyword names)) m ∧
    (∀ name ∈ names, m.scopes.has name.lexeme = true) ∧
    (announced watchers (.dawat keyword names) m).shown = earlier ∧
    ((Stmt.dawat keyword names).execute watchers rounds m).2.shown = e :: earlier

/-- From one machine to the other more events are shown, and each answer among
them by a DAWAT of the run. -/
structure Explained (m m' : Machine) : Prop where
  suffix : m.shown <:+ m'.shown
  readBy {e : Event} {earlier : List Event} : e.answer? ≠ none → e :: earlier <:+ m'.shown → m.shown <:+ earlier →
    ReadBy watchers rounds top start e earlier

end Explained

section Explained

variable {top : Task} {start m' m'' : Machine} {α β : Type}

theorem not_cons_suffix {e : Event} {earlier : List Event} : ¬ e :: earlier <:+ earlier :=
  fun h => Nat.not_succ_le_self _ h.length_le

theorem explained_of_shown (h : m'.shown = m.shown) : Explained watchers rounds top start m m' where
  suffix := h ▸ List.suffix_refl _
  readBy _ hafter hbefore := absurd (hafter.trans (h ▸ hbefore)) not_cons_suffix

theorem Explained.trans (h : Explained watchers rounds top start m m')
    (h' : Explained watchers rounds top start m' m'') : Explained watchers rounds top start m m'' where
  suffix := h.suffix.trans h'.suffix
  readBy := by
    intro e earlier he hafter hbefore
    -- the event is shown up to the machine in the middle, or behind it
    rcases List.suffix_or_suffix_of_suffix hafter h'.suffix with hmiddle | hmiddle
    · exact h.readBy he hmiddle hbefore
    · rcases List.suffix_cons_iff.1 hmiddle with heq | hearlier
      · exact h.readBy he (heq ▸ List.suffix_refl _) hbefore
      · exact h'.readBy he hafter hearlier

theorem explained_cons {e : Event} (h : m'.shown = e :: m.shown)
    (he : e.answer? ≠ none → ReadBy watchers rounds top start e m.shown) :
    Explained watchers rounds top start m m' where
  suffix := h ▸ List.suffix_cons e _
  readBy := by
    intro e' earlier he' hafter hbefore
    rw [h] at hafter
    rcases List.suffix_cons_iff.1 hafter with heq | hle
    · obtain ⟨rfl, rfl⟩ := List.cons.inj heq
      exact he he'
    · exact absurd (hle.trans hbefore) not_cons_suffix

theorem explained_bind {x : Execution α} {f : α → Execution β} (hx : Explained watchers rounds top start m (x m).2)
    (hf : ∀ a m', x m = (.ok a, m') → Explained watchers rounds top start m' (f a m').2) :
    Explained watchers rounds top start m ((x >>= f) m).2 := by
  rw [run_bind]
  rcases hr : x m with ⟨stop | a, m'⟩
  · rwa [hr] at hx
  · rw [hr] at hx
    exact hx.trans (hf a m' hr)

theorem explained_onScopes {x : Execution α} (hx : OnScopes x) : Explained watchers rounds top start m (x m).2 :=
  explained_of_shown (hx.kept m).1

theorem explained_pure (a : α) : Explained watchers rounds top start m ((pure a : Execution α) m).2 :=
  explained_of_shown rfl

theorem explained_emit {wanted : Bool} {e : Event} (he : e.answer? = none) :
    Explained watchers rounds top start m ((if wanted then emit e else pure ⟨⟩ : Execution PUnit) m).2 := by
  cases wanted with
  | true => exact explained_cons rfl fun hne => absurd he hne
  | false => exact explained_of_shown rfl

theorem explained_announced (s : Stmt) : Explained watchers rounds top start m (announced watchers s m) :=
  explained_emit rfl

theorem explained_print (keyword : Token) (line : Text) :
    Explained watchers rounds top start m (print watchers keyword line m).2 := by
  cases hp : watchers.printer with
  | none =>
    rw [run_print_none hp]
    exact explained_of_shown rfl
  | some failure =>
    cases hf : failure (m.prints + 1) with
    | none =>
      rw [run_print_shows hp hf]
      exact explained_cons rfl fun hne => absurd rfl hne
    | some reason =>
      rw [run_print_fails hp hf]
      exact explained_of_shown rfl

/-- The one answer that a DAWAT shows. -/
theorem explained_dawat {keyword : Token} {names : List Token}
    (h : Runs watchers rounds top start (.execute (.dawat keyword names)) m) :
    Explained watchers rounds top start m ((Stmt.dawat keyword names).execute watchers rounds m).2 := by
  refine (explained_announced (.dawat keyword names)).trans ?_
  by_cases hasks : watchers.reader = true ∧ ∀ name ∈ names, m.scopes.has name.lexeme = true
  · obtain ⟨hr, hd⟩ := hasks
    have hshown := (run_dawat_declared rounds keyword hr hd).1
    exact explained_cons hshown fun _ => ⟨keyword, names, m, h, hd, rfl, hshown⟩
  · have hstopped : watchers.reader = false ∨ ∃ name ∈ names, m.scopes.has name.lexeme = false := by
      by_cases hr : watchers.reader = true
      · exact .inr (by simpa [hr] using hasks)
      · exact .inl (by simpa using hr)
    rw [run_dawat_stopped rounds keyword hstopped]
    exact explained_of_shown rfl

/-- A run explains what it shows from the DAWATs that it comes to. -/
theorem respectsAt_explained : RespectsAt watchers watchers rounds top start
    fun _ m x _ => Explained watchers rounds top start m (x m).2 where
  onScopes := explained_onScopes
  bind := explained_bind
  inScope hbody := ⟨hbody.suffix, hbody.readBy⟩
  announce s := explained_announced s
  ipakita {keyword e _} _ := by
    rw [Stmt.execute]
    refine explained_bind (explained_announced _) fun _ _ _ => ?_
    refine explained_bind (explained_onScopes (onScopes_value e)) fun v _ _ => ?_
    exact explained_bind (explained_print keyword _) fun _ _ _ => explained_pure _
  dawat := explained_dawat

/-! ## Programs -/

theorem explained_reportAll (ds : List Diagnostic) :
    ∀ {m}, Explained watchers rounds top start m (Program.reportAll watchers ds m).2 := by
  induction ds with
  | nil => exact explained_pure _
  | cons d more ih => exact explained_bind (explained_emit rfl) fun _ _ _ => ih

theorem explained_showReading (p : Program) :
    Explained watchers rounds top start m (p.showReading watchers m).2 := by
  refine explained_bind (explained_reportAll _) fun _ _ _ => explained_bind (explained_emit rfl) fun _ _ _ => ?_
  refine explained_bind (explained_reportAll _) fun _ _ _ => ?_
  split
  · exact explained_emit rfl
  · exact explained_pure _

theorem explained_conclude (ending : Except Stop PUnit) :
    Explained watchers rounds top start m (Program.conclude watchers ending m).2 := by
  rcases ending with (f | _) | _
  · exact explained_bind (explained_emit rfl) fun _ _ _ => explained_bind (explained_emit rfl) fun _ _ _ =>
      explained_pure _
  · exact explained_pure _
  · exact explained_bind (explained_emit rfl) fun _ _ _ => explained_pure _

theorem explained_execution {p : Program} (h : Runs watchers rounds top start (.program p) m) :
    Explained watchers rounds top start m (p.execution watchers rounds m).2 := by
  refine explained_bind (explained_showReading p) fun _ m' hreading => ?_
  split
  · next haccepted =>
    have hinterpret := respectsAt_explained.parts.interpret p.statements (h.call (.program haccepted))
    rw [hreading] at hinterpret
    refine explained_bind ?_ fun ending _ _ => explained_conclude ending
    rw [Program.run_observing]
    exact hinterpret
  · exact explained_pure _

end Explained

/-! ## The place of a part among all events -/

theorem suffix_bind {α β : Type} {x : Execution α} {f : α → Execution β} (hf : ∀ a, Consults (f a)) (m : Machine) :
    (x m).2.shown <:+ ((x >>= f) m).2.shown := by
  rw [run_bind]
  rcases x m with ⟨stop | a, m'⟩
  · exact List.suffix_refl _
  · exact (hf a).suffix m'

theorem suffix_next {α β : Type} {x : Execution α} {f : α → Execution β} {a : α} {m' : Machine}
    {shown : List Event} (h : x m = (.ok a, m')) (hs : shown <:+ (f a m').2.shown) :
    shown <:+ ((x >>= f) m).2.shown := by
  rwa [run_bind, h]

/-- Parts of a run that run statements. -/
def Task.runsStatements : Task → Bool
  | .declare _ _ | .store _ | .evaluate _ => false
  | _ => true

theorem Calls.runsStatements {task part : Task} {m' : Machine} (h : Calls watchers rounds task m part m')
    (hp : part.runsStatements = true) : task.runsStatements = true := by
  cases h <;> first | rfl | cases hp

/-- What a part shows stays shown. -/
theorem Calls.suffix {task part : Task} {m' : Machine} (h : Calls watchers rounds task m part m')
    (hp : part.runsStatements = true) :
    (part.after watchers rounds m').shown <:+ (task.after watchers rounds m).shown := by
  have hc := respects_consults watchers
  have hholds : ∀ condition : Expr, Consults (holds condition) := fun condition =>
    consults_onScopes (onScopes_holds condition)
  cases h with
  | @program p m haccepted =>
    have hreading : p.showReading watchers m = (.ok ⟨⟩, (p.showReading watchers m).2) := by
      rw [Program.run_showReading]
    refine suffix_next hreading ?_
    rw [if_pos haccepted]
    have hobserved := suffix_bind hc.conclude (x := observing (Program.interpret watchers rounds p.statements))
      (p.showReading watchers m).2
    rwa [Program.run_observing] at hobserved
  | @statement s more m => exact suffix_bind (fun _ => hc.interpret rounds more) m
  | statements hs => exact suffix_next hs (List.suffix_refl _)
  | pundok hm =>
    subst hm
    dsimp only [Task.after]
    rw [Stmt.execute]
    exact suffix_next (run_announced _ _) (List.suffix_refl _)
  | kungHolds hs htest | kungFails hs htest =>
    subst hs
    dsimp only [Task.after]
    rw [Stmt.execute]
    exact suffix_next (run_announced _ _) (suffix_next htest (List.suffix_refl _))
  | mintras | buhata =>
    dsimp only [Task.after]
    rw [Stmt.execute]
    exact suffix_next (run_announced _ _) (List.suffix_refl _)
  | @first s more m =>
    dsimp only [Task.after]
    rw [executeAll]
    refine suffix_bind (fun flow => ?_) m
    cases flow with
    | normal => exact hc.executeAll rounds more
    | hunong | padayon => exact hc.pure _
  | rest hs =>
    dsimp only [Task.after]
    rw [executeAll]
    exact suffix_next hs (List.suffix_refl _)
  | testHolds htest | testFails htest =>
    dsimp only [Task.after]
    rw [executeFirst]
    exact suffix_next htest (List.suffix_refl _)
  | @otherwise body m =>
    have hlast : (Task.executeFirst [] (some body)).after watchers rounds m =
        (Task.execute body).after watchers rounds m := by
      dsimp only [Task.after]
      rw [executeFirst, executeOtherwise]
    exact hlast ▸ List.suffix_refl _
  | @whileBody condition body left m m' htest =>
    refine suffix_next htest (suffix_bind (fun flow => ?_) m')
    have hagain := (hholds condition).whileHolds (hc.execute rounds body) left
    cases flow with
    | hunong => exact hc.pure _
    | normal | padayon => exact hagain
  | @whileAgain condition body left flow m m' m'' htest hbody hflow =>
    refine suffix_next htest (suffix_next hbody ?_)
    cases flow with
    | hunong => exact absurd rfl hflow
    | normal | padayon => exact List.suffix_refl _
  | @untilBody condition body left m =>
    refine suffix_bind (fun flow => ?_) m
    have hagain : Consults (holds condition >>= fun again =>
        if again then untilFails (holds condition) (body.execute watchers rounds) left else pure .normal) := by
      refine (hholds condition).bind fun again => ?_
      split
      · exact (hholds condition).untilFails (hc.execute rounds body) left
      · exact hc.pure _
    cases flow with
    | hunong => exact hc.pure _
    | normal | padayon => exact hagain
  | @untilAgain condition body left flow m m' m'' hbody hflow htest =>
    refine suffix_next hbody ?_
    cases flow with
    | hunong => exact absurd rfl hflow
    | normal | padayon => exact suffix_next htest (List.suffix_refl _)
  | _ => cases hp

/-- What a part of a run shows is at its place among the events of the run. -/
theorem Runs.suffix {top part : Task} {start : Machine} (h : Runs watchers rounds top start part m)
    (hp : part.runsStatements = true) :
    (part.after watchers rounds m).shown <:+ (top.after watchers rounds start).shown := by
  induction h with
  | self => exact List.suffix_refl _
  | call _ hcall ih => exact (hcall.suffix hp).trans (ih (hcall.runsStatements hp))

/-! ## Whole runs -/

/-- The answers that were got so far, in order. -/
def Machine.answers (m : Machine) : List Reply := m.shown.reverse.filterMap Event.answer?

theorem answers_of_shown {e : Event} {m' : Machine} (h : m'.shown = e :: m.shown) :
    m'.answers = m.answers ++ e.answer?.toList := by
  unfold Machine.answers
  rw [h, List.reverse_cons, List.filterMap_append]
  cases he : e.answer? <;> simp [he]

theorem answers_announced (s : Stmt) (m : Machine) : (announced watchers s m).answers = m.answers := by
  unfold announced announce log
  split
  · exact (answers_of_shown rfl).trans (List.append_nil _)
  · rfl

/-- The part of the input that a run did not ask for makes no difference to it.
An input that answers alike as often as the run asks leads to the same run, and
the answers are taken in order. Each DAWAT of the run whose names are all
declared gets one answer, the next, and no other DAWAT gets any. Each answer
among the events of the run was shown by such a DAWAT. -/
theorem unread_input_is_irrelevant (source : Text) (watchers : Watchers) (rounds : Nat) (replies : List Reply) :
    let p := Program.ofSource source
    let run := p.run watchers rounds replies
    let n := run.answers.length
    (∀ replies', firstAnswers n replies' = firstAnswers n replies →
      p.run watchers rounds replies' = { run with unread := replies'.drop n }) ∧
    run.answers = firstAnswers n replies ∧ run.unread = replies.drop n ∧
    (∀ keyword names m, Runs watchers rounds (.program p) (.fresh replies) (.execute (.dawat keyword names)) m →
      let after := ((Stmt.dawat keyword names).execute watchers rounds m).2
      after.shown.reverse <+: run.events ∧
      (watchers.reader = true → (∀ name ∈ names, m.scopes.has name.lexeme = true) →
        after.answers = m.answers ++ [nextReply m.replies] ∧ after.replies = m.replies.tail) ∧
      (watchers.reader = false ∨ (∃ name ∈ names, m.scopes.has name.lexeme = false) →
        after.answers = m.answers ∧ after.replies = m.replies)) ∧
    ∀ before e after, run.events = before ++ e :: after → e.answer? ≠ none →
      ∃ keyword names m, Runs watchers rounds (.program p) (.fresh replies) (.execute (.dawat keyword names)) m ∧
        (∀ name ∈ names, m.scopes.has name.lexeme = true) ∧
        (announced watchers (.dawat keyword names) m).shown.reverse = before ∧
        ((Stmt.dawat keyword names).execute watchers rounds m).2.shown.reverse = before ++ [e] := by
  intro p run n
  obtain ⟨hanswers, hsame⟩ := Program.consults_run watchers rounds replies p
  refine ⟨hsame, hanswers, congrArg RunResult.unread (hsame replies rfl), ?_, ?_⟩
  · intro keyword names m hruns after
    refine ⟨?_, fun hr hd => ?_, fun hstopped => ?_⟩
    · exact List.reverse_prefix.2 (hruns.suffix rfl)
    · obtain ⟨hshown, hreplies⟩ := run_dawat_declared rounds keyword hr hd
      refine ⟨?_, hreplies⟩
      rw [answers_of_shown hshown, answers_announced, answer?_answerEvent]
      rfl
    · have hafter : after = announced watchers (.dawat keyword names) m := run_dawat_stopped rounds keyword hstopped
      rw [hafter]
      exact ⟨answers_announced _ m, announced_replies _ m⟩
  · intro before e after hevents he
    have hall : (p.execution watchers rounds (.fresh replies)).2.shown = (before ++ e :: after).reverse := by
      rw [← hevents]
      exact (List.reverse_reverse _).symm
    have hsuffix : e :: before.reverse <:+ (p.execution watchers rounds (.fresh replies)).2.shown :=
      ⟨after.reverse, by simp [hall]⟩
    obtain ⟨keyword, names, m, hruns, hd, hbefore, hshown⟩ :=
      (explained_execution .self).readBy he hsuffix List.nil_suffix
    exact ⟨keyword, names, m, hruns, hd, by simp [hbefore], by simp [hshown]⟩

/-- A loop that ends when it reads a zero is not changed by what comes after it. -/
theorem unread_input_is_irrelevant_loop :
    let source : Text := "SUGOD\nMUGNA NUMERO x=1\nMINTRAS (x > 0) PUNDOK\x7b\nDAWAT: x\n\x7d\nKATAPUSAN"
    let run := (Program.ofSource source).run {} 3 [.line "2", .line "0", .line "7"]
    run.outcome = .ok ∧ run.events = [.read "2", .read "0"] ∧
      (Program.ofSource source).run {} 3 [.line "2", .line "0", .failure "closed"] =
        { run with unread := [.failure "closed"] } := by
  intro source run
  obtain ⟨hsame, -⟩ := unread_input_is_irrelevant source {} 3 [.line "2", .line "0", .line "7"]
  have hread : run.outcome = .ok ∧ run.events = [.read "2", .read "0"] := by decide +kernel
  have hn : run.answers.length = 2 := by simp [RunResult.answers, hread.2, Event.answer?]
  have hrun := hsame [.line "2", .line "0", .failure "closed"]
  rw [hn] at hrun
  exact ⟨hread.1, hread.2, hrun rfl⟩

end BisayaPlus
