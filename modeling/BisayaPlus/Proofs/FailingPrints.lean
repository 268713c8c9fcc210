import BisayaPlus.Proofs.Blame
import BisayaPlus.Proofs.Jumps
import BisayaPlus.Proofs.Observers
import BisayaPlus.Proofs.Parts
/-!
# A print that fails

A program is run twice, with a printer that never fails and with one that fails
at some print. Up to this print the two runs are the same. There the second run
stops: on the way out of blocks, alternatives and loops nothing is run any more,
and all that is shown is the report of the failure.
-/

set_option autoImplicit false

namespace BisayaPlus

open Execution

/-! ## Printers and prints -/

/-- A printer whose first failure is at a print, counted from one. -/
structure FailingPrinter where
  failure : Nat → Option Text
  first : Nat
  reason : Text
  first_pos : 0 < first
  failure_of_lt {k : Nat} : k < first → failure k = none
  failure_first : failure first = some reason

/-- The watchers with a printer that never fails. -/
def Watchers.unfailing (watchers : Watchers) : Watchers := { watchers with printer := some fun _ => none }

/-- The watchers with a printer that fails. -/
def Watchers.failing (watchers : Watchers) (printer : FailingPrinter) : Watchers :=
  { watchers with printer := some printer.failure }

/-- The machine has printed fewer than `n` lines, and has counted them. -/
structure PrintsBelow (n : Nat) (m : Machine) : Prop where
  counted : m.prints = m.shown.countP Event.isPrinted
  lt : m.prints < n

theorem PrintsBelow.shows {n : Nat} {m m' : Machine} {e : Event} (h : PrintsBelow n m) (he : e.isPrinted = false)
    (hprints : m'.prints = m.prints) (hshown : m'.shown = e :: m.shown) : PrintsBelow n m' where
  counted := by rw [hprints, hshown, List.countP_cons_of_neg (by simp [he]), h.counted]
  lt := hprints ▸ h.lt

/-! ## Runs that are cut -/

section Truncated

variable (watchers : Watchers) (printer : FailingPrinter) (rounds : Nat) (top : Task) (start : Machine)

/-- An IPAKITA of the run prints a line right after these events. With the
printer that fails, it fails there. -/
def PrintedBy (keyword : Token) (line : Text) (earlier : List Event) : Prop :=
  ∃ e m, Runs watchers.unfailing rounds top start (.execute (.ipakita keyword e)) m ∧
    ((Stmt.ipakita keyword e).execute watchers.unfailing rounds m).2.shown = .printed line :: earlier ∧
    ((Stmt.ipakita keyword e).execute (watchers.failing printer) rounds m).1 =
      .error (.fault ⟨keyword, .printFailed printer.reason⟩)

/-- How the run with the printer that fails ends, if the other run ends so: in the
same way if there were too few prints, and otherwise at the print that fails,
with the events before it. -/
inductive Truncated {α : Type} : Except Stop α × Machine → Except Stop α × Machine → Prop where
  | same {ran : Except Stop α × Machine} : PrintsBelow printer.first ran.2 → Truncated ran ran
  | cut {ran : Except Stop α × Machine} {keyword : Token} {line : Text} {m : Machine} :
      PrintedBy watchers printer rounds top start keyword line m.shown → .printed line :: m.shown <:+ ran.2.shown →
      m.shown.countP Event.isPrinted + 1 = printer.first →
      Truncated ran (.error (.fault ⟨keyword, .printFailed printer.reason⟩), m)

/-- From this machine, if it has printed few enough lines, the second run is the
first one up to the print that fails. -/
structure TruncatesAt {α : Type} (m : Machine) (x y : Execution α) : Prop where
  grows : m.shown <:+ (x m).2.shown
  truncated : PrintsBelow printer.first m → Truncated watchers printer rounds top start (x m) (y m)

end Truncated

section Steps

variable {watchers : Watchers} {printer : FailingPrinter} {rounds : Nat} {top : Task} {start : Machine} {α β : Type}
  {m : Machine}

/-- A run that shows at most one event, and prints nothing. -/
theorem truncatesAt_unprinted {x : Execution α} (hprints : (x m).2.prints = m.prints)
    (hshown : (x m).2.shown = m.shown ∨ ∃ e, e.isPrinted = false ∧ (x m).2.shown = e :: m.shown) :
    TruncatesAt watchers printer rounds top start m x x := by
  rcases hshown with hshown | ⟨e, he, hshown⟩
  · refine ⟨hshown ▸ List.suffix_refl _, fun hm => .same ⟨?_, ?_⟩⟩
    · rw [hprints, hshown, hm.counted]
    · exact hprints ▸ hm.lt
  · exact ⟨hshown ▸ List.suffix_cons e _, fun hm => .same (hm.shows he hprints hshown)⟩

theorem truncatesAt_onScopes {x : Execution α} (hx : OnScopes x) :
    TruncatesAt watchers printer rounds top start m x x := by
  obtain ⟨result, s, hrun⟩ := hx m.scopes
  refine truncatesAt_unprinted ?_ (.inl ?_) <;> rw [hrun m rfl]

theorem TruncatesAt.bind {x y : Execution α} {f g : α → Execution β}
    (hx : TruncatesAt watchers printer rounds top start m x y)
    (hf : ∀ a m', x m = (.ok a, m') → TruncatesAt watchers printer rounds top start m' (f a) (g a)) :
    TruncatesAt watchers printer rounds top start m (x >>= f) (y >>= g) := by
  obtain ⟨hgrows, htruncated⟩ := hx
  have hnext : (x m).2.shown <:+ ((x >>= f) m).2.shown := by
    rw [run_bind]
    rcases hrun : x m with ⟨stop | a, m'⟩
    · exact List.suffix_refl _
    · exact (hf a m' hrun).grows
  refine ⟨hgrows.trans hnext, fun hm => ?_⟩
  have hcases := htruncated hm
  generalize hy : y m = ran at hcases
  cases hcases with
  | same hbelow =>
    rw [run_bind, run_bind, hy]
    rcases hrun : x m with ⟨stop | a, m'⟩
    · rw [hrun] at hbelow
      exact .same hbelow
    · rw [hrun] at hbelow
      exact (hf a m' hrun).truncated hbelow
  | cut hby hsuffix hcount =>
    rw [run_bind y, hy]
    exact .cut hby (hsuffix.trans hnext) hcount

theorem TruncatesAt.inScope {x y : Execution α}
    (hx : TruncatesAt watchers printer rounds top start { m with scopes := m.scopes.push } x y) :
    TruncatesAt watchers printer rounds top start m (inScope x) (inScope y) := by
  refine ⟨hx.grows, fun hm => ?_⟩
  have hcases := hx.truncated ⟨hm.counted, hm.lt⟩
  unfold Execution.inScope
  generalize x { m with scopes := m.scopes.push } = ran at hcases
  generalize y { m with scopes := m.scopes.push } = ran' at hcases
  cases hcases with
  | same hbelow => exact .same ⟨hbelow.counted, hbelow.lt⟩
  | @cut keyword line m' hby hsuffix hcount =>
    exact .cut (m := { m' with scopes := m'.scopes.pop }) hby hsuffix hcount

theorem truncatesAt_announce (s : Stmt) : TruncatesAt watchers printer rounds top start m
    (announce watchers.unfailing s) (announce (watchers.failing printer) s) := by
  refine truncatesAt_unprinted (x := announce watchers.unfailing s) ?_ ?_
  · obtain ⟨shown, h⟩ := run_announce watchers.unfailing s m
    rw [h]
  · unfold announce log
    split
    · exact .inr ⟨_, rfl, rfl⟩
    · exact .inl rfl

theorem truncatesAt_request (keyword : Token) : TruncatesAt watchers printer rounds top start m
    (request watchers.unfailing keyword) (request (watchers.failing printer) keyword) := by
  refine truncatesAt_unprinted (x := request watchers.unfailing keyword) ?_ ?_
  · cases hr : watchers.unfailing.reader with
    | false => rw [run_request_absent hr]
    | true => rw [run_request hr]
  · cases hr : watchers.unfailing.reader with
    | false => exact .inl (by rw [run_request_absent hr])
    | true =>
      refine .inr ⟨answerEvent (nextReply m.replies), ?_, by rw [run_request hr]⟩
      cases nextReply m.replies <;> rfl

theorem truncatesAt_dawat (keyword : Token) (names : List Token) : TruncatesAt watchers printer rounds top start m
    ((Stmt.dawat keyword names).execute watchers.unfailing rounds)
    ((Stmt.dawat keyword names).execute (watchers.failing printer) rounds) := by
  unfold Stmt.execute
  refine (truncatesAt_announce _).bind fun _ _ _ => .bind ?_ fun _ _ _ => truncatesAt_onScopes (onScopes_pure _)
  refine (truncatesAt_onScopes (onScopes_requireAll names)).bind fun _ _ _ =>
    (truncatesAt_request keyword).bind fun line _ _ => ?_
  dsimp only
  split
  · exact truncatesAt_onScopes (onScopes_store _)
  · exact truncatesAt_onScopes (onScopes_throw _)

/-- The only statement in which the two runs differ. -/
theorem truncatesAt_ipakita {keyword : Token} {e : Expr}
    (h : Runs watchers.unfailing rounds top start (.execute (.ipakita keyword e)) m) :
    TruncatesAt watchers printer rounds top start m ((Stmt.ipakita keyword e).execute watchers.unfailing rounds)
      ((Stmt.ipakita keyword e).execute (watchers.failing printer) rounds) := by
  have hunfold : ∀ w : Watchers, (Stmt.ipakita keyword e).execute w rounds = (announce w (.ipakita keyword e) >>=
      fun _ => value e >>= fun v => print w keyword v.display >>= fun _ => pure .normal) := fun w => by
    rw [Stmt.execute]
  rw [hunfold, hunfold]
  refine (truncatesAt_announce _).bind fun _ m₁ hannounce => (truncatesAt_onScopes (onScopes_value e)).bind
    fun v m₂ hvalue => .bind ?_ fun _ _ _ => truncatesAt_onScopes (onScopes_pure _)
  have hprint : print watchers.unfailing keyword v.display m₂ = _ := run_print_shows rfl rfl keyword v.display
  refine ⟨by rw [hprint]; exact List.suffix_cons _ _, fun hm => ?_⟩
  rcases Nat.lt_or_eq_of_le (Nat.succ_le_of_lt hm.lt) with hlt | heq
  · -- neither printer fails
    have hprint' : print (watchers.failing printer) keyword v.display m₂ = _ :=
      run_print_shows rfl (printer.failure_of_lt hlt) keyword v.display
    rw [hprint, hprint']
    exact .same ⟨by rw [List.countP_cons_of_pos rfl, hm.counted], hlt⟩
  · have hfails : print (watchers.failing printer) keyword v.display m₂ = _ :=
      run_print_fails rfl (heq ▸ printer.failure_first) keyword v.display
    rw [hprint, hfails]
    refine .cut ⟨e, m, h, ?_, ?_⟩ (List.suffix_refl _) (by rw [← hm.counted]; exact heq)
    · rw [hunfold, run_bind, hannounce]
      dsimp only
      rw [run_bind, hvalue]
      dsimp only
      rw [run_bind, hprint]
      rfl
    · have hannounce' : announce (watchers.failing printer) (.ipakita keyword e) m = (.ok ⟨⟩, m₁) := hannounce
      rw [hunfold, run_bind, hannounce']
      dsimp only
      rw [run_bind, hvalue]
      dsimp only
      rw [run_bind, hfails]

theorem respectsAt_truncatesAt (watchers : Watchers) (printer : FailingPrinter) (rounds : Nat) (top : Task)
    (start : Machine) : RespectsAt watchers.unfailing (watchers.failing printer) rounds top start
      fun _ m x y => TruncatesAt watchers printer rounds top start m x y where
  onScopes := truncatesAt_onScopes
  bind := TruncatesAt.bind
  inScope := TruncatesAt.inScope
  announce := truncatesAt_announce
  ipakita := truncatesAt_ipakita
  dawat {keyword names _} _ := truncatesAt_dawat keyword names

end Steps

/-! ## Whole runs -/

theorem Runs.trans {watchers : Watchers} {rounds : Nat} {top task part : Task} {start m m' : Machine}
    (h : Runs watchers rounds top start task m) (h' : Runs watchers rounds task m part m') :
    Runs watchers rounds top start part m' := by
  induction h' with
  | self => exact h
  | call _ hcall ih => exact ih.call hcall

namespace Program

/-- The run of an accepted program, told from the run of its statements. -/
theorem run_interpreted {p : Program} (watchers : Watchers) (rounds : Nat) (replies : List Reply)
    (h : p.accepted = true) :
    let ran := interpret watchers rounds p.statements (p.showReading watchers (.fresh replies)).2
    p.run watchers rounds replies =
      ⟨outcomeOf ran.1, ran.2.shown.reverse ++ endingEvents watchers ran.1, ran.2.replies⟩ := by
  intro ran
  have hexecution : p.execution watchers rounds (.fresh replies) =
      (.ok (outcomeOf ran.1), after ran.2 (endingEvents watchers ran.1)) := by
    unfold execution
    rw [Execution.run_bind, run_showReading]
    dsimp only
    rw [h, if_pos rfl, Execution.run_bind, run_observing]
    dsimp only
    rw [run_conclude]
    simp only [ran, run_showReading]
  unfold run
  rw [hexecution]
  simp [after]

theorem countP_isPrinted_eq_zero {events : List Event} (h : ∀ e ∈ events, e.isExchange = false) :
    events.countP Event.isPrinted = 0 := by
  refine List.countP_eq_zero.2 fun e he => ?_
  have hexchange := h e he
  cases e with
  | printed line => cases hexchange
  | _ => exact Bool.false_ne_true

/-- The keyword of an IPAKITA that a run comes to is a token of the source. -/
theorem keyword_of_runs {source : Text} {watchers : Watchers} {rounds : Nat} {start m : Machine} {keyword : Token}
    {e : Expr} (h : Runs watchers rounds (.interpret (ofSource source).statements) start
      (.execute (.ipakita keyword e)) m) : keyword ∈ (scan source).tokens ∧ keyword.kind = .ipakita := by
  have hkeyword : ∀ {inLoop : Bool}, (Stmt.ipakita keyword e).WellFormed (IsTokenOf source)
      ((ofSource source).accepted = true) inLoop → keyword ∈ (scan source).tokens ∧ keyword.kind = .ipakita :=
    fun | .ipakita hT hk _ => ⟨hT.mem, hk⟩
  rcases (h.inRound (wellFormed_ofSource source)).2 _ .execute with hw | ⟨-, hw, -⟩
  · exact hkeyword hw
  · exact hkeyword hw

section Cut

variable {p : Program} {watchers : Watchers} {rounds : Nat} {replies : List Reply}

/-- Both runs of the statements start on the same machine, which has printed
nothing. -/
theorem showReading_failing (watchers : Watchers) (printer : FailingPrinter) (p : Program) (m : Machine) :
    p.showReading (watchers.failing printer) m = p.showReading watchers.unfailing m := by
  rw [run_showReading, run_showReading]
  rfl

theorem printsBelow_showReading (printer : FailingPrinter) (hreporter : watchers.reporter = true) :
    PrintsBelow printer.first (p.showReading watchers.unfailing (.fresh replies)).2 := by
  have hreading := countP_isPrinted_eq_zero (tells_readingEvents watchers.unfailing p hreporter).exchanges
  rw [run_showReading]
  refine ⟨?_, printer.first_pos⟩
  simp [after, Machine.fresh, hreading]

/-- The lines that a run prints are printed by its statements. -/
theorem countP_run (hreporter : watchers.reporter = true) (h : p.accepted = true) :
    (p.run watchers rounds replies).events.countP Event.isPrinted =
      (interpret watchers rounds p.statements (p.showReading watchers (.fresh replies)).2).2.shown.countP
        Event.isPrinted := by
  have hending := fun ending => countP_isPrinted_eq_zero (tells_endingEvents watchers ending hreporter).exchanges
  rw [run_interpreted watchers rounds replies h, List.countP_append, hending, List.countP_reverse, Nat.add_zero]

end Cut

/-- A print that fails cuts the run and changes nothing else. If the run with a
printer that never fails prints often enough, the run with the other printer has
the same events up to the print that fails. Then it reports the reason, on the
line of the IPAKITA that was to print, and nothing more is printed, read or
reported. If there are fewer prints, the two runs are the same. -/
theorem failing_print_cuts_run (source : Text) (watchers : Watchers) (rounds : Nat) (replies : List Reply)
    (printer : FailingPrinter) :
    let p := ofSource source
    let heard : Watchers := { watchers with reporter := true }
    let whole := p.run heard.unfailing rounds replies
    let cut := p.run (heard.failing printer) rounds replies
    (printer.first ≤ whole.events.countP Event.isPrinted → ∃ before line after keyword e m,
      whole.events = before ++ .printed line :: after ∧ before.countP Event.isPrinted + 1 = printer.first ∧
      Runs heard.unfailing rounds (.program p) (.fresh replies) (.execute (.ipakita keyword e)) m ∧
      ((Stmt.ipakita keyword e).execute heard.unfailing rounds m).2.shown.reverse = before ++ [.printed line] ∧
      ((Stmt.ipakita keyword e).execute (heard.failing printer) rounds m).1 =
        .error (.fault ⟨keyword, .printFailed printer.reason⟩) ∧
      keyword ∈ (scan source).tokens ∧ keyword.kind = .ipakita ∧
      cut.outcome = .runtimeError ∧
      cut.events = before ++
        .reported { phase := .running, line := keyword.line, place := keyword.place, message := printer.reason } ::
        logEvents watchers .debug "execution aborted" [("phase", .text "exec"), ("error", .text printer.reason)]) ∧
    (whole.events.countP Event.isPrinted < printer.first → cut = whole) := by
  intro p heard whole cut
  cases h : p.accepted with
  | false =>
    -- a refused program prints nothing
    have hwhole : whole = _ := run_refused heard.unfailing rounds replies h
    have hcut : cut = whole := (run_refused (heard.failing printer) rounds replies h).trans hwhole.symm
    refine ⟨fun hle => ?_, fun _ => hcut⟩
    rw [hwhole, countP_isPrinted_eq_zero (tells_readingEvents heard.unfailing p rfl).exchanges] at hle
    exact absurd printer.first_pos (Nat.not_lt_of_le hle)
  | true =>
    have hruns : Runs heard.unfailing rounds (.program p) (.fresh replies) (.interpret p.statements) _ :=
      Runs.self.call (.program h)
    have hbelow : PrintsBelow printer.first (p.showReading heard.unfailing (.fresh replies)).2 :=
      printsBelow_showReading printer rfl
    have hcount : whole.events.countP Event.isPrinted = _ := countP_run rfl h
    have hwhole : whole = _ := run_interpreted heard.unfailing rounds replies h
    have hcut : cut = _ := run_interpreted (heard.failing printer) rounds replies h
    rw [showReading_failing] at hcut
    generalize (p.showReading heard.unfailing (.fresh replies)).2 = start at hruns hbelow hcount hwhole hcut
    have htruncated := ((respectsAt_truncatesAt heard printer rounds (.interpret p.statements) start).parts.interpret
      p.statements .self).truncated hbelow
    generalize interpret heard.unfailing rounds p.statements start = ran at hcount hwhole htruncated
    generalize interpret (heard.failing printer) rounds p.statements start = ran' at hcut htruncated
    cases htruncated with
    | same hran =>
      refine ⟨fun hle => ?_, fun _ => hcut.trans hwhole.symm⟩
      rw [hcount, ← hran.counted] at hle
      exact absurd hran.lt (Nat.not_lt_of_le hle)
    | @cut keyword line m hby hsuffix hfirst =>
      obtain ⟨e, m₀, hipakita, hshown, hfails⟩ := hby
      obtain ⟨new, hnew⟩ := hsuffix
      obtain ⟨hmem, hkind⟩ := keyword_of_runs hipakita
      refine ⟨fun _ => ⟨m.shown.reverse, line, new.reverse ++ endingEvents heard.unfailing ran.1, keyword, e, m₀,
        ?_, ?_, hruns.trans hipakita, ?_, hfails, hmem, hkind, ?_, ?_⟩, fun hlt => ?_⟩
      · rw [hwhole, ← hnew]
        simp
      · rw [List.countP_reverse, hfirst]
      · simp [hshown]
      · rw [hcut]
        rfl
      · rw [hcut]
        rfl
      · rw [hcount, ← hnew, List.countP_append, List.countP_cons_of_pos rfl] at hlt
        omega

/-- The second round of a loop is cut, and its third is not run. -/
theorem failing_print_cuts_run_loop :
    let source : Text := "SUGOD\nMUGNA NUMERO x=0\nMINTRAS (x < 3) PUNDOK\x7b\nx++\nIPAKITA: x\n\x7d\nKATAPUSAN"
    let printer : FailingPrinter :=
      { failure := fun n => if n = 2 then some "closed" else none, first := 2, reason := "closed",
        first_pos := by decide, failure_of_lt := fun h => if_neg (Nat.ne_of_lt h), failure_first := rfl }
    ((ofSource source).run (Watchers.unfailing {}) 4 []).events = [.printed "1", .printed "2", .printed "3"] ∧
      ((ofSource source).run (Watchers.failing {} printer) 4 []).outcome = .runtimeError ∧
      ∃ keyword : Token, keyword.kind = .ipakita ∧
        ((ofSource source).run (Watchers.failing {} printer) 4 []).events =
          [.printed "1", .reported ⟨.running, keyword.line, keyword.place, "closed"⟩] := by
  intro source printer
  have hwhole : ((ofSource source).run (Watchers.unfailing {}) 4 []).events =
      [.printed "1", .printed "2", .printed "3"] := by decide +kernel
  have hle : printer.first ≤ ((ofSource source).run (Watchers.unfailing {}) 4 []).events.countP Event.isPrinted := by
    rw [hwhole]
    decide
  obtain ⟨hcut, -⟩ := failing_print_cuts_run source {} 4 [] printer
  obtain ⟨before, line, after, keyword, e, m, hevents, hcount, -, -, -, -, hkind, houtcome, hshown⟩ := hcut hle
  -- one line is printed before the one that fails
  have hbefore : before = [.printed "1"] := by
    have hsplit := hwhole.symm.trans hevents
    rcases before with _ | ⟨first, _ | ⟨second, more⟩⟩
    · cases hcount
    · rw [(List.cons.inj hsplit).1]
    · obtain ⟨hfirst, hrest⟩ := List.cons.inj hsplit
      obtain ⟨hsecond, -⟩ := List.cons.inj hrest
      rw [← hfirst, ← hsecond, List.countP_cons_of_pos rfl, List.countP_cons_of_pos rfl] at hcount
      have htwo : printer.first = 2 := rfl
      omega
  subst hbefore
  exact ⟨hwhole, houtcome, keyword, hkind, hshown⟩

end Program

end BisayaPlus
