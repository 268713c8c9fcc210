import BisayaPlus.Proofs.Endings
/-!
# The outcome of a run and what it shows

The events of a run are those of reading the program, then those of its
statements, then those that tell how it ended. Reports are only among the first
and the last, so the outcome can be told from the reports.
-/

set_option autoImplicit false

namespace BisayaPlus

open Execution

/-- A line was printed, or the input was asked for one. -/
def Event.isExchange : Event → Bool
  | printed _ | read _ | readFailed _ => true
  | reported _ | logged _ => false

/-- The reports of a run, in order. -/
def RunResult.reports (r : RunResult) : List Diagnostic := r.events.filterMap Event.report?

namespace Program

/-! ## Reading and ending -/

/-- The events of these reports. -/
def reportEvents (watchers : Watchers) (ds : List Diagnostic) : List Event :=
  if watchers.reporter then ds.map .reported else []

/-- The event of a log entry, if its level is wanted. -/
def logEvents (watchers : Watchers) (level : Level) (message : Text) (fields : List (Text × LogField)) : List Event :=
  if watchers.logger.any (·.shows level) then [.logged ⟨level, message, fields⟩] else []

/-- What is shown of reading the program. -/
def readingEvents (watchers : Watchers) (p : Program) : List Event :=
  reportEvents watchers p.scanned.diagnostics ++
    logEvents watchers .debug "scan finished" [
      ("phase", .text "lexer"), ("tokens", .number p.scanned.tokens.length), ("lines", .number p.scanned.lastLine)] ++
    reportEvents watchers p.tokenDiagnostics ++
    if p.parsed.ended then
      logEvents watchers .debug "parse finished" [
        ("phase", .text "parser"), ("statements", .number p.statements.length),
        ("errors", .number p.diagnostics.length)]
    else []

/-- What is shown of how the statements ended. -/
def endingEvents (watchers : Watchers) : Except Stop PUnit → List Event
  | .ok _ => logEvents watchers .debug "execution finished" [("phase", .text "exec")]
  | .error (.fault f) =>
    reportEvents watchers [.ofFault f] ++
      logEvents watchers .debug "execution aborted" [("phase", .text "exec"), ("error", .text f.cause.message)]
  | .error .unfinished => []

/-- The outcome when the statements end so. -/
def outcomeOf : Except Stop PUnit → Outcome
  | .ok _ => .ok
  | .error (.fault _) => .runtimeError
  | .error .unfinished => .unfinished

/-- The machine after these events. -/
def after (m : Machine) (events : List Event) : Machine := { m with shown := events.reverse ++ m.shown }

theorem after_after (m : Machine) (events more : List Event) :
    after (after m events) more = after m (events ++ more) := by
  simp [after]

theorem run_log (watchers : Watchers) (level : Level) (message : Text) (fields : List (Text × LogField)) (m : Machine) :
    log watchers level message fields m = (.ok ⟨⟩, after m (logEvents watchers level message fields)) := by
  unfold log logEvents
  split <;> rfl

theorem run_reportAll (watchers : Watchers) (ds : List Diagnostic) (m : Machine) :
    reportAll watchers ds m = (.ok ⟨⟩, after m (reportEvents watchers ds)) := by
  induction ds generalizing m with
  | nil =>
    have hnone : reportEvents watchers [] = [] := by
      unfold reportEvents
      split <;> rfl
    rw [hnone]
    rfl
  | cons d more ih =>
    have hfirst : report watchers d m = (.ok ⟨⟩, after m (reportEvents watchers [d])) := by
      unfold report reportEvents
      split <;> rfl
    have hsplit : reportEvents watchers (d :: more) = reportEvents watchers [d] ++ reportEvents watchers more := by
      unfold reportEvents
      split <;> rfl
    rw [reportAll, Execution.run_bind, hfirst]
    dsimp only
    rw [ih, after_after, hsplit]

theorem run_showReading (watchers : Watchers) (p : Program) (m : Machine) :
    p.showReading watchers m = (.ok ⟨⟩, after m (p.readingEvents watchers)) := by
  unfold showReading readingEvents
  rw [Execution.run_bind, run_reportAll]
  dsimp only
  rw [Execution.run_bind, run_log]
  dsimp only
  rw [Execution.run_bind, run_reportAll]
  dsimp only
  rw [after_after, after_after, ← List.append_assoc]
  split
  · rw [run_log, after_after]
  · rw [List.append_nil]
    rfl

theorem run_conclude (watchers : Watchers) (ending : Except Stop PUnit) (m : Machine) :
    conclude watchers ending m = (.ok (outcomeOf ending), after m (endingEvents watchers ending)) := by
  rcases ending with (f | _) | _
  · have hreport : report watchers (.ofFault f) m = (.ok ⟨⟩, after m (reportEvents watchers [.ofFault f])) := by
      unfold report reportEvents
      split <;> rfl
    rw [conclude, Execution.run_bind, hreport]
    dsimp only
    rw [Execution.run_bind, run_log]
    dsimp only
    rw [after_after]
    rfl
  · rfl
  · rw [conclude, Execution.run_bind, run_log]
    rfl

/-! ## Whole runs -/

variable {T : Token → Prop} {clean : Prop} {p : Program}

theorem execution_refused (watchers : Watchers) (rounds : Nat) (replies : List Reply) (h : p.accepted = false) :
    p.execution watchers rounds (.fresh replies) =
      (.ok .syntaxError, after (.fresh replies) (p.readingEvents watchers)) := by
  unfold execution
  rw [Execution.run_bind, run_showReading]
  dsimp only
  rw [h]
  rfl

theorem run_refused (watchers : Watchers) (rounds : Nat) (replies : List Reply) (h : p.accepted = false) :
    p.run watchers rounds replies = ⟨.syntaxError, p.readingEvents watchers, replies⟩ := by
  unfold run
  rw [execution_refused watchers rounds replies h]
  simp [after, Machine.fresh]

/-- What the statements do is not changed by what was shown before them. -/
theorem execution_accepted {result : Except Stop PUnit} {m : Machine} {new : List Event} (watchers : Watchers)
    (rounds : Nat) (replies : List Reply) (h : p.accepted = true)
    (hrun : ∀ shown, interpret watchers rounds p.statements { Machine.fresh replies with shown := shown } =
      (result, { m with shown := new ++ shown })) :
    p.execution watchers rounds (.fresh replies) =
      (.ok (outcomeOf result),
        after { m with shown := new ++ (p.readingEvents watchers).reverse } (endingEvents watchers result)) := by
  unfold execution
  rw [Execution.run_bind, run_showReading]
  dsimp only
  rw [h, if_pos rfl, Execution.run_bind, run_observing]
  have hshown : interpret watchers rounds p.statements (after (.fresh replies) (p.readingEvents watchers)) =
      (result, { m with shown := new ++ (p.readingEvents watchers).reverse }) := by
    simpa [after, Machine.fresh] using hrun (p.readingEvents watchers).reverse
  rw [hshown]
  exact run_conclude watchers result _

/-- The run of an accepted program, told from the run of its statements alone. -/
theorem run_accepted (watchers : Watchers) (rounds : Nat) (replies : List Reply) (h : p.accepted = true)
    (hwf : ∀ s ∈ p.statements, s.WellFormed T clean false) :
    let ran := interpret watchers rounds p.statements (.fresh replies)
    Ending (Fault.IsSound T) (fun _ => True) ran.1 ∧ (∀ e ∈ ran.2.shown, e.report? = none) ∧
      p.run watchers rounds replies =
        ⟨outcomeOf ran.1, p.readingEvents watchers ++ ran.2.shown.reverse ++ endingEvents watchers ran.1,
          ran.2.replies⟩ := by
  intro ran
  obtain ⟨result, m, new, hending, hnew, hrun⟩ := ends_interpret watchers rounds hwf (.fresh replies)
  have hran : ran = (result, { m with shown := new ++ [] }) := hrun []
  rw [hran, List.append_nil]
  refine ⟨hending, hnew, ?_⟩
  unfold run
  rw [execution_accepted watchers rounds replies h hrun]
  simp [after]

end Program

/-! ## Reports make no difference -/

mutual

theorem Stmt.execute_reporter (watchers : Watchers) (reporter : Bool) (rounds : Nat) (s : Stmt) :
    s.execute { watchers with reporter := reporter } rounds = s.execute watchers rounds := by
  unfold Stmt.execute
  cases s with
  | expr e => rfl
  | ipakita keyword e => rfl
  | mugna keyword declared names => rfl
  | dawat keyword names => rfl
  | pundok body =>
    dsimp only
    rw [executeAll_reporter]
    rfl
  | kung keyword condition body alternatives otherwise =>
    dsimp only
    rw [body.execute_reporter, executeOtherwise_reporter, executeFirst_reporter]
    rfl
  | mintras keyword condition body =>
    dsimp only
    rw [body.execute_reporter]
    rfl
  | buhata keyword body condition =>
    dsimp only
    rw [body.execute_reporter]
    rfl
  | hunong keyword => rfl
  | padayon keyword => rfl

theorem executeAll_reporter (watchers : Watchers) (reporter : Bool) (rounds : Nat) (body : List Stmt) :
    executeAll { watchers with reporter := reporter } rounds body = executeAll watchers rounds body := by
  cases body with
  | nil => rw [executeAll, executeAll]
  | cons s more =>
    rw [executeAll, executeAll, s.execute_reporter, executeAll_reporter]

theorem executeFirst_reporter (watchers : Watchers) (reporter : Bool) (rounds : Nat) (otherwise : Execution Flow)
    (alternatives : List (Expr × Stmt)) :
    executeFirst { watchers with reporter := reporter } rounds otherwise alternatives =
      executeFirst watchers rounds otherwise alternatives := by
  cases alternatives with
  | nil => rw [executeFirst, executeFirst]
  | cons first more =>
    obtain ⟨condition, body⟩ := first
    rw [executeFirst, executeFirst, body.execute_reporter, executeFirst_reporter]

theorem executeOtherwise_reporter (watchers : Watchers) (reporter : Bool) (rounds : Nat) (last : Option Stmt) :
    executeOtherwise { watchers with reporter := reporter } rounds last = executeOtherwise watchers rounds last := by
  cases last with
  | none => rw [executeOtherwise, executeOtherwise]
  | some body => rw [executeOtherwise, executeOtherwise, body.execute_reporter]

end

namespace Program

theorem interpret_reporter (watchers : Watchers) (reporter : Bool) (rounds : Nat) (statements : List Stmt) :
    interpret { watchers with reporter := reporter } rounds statements = interpret watchers rounds statements := by
  induction statements with
  | nil => rfl
  | cons s more ih => rw [interpret, interpret, s.execute_reporter, ih]

/-! ## Reports -/

section Reports

variable {watchers : Watchers} {ds : List Diagnostic} {level : Level} {message : Text}
  {fields : List (Text × LogField)}

/-- These events are reports and log entries, and these are the reports. -/
structure Tells (events : List Event) (ds : List Diagnostic) : Prop where
  reports : events.filterMap Event.report? = ds
  exchanges : ∀ e ∈ events, e.isExchange = false

theorem Tells.append {events events' : List Event} {ds ds' : List Diagnostic} (h : Tells events ds)
    (h' : Tells events' ds') : Tells (events ++ events') (ds ++ ds') where
  reports := by rw [List.filterMap_append, h.reports, h'.reports]
  exchanges := List.forall_mem_append.2 ⟨h.exchanges, h'.exchanges⟩

theorem tells_nil : Tells [] [] := ⟨rfl, by simp⟩

theorem tells_reportEvents (h : watchers.reporter = true) (ds : List Diagnostic) :
    Tells (reportEvents watchers ds) ds := by
  unfold reportEvents
  rw [if_pos h]
  constructor
  · rw [List.filterMap_map]
    exact List.filterMap_some
  · intro e he
    obtain ⟨d, -, rfl⟩ := List.mem_map.1 he
    rfl

theorem tells_logEvents : Tells (logEvents watchers level message fields) [] := by
  unfold logEvents
  split
  · exact ⟨rfl, by simp [Event.isExchange]⟩
  · exact tells_nil

/-- All faults are reported while the program is read. -/
theorem tells_readingEvents (watchers : Watchers) (p : Program) (h : watchers.reporter = true) :
    Tells (p.readingEvents watchers) p.diagnostics := by
  rw [← List.append_nil p.diagnostics, diagnostics, ← List.append_nil p.scanned.diagnostics]
  refine (((tells_reportEvents h _).append tells_logEvents).append (tells_reportEvents h _)).append ?_
  split
  · exact tells_logEvents
  · exact tells_nil

/-- The reports of how the statements ended. -/
def endingReports : Except Stop PUnit → List Diagnostic
  | .error (.fault f) => [.ofFault f]
  | _ => []

theorem tells_endingEvents (watchers : Watchers) (ending : Except Stop PUnit) (h : watchers.reporter = true) :
    Tells (endingEvents watchers ending) (endingReports ending) := by
  rcases ending with (f | _) | _
  · exact (tells_reportEvents h [.ofFault f]).append tells_logEvents
  · exact tells_nil
  · exact tells_logEvents

/-- Without a reporter, the other events stay. -/
theorem reportEvents_off (h : watchers.reporter = true) :
    reportEvents { watchers with reporter := false } ds = (reportEvents watchers ds).filter (·.report?.isNone) := by
  unfold reportEvents
  rw [if_pos h]
  induction ds with
  | nil => rfl
  | cons d more ih => simp [Event.report?]

theorem logEvents_off : logEvents { watchers with reporter := false } level message fields =
    (logEvents watchers level message fields).filter (·.report?.isNone) := by
  unfold logEvents
  dsimp only
  split
  · rfl
  · rfl

theorem readingEvents_off (p : Program) (h : watchers.reporter = true) :
    p.readingEvents { watchers with reporter := false } =
      (p.readingEvents watchers).filter (·.report?.isNone) := by
  unfold readingEvents
  rw [List.filter_append, List.filter_append, List.filter_append, ← reportEvents_off h, ← reportEvents_off h,
    ← logEvents_off]
  congr 1
  split
  · exact logEvents_off
  · rfl

theorem endingEvents_off (ending : Except Stop PUnit) (h : watchers.reporter = true) :
    endingEvents { watchers with reporter := false } ending =
      (endingEvents watchers ending).filter (·.report?.isNone) := by
  rcases ending with (f | _) | _
  · unfold endingEvents
    rw [List.filter_append, ← reportEvents_off h, ← logEvents_off]
  · rfl
  · exact logEvents_off

end Reports

/-! ## Outcomes -/

/-- A program is refused for what is reported of its bytes and tokens. -/
theorem phase_of_mem_diagnostics {source : Text} {d : Diagnostic} (h : d ∈ (ofSource source).diagnostics) :
    d.phase = .reading := by
  rcases List.mem_append.1 h with h | h
  · obtain ⟨segment, -, hsegment⟩ := List.mem_filterMap.1 h
    unfold Scan.Segment.diagnostic? at hsegment
    split at hsegment
    · obtain rfl := Option.some.inj hsegment
      rfl
    · cases hsegment
  · obtain ⟨c, -, rfl⟩ := List.mem_map.1 h
    rfl

theorem accepted_iff {p : Program} : p.accepted = true ↔ p.diagnostics = [] := List.isEmpty_iff

/-- A complaint that is not reported stands on a line that is. -/
theorem accepted_iff_faultless {source : Text} : (ofSource source).accepted = true ↔
    (ofSource source).scanned.diagnostics = [] ∧ (ofSource source).parsed.complaints = [] := by
  rw [accepted_iff]
  constructor
  · intro h
    have hbytes : (scan source).diagnostics = [] := (List.append_eq_nil_iff.1 h).1
    refine ⟨hbytes, ?_⟩
    rw [ofSource, diagnostics_ofScanned hbytes] at h
    exact List.map_eq_nil_iff.1 h
  · intro ⟨hbytes, hcomplaints⟩
    have hbytes : (scan source).diagnostics = [] := hbytes
    rw [ofSource, diagnostics_ofScanned hbytes]
    exact List.map_eq_nil_iff.2 hcomplaints

/-- Without a reporter, a run is the same less its reports. -/
theorem run_unheard {T : Token → Prop} {clean : Prop} {p : Program} (watchers : Watchers) (rounds : Nat)
    (replies : List Reply) (hreporter : watchers.reporter = true)
    (hwf : ∀ s ∈ p.statements, s.WellFormed T clean false) :
    p.run { watchers with reporter := false } rounds replies =
      { p.run watchers rounds replies with
        events := (p.run watchers rounds replies).events.filter (·.report?.isNone) } := by
  cases h : p.accepted with
  | false => rw [run_refused _ rounds replies h, run_refused _ rounds replies h, readingEvents_off p hreporter]
  | true =>
    -- the statements run in the same way, and none of their events is a report
    obtain ⟨-, hshown, hrun⟩ := run_accepted watchers rounds replies h hwf
    obtain ⟨-, -, hrun'⟩ := run_accepted { watchers with reporter := false } rounds replies h hwf
    rw [interpret_reporter] at hrun'
    rw [hrun, hrun', readingEvents_off p hreporter, endingEvents_off _ hreporter]
    dsimp only
    have hkept : ∀ shown : List Event, (∀ e ∈ shown, e.report? = none) →
        shown.reverse.filter (·.report?.isNone) = shown.reverse := by
      intro shown hnone
      refine List.filter_eq_self.2 fun e he => ?_
      rw [hnone e (List.mem_reverse.1 he)]
      rfl
    rw [List.filter_append, List.filter_append, hkept _ hshown]

/-- The reports of a run of an accepted program. -/
theorem reports_accepted {p : Program} {watchers : Watchers} {result : Except Stop PUnit} {running : List Event}
    {unread : List Reply} (hreporter : watchers.reporter = true) (h : p.accepted = true)
    (hrunning : ∀ e ∈ running, e.report? = none) :
    RunResult.reports
        ⟨outcomeOf result, p.readingEvents watchers ++ running.reverse ++ endingEvents watchers result, unread⟩ =
      endingReports result := by
  have hreading := (tells_readingEvents watchers p hreporter).reports
  rw [accepted_iff.1 h] at hreading
  have hnone : running.reverse.filterMap Event.report? = [] :=
    List.filterMap_eq_nil_iff.2 fun e he => hrunning e (List.mem_reverse.1 he)
  unfold RunResult.reports
  rw [List.filterMap_append, List.filterMap_append, hreading, hnone,
    (tells_endingEvents watchers result hreporter).reports]
  rfl

/-- Outcomes, and the reports that go with them. -/
inductive Concluded : Outcome → List Diagnostic → Prop where
  | refused {ds : List Diagnostic} : ds ≠ [] → (∀ d ∈ ds, d.phase = .reading) → Concluded .syntaxError ds
  | ok : Concluded .ok []
  | failed {d : Diagnostic} : d.phase = .running → Concluded .runtimeError [d]
  | unfinished : Concluded .unfinished []

section Concluded

variable {outcome : Outcome} {ds : List Diagnostic}

theorem Concluded.ok_iff (h : Concluded outcome ds) (hne : outcome ≠ .unfinished) : outcome = .ok ↔ ds = [] := by
  cases h with
  | refused hds _ => simp [hds]
  | ok => simp
  | failed _ => simp
  | unfinished => exact absurd rfl hne

theorem Concluded.syntaxError_iff (h : Concluded outcome ds) :
    outcome = .syntaxError ↔ ∃ d ∈ ds, d.phase = .reading := by
  cases h with
  | refused hds hphase =>
    obtain ⟨d, hd⟩ := List.exists_mem_of_ne_nil ds hds
    exact ⟨fun _ => ⟨d, hd, hphase d hd⟩, fun _ => rfl⟩
  | failed hphase => simp [hphase]
  | ok => simp
  | unfinished => simp

theorem Concluded.runtimeError_iff (h : Concluded outcome ds) :
    outcome = .runtimeError ↔ (ds.filter (·.phase = .running)).length = 1 := by
  cases h with
  | refused _ hphase =>
    have hnone : ds.filter (·.phase = .running) = [] := List.filter_eq_nil_iff.2 fun d hd => by simp [hphase d hd]
    simp [hnone]
  | failed hphase => simp [hphase]
  | ok => simp
  | unfinished => simp

end Concluded

section OfSource

variable {source : Text} {watchers : Watchers} {rounds : Nat} {replies : List Reply}

theorem wellFormed_statements (source : Text) :
    ∀ s ∈ (ofSource source).statements, s.WellFormed (fun _ => True) False false :=
  ReadProgram.wellFormed_ofTokens (fun _ _ => trivial) False.elim

theorem outcome_eq_syntaxError_iff :
    ((ofSource source).run watchers rounds replies).outcome = .syntaxError ↔ (ofSource source).accepted = false := by
  constructor
  · intro hout
    cases h : (ofSource source).accepted with
    | false => rfl
    | true =>
      obtain ⟨hending, -, hrun⟩ := run_accepted watchers rounds replies h (wellFormed_statements source)
      rw [hrun] at hout
      generalize (interpret watchers rounds (ofSource source).statements (.fresh replies)).1 = result at hending hout
      cases hending <;> cases hout
  · intro h
    rw [run_refused watchers rounds replies h]

theorem concluded_run (hreporter : watchers.reporter = true) :
    Concluded ((ofSource source).run watchers rounds replies).outcome
      ((ofSource source).run watchers rounds replies).reports := by
  cases h : (ofSource source).accepted with
  | false =>
    have hreports : ((ofSource source).run watchers rounds replies).reports = (ofSource source).diagnostics := by
      rw [run_refused watchers rounds replies h]
      exact (tells_readingEvents watchers (ofSource source) hreporter).reports
    rw [outcome_eq_syntaxError_iff.2 h, hreports]
    refine .refused (fun hnil => ?_) fun d hd => phase_of_mem_diagnostics hd
    rw [accepted_iff.2 hnil] at h
    cases h
  | true =>
    obtain ⟨hending, hshown, hrun⟩ := run_accepted watchers rounds replies h (wellFormed_statements source)
    rw [hrun, reports_accepted hreporter h hshown]
    generalize (interpret watchers rounds (ofSource source).statements (.fresh replies)).1 = result at hending
    cases hending with
    | gave _ => exact .ok
    | fault _ => exact .failed rfl
    | unfinished => exact .unfinished

/-- A refused program does nothing. -/
theorem silent_of_syntaxError (hout : ((ofSource source).run watchers rounds replies).outcome = .syntaxError)
    (hreporter : watchers.reporter = true) :
    (∀ e ∈ ((ofSource source).run watchers rounds replies).events, e.isExchange = false) ∧
      ((ofSource source).run watchers rounds replies).unread = replies ∧
      ((ofSource source).execution watchers rounds (.fresh replies)).2.prints = 0 := by
  have h := outcome_eq_syntaxError_iff.1 hout
  rw [run_refused watchers rounds replies h, execution_refused watchers rounds replies h]
  exact ⟨(tells_readingEvents watchers (ofSource source) hreporter).exchanges, rfl, rfl⟩

/-- A program that fails reports it when its statements are over. -/
theorem reported_of_runtimeError (hout : ((ofSource source).run watchers rounds replies).outcome = .runtimeError)
    (hreporter : watchers.reporter = true) :
    ∃ before d after, ((ofSource source).run watchers rounds replies).events = before ++ .reported d :: after ∧
      d.phase = .running ∧ ((ofSource source).run watchers rounds replies).reports = [d] ∧
      ∀ e ∈ after, e.isExchange = false := by
  have h : (ofSource source).accepted = true := by
    refine Bool.of_not_eq_false fun hrefused => ?_
    rw [outcome_eq_syntaxError_iff.2 hrefused] at hout
    cases hout
  obtain ⟨hending, hshown, hrun⟩ := run_accepted watchers rounds replies h (wellFormed_statements source)
  rw [hrun] at hout ⊢
  rw [reports_accepted hreporter h hshown]
  generalize (interpret watchers rounds (ofSource source).statements (.fresh replies)).1 = result at hending hout ⊢
  cases hending with
  | gave _ => cases hout
  | unfinished => cases hout
  | @fault f _ =>
    -- the report is the first of the events that tell how the run ended
    have hfirst : endingEvents watchers (.error (.fault f)) = .reported (.ofFault f) :: logEvents watchers .debug
        "execution aborted" [("phase", .text "exec"), ("error", .text f.cause.message)] := by
      rw [endingEvents, reportEvents, if_pos hreporter]
      rfl
    exact ⟨_, .ofFault f, _, congrArg (_ ++ ·) hfirst, rfl, rfl, tells_logEvents.exchanges⟩

end OfSource

/-- The outcome of a finished run can be told from its reports. A refused
program has reported faults of its source only, and has neither printed nor
read. A program that failed has reported just that, after its last exchange.
Without a reporter the run is the same, less the reports. -/
theorem outcome_agrees_with_reports (source : Text) (watchers : Watchers) (rounds : Nat) (replies : List Reply) :
    let run := (ofSource source).run { watchers with reporter := true } rounds replies
    let unheard := (ofSource source).run { watchers with reporter := false } rounds replies
    let machine := ((ofSource source).execution { watchers with reporter := true } rounds (.fresh replies)).2
    (run.outcome = .syntaxError ↔
      ¬((ofSource source).scanned.diagnostics = [] ∧ (ofSource source).parsed.complaints = [])) ∧
    (run.outcome ≠ .unfinished → (run.outcome = .ok ↔ run.reports = [])) ∧
    (run.outcome = .syntaxError ↔ ∃ d ∈ run.reports, d.phase = .reading) ∧
    (run.outcome = .syntaxError → (∀ d ∈ run.reports, d.phase = .reading) ∧
      (∀ e ∈ run.events, e.isExchange = false) ∧ run.unread = replies ∧ machine.prints = 0) ∧
    (run.outcome = .runtimeError ↔ (run.reports.filter (·.phase = .running)).length = 1) ∧
    (run.outcome = .runtimeError → ∃ before d after, run.events = before ++ .reported d :: after ∧
      d.phase = .running ∧ run.reports = [d] ∧ ∀ e ∈ after, e.isExchange = false) ∧
    (run.outcome = .unfinished → run.reports = []) ∧
    unheard.outcome = run.outcome ∧ unheard.unread = run.unread ∧
      unheard.events = run.events.filter (·.report?.isNone) := by
  intro run unheard machine
  have hconcluded : Concluded run.outcome run.reports := concluded_run rfl
  have hunheard : unheard = { run with events := run.events.filter (·.report?.isNone) } :=
    run_unheard { watchers with reporter := true } rounds replies rfl (wellFormed_statements source)
  rw [hunheard]
  refine ⟨?_, hconcluded.ok_iff, hconcluded.syntaxError_iff, fun hout => ⟨?_, silent_of_syntaxError hout rfl⟩,
    hconcluded.runtimeError_iff, fun hout => reported_of_runtimeError hout rfl, ?_, rfl, rfl, rfl⟩
  · rw [← accepted_iff_faultless, Bool.not_eq_true]
    exact outcome_eq_syntaxError_iff
  · rw [hout] at hconcluded
    generalize run.reports = ds at hconcluded
    cases hconcluded with
    | refused _ hphase => exact hphase
  · intro hout
    rw [hout] at hconcluded
    generalize run.reports = ds at hconcluded
    cases hconcluded with
    | unfinished => rfl

end Program

end BisayaPlus
